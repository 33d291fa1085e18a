/- Tsender/Channel/TimeScale
   source: demuxer.cpp (SeekFrame, Reverse), sender.cpp (Run, m_out_pts)
   digest: The conversions of positions in a stream to microseconds: the test of Reverse for the
   start of a file, and the time scales of a seek and of the sender. -/

import Mathlib.Algebra.Order.Ring.Int
import Mathlib.Tactic.Ring
import Tsender.Channel.Reverse

set_option autoImplicit false
set_option relaxedAutoImplicit false

namespace Tsender.Channel.TimeScale

open Queue

section Division

variable {a n d : ℤ}

private theorem ediv_mul_le_mul_ediv (den : 0 < d) (factor : 0 ≤ n) : a / d * n ≤ a * n / d := by
  rw [Int.le_ediv_iff_mul_le den]
  have floor : a / d * d ≤ a := Int.ediv_mul_le a den.ne'
  calc a / d * n * d = a / d * d * n := by ring
    _ ≤ a * n := mul_le_mul_of_nonneg_right floor factor

/-- A factor of 2 or more shows in a rounded quotient unless both quotients are 0. -/
private theorem ediv_eq_mul_ediv_iff (den : 0 < d) (value : 0 ≤ a) (factor : 0 < n) :
    a / d = a * n / d ↔ n = 1 ∨ a * n < d := by
  have grows : a / d * n ≤ a * n / d := ediv_mul_le_mul_ediv den factor.le
  have quotient : 0 ≤ a / d := Int.ediv_nonneg value den.le
  constructor
  · intro same
    by_contra both
    obtain ⟨other, large⟩ := not_or.mp both
    have one : 1 ≤ a * n / d := (Int.le_ediv_iff_mul_le den).mpr (by omega)
    have double : a / d * 2 ≤ a / d * n := mul_le_mul_of_nonneg_left (by omega) quotient
    omega
  · rintro (rfl | small)
    · rw [mul_one]
    · have below : a ≤ a * n := le_mul_of_one_le_right value factor
      rw [Int.ediv_eq_zero_of_lt value (by omega),
        Int.ediv_eq_zero_of_lt (by omega) small]

end Division

section StartOfFile

variable {timeBase : AVRational} {pts : UInt64}

/-- The media time of a position, `pts * AV_TIME_BASE / timeBase.den`. -/
def mediaTime (timeBase : AVRational) (pts : UInt64) : ℤ :=
  (pts.toNat : ℤ) * avTimeBase / timeBase.den

private theorem toNat_wholeTime (base : 0 < timeBase.den) (int : timeBase.den < 2 ^ 31)
    (fits : (pts.toNat : ℤ) * avTimeBase < 2 ^ 64) :
    ((wholeTime timeBase pts).toNat : ℤ) = (pts.toNat : ℤ) / timeBase.den * avTimeBase := by
  have den : ((UInt64.ofInt timeBase.den).toNat : ℤ) = timeBase.den :=
    toNat_ofInt_of_lt base.le (by omega)
  have unit : (UInt64.ofInt avTimeBase).toNat = 1000000 := rfl
  have below : (pts.toNat : ℤ) / timeBase.den ≤ pts.toNat :=
    Int.ediv_le_self _ (Int.natCast_nonneg _)
  have quotient : 0 ≤ (pts.toNat : ℤ) / timeBase.den :=
    Int.ediv_nonneg (Int.natCast_nonneg _) base.le
  rw [wholeTime, UInt64.toNat_mul, UInt64.toNat_div, unit]
  push_cast
  rw [den]
  unfold avTimeBase at fits ⊢
  exact Int.emod_eq_of_lt (by omega) (by omega)

private theorem wholeTime_le_mediaTime (base : 0 < timeBase.den) (int : timeBase.den < 2 ^ 31)
    (fits : (pts.toNat : ℤ) * avTimeBase < 2 ^ 64) :
    ((wholeTime timeBase pts).toNat : ℤ) ≤ mediaTime timeBase pts := by
  rw [toNat_wholeTime base int fits]
  exact ediv_mul_le_mul_ediv base (by decide)

/-- The file starts in the second in which a position lies, behind the start of that second
and not behind the position. -/
def StartsWithin (timeBase : AVRational) (pts first : UInt64) : Prop :=
  (pts.toNat : ℤ) / timeBase.den * avTimeBase < first.toNat ∧
    (first.toNat : ℤ) ≤ mediaTime timeBase pts

/-- `Reverse` leaves a file only at its start, exactly when the file does not start within the
second of the position that it steps back to. -/
theorem leaves_at_start_iff (cfg : Config) (d : CDemuxer) (ctx : AVFormatContext) (file : File)
    (rest : List Payload) (pts : UInt64)
    (stepped : pts = d.reversePts - reverseStep cfg file.timeBase)
    (context : d.fmtCtx = some ctx) (found : cfg.files[ctx.file]? = some file)
    (near : cfg.nChannel < 6) (rate : cfg.den ≠ 0)
    (base : 0 < file.timeBase.den) (int : file.timeBase.den < 2 ^ 31)
    (fits : (pts.toNat : ℤ) * avTimeBase < 2 ^ 64)
    (sought : file.seekFile (int64Of pts) = some rest) :
    ((d.stepBack cfg).map Prod.snd = some false ↔
        mediaTime file.timeBase pts < d.fileFirstPts.toNat) ↔
      ¬ StartsWithin file.timeBase pts d.fileFirstPts := by
  subst stepped
  have den : UInt64.ofInt file.timeBase.den ≠ 0 := by
    intro zero
    have value := toNat_ofInt_of_lt base.le (by omega : file.timeBase.den < 2 ^ 64)
    rw [zero] at value
    simp only [UInt64.toNat_zero] at value
    omega
  have answer : (d.stepBack cfg).map Prod.snd = some false ↔
      (wholeTime file.timeBase (d.reversePts - reverseStep cfg file.timeBase)).toNat
        < d.fileFirstPts.toNat := by
    rw [stepBack_sought context found rate near den sought]
    simp [UInt64.lt_iff_toNat_lt]
  have rounded := toNat_wholeTime base int fits
  have below := wholeTime_le_mediaTime base int fits
  rw [answer, StartsWithin]
  omega

def lateFile : File where
  frame := 300
  opens := true
  hasVideo := true
  initsFilter := true
  startTime := 1400000
  timeBase := ⟨1, 90000⟩
  packets := []
  seekTm := fun _ => 126000
  seekFile := fun pts => if 126000 ≤ pts then some [] else none

def lateStart : Config where
  files := [lateFile]
  filter := some
  nChannel := 0
  num := 1
  den := 30
  gop := 30
  stray := false

/-- Stepping back in `lateFile`, about to seek a position one frame before `reversePts`. -/
def lateDemuxer (reversePts : UInt64) : CDemuxer :=
  { (State.start lateStart).d with
    pc := .reverse
    bIsRerverse := true
    fmtCtx := some ⟨0, 0, [], none⟩
    fileFirstPts := 1400000
    reverseCount := 2
    reversePts := reversePts }

theorem leaves_at_start_iff_later :
    (((lateDemuxer 228000).stepBack lateStart).map Prod.snd = some false ↔
        mediaTime lateFile.timeBase 225000 < (lateDemuxer 228000).fileFirstPts.toNat) ↔
      ¬ StartsWithin lateFile.timeBase 225000 (lateDemuxer 228000).fileFirstPts :=
  leaves_at_start_iff lateStart (lateDemuxer 228000) ⟨0, 0, [], none⟩ lateFile [] 225000
    (by decide) rfl rfl (by decide) (by decide) (by decide) (by decide) (by decide) (by decide)

/-- Stepping back to 1.5 seconds leaves the file that starts at 1.4 seconds. -/
theorem leaves_before_start :
    let d := lateDemuxer 138000
    let pts := d.reversePts - reverseStep lateStart lateFile.timeBase
    reverseStep lateStart lateFile.timeBase ≤ d.reversePts ∧
      (pts.toNat : ℤ) * avTimeBase < 2 ^ 64 ∧
      lateFile.seekFile (int64Of pts) = some [] ∧
      ¬ ((d.stepBack lateStart).map Prod.snd = some false ↔
        mediaTime lateFile.timeBase pts < d.fileFirstPts.toNat) := by
  decide

end StartOfFile

section SeekScale

private theorem mul64_of_lt {a b : ℤ} (nonneg : 0 ≤ a * b) (fits : a * b < 2 ^ 63) :
    mul64 a b = a * b :=
  Int.bmod_eq_of_le (by omega) (by omega)

private theorem ofInt_inj_of_lt {a b : ℤ} (left : 0 ≤ a ∧ a < 2 ^ 64) (right : 0 ≤ b ∧ b < 2 ^ 64) :
    UInt64.ofInt a = UInt64.ofInt b ↔ a = b := by
  constructor
  · intro same
    have value := toNat_ofInt_of_lt left.1 left.2
    rw [same, toNat_ofInt_of_lt right.1 right.2] at value
    exact value.symm
  · exact congrArg UInt64.ofInt

variable {timeBase : AVRational} {tm : ℤ}

private theorem seekPtsOf_eq_outPtsOf_iff (num : 0 < timeBase.num) (den : 0 < timeBase.den)
    (position : 0 ≤ tm) (fits : tm * timeBase.num * avTimeBase < 2 ^ 63) :
    seekPtsOf timeBase tm = outPtsOf timeBase tm ↔
      timeBase.num = 1 ∨ tm * timeBase.num * avTimeBase < timeBase.den := by
  have scaled : tm ≤ tm * timeBase.num := le_mul_of_one_le_right position num
  unfold seekPtsOf outPtsOf
  unfold avTimeBase at fits ⊢
  have single : mul64 tm 1000000 = tm * 1000000 := mul64_of_lt (by omega) (by omega)
  have double : mul64 (mul64 tm timeBase.num) 1000000 = tm * timeBase.num * 1000000 := by
    rw [mul64_of_lt (by omega : 0 ≤ tm * timeBase.num) (by omega)]
    exact mul64_of_lt (by omega) fits
  have value : 0 ≤ tm * 1000000 := by omega
  have reorder : tm * timeBase.num * 1000000 = tm * 1000000 * timeBase.num := by ring
  have shorter : tm * 1000000 / timeBase.den ≤ tm * 1000000 := Int.ediv_le_self _ value
  have short : tm * timeBase.num * 1000000 / timeBase.den ≤ tm * timeBase.num * 1000000 :=
    Int.ediv_le_self _ (by omega)
  rw [single, double, Int.tdiv_eq_ediv_of_nonneg value, Int.tdiv_eq_ediv_of_nonneg (by omega),
    ofInt_inj_of_lt]
  · rw [reorder]
    exact ediv_eq_mul_ediv_iff den value num
  · exact ⟨Int.ediv_nonneg value den.le, by omega⟩
  · exact ⟨Int.ediv_nonneg (by omega) den.le, by omega⟩

/-- After a seek, the clock base of the sender and the time of the packet at that position are
on one scale exactly when the time base has numerator 1 or the packet's time is not a full
unit of it. -/
theorem seek_scale_iff (cfg : Config) (d d' : CDemuxer) (nFrame : ℤ) (ctx : AVFormatContext)
    (file : File) (c c' : State) (es : List Event) (pkt : AVPacket)
    (context : d.fmtCtx = some ctx) (found : cfg.files[ctx.file]? = some file)
    (near : cfg.nChannel < 6) (sought : d.seekFrame cfg nFrame = some d')
    (num : 0 < file.timeBase.num) (den : 0 < file.timeBase.den)
    (position : 0 ≤ file.seekTm nFrame)
    (fits : file.seekTm nFrame * file.timeBase.num * avTimeBase < 2 ^ 63)
    (sends : c.s.pc = .send pkt) (pts : pkt.pts = file.seekTm nFrame)
    (base : c.s.timeBase = file.timeBase) (moved : UInt64.ofInt pkt.pts ≠ c.s.oldPts)
    (sent : runSend c = some (c', es)) :
    d'.seekPts = c'.s.outPts ↔ file.timeBase.num = 1 ∨
      file.seekTm nFrame * file.timeBase.num * avTimeBase < file.timeBase.den := by
  have seek : d'.seekPts = seekPtsOf file.timeBase (file.seekTm nFrame) := by
    simp only [CDemuxer.seekFrame, context, found, if_pos near, if_neg den.ne'] at sought
    obtain rfl := Option.some.inj sought
    rfl
  have apart : 0 < UInt64.ofInt pkt.pts - c.s.oldPts := by
    rw [UInt64.pos_iff_ne_zero]
    intro zero
    have back := UInt64.sub_add_cancel (UInt64.ofInt pkt.pts) c.s.oldPts
    rw [zero, UInt64.zero_add] at back
    exact moved back.symm
  have out : c'.s.outPts = outPtsOf file.timeBase (file.seekTm nFrame) := by
    have used : ¬ (0 < UInt64.ofInt pkt.pts - c.s.oldPts ∧ c.s.timeBase.den = 0) := by
      rw [base]
      exact fun zero => den.ne' zero.2
    simp only [runSend, sends, if_neg used, if_pos apart] at sent
    cases sent
    rw [base, pts]
  rw [seek, out]
  exact seekPtsOf_eq_outPtsOf_iff num den position fits

/-- Files of one time base, where `SeekFrame` seeks position 15. -/
def seekScale (timeBase : AVRational) : Config :=
  { lateStart with files := [{ lateFile with timeBase := timeBase, seekTm := fun _ => 15 }] }

def seeker : CDemuxer :=
  { (State.start lateStart).d with
    pc := .doSeek
    nSeekFrame := 30
    fmtCtx := some ⟨0, 0, [], none⟩ }

def sendsSought (timeBase : AVRational) : State :=
  { State.start lateStart with
    s := { (State.start lateStart).s with
      pc := .send ⟨some 0, [0], 15⟩, pStream := true, timeBase := timeBase } }

theorem seek_scale_iff_thirtieths :
    ∃ d' c' es, seeker.seekFrame (seekScale ⟨1, 30⟩) 30 = some d' ∧
      runSend (sendsSought ⟨1, 30⟩) = some (c', es) ∧
      (d'.seekPts = c'.s.outPts ↔ (1 : ℤ) = 1 ∨ (15 : ℤ) * 1 * avTimeBase < 30) :=
  ⟨_, _, _, rfl, rfl, seek_scale_iff (seekScale ⟨1, 30⟩) seeker _ 30 ⟨0, 0, [], none⟩ _
    (sendsSought ⟨1, 30⟩) _ _ ⟨some 0, [0], 15⟩ rfl rfl (by decide) rfl (by decide) (by decide)
    (by decide) (by decide) rfl rfl rfl (by decide) rfl⟩

/-- At 30000/1001 frames a second the seek stores 500 and the packet there is due at 500500. -/
theorem seek_scale_ntsc :
    ∃ d' c' es, seeker.seekFrame (seekScale ⟨1001, 30000⟩) 30 = some d' ∧
      runSend (sendsSought ⟨1001, 30000⟩) = some (c', es) ∧ d'.seekPts ≠ c'.s.outPts :=
  ⟨_, _, _, rfl, rfl, by decide⟩

end SeekScale

end Tsender.Channel.TimeScale
