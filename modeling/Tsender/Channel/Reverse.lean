/- Tsender/Channel/Reverse
   source: demuxer.cpp (Reverse, and its call in the video loop of Demux)
   digest: What one call of Reverse does: the position it steps back to and seeks, and how it
   answers. -/

import Tsender.Channel.Steps

set_option autoImplicit false
set_option relaxedAutoImplicit false

namespace Tsender.Channel

/-- The distance `Reverse` steps back: `(timeBase.den / den) * num`. -/
def reverseStep (cfg : Config) (timeBase : AVRational) : UInt64 :=
  UInt64.ofInt timeBase.den / cfg.den * cfg.num

/-- The conversion of an unsigned position to the `int64_t` that `avformat_seek_file` takes. -/
def int64Of (pts : UInt64) : ℤ := Int.bmod pts.toNat (2 ^ 64)

/-- The test of the start of the file in `Reverse`: the position in whole seconds. -/
def wholeTime (timeBase : AVRational) (pts : UInt64) : UInt64 :=
  pts / UInt64.ofInt timeBase.den * UInt64.ofInt avTimeBase

theorem toNat_ofInt_of_lt {n : ℤ} (nonneg : 0 ≤ n) (small : n < 2 ^ 64) :
    ((UInt64.ofInt n).toNat : ℤ) = n := by
  have kept : (UInt64.ofInt n).toNat = (n % 2 ^ 64).toNat % 2 ^ 64 := rfl
  rw [Int.emod_eq_of_lt nonneg small] at kept
  omega

theorem int64Of_of_lt {pts : UInt64} (small : pts.toNat < 2 ^ 63) :
    int64Of pts = (pts.toNat : ℤ) := by
  unfold int64Of
  exact Int.bmod_eq_of_le (by omega) (by omega)

theorem toNat_sub_of_le {a b : UInt64} (le : b.toNat ≤ a.toNat) :
    (a - b).toNat = a.toNat - b.toNat :=
  UInt64.toNat_sub_of_le _ _ le

section StepBack

variable {cfg : Config} {d d' : CDemuxer} {ok : Bool} {ctx : AVFormatContext} {file : File}
  {rest : List Payload}

private theorem stepBack_failed (context : d.fmtCtx = some ctx)
    (found : cfg.files[ctx.file]? = some file) (rate : cfg.den ≠ 0) (near : cfg.nChannel < 6)
    (failed : file.seekFile (int64Of (d.reversePts - reverseStep cfg file.timeBase)) = none) :
    d.stepBack cfg =
      some ({ d with reversePts := d.reversePts - reverseStep cfg file.timeBase }, false) := by
  simp only [CDemuxer.stepBack, context, found, if_neg rate, if_pos near]
  split
  · rfl
  · rename_i rest sought
    exact absurd (sought.symm.trans failed) (Option.some_ne_none rest)

private theorem stepBack_zero (context : d.fmtCtx = some ctx)
    (found : cfg.files[ctx.file]? = some file) (rate : cfg.den ≠ 0) (near : cfg.nChannel < 6)
    (base : UInt64.ofInt file.timeBase.den = 0)
    (sought : file.seekFile (int64Of (d.reversePts - reverseStep cfg file.timeBase)) = some rest) :
    d.stepBack cfg = none := by
  simp only [CDemuxer.stepBack, context, found, if_neg rate, if_pos near]
  split
  · rename_i failed
    exact absurd (sought.symm.trans failed) (Option.some_ne_none rest)
  · rw [if_pos base]

theorem stepBack_sought (context : d.fmtCtx = some ctx)
    (found : cfg.files[ctx.file]? = some file) (rate : cfg.den ≠ 0) (near : cfg.nChannel < 6)
    (base : UInt64.ofInt file.timeBase.den ≠ 0)
    (sought : file.seekFile (int64Of (d.reversePts - reverseStep cfg file.timeBase)) = some rest) :
    d.stepBack cfg =
      some ({ d with
        reversePts := d.reversePts - reverseStep cfg file.timeBase
        fmtCtx := some { ctx with rest := rest } },
        decide (¬ wholeTime file.timeBase (d.reversePts - reverseStep cfg file.timeBase)
          < d.fileFirstPts)) := by
  simp only [CDemuxer.stepBack, context, found, if_neg rate, if_pos near]
  split
  · rename_i failed
    exact absurd (sought.symm.trans failed) (Option.some_ne_none rest)
  · rename_i left found_left
    obtain rfl : left = rest := Option.some.inj (found_left.symm.trans sought)
    rw [if_neg base]
    rfl

private theorem stepBack_cases (near : cfg.nChannel < 6) (back : d.stepBack cfg = some (d', ok)) :
    ∃ ctx file, d.fmtCtx = some ctx ∧ cfg.files[ctx.file]? = some file ∧
      d'.reversePts = d.reversePts - reverseStep cfg file.timeBase ∧
      (ok = true ↔ ∃ rest, file.seekFile (int64Of d'.reversePts) = some rest ∧
        ¬ wholeTime file.timeBase d'.reversePts < d.fileFirstPts) := by
  cases context : d.fmtCtx with
  | none => simp [CDemuxer.stepBack, context] at back
  | some ctx =>
    cases found : cfg.files[ctx.file]? with
    | none => simp [CDemuxer.stepBack, context, found] at back
    | some file =>
      by_cases rate : cfg.den = 0
      · simp [CDemuxer.stepBack, context, found, rate] at back
      refine ⟨ctx, file, rfl, found, ?_⟩
      cases sought : file.seekFile (int64Of (d.reversePts - reverseStep cfg file.timeBase)) with
      | none =>
        rw [stepBack_failed context found rate near sought] at back
        cases back
        exact ⟨rfl, by simp [sought]⟩
      | some rest =>
        by_cases base : UInt64.ofInt file.timeBase.den = 0
        · rw [stepBack_zero context found rate near base sought] at back
          cases back
        · rw [stepBack_sought context found rate near base sought] at back
          cases back
          exact ⟨rfl, by simp [sought]⟩

end StepBack

section Step

variable {cfg : Config} {c c' : State} {es : List Event}

/-- Where `Reverse` is going to step back from: the packet at hand when playback has just been
turned round, and else the position it stepped back to last. -/
def reverseStart (d : CDemuxer) : UInt64 :=
  if 0 < d.reverseCount then d.reversePts else UInt64.ofInt d.pkt.pts

def openedFile (cfg : Config) (d : CDemuxer) : Option File :=
  d.fmtCtx.bind fun ctx => cfg.files[ctx.file]?

/-- The next call of `Reverse` goes on in the file: the position a step back can be sought there
and is, in whole seconds, not before the start of the file. -/
def GoesOn (cfg : Config) (d : CDemuxer) : Prop :=
  ∃ file rest, openedFile cfg d = some file ∧
    file.seekFile (int64Of (reverseStart d - reverseStep cfg file.timeBase)) = some rest ∧
    ¬ wholeTime file.timeBase (reverseStart d - reverseStep cfg file.timeBase) < d.fileFirstPts

instance (cfg : Config) (d : CDemuxer) : Decidable (GoesOn cfg d) :=
  decidable_of_iff (∃ file ∈ openedFile cfg d,
      (file.seekFile (int64Of (reverseStart d - reverseStep cfg file.timeBase))).isSome ∧
        ¬ wholeTime file.timeBase (reverseStart d - reverseStep cfg file.timeBase)
          < d.fileFirstPts) <| by
    simp only [GoesOn, Option.isSome_iff_exists, Option.mem_def]
    exact ⟨fun ⟨file, opened, ⟨rest, sought⟩, inside⟩ => ⟨file, rest, opened, sought, inside⟩,
      fun ⟨file, rest, opened, sought, inside⟩ => ⟨file, opened, ⟨rest, sought⟩, inside⟩⟩

theorem reverse_step (near : cfg.nChannel < 6) (pc : c.d.pc = .reverse)
    (back : c.d.bIsRerverse = true) (next : step cfg c .demux = some (c', es)) :
    ∃ file, openedFile cfg c.d = some file ∧
      c'.d.reversePts = reverseStart c.d - reverseStep cfg file.timeBase ∧
      (c'.d.pc = .readFrame ↔ GoesOn cfg c.d) := by
  simp only [step, demux, pc, reverse, if_pos back] at next
  split at next
  · cases next
  all_goals
    rename_i d stepped
    obtain ⟨ctx, file, context, found, position, answer⟩ := stepBack_cases near stepped
    dsimp only at context position
    have opened : openedFile cfg c.d = some file := by
      simp [openedFile, context, found]
    cases next
    refine ⟨file, opened, position, ?_⟩
    rw [position] at answer
  · have goes := answer.mp rfl
    obtain ⟨rest, sought, inside⟩ := goes
    exact ⟨fun _ => ⟨file, rest, opened, sought, inside⟩, fun _ => rfl⟩
  · refine ⟨by simp, ?_⟩
    rintro ⟨file', rest, opened', sought, inside⟩
    obtain rfl : file = file' := Option.some.inj (opened.symm.trans opened')
    exact absurd (answer.mpr ⟨rest, sought, inside⟩) Bool.false_ne_true

theorem reverse_kept {a : Act} (pc : a = .demux → c.d.pc ≠ .reverse)
    (next : step cfg c a = some (c', es)) :
    c'.d.reverseCount = c.d.reverseCount ∧ c'.d.reversePts = c.d.reversePts := by
  by_cases own : a = .demux
  · subst own
    have outside := pc rfl
    cases demux_cases next with
    | turned inside => exact absurd inside outside
    | forward inside => exact absurd inside outside
    | _ => exact ⟨rfl, rfl⟩
  · rw [other_locals own next]
    exact ⟨rfl, rfl⟩

end Step

section Seconds

/-- A file of a recording of one frame a second, with the packets of the given seconds. -/
def secondsFile (first count : ℕ) : File :=
  let packets := (List.range count).map fun n => ⟨[0], 90000 * (first + n)⟩
  { frame := count
    opens := true
    hasVideo := true
    initsFilter := true
    startTime := UInt64.ofNat (1000000 * first)
    timeBase := ⟨1, 90000⟩
    packets := packets
    seekTm := fun nFrame => 90000 * nFrame - 45000
    seekFile := fun pts =>
      if 90000 * first ≤ pts then some (packets.filter fun p => pts ≤ p.pts) else none }

def seconds (files : List File) : Config where
  files := files
  filter := some
  nChannel := 0
  num := 1
  den := 1
  gop := 1
  stray := false

end Seconds

end Tsender.Channel
