/- Tsender/Comm/SeekArithmetic
   source: demuxer.cpp (SetMoveSec, FindFileIndexFromFrame), comm.cpp (RX: play_seek)
   digest: The frame of a seek is the floor of nSec * den / num exactly for seconds that are not
   negative and frames that are an int; no other command is refused. -/

import Mathlib.Tactic.Linarith
import Tsender.Channel.Reverse
import Tsender.Comm.Survival

set_option autoImplicit false
set_option relaxedAutoImplicit false

namespace Tsender.Comm.SeekArithmetic

open Json Lib.Fallible

section Statements

variable {R : Type} [Doubles R]

/-- `FindFileIndexFromFrame` on `m_files`. -/
def findFileIndexFromFrame (files : Value R) (nFrame : UInt64) : Except Fault ℕ := do
  let files ← elements files
  fileIndex files nFrame

/-- `m_info["num"]` and `m_info["den"]`, which are in 1 to 2147483647. -/
structure IsRate (info : Value R) (num den : ℤ) : Prop where
  members : info.hasMembers = true
  readsNum : (info.get "num".toList).asUInt64 = .ok num
  readsDen : (info.get "den".toList).asUInt64 = .ok den
  num_pos : 0 < num
  num_le : num ≤ maxInt
  den_pos : 0 < den
  den_le : den ≤ maxInt

/-- The frame of a second, rounded down. -/
def exactFrame (nSec num den : ℤ) : ℤ := (nSec * den).fdiv num

/-- The channel is to seek this frame, in the file that `FindFileIndexFromFrame` finds for it. -/
def SeeksFrame (frame : ℤ) (d e : CDemuxer R) : Prop :=
  e.nSeekFrame = frame ∧ ∃ nFrame : UInt64, (nFrame.toNat : ℤ) = frame ∧
    findFileIndexFromFrame d.files nFrame = .ok e.nMoveIdx

def LeftAlone (d e : CDemuxer R) : Prop :=
  e.nMoveIdx = d.nMoveIdx ∧ e.nSeekFrame = d.nSeekFrame ∧ e.isMove = d.isMove

/-- `SetMoveSec` returns; the channel is to seek the exact frame or is left alone. -/
def SeeksExactly (nSec frame : ℤ) (d : CDemuxer R) : Prop :=
  Yields (setMoveSec nSec d) fun e => SeeksFrame frame d e ∨ LeftAlone d e

def Searchable (files : Value R) (nFrame : UInt64) : Prop :=
  match files with
  | .array files => Indexable files nFrame
  | .object ms => ms = []
  | _ => True

end Statements

section Arithmetic

variable {nSec num den : ℤ}

def moveFrame (nSec num den : ℤ) : UInt64 :=
  UInt64.ofInt nSec * UInt64.ofInt den / UInt64.ofInt num

private theorem exactFrame_eq (num_pos : 0 < num) : exactFrame nSec num den = nSec * den / num :=
  Int.fdiv_eq_ediv_of_nonneg _ num_pos.le

private theorem toNat_moveFrame (nonneg : 0 ≤ nSec) (small : nSec ≤ maxInt) (num_pos : 0 < num)
    (num_le : num ≤ maxInt) (den_pos : 0 < den) (den_le : den ≤ maxInt) :
    ((moveFrame nSec num den).toNat : ℤ) = exactFrame nSec num den := by
  unfold maxInt at small num_le den_le
  have sec := Channel.toNat_ofInt_of_lt nonneg (by omega)
  have top := Channel.toNat_ofInt_of_lt den_pos.le (by omega)
  have bottom := Channel.toNat_ofInt_of_lt num_pos.le (by omega)
  have product : nSec * den < 2 ^ 64 := by nlinarith
  have fits : (UInt64.ofInt nSec).toNat * (UInt64.ofInt den).toNat < 2 ^ 64 := by
    zify
    rwa [sec, top]
  rw [moveFrame, UInt64.toNat_div, UInt64.toNat_mul, Nat.mod_eq_of_lt fits, exactFrame_eq num_pos]
  push_cast
  rw [sec, top, bottom]

private theorem nonneg_of_exactFrame (num_pos : 0 < num) (den_pos : 0 < den)
    (frame : 0 ≤ exactFrame nSec num den) : 0 ≤ nSec := by
  rw [exactFrame_eq num_pos, Int.ediv_nonneg_iff_of_pos num_pos] at frame
  exact nonneg_of_mul_nonneg_left frame den_pos

private theorem ofInt_exactFrame
    (word : ((moveFrame nSec num den).toNat : ℤ) = exactFrame nSec num den) :
    UInt64.ofInt (exactFrame nSec num den) = moveFrame nSec num den := by
  have bound := (moveFrame nSec num den).toNat_lt
  have kept := Channel.toNat_ofInt_of_lt (n := exactFrame nSec num den) (by omega) (by omega)
  exact UInt64.toNat_inj.mp (by omega)

private theorem seekFrameOf_eq_iff {nFrame : UInt64} :
    Channel.seekFrameOf nFrame = nFrame.toNat ↔ (nFrame.toNat : ℤ) ≤ maxInt := by
  unfold Channel.seekFrameOf maxInt
  rw [Int.bmod_eq_iff (by decide)]
  constructor
  · rintro ⟨-, high, -⟩
    omega
  · intro small
    exact ⟨by omega, by omega, by simp⟩

end Arithmetic

section SetMoveSec

variable {R : Type} [Doubles R] {info : Value R} {num den nSec : ℤ} {d : CDemuxer R}

private theorem setMoveSec_eq (rate : IsRate d.info num den) : setMoveSec nSec d = do
    let nMoveIdx ← findFileIndexFromFrame d.files (moveFrame nSec num den)
    return { d with
      nMoveIdx := nMoveIdx
      nSeekFrame := Channel.seekFrameOf (moveFrame nSec num den)
      isMove := true } := by
  have divides : num ≠ 0 := rate.num_pos.ne'
  simp only [setMoveSec, member_eq rate.members, rate.readsNum, rate.readsDen, ok_bind, if_neg divides,
    findFileIndexFromFrame, moveFrame, bind_assoc]

private theorem yields_setMoveSec_iff (rate : IsRate d.info num den) {P : CDemuxer R → Prop} :
    Yields (setMoveSec nSec d) P ↔
      Yields (findFileIndexFromFrame d.files (moveFrame nSec num den)) fun nMoveIdx => P { d with
        nMoveIdx := nMoveIdx
        nSeekFrame := Channel.seekFrameOf (moveFrame nSec num den)
        isMove := true } := by
  rw [setMoveSec_eq rate, yields_bind]
  simp only [yields_pure]

def unmoved (info files : Value R) : CDemuxer R where
  id := 0
  info := info
  attr := []
  nChannel := 0
  files := files
  nSpeed := 1
  isPause := false
  bIsRerverse := false
  isMove := false
  nMoveIdx := 0
  nSeekFrame := 0
  started := true
  sends := false
  freed := false

private theorem yields_findFileIndexFromFrame {files : Value R} {nFrame : UInt64} :
    (Yields (findFileIndexFromFrame files nFrame) fun _ => True) ↔ Searchable files nFrame := by
  simp only [findFileIndexFromFrame, yields_bind, yields_elements, yields_fileIndex, Searchable]
  cases files <;> simp only [Indexable, and_true]

/-- A seek is exact, or refused, in every state of the channel exactly when the second is not
negative, its frame is an `int`, and the files can be searched for it. -/
theorem seek_exact_iff (rate : IsRate info num den) (files : Value R) (small : nSec ≤ maxInt) :
    (∀ d : CDemuxer R, d.info = info → d.files = files →
        SeeksExactly nSec (exactFrame nSec num den) d) ↔
      0 ≤ nSec ∧ exactFrame nSec num den ≤ maxInt ∧
        Searchable files (.ofInt (exactFrame nSec num den)) := by
  constructor
  · intro exact
    have seeks := exact (unmoved info files) rfl rfl
    rw [SeeksExactly, yields_setMoveSec_iff (d := unmoved info files) rate] at seeks
    obtain ⟨nMoveIdx, found, ⟨frame, nFrame, same, -⟩ | ⟨-, -, moved⟩⟩ := seeks
    · have nonneg : 0 ≤ nSec :=
        nonneg_of_exactFrame rate.num_pos rate.den_pos (same ▸ Int.natCast_nonneg _)
      have word := toNat_moveFrame nonneg small rate.num_pos rate.num_le rate.den_pos rate.den_le
      dsimp only at frame
      refine ⟨nonneg, ?_, ?_⟩
      · rw [← word] at frame ⊢
        exact seekFrameOf_eq_iff.mp frame
      · rw [ofInt_exactFrame word]
        exact yields_findFileIndexFromFrame.mp ⟨nMoveIdx, found, trivial⟩
    · cases moved
  · rintro ⟨nonneg, fits, searchable⟩ d rfl rfl
    have word := toNat_moveFrame nonneg small rate.num_pos rate.num_le rate.den_pos rate.den_le
    rw [ofInt_exactFrame word] at searchable
    obtain ⟨nMoveIdx, found, -⟩ := yields_findFileIndexFromFrame.mpr searchable
    rw [← word] at fits
    have kept := seekFrameOf_eq_iff.mpr fits
    rw [SeeksExactly, yields_setMoveSec_iff rate]
    refine ⟨nMoveIdx, found, .inl ⟨?_, moveFrame nSec num den, word, found⟩⟩
    dsimp only
    exact kept.trans word

end SetMoveSec

section Inputs

/-- The `info` of a recording at 30000/1001 frames in a second. -/
def ntsc : Value Empty :=
  .object [("num".toList, .int 1001), ("den".toList, .int 30000)]

def oneFile : Value Empty := .array [.object [("frame".toList, .int 100)]]

private theorem isRate_ntsc : IsRate ntsc 1001 30000 where
  members := rfl
  readsNum := rfl
  readsDen := rfl
  num_pos := by decide
  num_le := by decide
  den_pos := by decide
  den_le := by decide

theorem seek_exact_iff_ntsc : (2 : ℤ) ≤ maxInt ∧
    ((∀ d : CDemuxer Empty, d.info = ntsc → d.files = oneFile →
        SeeksExactly 2 (exactFrame 2 1001 30000) d) ↔
      0 ≤ (2 : ℤ) ∧ exactFrame 2 1001 30000 ≤ maxInt ∧
        Searchable oneFile (.ofInt (exactFrame 2 1001 30000))) :=
  ⟨by decide, seek_exact_iff isRate_ntsc oneFile (by decide)⟩

/-- The second before the start becomes a frame behind the last file, which is sought. -/
theorem negative_second_ends_playback :
    IsRate ntsc 1001 30000 ∧ exactFrame (-1) 1001 30000 = -30 ∧
      (moveFrame (-1) 1001 30000).toNat = 18428315757951570 ∧
      (∃ e, setMoveSec (-1) (unmoved ntsc oneFile) = .ok e ∧ e.nMoveIdx = 1 ∧ e.isMove = true) ∧
      ¬SeeksExactly (-1) (exactFrame (-1) 1001 30000) (unmoved ntsc oneFile) := by
  have wrapped : (moveFrame (-1) 1001 30000).toNat = 18428315757951570 := rfl
  refine ⟨isRate_ntsc, rfl, wrapped, ⟨_, rfl, rfl, rfl⟩, ?_⟩
  rintro ⟨e, done, ⟨-, nFrame, same, -⟩ | ⟨-, -, moved⟩⟩
  · have negative : (nFrame.toNat : ℤ) = -30 := same
    omega
  · obtain rfl := Except.ok.inj done
    cases moved

end Inputs

end Tsender.Comm.SeekArithmetic
