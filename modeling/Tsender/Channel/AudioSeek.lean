/- Tsender/Channel/AudioSeek
   source: demuxer.cpp (SetMoveSec, FindFileIndexFromFrame, the audio branch of Demux)
   digest: The byte offset at which an audio channel resumes after a seek agrees with the walk
   that chose the file when the files before it are together as long as it is, each time. -/

import Mathlib.Algebra.BigOperators.Group.List.Basic
import Mathlib.Algebra.Order.Ring.Int
import Mathlib.Tactic.Ring
import Tsender.Channel.Audio
import Tsender.Channel.Reverse

set_option autoImplicit false
set_option relaxedAutoImplicit false

namespace Tsender.Channel.Audio

open Lib.Transition Queue Queue.AudioDelivery

section Walk

/-- The loop of `FindFileIndexFromFrame` over the frame counts. -/
def indexFrom : List ℤ → UInt64 → ℕ
  | [], _ => 0
  | frame :: frames, nFrame =>
      if nFrame < UInt64.ofInt frame then 0
      else indexFrom frames (nFrame - UInt64.ofInt frame) + 1

def AreCounts (frames : List ℤ) : Prop := ∀ frame ∈ frames, 0 ≤ frame ∧ frame < 2 ^ 31

private theorem indexFrom_spec {frames : List ℤ} (counts : AreCounts frames) {nFrame : UInt64}
    (inside : (nFrame.toNat : ℤ) < frames.sum) :
    ∃ frame, frames[indexFrom frames nFrame]? = some frame ∧
      (frames.take (indexFrom frames nFrame)).sum ≤ nFrame.toNat ∧
      (nFrame.toNat : ℤ) < (frames.take (indexFrom frames nFrame)).sum + frame := by
  induction frames generalizing nFrame with
  | nil =>
    rw [List.sum_nil] at inside
    omega
  | cons frame frames ih =>
    obtain ⟨nonneg, small⟩ := counts frame List.mem_cons_self
    have count : ((UInt64.ofInt frame).toNat : ℤ) = frame :=
      toNat_ofInt_of_lt nonneg (by omega)
    rw [List.sum_cons] at inside
    by_cases less : nFrame < UInt64.ofInt frame
    · simp only [indexFrom, if_pos less]
      rw [UInt64.lt_iff_toNat_lt] at less
      refine ⟨frame, rfl, ?_, ?_⟩
      · simp
      · rw [List.take_zero, List.sum_nil]
        omega
    · simp only [indexFrom, if_neg less]
      rw [UInt64.lt_iff_toNat_lt] at less
      have rest : (nFrame - UInt64.ofInt frame).toNat =
          nFrame.toNat - (UInt64.ofInt frame).toNat := toNat_sub_of_le (by omega)
      obtain ⟨last, found, below, above⟩ :=
        ih (fun f mem => counts f (List.mem_cons_of_mem frame mem))
          (by omega : ((nFrame - UInt64.ofInt frame).toNat : ℤ) < frames.sum)
      refine ⟨last, by simpa using found, ?_, ?_⟩
      · rw [List.take_succ_cons, List.sum_cons]
        omega
      · rw [List.take_succ_cons, List.sum_cons]
        omega

end Walk

section SetMoveSec

def findFileIndexFromFrame (cfg : Config) (nFrame : UInt64) : ℕ :=
  indexFrom (cfg.files.map AudioFile.frame) nFrame

def moveFrame (cfg : Config) (nSec : ℤ) : Option UInt64 :=
  if cfg.num = 0 then none else some (UInt64.ofInt nSec * cfg.den / cfg.num)

def framesBefore (cfg : Config) (k : ℕ) : ℤ := ((cfg.files.map AudioFile.frame).take k).sum

def setMoveSec (cfg : Config) (nFrame : UInt64) : List Act :=
  [.storeMoveIdx (findFileIndexFromFrame cfg nFrame), .storeSeekFrame (seekFrameOf nFrame),
    .storeIsMove]

/-- Statements of `Demux`, the turns that begin in them with this `audio_buf`. -/
def turns (garbage : Block) (n : ℕ) : List Act := List.replicate n (.demux garbage)

end SetMoveSec

section Offset

private theorem toNat_ofInt_emod (n : ℤ) : ((UInt64.ofInt n).toNat : ℤ) = n % 2 ^ 64 := by
  have kept : (UInt64.ofInt n).toNat = (n % 2 ^ 64).toNat % 2 ^ 64 := rfl
  have nonneg : 0 ≤ n % 2 ^ 64 := Int.emod_nonneg n (by decide)
  have below : n % 2 ^ 64 < 2 ^ 64 := Int.emod_lt_of_pos n (by decide)
  omega

private theorem toInt32_eq_iff {n : UInt64} {m : ℤ} (small : -2 ^ 31 ≤ m) (large : m < 2 ^ 31) :
    toInt32 n = m ↔ (2 ^ 32 : ℤ) ∣ m - n.toNat := by
  unfold toInt32
  rw [Int.bmod_eq_iff (by decide)]
  constructor
  · exact fun same => same.2.2
  · exact fun divides => ⟨by omega, by omega, divides⟩

variable {d : CDemuxer} {nFrame : UInt64} {frame before : ℤ} {k : ℕ}

private theorem offsetFrame_eq (last : d.lastFrame = UInt64.ofInt frame) (idx : d.nMoveIdx = k) :
    offsetFrame d = toInt32 (UInt64.ofInt (d.nSeekFrame - frame * k)) := by
  rw [offsetFrame, last, idx, Int.sub_eq_add_neg, UInt64.ofInt_add, UInt64.ofInt_neg,
    UInt64.ofInt_mul, UInt64.sub_eq_add_neg]

private theorem offsetFrame_eq_iff (seek : d.nSeekFrame = seekFrameOf nFrame)
    (last : d.lastFrame = UInt64.ofInt frame) (idx : d.nMoveIdx = k)
    (small : -2 ^ 31 ≤ nFrame.toNat - before) (large : nFrame.toNat - before < 2 ^ 31) :
    offsetFrame d = nFrame.toNat - before ↔ (2 ^ 32 : ℤ) ∣ frame * k - before := by
  rw [offsetFrame_eq last idx, toInt32_eq_iff small large, toNat_ofInt_emod, seek]
  have same : (2 ^ 32 : ℤ) ∣ seekFrameOf nFrame - nFrame.toNat := Int.dvd_bmod_sub_self
  generalize frame * k = product
  omega

end Offset

section Resume

variable {cfg : Config} {c : State} {file : AudioFile} {nFrame : UInt64} {garbage : Block} {k : ℕ}

/-- `Demux` has taken a move to a file and opened it. -/
def arrived (c : State) (file : AudioFile) (k : ℕ) (nSeekFrame : ℤ) (garbage : Block) : State :=
  { c with d := { c.d with
    pc := .testSeek
    isMove := false
    nMoveIdx := k
    nSeekFrame := nSeekFrame
    i := k
    lastFrame := UInt64.ofInt file.frame
    ifs := .of file
    audioBuf := garbage } }

private theorem exec_move (pc : c.d.pc = .testMove) (running : c.d.bExit = false)
    (found : cfg.files[findFileIndexFromFrame cfg nFrame]? = some file) (frames : file.frame ≠ 0)
    (opens : file.opens = true) :
    exec (step cfg) c (setMoveSec cfg nFrame ++ turns garbage 6) =
      some (arrived c file (findFileIndexFromFrame cfg nFrame) (seekFrameOf nFrame) garbage,
        []) := by
  have here : fileAt cfg (findFileIndexFromFrame cfg nFrame) = some file := by
    simpa [fileAt] using found
  simp [exec, setMoveSec, turns, List.replicate, step, demux, pc, running, openFile, here, frames,
    opens, arrived]

private theorem exec_offset (pc : c.d.pc = .testSeek) (seek : 0 < c.d.nSeekFrame) :
    exec (step cfg) c (turns garbage 3) =
      some ({ c with d := { c.d with
        pc := .seekg
        nAudioCount := UInt64.ofInt c.d.nSeekFrame
        nSeekFrame := offsetFrame c.d } }, []) := by
  simp [exec, turns, List.replicate, step, demux, pc, seek, offsetFrame]

private theorem exec_seekg (pc : c.d.pc = .seekg) (rate : cfg.den ≠ 0) :
    exec (step cfg) c (turns garbage 2) =
      some ({ c with d := { c.d with
        pc := .testRead
        ifs := c.d.ifs.seekg (c.d.nSeekFrame * audioBlockSize)
        nSeekFrame := 0
        seekPts := c.d.nAudioCount * UInt64.ofInt avTimeBase * cfg.num / cfg.den } }, []) := by
  simp [exec, turns, List.replicate, step, demux, pc, rate]

private theorem exec_stay (pc : c.d.pc = .testSeek) (stay : ¬ 0 < c.d.nSeekFrame) :
    exec (step cfg) c (turns garbage 1) =
      some ({ c with d := { c.d with pc := .testRead } }, []) := by
  simp [exec, turns, List.replicate, step, demux, pc, stay]

private theorem seekg_of (pos : ℤ) (n : ℕ) :
    (Ifstream.of file).seekg pos = ⟨file.content, n, false, false⟩ ↔ pos = n := by
  simp only [Ifstream.seekg, Ifstream.of, Bool.false_eq_true, if_false]
  split
  · simp only [Ifstream.mk.injEq, Bool.true_eq_false, and_false, false_iff]
    omega
  · simp only [Ifstream.mk.injEq, and_true, true_and]
    omega

/-- How many statements of `Demux` come before the test in front of the next read. -/
def seekTurns (d : CDemuxer) : ℕ := if 0 < d.nSeekFrame then 5 else 1

/-- From the test of `m_nSeekFrame` on, `Demux` goes on to read the file at a block inside it, and
the offset it computes in an `int` does not overflow. -/
structure ResumesAt (cfg : Config) (garbage : Block) (file : AudioFile) (frame : ℤ) (c : State) :
    Prop where
  inside : 0 ≤ frame ∧ frame < file.frame
  product : 0 < c.d.nSeekFrame → ∃ u, exec (step cfg) c (turns garbage 3) = some (u, []) ∧
    u.d.pc = .seekg ∧ -2 ^ 31 ≤ u.d.nSeekFrame * audioBlockSize ∧
    u.d.nSeekFrame * audioBlockSize < 2 ^ 31
  reads : ∃ t, exec (step cfg) c (turns garbage (seekTurns c.d)) = some (t, []) ∧
    t.d.pc = .testRead ∧ t.d.ifs = ⟨file.content, (audioBlockSize * frame).toNat, false, false⟩

/-- The state in which `Demux` has taken the move of a seek to the file with index `k`. -/
structure Arrived (c : State) (file : AudioFile) (nFrame : UInt64) (k : ℕ) : Prop where
  pc : c.d.pc = .testSeek
  ifs : c.d.ifs = .of file
  last : c.d.lastFrame = UInt64.ofInt file.frame
  idx : c.d.nMoveIdx = k
  seek : c.d.nSeekFrame = seekFrameOf nFrame

private theorem arrived_move {nSeekFrame : ℤ} (seek : nSeekFrame = seekFrameOf nFrame) :
    Arrived (arrived c file k nSeekFrame garbage) file nFrame k :=
  ⟨rfl, rfl, rfl, rfl, seek⟩

variable {before : ℤ}

private theorem resumesAt_sought (here : Arrived c file nFrame k) (rate : cfg.den ≠ 0)
    (low : before ≤ nFrame.toNat) (high : nFrame.toNat < before + file.frame)
    (sought : 0 < seekFrameOf nFrame) :
    ResumesAt cfg garbage file (nFrame.toNat - before) c ↔
      (2 ^ 32 : ℤ) ∣ file.frame * k - before ∧
        audioBlockSize * (nFrame.toNat - before) < 2 ^ 31 := by
  have seek : 0 < c.d.nSeekFrame := here.seek ▸ sought
  have block : (audioBlockSize : ℤ) = 24 := rfl
  have five : exec (step cfg) c (turns garbage 5) =
      some ({ c with d := { c.d with
        pc := .testRead
        ifs := c.d.ifs.seekg (offsetFrame c.d * audioBlockSize)
        nAudioCount := UInt64.ofInt c.d.nSeekFrame
        nSeekFrame := 0
        seekPts := UInt64.ofInt c.d.nSeekFrame * UInt64.ofInt avTimeBase * cfg.num / cfg.den } },
        []) := by
    have split : turns garbage 5 = turns garbage 3 ++ turns garbage 2 := rfl
    rw [split, exec_append (exec_offset here.pc seek), exec_seekg rfl rate]
    simp only [Option.map_some, List.nil_append]
  have position : ∃ n : ℕ, (n : ℤ) = audioBlockSize * (nFrame.toNat - before) :=
    ⟨(audioBlockSize * (nFrame.toNat - before)).toNat, Int.toNat_of_nonneg (by rw [block]; omega)⟩
  obtain ⟨n, bytes⟩ := position
  have reads : c.d.ifs.seekg (offsetFrame c.d * audioBlockSize) = ⟨file.content, n, false, false⟩ ↔
      offsetFrame c.d = nFrame.toNat - before := by
    rw [here.ifs, seekg_of, bytes, block]
    omega
  constructor
  · intro resumes
    obtain ⟨u, three, -, -, product⟩ := resumes.product seek
    obtain ⟨t, whole, -, ifs⟩ := resumes.reads
    rw [exec_offset here.pc seek] at three
    obtain ⟨rfl, -⟩ := Prod.mk.inj (Option.some.inj three)
    rw [seekTurns, if_pos seek, five] at whole
    obtain ⟨rfl, -⟩ := Prod.mk.inj (Option.some.inj whole)
    dsimp only at product ifs
    rw [← bytes, Int.toNat_natCast] at ifs
    have offset := reads.mp ifs
    rw [offset, block] at product
    rw [block]
    refine ⟨?_, by omega⟩
    exact (offsetFrame_eq_iff here.seek here.last here.idx (by omega) (by omega)).mp offset
  · rintro ⟨agrees, fits⟩
    rw [block] at fits
    have offset : offsetFrame c.d = nFrame.toNat - before :=
      (offsetFrame_eq_iff here.seek here.last here.idx (by omega) (by omega)).mpr agrees
    clear agrees
    refine ⟨⟨by omega, by omega⟩, fun _ => ⟨_, exec_offset here.pc seek, rfl, ?_, ?_⟩, _,
      by rw [seekTurns, if_pos seek, five], rfl, ?_⟩
    · dsimp only
      rw [offset, block]
      omega
    · dsimp only
      rw [offset, block]
      omega
    · rw [← bytes, Int.toNat_natCast]
      exact reads.mpr offset

private theorem resumesAt_stayed (here : Arrived c file nFrame k)
    (low : before ≤ nFrame.toNat) (high : nFrame.toNat < before + file.frame)
    (stayed : ¬ 0 < seekFrameOf nFrame) :
    ResumesAt cfg garbage file (nFrame.toNat - before) c ↔ nFrame.toNat = before := by
  have stay : ¬ 0 < c.d.nSeekFrame := here.seek ▸ stayed
  have one := @exec_stay cfg c garbage here.pc stay
  constructor
  · intro resumes
    obtain ⟨t, whole, -, ifs⟩ := resumes.reads
    rw [seekTurns, if_neg stay, one] at whole
    obtain ⟨rfl, -⟩ := Prod.mk.inj (Option.some.inj whole)
    have start : 0 = (audioBlockSize * (nFrame.toNat - before)).toNat :=
      congrArg Ifstream.pos (here.ifs.symm.trans ifs)
    have block : (audioBlockSize : ℤ) = 24 := rfl
    rw [block] at start
    omega
  · intro first
    refine ⟨⟨by omega, by omega⟩, fun seek => absurd seek stay, _,
      by rw [seekTurns, if_neg stay, one], rfl, ?_⟩
    rw [first, sub_self]
    exact here.ifs

private theorem den_ne_zero {nSec : ℤ} (target : moveFrame cfg nSec = some nFrame)
    (sought : 0 < seekFrameOf nFrame) : cfg.den ≠ 0 := by
  intro zero
  simp only [moveFrame] at target
  split at target
  · cases target
  · obtain rfl := Option.some.inj target
    rw [zero, UInt64.mul_zero, UInt64.zero_div] at sought
    exact absurd sought (by decide)

end Resume

/-- What the seek takes off for the files before the target, its frame count times its index, is
what the walk took off, and the offset in bytes is an `int`; or no seek is made in the file and
none is needed. -/
def AgreesWithWalk (cfg : Config) (nFrame : UInt64) : Prop :=
  ∃ file, cfg.files[findFileIndexFromFrame cfg nFrame]? = some file ∧
    (0 < seekFrameOf nFrame ∧
        (2 ^ 32 : ℤ) ∣ file.frame * findFileIndexFromFrame cfg nFrame -
          framesBefore cfg (findFileIndexFromFrame cfg nFrame) ∧
        audioBlockSize * (nFrame.toNat - framesBefore cfg (findFileIndexFromFrame cfg nFrame))
          < 2 ^ 31 ∨
      ¬ 0 < seekFrameOf nFrame ∧
        nFrame.toNat = framesBefore cfg (findFileIndexFromFrame cfg nFrame))

/-- After `SetMoveSec` and the statements of `Demux` that take its move, the file with index
`m_nMoveIdx` is open and read from the block of the frame on. -/
def SeeksFrame (cfg : Config) (garbage : Block) (nFrame : UInt64) (c : State) : Prop :=
  ∃ u file, exec (step cfg) c (setMoveSec cfg nFrame ++ turns garbage 6) = some (u, []) ∧
    u.d.i = findFileIndexFromFrame cfg nFrame ∧
    cfg.files[findFileIndexFromFrame cfg nFrame]? = some file ∧
    ResumesAt cfg garbage file
      (nFrame.toNat - framesBefore cfg (findFileIndexFromFrame cfg nFrame)) u

/-- A seek inside the recording resumes at the frame exactly when the offset agrees with the walk
that chose the file. -/
theorem audio_offset_iff (cfg : Config) (garbage : Block) (c : State) (nSec : ℤ) (nFrame : UInt64)
    (target : moveFrame cfg nSec = some nFrame)
    (counts : AreCounts (cfg.files.map AudioFile.frame))
    (inside : (nFrame.toNat : ℤ) < (cfg.files.map AudioFile.frame).sum)
    (opens : ∀ file ∈ cfg.files, file.opens = true) (pc : c.d.pc = .testMove)
    (running : c.d.bExit = false) :
    SeeksFrame cfg garbage nFrame c ↔ AgreesWithWalk cfg nFrame := by
  obtain ⟨frame, here, low, high⟩ := indexFrom_spec counts inside
  rw [List.getElem?_map] at here
  obtain ⟨file, found, rfl⟩ := Option.map_eq_some_iff.mp here
  have frames : file.frame ≠ 0 := by omega
  have taken := @exec_move cfg c file nFrame garbage pc running found frames
    (opens file (List.mem_of_getElem? found))
  have place := @arrived_move c file nFrame garbage (findFileIndexFromFrame cfg nFrame) _ rfl
  constructor
  · rintro ⟨u, file', moved, -, found', resumes⟩
    obtain rfl : file = file' := Option.some.inj (found.symm.trans found')
    rw [taken] at moved
    obtain ⟨rfl, -⟩ := Prod.mk.inj (Option.some.inj moved)
    refine ⟨file, found, ?_⟩
    by_cases sought : 0 < seekFrameOf nFrame
    · have rate := den_ne_zero target sought
      exact .inl ⟨sought, (resumesAt_sought place rate low high sought).mp resumes⟩
    · exact .inr ⟨sought, (resumesAt_stayed place low high sought).mp resumes⟩
  · rintro ⟨file', found', agrees⟩
    obtain rfl : file = file' := Option.some.inj (found.symm.trans found')
    refine ⟨_, file, taken, rfl, found, ?_⟩
    rcases agrees with ⟨sought, agrees⟩ | ⟨stayed, first⟩
    · have rate := den_ne_zero target sought
      exact (resumesAt_sought place rate low high sought).mpr agrees
    · exact (resumesAt_stayed place low high stayed).mpr first

def blocksFile (frame : ℕ) : AudioFile :=
  ⟨frame, true, List.replicate (audioBlockSize * frame) (UInt8.ofNat 0)⟩

def blocks (frames : List ℕ) : Config := ⟨frames.map blocksFile, 1, 1⟩

def playing (frame : ℕ) : State :=
  { State.start with d := { State.start.d with
    pc := .testMove, lastFrame := UInt64.ofInt frame, ifs := .of (blocksFile frame) } }

theorem audio_offset_iff_equal :
    SeeksFrame (blocks [100, 100]) noBlock 120 (playing 100) ↔
      AgreesWithWalk (blocks [100, 100]) 120 :=
  audio_offset_iff (blocks [100, 100]) noBlock (playing 100) 120 120 (by decide)
    (by unfold AreCounts; decide) (by decide) (by simp [blocks, blocksFile]) rfl rfl

/-- A seek to the 21st block of a last file of 50 blocks, behind one of 100, resumes at its 71st,
behind its end. -/
theorem shorter_last_file :
    moveFrame (blocks [100, 50]) 120 = some 120 ∧
      findFileIndexFromFrame (blocks [100, 50]) 120 = 1 ∧
      (∃ t, exec (step (blocks [100, 50])) (playing 100)
          (setMoveSec (blocks [100, 50]) 120 ++ turns noBlock 11) = some (t, []) ∧
        t.d.pc = .testRead ∧ t.d.i = 1 ∧ t.d.ifs.pos = audioBlockSize * 70) ∧
      ¬ SeeksFrame (blocks [100, 50]) noBlock 120 (playing 100) := by
  refine ⟨by decide, by decide, ⟨_, rfl, rfl, rfl, by decide⟩, ?_⟩
  rintro ⟨u, file, moved, -, found, resumes⟩
  obtain rfl : blocksFile 50 = file := Option.some.inj found
  have taken := @exec_move (blocks [100, 50]) (playing 100) (blocksFile 50) 120 noBlock rfl rfl
    rfl (by decide) rfl
  rw [taken] at moved
  obtain ⟨rfl, -⟩ := Prod.mk.inj (Option.some.inj moved)
  have place := @arrived_move (playing 100) (blocksFile 50) 120 noBlock 1 _ rfl
  have agrees := (resumesAt_sought place (by decide) (by decide) (by decide) (by decide)).mp resumes
  exact absurd agrees.1 (by decide)

end Tsender.Channel.Audio
