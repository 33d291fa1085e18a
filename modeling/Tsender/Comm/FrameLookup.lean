/- Tsender/Comm/FrameLookup
   source: demuxer.cpp (FindFileIndexFromFrame), misc.cpp (GetOutputFileList: total_frame)
   digest: The file of a frame is the inverse of the prefix sums of the frame counts, and agrees
   with the total that clients are told, exactly when every frame count is an int. -/

import Mathlib.Algebra.Order.BigOperators.Group.List
import Mathlib.Algebra.Order.Group.Nat
import Tsender.Channel.Reverse
import Tsender.Comm.Survival
import Tsender.Lib.Blocks

set_option autoImplicit false
set_option relaxedAutoImplicit false

namespace Tsender.Comm.FrameLookup

open Json Lib.Blocks Lib.Fallible

section Statements

variable {R : Type} [Doubles R]

/-- A JSON integer that is not negative. -/
def IsCount : Value R → Prop
  | .int n => 0 ≤ n.toInt
  | .uint _ => True
  | _ => False

/-- `["frame"]` of an entry of `files`. -/
def frameOf (file : Value R) : ℤ := (file.get "frame".toList).toInteger

/-- The entries of `files` have frame counts. -/
def AreCounts (files : List (Value R)) : Prop :=
  ∀ file ∈ files, file.hasMembers = true ∧ IsCount (file.get "frame".toList)

def sizes (files : List (Value R)) : List ℕ := files.map fun file => (frameOf file).toNat

/-- `total_frame` of a `meta.json` in the play list. -/
def reportedTotal (files : List (Value R)) : Except Fault UInt64 := do
  let total ← totalFrame files
  return .ofInt total

/-- The frame lies in file `k`. -/
def InFile (files : List (Value R)) (nFrame k : ℕ) : Prop :=
  k < files.length ∧ start (sizes files) k ≤ nFrame ∧ nFrame < start (sizes files) (k + 1)

/-- `index` is what `FindFileIndexFromFrame` returns, and `total` what clients are told. -/
structure LooksUp (files : List (Value R)) (index : UInt64 → ℕ) (total : UInt64) : Prop where
  returns : ∀ nFrame, fileIndex files nFrame = .ok (index nFrame)
  inside : ∀ nFrame : UInt64, nFrame.toNat < (sizes files).sum →
    ∀ k, InFile files nFrame.toNat k ↔ k = index nFrame
  behind : ∀ nFrame : UInt64, (sizes files).sum ≤ nFrame.toNat → index nFrame = files.length
  monotone : ∀ m n : UInt64, m ≤ n → index m ≤ index n
  nonempty : ∀ nFrame file, files[index nFrame]? = some file → frameOf file ≠ 0
  reported : reportedTotal files = .ok total
  agrees : ∀ nFrame, index nFrame < files.length ↔ nFrame < total

end Statements

section Counts

variable {R : Type} {file : Value R} {files : List (Value R)}

theorem AreCounts.tail (counts : AreCounts (file :: files)) : AreCounts files :=
  fun other mem => counts other (List.mem_cons_of_mem file mem)

variable [Doubles R]

theorem IsCount.nonneg {v : Value R} (count : IsCount v) : 0 ≤ v.toInteger := by
  cases v with
  | int n => exact count
  | uint n => exact Int.natCast_nonneg _
  | _ => cases count

private theorem IsCount.inRange_iff {v : Value R} (count : IsCount v) {lo hi : ℤ} (low : lo ≤ 0) :
    v.inRange lo hi = true ↔ v.toInteger ≤ hi := by
  have above : lo ≤ v.toInteger := low.trans count.nonneg
  cases v with
  | int n =>
    simp only [Value.toInteger] at above
    simp [Value.inRange, Value.toInteger, above]
  | uint n =>
    simp only [Value.toInteger] at above
    simp [Value.inRange, Value.toInteger, above]
  | _ => cases count

theorem AreCounts.nonneg (counts : AreCounts files) (mem : file ∈ files) : 0 ≤ frameOf file :=
  (counts file mem).2.nonneg

private theorem length_sizes (files : List (Value R)) : (sizes files).length = files.length :=
  List.length_map _

private theorem sum_sizes (counts : AreCounts files) :
    ((sizes files).sum : ℤ) = (files.map frameOf).sum := by
  induction files with
  | nil => rfl
  | cons file files ih =>
    have nonneg := counts.nonneg List.mem_cons_self
    have rest := ih counts.tail
    simp only [sizes, List.map_cons, List.sum_cons] at rest ⊢
    rw [Nat.cast_add, Int.toNat_of_nonneg nonneg, rest]

end Counts

section Walk

variable {R : Type} [Doubles R] {files : List (Value R)}

private theorem toNat_ofInt_frame {frame : ℤ} (nonneg : 0 ≤ frame) (small : frame ≤ maxInt) :
    (UInt64.ofInt frame).toNat = frame.toNat := by
  unfold maxInt at small
  have kept := Channel.toNat_ofInt_of_lt nonneg (by omega)
  omega

private theorem toNat_sub_frame {frame : ℤ} (nonneg : 0 ≤ frame) (small : frame ≤ maxInt)
    {nFrame : UInt64} (behind : frame.toNat ≤ nFrame.toNat) :
    (nFrame - UInt64.ofInt frame).toNat = nFrame.toNat - frame.toNat := by
  have word := toNat_ofInt_frame nonneg small
  rw [Channel.toNat_sub_of_le (by omega), word]

private theorem fileIndex_eq (counts : AreCounts files)
    (ints : ∀ file ∈ files, frameOf file ≤ maxInt)
    (nFrame : UInt64) : fileIndex files nFrame = .ok (blockOf (sizes files) nFrame.toNat) := by
  induction files generalizing nFrame with
  | nil => rfl
  | cons file files ih =>
    obtain ⟨members, count⟩ := counts file List.mem_cons_self
    have small : frameOf file ≤ maxInt := ints file List.mem_cons_self
    have nonneg : 0 ≤ frameOf file := counts.nonneg List.mem_cons_self
    have read : (file.get "frame".toList).asInt = .ok (frameOf file) :=
      if_pos ((count.inRange_iff (by decide)).mpr small)
    simp only [fileIndex, member_eq members, ok_bind, read, sizes, List.map_cons, blockOf,
      UInt64.lt_iff_toNat_lt, toNat_ofInt_frame nonneg small]
    by_cases less : nFrame.toNat < (frameOf file).toNat
    · simp only [less, if_true]
      rfl
    · rw [if_neg less, if_neg less, ih counts.tail
        (fun other mem => ints other (List.mem_cons_of_mem file mem)),
        toNat_sub_frame nonneg small (not_lt.mp less), ok_bind]
      rfl

private theorem frameOf_le_of_indexable {i : ℕ} {file : Value R} (counts : AreCounts files)
    (found : files[i]? = some file) {nFrame : UInt64}
    (reached : start (sizes files) i ≤ nFrame.toNat) (walks : Indexable files nFrame) :
    frameOf file ≤ maxInt := by
  induction files generalizing i nFrame with
  | nil => cases found
  | cons first files ih =>
    obtain ⟨members, count⟩ := counts first List.mem_cons_self
    obtain ⟨-, range, walks⟩ := walks
    have small : frameOf first ≤ maxInt := (count.inRange_iff (by decide)).mp range
    cases i with
    | zero =>
      obtain rfl := Option.some.inj found
      exact small
    | succ i =>
      have nonneg : 0 ≤ frameOf first := counts.nonneg List.mem_cons_self
      have front : (frameOf first).toNat + start (sizes files) i ≤ nFrame.toNat := by
        rwa [sizes, List.map_cons, start_cons_succ] at reached
      have on : ¬nFrame < UInt64.ofInt (frameOf first) := by
        rw [UInt64.lt_iff_toNat_lt, toNat_ofInt_frame nonneg small]
        omega
      have rest := toNat_sub_frame nonneg small (by omega : (frameOf first).toNat ≤ nFrame.toNat)
      have later : Indexable files (nFrame - UInt64.ofInt (frameOf first)) := walks on
      exact ih counts.tail (by simpa using found) (by omega) later

private theorem totalFrame_eq (counts : AreCounts files)
    (small : ∀ file ∈ files, frameOf file ≤ maxInt64) :
    totalFrame files = .ok (files.map frameOf).sum := by
  induction files with
  | nil => rfl
  | cons file files ih =>
    obtain ⟨members, count⟩ := counts file List.mem_cons_self
    have read : (file.get "frame".toList).asInt64 = .ok (frameOf file) :=
      if_pos ((count.inRange_iff (by decide)).mpr (small file List.mem_cons_self))
    have rest := ih counts.tail fun other mem => small other (List.mem_cons_of_mem file mem)
    simp only [totalFrame, member_eq members, ok_bind, read, rest, List.map_cons, List.sum_cons]
    rfl

end Walk

section Lookup

variable {R : Type} [Doubles R] {files : List (Value R)}

private theorem inFile_iff {n k : ℕ} (before : n < (sizes files).sum) :
    InFile files n k ↔ k = blockOf (sizes files) n := by
  constructor
  · rintro ⟨inside, low, high⟩
    exact blockOf_unique (by rwa [length_sizes]) low high
  · rintro rfl
    have inside := blockOf_lt_length_iff.mpr before
    exact ⟨by rwa [length_sizes] at inside, start_blockOf_le _ _, lt_start_blockOf inside⟩

private theorem reportedTotal_eq (counts : AreCounts files)
    (small : ∀ file ∈ files, frameOf file ≤ maxInt64) :
    reportedTotal files = .ok (.ofInt (sizes files).sum) := by
  simp only [reportedTotal, totalFrame_eq counts small, ok_bind, sum_sizes counts]
  rfl

private theorem looksUp_of_ints (counts : AreCounts files)
    (ints : ∀ file ∈ files, frameOf file ≤ maxInt) (fits : (sizes files).sum < 2 ^ 64) :
    LooksUp files (fun nFrame => blockOf (sizes files) nFrame.toNat)
      (.ofInt (sizes files).sum) where
  returns := fileIndex_eq counts ints
  inside := fun nFrame before k => inFile_iff before
  behind := fun nFrame behind => (blockOf_of_sum_le behind).trans (length_sizes files)
  monotone := fun m n le => blockOf_mono (UInt64.le_iff_toNat_le.mp le)
  nonempty := fun nFrame file found empty => by
    obtain ⟨inside, rfl⟩ := List.getElem?_eq_some_iff.mp found
    have within : blockOf (sizes files) nFrame.toNat < (sizes files).length := by
      rwa [length_sizes]
    refine size_blockOf_ne_zero within ?_
    simp only [sizes, List.getElem_map] at empty ⊢
    rw [empty]
    rfl
  reported := by
    refine reportedTotal_eq counts fun file mem => (ints file mem).trans ?_
    decide
  agrees := fun nFrame => by
    have total := Channel.toNat_ofInt_of_lt (n := (sizes files).sum) (by omega) (by omega)
    rw [← length_sizes files, blockOf_lt_length_iff, UInt64.lt_iff_toNat_lt]
    omega

private theorem ints_of_looksUp (counts : AreCounts files) {index : UInt64 → ℕ} {total : UInt64}
    (h : LooksUp files index total) :
    (∀ file ∈ files, frameOf file ≤ maxInt) ∧ (sizes files).sum < 2 ^ 64 := by
  -- The largest frame number is not before the total, which is one itself.
  have fits : (sizes files).sum < 2 ^ 64 := by
    by_contra large
    let last : UInt64 := .ofNat (2 ^ 64 - 1)
    have value : last.toNat = 2 ^ 64 - 1 := rfl
    have within : index last < files.length := by
      have before : last.toNat < (sizes files).sum := by omega
      exact ((h.inside last before (index last)).mpr rfl).1
    have less := UInt64.lt_iff_toNat_lt.mp ((h.agrees last).mp within)
    have bound := total.toNat_lt
    omega
  refine ⟨fun file mem => ?_, fits⟩
  -- The loop comes to each file with the frame that it starts with.
  obtain ⟨i, found⟩ := List.mem_iff_getElem?.mp mem
  have begins : start (sizes files) i < 2 ^ 64 := (start_le_sum _ i).trans_lt fits
  let first : UInt64 := .ofNat (start (sizes files) i)
  have value : first.toNat = start (sizes files) i := UInt64.toNat_ofNat_of_lt' begins
  have walks : Indexable files first :=
    yields_fileIndex.mp ⟨index first, h.returns first, trivial⟩
  exact frameOf_le_of_indexable counts found value.ge walks

/-- `FindFileIndexFromFrame` finds the file of every frame, and agrees with the total that clients
are told, exactly when every frame count is an `int` and their sum fits. -/
theorem looksUp_iff (counts : AreCounts files) :
    (∃ index total, LooksUp files index total) ↔
      (∀ file ∈ files, frameOf file ≤ maxInt) ∧ (sizes files).sum < 2 ^ 64 := by
  constructor
  · rintro ⟨index, total, h⟩
    exact ints_of_looksUp counts h
  · rintro ⟨ints, fits⟩
    exact ⟨_, _, looksUp_of_ints counts ints fits⟩

/-- Entries of `files` with these frame counts. -/
def filesOf (frames : List Int64) : List (Value Empty) :=
  frames.map fun frame => .object [("frame".toList, .int frame)]

private theorem areCounts_filesOf {frames : List Int64} (nonneg : ∀ frame ∈ frames, 0 ≤ frame.toInt)
    : AreCounts (filesOf frames) := by
  intro file mem
  obtain ⟨frame, listed, rfl⟩ := List.mem_map.mp mem
  exact ⟨rfl, nonneg frame listed⟩

theorem looksUp_iff_threeFiles : AreCounts (filesOf [120, 0, 50]) ∧
    ((∃ index total, LooksUp (filesOf [120, 0, 50]) index total) ↔
      (∀ file ∈ filesOf [120, 0, 50], frameOf file ≤ maxInt) ∧
        (sizes (filesOf [120, 0, 50])).sum < 2 ^ 64) := by
  have counts : AreCounts (filesOf [120, 0, 50]) := areCounts_filesOf (by simp)
  exact ⟨counts, looksUp_iff counts⟩

/-- A frame count that `asInt64` takes and clients are told, and `asInt` does not take. -/
theorem large_frame_throws : AreCounts (filesOf [2147483648]) ∧
    reportedTotal (filesOf [2147483648]) = .ok 2147483648 ∧
    (∀ nFrame, fileIndex (filesOf [2147483648]) nFrame = .error .logicError) ∧
    ¬∃ index total, LooksUp (filesOf [2147483648]) index total := by
  have throws : ∀ nFrame, fileIndex (filesOf [2147483648]) nFrame = .error .logicError :=
    fun _ => rfl
  refine ⟨areCounts_filesOf (by simp), rfl, throws, ?_⟩
  rintro ⟨index, total, h⟩
  cases (throws 0).symm.trans (h.returns 0)

end Lookup

end Tsender.Comm.FrameLookup
