/- Tsender/Lib/Blocks
   digest: Consecutive blocks of given sizes: in which block a position lies is the inverse of the
   prefix sums. -/

import Mathlib.Algebra.BigOperators.Group.List.Basic
import Mathlib.Algebra.Order.Monoid.Canonical.Defs
import Mathlib.Algebra.Order.Sub.Unbundled.Basic

set_option autoImplicit false
set_option relaxedAutoImplicit false

namespace Tsender.Lib.Blocks

universe u

section Start

variable {α : Type u} [AddCommMonoid α] {sizes : List α} {k : ℕ}

/-- Where block `k` starts. -/
def start (sizes : List α) (k : ℕ) : α := (sizes.take k).sum

@[simp] theorem start_zero : start sizes 0 = 0 := List.sum_nil

@[simp] theorem start_length : start sizes sizes.length = sizes.sum := by
  rw [start, List.take_length]

theorem start_cons_succ (size : α) (sizes : List α) (k : ℕ) :
    start (size :: sizes) (k + 1) = size + start sizes k := by
  rw [start, List.take_succ_cons, List.sum_cons, start]

private theorem start_succ (inside : k < sizes.length) :
    start sizes (k + 1) = start sizes k + sizes[k] := by
  rw [start, List.take_succ_eq_append_getElem inside, List.sum_append, List.sum_singleton, start]

theorem start_le_sum [LE α] [CanonicallyOrderedAdd α] (sizes : List α) (k : ℕ) :
    start sizes k ≤ sizes.sum := by
  have split : start sizes k + (sizes.drop k).sum = sizes.sum := by
    rw [start, ← List.sum_append, List.take_append_drop]
  exact le_iff_exists_add.mpr ⟨_, split.symm⟩

end Start

section Block

variable {α : Type u} [AddCommMonoid α] [LinearOrder α] [CanonicallyOrderedAdd α]
  [IsOrderedCancelAddMonoid α] [Sub α] [OrderedSub α] {sizes : List α} {k : ℕ} {m n : α}

/-- The block in which a position lies, or the number of blocks if it lies behind all of them. -/
def blockOf : List α → α → ℕ
  | [], _ => 0
  | size :: sizes, n => if n < size then 0 else blockOf sizes (n - size) + 1

private theorem lt_blockOf_iff : k < blockOf sizes n ↔ k < sizes.length ∧ start sizes
    (k + 1) ≤ n := by
  induction sizes generalizing k n with
  | nil => simp [blockOf]
  | cons size sizes ih =>
    have first : start (size :: sizes) (k + 1) = size + start sizes k := start_cons_succ ..
    by_cases less : n < size
    · have behind : ¬ size + start sizes k ≤ n :=
        not_le.mpr (less.trans_le le_self_add)
      simp [blockOf, less, first, behind]
    · rw [not_lt] at less
      simp only [blockOf, not_lt.mpr less, if_false, first, List.length_cons]
      cases k with
      | zero => simp [less]
      | succ k =>
        rw [Nat.succ_lt_succ_iff, Nat.succ_lt_succ_iff, ih]
        exact and_congr_right fun _ => le_tsub_iff_left less

private theorem blockOf_le_length (sizes : List α) (n : α) : blockOf sizes n ≤ sizes.length := by
  by_contra beyond
  exact lt_irrefl _ (lt_blockOf_iff.mp (not_le.mp beyond)).1

theorem start_blockOf_le (sizes : List α) (n : α) : start sizes (blockOf sizes n) ≤ n := by
  cases block : blockOf sizes n with
  | zero => simp
  | succ k => exact (lt_blockOf_iff.mp (block ▸ Nat.lt_succ_self k)).2

theorem lt_start_blockOf (inside : blockOf sizes n < sizes.length) :
    n < start sizes (blockOf sizes n + 1) := by
  by_contra behind
  exact lt_irrefl _ (lt_blockOf_iff.mpr ⟨inside, not_lt.mp behind⟩)

theorem blockOf_lt_length_iff : blockOf sizes n < sizes.length ↔ n < sizes.sum := by
  constructor
  · intro inside
    exact (lt_start_blockOf inside).trans_le (start_le_sum sizes _)
  · intro before
    refine lt_of_le_of_ne (blockOf_le_length sizes n) fun all => not_le.mpr before ?_
    have reached := start_blockOf_le sizes n
    rwa [all, start_length] at reached

theorem blockOf_of_sum_le (behind : sizes.sum ≤ n) : blockOf sizes n = sizes.length :=
  le_antisymm (blockOf_le_length sizes n) <|
    not_lt.mp fun inside => not_lt.mpr behind (blockOf_lt_length_iff.mp inside)

/-- Only one block contains a position. -/
theorem blockOf_unique (inside : k < sizes.length) (low : start sizes k ≤ n)
    (high : n < start sizes (k + 1)) : k = blockOf sizes n := by
  refine le_antisymm ?_ ?_
  · cases k with
    | zero => exact Nat.zero_le _
    | succ k => exact lt_blockOf_iff.mpr ⟨(Nat.lt_succ_self k).trans inside, low⟩
  · by_contra before
    exact not_lt.mpr (lt_blockOf_iff.mp (not_le.mp before)).2 high

theorem blockOf_mono : Monotone (blockOf sizes) := by
  intro m n le
  by_contra before
  obtain ⟨inside, ends⟩ := lt_blockOf_iff.mp (not_le.mp before)
  exact lt_irrefl _ (lt_blockOf_iff.mpr ⟨inside, ends.trans le⟩)

theorem size_blockOf_ne_zero (inside : blockOf sizes n < sizes.length) :
    sizes[blockOf sizes n] ≠ 0 := by
  intro empty
  have high := lt_start_blockOf inside
  rw [start_succ inside, empty, add_zero] at high
  exact not_lt.mpr (start_blockOf_le sizes n) high

end Block

end Tsender.Lib.Blocks
