/- Tsender/Lib/Fragments
   digest: Cutting a list into pieces of bounded length, putting numbered pieces back in
   order from any permutation, and four-byte integers in either byte order. -/

import Mathlib.Algebra.Order.Floor.Div
import Mathlib.Data.List.Sort
import Mathlib.Tactic.Common

set_option autoImplicit false
set_option relaxedAutoImplicit false

namespace Tsender.Lib.Fragments

universe u v

section Pieces

variable {α : Type u}

/-- Consecutive pieces of length `n`, the last one possibly shorter. -/
def pieces (n : ℕ) (l : List α) : List (List α) :=
  if n = 0 ∨ l.length = 0 then [] else l.take n :: pieces n (l.drop n)
termination_by l.length
decreasing_by
  simp only [List.length_drop]
  omega

variable {n : ℕ} {l : List α}

@[simp] theorem pieces_nil (n : ℕ) : pieces n ([] : List α) = [] := by
  rw [pieces]
  simp

theorem pieces_step (hn : 0 < n) (hl : 0 < l.length) :
    pieces n l = l.take n :: pieces n (l.drop n) := by
  conv_lhs => rw [pieces]
  rw [if_neg (by omega)]

theorem pieces_induction {motive : List α → Prop} (hn : 0 < n) (empty : motive [])
    (cut : ∀ l, 0 < l.length → motive (l.drop n) → motive l) (l : List α) : motive l := by
  induction size : l.length using Nat.strong_induction_on generalizing l with
  | _ m ih =>
    rcases Nat.eq_zero_or_pos l.length with none_left | some_left
    · rwa [List.length_eq_zero_iff.mp none_left]
    · apply cut l some_left
      exact ih (l.drop n).length (by simp only [List.length_drop]; omega) _ rfl

theorem flatten_pieces (hn : 0 < n) (l : List α) : (pieces n l).flatten = l := by
  induction l using pieces_induction hn with
  | empty => simp
  | cut l hl ih => rw [pieces_step hn hl, List.flatten_cons, ih, List.take_append_drop]

theorem length_pieces (hn : 0 < n) (l : List α) : (pieces n l).length = l.length ⌈/⌉ n := by
  induction l using pieces_induction hn with
  | empty => simp
  | cut l hl ih =>
    rw [pieces_step hn hl, List.length_cons, ih, List.length_drop, Nat.ceilDiv_eq_add_pred_div,
      Nat.ceilDiv_eq_add_pred_div]
    rcases Nat.lt_or_ge n l.length with more | last
    · have shifted : l.length + n - 1 = (l.length - n + n - 1) + n := by omega
      rw [shifted, Nat.add_div_right _ hn]
    · have gone : l.length - n = 0 := by omega
      have one : l.length + n - 1 = (l.length - 1) + n := by omega
      rw [gone, one, Nat.add_div_right _ hn, Nat.div_eq_of_lt (by omega),
        Nat.div_eq_of_lt (by omega)]

theorem length_mem_pieces (hn : 0 < n) {p : List α} (hp : p ∈ pieces n l) :
    0 < p.length ∧ p.length ≤ n := by
  induction l using pieces_induction hn with
  | empty => simp at hp
  | cut l hl ih =>
    rw [pieces_step hn hl] at hp
    rcases List.mem_cons.mp hp with rfl | later
    · simp only [List.length_take]
      omega
    · exact ih later

theorem pieces_append (hn : 0 < n) {k : ℕ} (whole : l.length = n * k) (l' : List α) :
    pieces n (l ++ l') = pieces n l ++ pieces n l' := by
  induction k generalizing l with
  | zero => simp [List.length_eq_zero_iff.mp whole]
  | succ k ih =>
    rw [Nat.mul_succ] at whole
    have long : n ≤ l.length := by omega
    have some_left : 0 < l.length := by omega
    have both : 0 < (l ++ l').length := by rw [List.length_append]; omega
    have rest : (l.drop n).length = n * k := by rw [List.length_drop]; omega
    rw [pieces_step hn both, pieces_step hn some_left, List.take_append_of_le_length long,
      List.drop_append_of_le_length long, ih rest, List.cons_append]

theorem pieces_drop (hn : 0 < n) (l : List α) (k : ℕ) :
    pieces n (l.drop (n * k)) = (pieces n l).drop k := by
  induction k generalizing l with
  | zero => simp
  | succ k ih =>
    rcases Nat.eq_zero_or_pos l.length with none_left | some_left
    · simp [List.length_eq_zero_iff.mp none_left]
    · rw [pieces_step hn some_left, List.drop_succ_cons, ← ih, List.drop_drop, Nat.mul_succ,
        Nat.add_comm]

theorem pieces_take (hn : 0 < n) (l : List α) (k : ℕ) :
    pieces n (l.take (n * k)) = (pieces n l).take k := by
  induction k generalizing l with
  | zero => simp
  | succ k ih =>
    rcases Nat.eq_zero_or_pos l.length with none_left | some_left
    · simp [List.length_eq_zero_iff.mp none_left]
    · have front : n * (k + 1) = n + n * k := by rw [Nat.mul_succ, Nat.add_comm]
      have long : n ≤ n * (k + 1) := by omega
      rw [pieces_step hn some_left, List.take_succ_cons, ← ih,
        pieces_step hn (by rw [List.length_take]; omega), List.take_take, Nat.min_eq_left long,
        front, List.drop_take, Nat.add_sub_cancel_left]

end Pieces

section Reorder

variable {α : Type u} {κ : Type v} [LinearOrder κ]

/-- Sort by a key. -/
def sortBy (key : α → κ) (l : List α) : List α :=
  l.mergeSort fun a b => decide (key a ≤ key b)

/-- A list with strictly increasing keys is recovered from each of its permutations. -/
theorem sortBy_perm {key : α → κ} {l l' : List α} (increasing : l.Pairwise (key · < key ·))
    (perm : l'.Perm l) : sortBy key l' = l := by
  have sorted : (sortBy key l').Pairwise (fun a b => decide (key a ≤ key b) = true) :=
    List.pairwise_mergeSort (by simpa using fun _ _ _ => le_trans)
      (by simpa using fun _ _ => le_total _ _) l'
  have ordered : l.Pairwise (fun a b => decide (key a ≤ key b) = true) :=
    increasing.imp fun below => by simpa using below.le
  have apart {a b : α} (below : key a < key b) : key a = key b → a = b :=
    fun same => absurd same below.ne
  have apart' {a b : α} (below : key a < key b) : key b = key a → b = a :=
    fun same => absurd same below.ne'
  have distinct := List.Pairwise.forall_of_forall_of_flip (R := fun a b => key a = key b → a = b)
    (fun _ _ _ => rfl) (increasing.imp apart) (increasing.imp apart')
  refine List.Perm.eq_of_pairwise ?_ sorted ordered ((List.mergeSort_perm l' _).trans perm)
  intro a b ha hb le ge
  have ha' : a ∈ l := perm.mem_iff.mp ((List.mergeSort_perm l' _).mem_iff.mp ha)
  have hb' : b ∈ l := hb
  exact distinct ha' hb' (le_antisymm (by simpa using le) (by simpa using ge))

end Reorder

section Words

/-- The order in which memory holds the bytes of an integer. -/
inductive Endian where
  | little
  | big
  deriving DecidableEq

/-- Bytes stored lowest first, in the order of the machine. -/
def Endian.arrange {α : Type u} : Endian → List α → List α
  | .little, bytes => bytes
  | .big, bytes => bytes.reverse

@[simp] theorem Endian.arrange_arrange {α : Type u} (e : Endian) (bytes : List α) :
    e.arrange (e.arrange bytes) = bytes := by
  cases e <;> simp [Endian.arrange]

@[simp] theorem Endian.length_arrange {α : Type u} (e : Endian) (bytes : List α) :
    (e.arrange bytes).length = bytes.length := by
  cases e <;> simp [Endian.arrange]

/-- The four bytes of a 32-bit `int`, lowest first. -/
def lowBytes (v : ℤ) : List UInt8 :=
  let n := (v % 2 ^ 32).toNat
  [.ofNat n, .ofNat (n / 2 ^ 8), .ofNat (n / 2 ^ 16), .ofNat (n / 2 ^ 24)]

/-- The 32-bit `int` with the given bytes, lowest first. -/
def ofLowBytes (bytes : List UInt8) : ℤ :=
  let n : ℕ := bytes.foldr (fun b acc => b.toNat + 2 ^ 8 * acc) 0
  if n < 2 ^ 31 then (n : ℤ) else (n : ℤ) - 2 ^ 32

/-- The bytes of an `int` in memory. -/
def intBytes (e : Endian) (v : ℤ) : List UInt8 := e.arrange (lowBytes v)

/-- The `int` read back from its bytes in memory. -/
def ofIntBytes (e : Endian) (bytes : List UInt8) : ℤ := ofLowBytes (e.arrange bytes)

@[simp] theorem length_intBytes (e : Endian) (v : ℤ) : (intBytes e v).length = 4 := by
  simp [intBytes, lowBytes]

theorem ofIntBytes_intBytes (e : Endian) {v : ℤ} (low : 0 ≤ v) (high : v < 2 ^ 31) :
    ofIntBytes e (intBytes e v) = v := by
  obtain ⟨n, rfl⟩ := Int.eq_ofNat_of_zero_le low
  have small : n < 2 ^ 31 := by omega
  have reduced : ((n : ℤ) % 2 ^ 32).toNat = n := by omega
  simp only [ofIntBytes, intBytes, Endian.arrange_arrange, lowBytes, ofLowBytes, reduced,
    List.foldr_cons, List.foldr_nil, UInt8.toNat_ofNat']
  split <;> omega

end Words

end Tsender.Lib.Fragments
