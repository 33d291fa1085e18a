/- Tsender/Lib/RingWindow
   digest: Ring positions with wrap-around, and rings whose contents are a list read
   from one position on with blank slots everywhere else. -/

import Mathlib.Data.Fin.Basic
import Mathlib.Data.Nat.ModEq
import Mathlib.Logic.Function.Basic
import Mathlib.Tactic.Common

set_option autoImplicit false
set_option relaxedAutoImplicit false

namespace Tsender.Lib.RingWindow

universe u

variable {n : ℕ} {α : Type u}

/-- The next position: one further, or back to the first past the last. -/
def advance (r : Fin n) : Fin n :=
  if inside : r.val + 1 < n then ⟨r.val + 1, inside⟩ else ⟨0, r.pos⟩

/-- The position `j` places after `r`. -/
def place (r : Fin n) (j : ℕ) : Fin n := ⟨(r.val + j) % n, Nat.mod_lt _ r.pos⟩

@[simp] theorem place_val (r : Fin n) (j : ℕ) : (place r j).val = (r.val + j) % n := rfl

@[simp] theorem place_zero (r : Fin n) : place r 0 = r := by
  apply Fin.ext
  simp [Nat.mod_eq_of_lt r.isLt]

theorem advance_val (r : Fin n) : (advance r).val = (r.val + 1) % n := by
  unfold advance
  split
  · rename_i inside
    simp [Nat.mod_eq_of_lt inside]
  · rename_i past
    have last : r.val + 1 = n := by have := r.isLt; omega
    simp [last]

private theorem place_place (r : Fin n) (i j : ℕ) : place (place r i) j = place r (i + j) := by
  apply Fin.ext
  simp [Nat.add_assoc]

private theorem advance_eq_place (r : Fin n) : advance r = place r 1 := Fin.ext (advance_val r)

theorem place_advance (r : Fin n) (j : ℕ) : place (advance r) j = place r (j + 1) := by
  rw [advance_eq_place, place_place, Nat.add_comm]

theorem advance_place (r : Fin n) (j : ℕ) : advance (place r j) = place r (j + 1) := by
  rw [advance_eq_place, place_place]

@[simp] theorem place_full (r : Fin n) : place r n = r := by
  apply Fin.ext
  simp [Nat.mod_eq_of_lt r.isLt]

private theorem place_injective {r : Fin n} {i j : ℕ} (hi : i < n) (hj : j < n)
    (same : place r i = place r j) : i = j := by
  have mods : (r.val + i) % n = (r.val + j) % n := congrArg Fin.val same
  have cancelled : i ≡ j [MOD n] := Nat.ModEq.add_left_cancel' r.val mods
  rwa [Nat.ModEq, Nat.mod_eq_of_lt hi, Nat.mod_eq_of_lt hj] at cancelled

/-- From `r` on the ring holds `xs` in order, and every other slot is blank. -/
structure Window (blank : α) (slots : Fin n → α) (r : Fin n) (xs : List α) : Prop where
  fits : xs.length ≤ n
  inside : ∀ (j : ℕ) (h : j < xs.length), slots (place r j) = xs[j]
  outside : ∀ j, xs.length ≤ j → j < n → slots (place r j) = blank

namespace Window

variable {blank x : α} {slots : Fin n → α} {r : Fin n} {xs : List α}

theorem blanks (r : Fin n) : Window blank (fun _ => blank) r [] :=
  ⟨by simp, by simp, fun _ _ _ => rfl⟩

theorem head (w : Window blank slots r (x :: xs)) : slots r = x := by
  have first := w.inside 0 (Nat.succ_pos xs.length)
  rwa [place_zero] at first

theorem head_blank (w : Window blank slots r []) : slots r = blank := by
  simpa using w.outside 0 (by simp) r.pos

theorem push (w : Window blank slots r xs) (room : xs.length < n) (x : α) :
    Window blank (Function.update slots (place r xs.length) x) r (xs ++ [x]) := by
  refine ⟨by simpa [Nat.succ_le_iff] using room, ?_, ?_⟩
  · intro j hj
    have bound : j ≤ xs.length := by simpa [Nat.lt_succ_iff] using hj
    rcases Nat.lt_or_eq_of_le bound with old | rfl
    · have other : place r j ≠ place r xs.length :=
        fun same => old.ne (place_injective (old.trans room) room same)
      rw [Function.update_of_ne other, w.inside j old, List.getElem_append_left old]
    · simp
  · intro j past hj
    have beyond : xs.length < j := by simpa [Nat.succ_le_iff] using past
    have other : place r j ≠ place r xs.length :=
      fun same => beyond.ne' (place_injective hj room same)
    rw [Function.update_of_ne other, w.outside j beyond.le hj]

theorem pop (w : Window blank slots r (x :: xs)) :
    Window blank (Function.update slots r blank) (advance r) xs := by
  have room : xs.length + 1 ≤ n := w.fits
  have apart : ∀ j, j + 1 < n → place r (j + 1) ≠ r := by
    intro j hj same
    have zero := place_injective (r := r) hj (by omega : 0 < n) (by simpa using same)
    omega
  refine ⟨by omega, ?_, ?_⟩
  · intro j hj
    rw [place_advance, Function.update_of_ne (apart j (by omega)),
      w.inside (j + 1) (by simpa using hj)]
    simp
  · intro j past hj
    rw [place_advance]
    rcases Nat.lt_or_eq_of_le (show j + 1 ≤ n from hj) with more | last
    · rw [Function.update_of_ne (apart j more), w.outside (j + 1) (by simpa using past) more]
    · rw [last, place_full, Function.update_self]

end Window

end Tsender.Lib.RingWindow
