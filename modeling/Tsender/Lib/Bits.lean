/- Tsender/Lib/Bits
   digest: Numbers as fixed numbers of bits, highest first, and how words of one width are cut
   into words of another. -/

import Mathlib.Algebra.Order.Group.Nat
import Mathlib.Data.Nat.Bitwise
import Mathlib.Tactic.Common

set_option autoImplicit false
set_option relaxedAutoImplicit false

namespace Tsender.Lib.Bits

/-- The low `k` bits of a number, highest first. -/
def bits : ℕ → ℕ → List Bool
  | 0, _ => []
  | k + 1, n => n.testBit k :: bits k n

@[simp] theorem length_bits (k n : ℕ) : (bits k n).length = k := by
  induction k with
  | zero => rfl
  | succ k ih => rw [bits, List.length_cons, ih]

private theorem bits_mod {k m : ℕ} (within : k ≤ m) (n : ℕ) : bits k (n % 2 ^ m) = bits k n := by
  induction k with
  | zero => rfl
  | succ k ih =>
    have low : (n % 2 ^ m).testBit k = n.testBit k := by
      rw [Nat.testBit_mod_two_pow]
      simp [show k < m by omega]
    rw [bits, bits, low, ih (by omega)]

private theorem bits_add (k m n : ℕ) : bits (k + m) n = bits k (n / 2 ^ m) ++ bits m n := by
  induction k with
  | zero => simp [bits]
  | succ k ih =>
    have high : (n / 2 ^ m).testBit k = n.testBit (k + m) := by
      rw [Nat.testBit_div_two_pow, Nat.add_comm]
    rw [show k + 1 + m = (k + m) + 1 by omega, bits, bits, ih, high, List.cons_append]

theorem bits_append (k : ℕ) {m low : ℕ} (high : ℕ) (small : low < 2 ^ m) :
    bits k high ++ bits m low = bits (k + m) (high * 2 ^ m + low) := by
  have front : (high * 2 ^ m + low) / 2 ^ m = high := by
    rw [Nat.mul_comm, Nat.mul_add_div (Nat.two_pow_pos m), Nat.div_eq_of_lt small, Nat.add_zero]
  have back : (high * 2 ^ m + low) % 2 ^ m = low := by
    rw [Nat.mul_comm, Nat.mul_add_mod, Nat.mod_eq_of_lt small]
  rw [bits_add, front, ← bits_mod (le_refl m) (high * 2 ^ m + low), back]

end Tsender.Lib.Bits
