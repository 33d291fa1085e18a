/- Tsender/Lib/InetAddr
   digest: Internet addresses as the C library reads them: one to four numbers, each decimal, octal
   or hexadecimal, of which the last fills the bytes that are left. -/

import Mathlib.Algebra.Order.Group.Nat
import Mathlib.Tactic.Common

set_option autoImplicit false
set_option relaxedAutoImplicit false

namespace Tsender.Lib.InetAddr

/-- The value of a digit in a base. -/
def digit (base : ℕ) (c : Char) : Option ℕ :=
  let value := if '0' ≤ c ∧ c ≤ '9' then some (c.toNat - '0'.toNat)
    else if 'a' ≤ c ∧ c ≤ 'f' then some (c.toNat - 'a'.toNat + 10)
    else if 'A' ≤ c ∧ c ≤ 'F' then some (c.toNat - 'A'.toNat + 10)
    else none
  value.filter (· < base)

/-- The digits at the front of a text, after a number so far, and what is left. -/
def digits (base : ℕ) : ℕ → List Char → ℕ × List Char
  | n, [] => (n, [])
  | n, c :: cs =>
      match digit base c with
      | some d => digits base (n * base + d) cs
      | none => (n, c :: cs)

/-- `strtoul` with base 0, where the text begins with a decimal digit. -/
def number : List Char → ℕ × List Char
  | '0' :: x :: c :: cs =>
      if (x = 'x' ∨ x = 'X') ∧ (digit 16 c).isSome then digits 16 0 (c :: cs)
      else digits 8 0 (x :: c :: cs)
  | '0' :: cs => digits 8 0 cs
  | cs => digits 10 0 cs

/-- Behind the last number there is nothing, or a blank and anything. -/
def ends : List Char → Bool
  | [] => true
  | c :: _ => c ∈ [' ', '\t', '\n', '\x0b', '\x0c', '\r']

/-- The numbers of an address, with the value of those that have been read and how many bytes are
left for the others. -/
def parts : ℕ → ℕ → List Char → Option ℕ
  | _, _, [] => none
  | left, value, c :: cs =>
      if (digit 10 c).isNone then none
      else
        let r := number (c :: cs)
        match left, r.2 with
        | left + 1, '.' :: rest => if r.1 < 256 ∧ left ≠ 0 then parts left (value * 256 + r.1) rest
            else none
        | left, rest => if ends rest ∧ r.1 < 256 ^ left then some (value * 256 ^ left + r.1) else none

/-- `inet_addr`: the address in the order of the host. -/
def inetAddr (text : List Char) : Option ℕ := parts 4 0 text

/-- The addresses of groups, which are the only ones that can be joined. -/
def isMulticast (address : ℕ) : Bool := address / 2 ^ 28 = 14

end Tsender.Lib.InetAddr
