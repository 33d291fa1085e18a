/- Tsender/Thumbnail/Base64
   source: base64.cpp (base64_encode, base64_decode), thumbnail.cpp (GetThumbnail)
   digest: The text a thumbnail travels as: what its decoder makes of any text, and that the
   bytes come back from a reply. -/

import Mathlib.Data.List.TakeWhile
import Tsender.Json.Text
import Tsender.Lib.Bits

set_option autoImplicit false
set_option relaxedAutoImplicit false

namespace Tsender.Thumbnail

open Json Lib.Bits

def base64Chars : Str :=
  "ABCDEFGHIJKLMNOPQRSTUVWXYZabcdefghijklmnopqrstuvwxyz0123456789+/".toList

/-- `isalnum` of the "C" locale. -/
def isAlnum (c : Char) : Bool :=
  'A' ≤ c ∧ c ≤ 'Z' ∨ 'a' ≤ c ∧ c ≤ 'z' ∨ '0' ≤ c ∧ c ≤ '9'

def isBase64 (c : Char) : Bool := isAlnum c || c = '+' || c = '/'

/-- `base64_chars[v]`. -/
def base64Char (v : UInt8) : Char := base64Chars.getD v.toNat '\x00'

/-- `base64_chars.find(c)`, as the `unsigned char` it is stored in. -/
def findBase64 (c : Char) : UInt8 := UInt8.ofNat (base64Chars.idxOf c)

/-- `char_array_4` computed from `char_array_3`. -/
def sextets (a b c : UInt8) : List UInt8 :=
  [(a &&& 0xfc) >>> 2, ((a &&& 0x03) <<< 4) + ((b &&& 0xf0) >>> 4),
    ((b &&& 0x0f) <<< 2) + ((c &&& 0xc0) >>> 6), c &&& 0x3f]

/-- `char_array_3` computed from `char_array_4`. -/
def octets (a b c d : UInt8) : List UInt8 :=
  [(a <<< 2) + ((b &&& 0x30) >>> 4), ((b &&& 0xf) <<< 4) + ((c &&& 0x3c) >>> 2),
    ((c &&& 0x3) <<< 6) + d]

section Encode

/-- Behind the loop: the bytes held are filled up with zeros. -/
def encodeRest (held : List UInt8) : Str :=
  let i := held.length
  if i = 0 then []
  else
    ((sextets (held.getD 0 0) (held.getD 1 0) (held.getD 2 0)).take (i + 1)).map base64Char ++
      List.replicate (3 - i) '='

/-- The loop of `base64_encode`; `held` is the filled front of `char_array_3`. -/
def encodeLoop : List UInt8 → List UInt8 → Str
  | held, [] => encodeRest held
  | held, b :: bytes =>
      let held := held ++ [b]
      if held.length = 3 then
        (sextets (held.getD 0 0) (held.getD 1 0) (held.getD 2 0)).map base64Char ++
          encodeLoop [] bytes
      else encodeLoop held bytes

def base64Encode (bytes : List UInt8) : Str := encodeLoop [] bytes

end Encode

section Decode

/-- Behind the loop.  Only the values held are looked at. -/
def decodeRest (held : Str) : List UInt8 :=
  let i := held.length
  let value (j : ℕ) := (held.map findBase64).getD j 0
  if i = 0 then [] else (octets (value 0) (value 1) (value 2) 0).take (i - 1)

/-- The loop of `base64_decode`; `held` is the filled front of `char_array_4`.  A null character
stands behind the text.  Where `in_len--` overflows there is no result. -/
def decodeLoop : ℤ → Str → Str → Option (List UInt8)
  | inLen, held, [] => if inLen = minInt then none else some (decodeRest held)
  | inLen, held, c :: s =>
      if inLen = minInt then none
      else if inLen ≠ 0 ∧ c ≠ '=' ∧ isBase64 c then
        let held := held ++ [c]
        let value (j : ℕ) := (held.map findBase64).getD j 0
        if held.length = 4 then
          (decodeLoop (inLen - 1) [] s).map
            (octets (value 0) (value 1) (value 2) (value 3) ++ ·)
        else decodeLoop (inLen - 1) held s
      else some (decodeRest held)

/-- `base64_decode`.  `in_len` is the size as an `int`, which is negative from `2 ^ 31` on. -/
def base64Decode (s : Str) : Option (List UInt8) :=
  decodeLoop ((s.length : ℤ).bmod (2 ^ 32)) [] s

/-- The bytes of a text that is read to its end or to its first other character. -/
def decodeText : Str → Str → List UInt8
  | held, [] => decodeRest held
  | held, c :: s =>
      if c ≠ '=' ∧ isBase64 c then
        let held := held ++ [c]
        let value (j : ℕ) := (held.map findBase64).getD j 0
        if held.length = 4 then
          octets (value 0) (value 1) (value 2) (value 3) ++ decodeText [] s
        else decodeText held s
      else decodeRest held

end Decode

section Alphabet

variable {v : UInt8}

private theorem base64Char_cases {P : UInt8 → Prop} (all : ∀ n < 64, P (UInt8.ofNat n))
    (small : v.toNat < 64) : P v := by
  have at_v := all v.toNat small
  rwa [UInt8.ofNat_toNat] at at_v

private theorem findBase64_base64Char (small : v.toNat < 64) : findBase64 (base64Char v) = v :=
  base64Char_cases (P := fun v => findBase64 (base64Char v) = v) (by decide +kernel) small

private theorem isBase64_base64Char (small : v.toNat < 64) : isBase64 (base64Char v) = true :=
  base64Char_cases (P := fun v => isBase64 (base64Char v) = true) (by decide +kernel) small

private theorem ascii_of_isBase64 {c : Char} (known : isBase64 c = true) : c.toNat < 128 := by
  simp only [isBase64, isAlnum, Bool.or_eq_true, decide_eq_true_eq, Char.le_def,
    UInt32.le_iff_toNat_le] at known
  rcases known with ((⟨-, high⟩ | ⟨-, high⟩ | ⟨-, high⟩) | rfl) | rfl
  · exact lt_of_le_of_lt high (by decide)
  · exact lt_of_le_of_lt high (by decide)
  · exact lt_of_le_of_lt high (by decide)
  · decide
  · decide

private theorem findBase64_small {c : Char} (known : isBase64 c = true) :
    (findBase64 c).toNat < 64 := by
  have all : ∀ n < 128, isBase64 (Char.ofNat n) = true → (findBase64 (Char.ofNat n)).toNat < 64 := by
    decide +kernel
  have at_c := all c.toNat (ascii_of_isBase64 known)
  rw [Char.ofNat_toNat] at at_c
  exact at_c known

end Alphabet

section Bits

variable (a b c : UInt8)

private theorem toNat_lower {mask s : UInt8} {w : ℕ} (shift : s.toNat < 8)
    (shape : mask.toNat >>> s.toNat = 2 ^ w - 1) :
    ((a &&& mask) >>> s).toNat = a.toNat / 2 ^ s.toNat % 2 ^ w := by
  rw [UInt8.toNat_shiftRight, UInt8.toNat_and, Nat.mod_eq_of_lt shift,
    Nat.shiftRight_and_distrib, shape, Nat.and_two_pow_sub_one_eq_mod, Nat.shiftRight_eq_div_pow]

private theorem toNat_raise {mask s : UInt8} {w : ℕ} (shape : mask.toNat = 2 ^ w - 1)
    (fits : w + s.toNat ≤ 8) (shift : s.toNat < 8) :
    ((a &&& mask) <<< s).toNat = a.toNat % 2 ^ w * 2 ^ s.toNat := by
  rw [UInt8.toNat_shiftLeft, UInt8.toNat_and, Nat.mod_eq_of_lt shift, shape,
    Nat.and_two_pow_sub_one_eq_mod, Nat.shiftLeft_eq, Nat.mod_eq_of_lt]
  calc a.toNat % 2 ^ w * 2 ^ s.toNat < 2 ^ w * 2 ^ s.toNat := by
        apply Nat.mul_lt_mul_of_pos_right (Nat.mod_lt _ (by positivity)) (by positivity)
    _ = 2 ^ (w + s.toNat) := (Nat.pow_add ..).symm
    _ ≤ 2 ^ 8 := Nat.pow_le_pow_right (by decide) fits

private theorem toNat_sextets : (sextets a b c).map UInt8.toNat =
    [a.toNat / 4, a.toNat % 4 * 16 + b.toNat / 16, b.toNat % 16 * 4 + c.toNat / 64,
      c.toNat % 64] := by
  have ha := a.toNat_lt
  have hb := b.toNat_lt
  have hc := c.toNat_lt
  have top := @toNat_lower a 0xfc 2 6 (by decide) (by decide)
  have mid := @toNat_lower b 0xf0 4 4 (by decide) (by decide)
  have low := @toNat_lower c 0xc0 6 2 (by decide) (by decide)
  have raised := @toNat_raise a 0x03 4 2 (by decide) (by decide) (by decide)
  have raised' := @toNat_raise b 0x0f 2 4 (by decide) (by decide) (by decide)
  have last : (c &&& 0x3f).toNat = c.toNat % 64 := by
    rw [UInt8.toNat_and]
    exact Nat.and_two_pow_sub_one_eq_mod c.toNat 6
  simp only [UInt8.reduceToNat] at top mid low raised raised'
  simp only [sextets, List.map_cons, List.map_nil, UInt8.toNat_add, top, mid, low, raised, raised',
    last, List.cons.injEq, and_true]
  omega

variable {a b c} {d : UInt8}

private theorem toNat_octets (ha : a.toNat < 64) (hb : b.toNat < 64) (hc : c.toNat < 64)
    (hd : d.toNat < 64) : (octets a b c d).map UInt8.toNat =
      [a.toNat * 4 + b.toNat / 16, b.toNat % 16 * 16 + c.toNat / 4, c.toNat % 4 * 64 + d.toNat] := by
  have first : (a <<< 2).toNat = a.toNat * 4 := by
    have four : 2 ^ ((2 : UInt8).toNat % 8) = 4 := rfl
    rw [UInt8.toNat_shiftLeft, Nat.shiftLeft_eq, four]
    omega
  have top := @toNat_lower b 0x30 4 2 (by decide) (by decide)
  have mid := @toNat_lower c 0x3c 2 4 (by decide) (by decide)
  have raised := @toNat_raise b 0xf 4 4 (by decide) (by decide) (by decide)
  have raised' := @toNat_raise c 0x3 6 2 (by decide) (by decide) (by decide)
  simp only [UInt8.reduceToNat] at top mid raised raised'
  simp only [octets, List.map_cons, List.map_nil, UInt8.toNat_add, first, top, mid, raised,
    raised', List.cons.injEq, and_true]
  omega

private theorem map_toNat_injective : Function.Injective (List.map UInt8.toNat) :=
  List.map_injective_iff.mpr fun _ _ => UInt8.toNat_inj.mp

private theorem sextets_small {v : UInt8} (mem : v ∈ sextets a b c) : v.toNat < 64 := by
  have ha := a.toNat_lt
  have hb := b.toNat_lt
  have hc := c.toNat_lt
  have value : v.toNat ∈ (sextets a b c).map UInt8.toNat := List.mem_map_of_mem mem
  rw [toNat_sextets] at value
  simp only [List.mem_cons, List.not_mem_nil, or_false] at value
  omega

private theorem octets_sextets {p q r t : UInt8} (made : sextets a b c = [p, q, r, t]) :
    octets p q r t = [a, b, c] := by
  have small : ∀ v ∈ [p, q, r, t], v.toNat < 64 := fun v mem => sextets_small (made ▸ mem)
  have values := toNat_sextets a b c
  rw [made] at values
  simp only [List.map_cons, List.map_nil, List.cons.injEq, and_true] at values
  apply map_toNat_injective
  rw [toNat_octets (small p (by simp)) (small q (by simp)) (small r (by simp))
    (small t (by simp))]
  have ha := a.toNat_lt
  have hb := b.toNat_lt
  have hc := c.toNat_lt
  simp only [List.map_cons, List.map_nil, List.cons.injEq, and_true]
  omega

end Bits

section RoundTrip

variable {s held : Str} {a b c : UInt8}

private theorem decodeText_known {c : Char} (known : isBase64 c = true) :
    decodeText held (c :: s) =
      let held := held ++ [c]
      let value (j : ℕ) := (held.map findBase64).getD j 0
      if held.length = 4 then octets (value 0) (value 1) (value 2) (value 3) ++ decodeText [] s
      else decodeText held s := by
  have other : c ≠ '=' := by
    rintro rfl
    cases known
  rw [decodeText, if_pos ⟨other, known⟩]

private theorem decodeText_end (held : Str) : decodeText held [] = decodeRest held := rfl

private theorem decodeText_padding : decodeText held ('=' :: s) = decodeRest held := by
  rw [decodeText, if_neg (by simp)]

private theorem decodeText_group : decodeText [] ((sextets a b c).map base64Char ++ s) =
    [a, b, c] ++ decodeText [] s := by
  obtain ⟨p, q, r, t, made⟩ : ∃ p q r t, sextets a b c = [p, q, r, t] := ⟨_, _, _, _, rfl⟩
  have small : ∀ v ∈ [p, q, r, t], v.toNat < 64 := fun v mem => sextets_small (made ▸ mem)
  have hp := small p (by simp)
  have hq := small q (by simp)
  have hr := small r (by simp)
  have ht := small t (by simp)
  rw [made, ← octets_sextets made]
  simp [decodeText_known, isBase64_base64Char, findBase64_base64Char, hp, hq, hr, ht]

private theorem decodeRest_two {p q r t : UInt8} (made : sextets a 0 0 = [p, q, r, t]) :
    decodeRest [base64Char p, base64Char q] = [a] := by
  have small : ∀ v ∈ [p, q, r, t], v.toNat < 64 := fun v mem => sextets_small (made ▸ mem)
  have whole := octets_sextets made
  have hp := small p (by simp)
  have hq := small q (by simp)
  simp only [octets, List.cons.injEq] at whole
  simp [decodeRest, findBase64_base64Char, hp, hq, octets, whole.1]

private theorem decodeRest_three {p q r t : UInt8} (made : sextets a b 0 = [p, q, r, t]) :
    decodeRest [base64Char p, base64Char q, base64Char r] = [a, b] := by
  have small : ∀ v ∈ [p, q, r, t], v.toNat < 64 := fun v mem => sextets_small (made ▸ mem)
  have whole := octets_sextets made
  have hp := small p (by simp)
  have hq := small q (by simp)
  have hr := small r (by simp)
  simp only [octets, List.cons.injEq] at whole
  simp [decodeRest, findBase64_base64Char, hp, hq, hr, octets, whole.1, whole.2.1]

private theorem groups_induction {motive : List UInt8 → Prop} (none_left : motive [])
    (one : ∀ a, motive [a]) (two : ∀ a b, motive [a, b])
    (group : ∀ a b c bytes, motive bytes → motive (a :: b :: c :: bytes)) :
    ∀ bytes, motive bytes
  | [] => none_left
  | [a] => one a
  | [a, b] => two a b
  | a :: b :: c :: bytes => group a b c bytes (groups_induction none_left one two group bytes)

private theorem base64Encode_group (bytes : List UInt8) : base64Encode (a :: b :: c :: bytes) =
    (sextets a b c).map base64Char ++ base64Encode bytes := by
  simp [base64Encode, encodeLoop]

private theorem length_base64Encode (bytes : List UInt8) :
    (base64Encode bytes).length = 4 * ((bytes.length + 2) / 3) := by
  induction bytes using groups_induction with
  | none_left => rfl
  | one a => simp [base64Encode, encodeLoop, encodeRest, sextets]
  | two a b => simp [base64Encode, encodeLoop, encodeRest, sextets]
  | group a b c bytes ih =>
    rw [base64Encode_group, List.length_append, ih]
    simp only [sextets, List.map_cons, List.map_nil, List.length_cons, List.length_nil]
    omega

private theorem decodeText_base64Encode (bytes : List UInt8) :
    decodeText [] (base64Encode bytes) = bytes := by
  induction bytes using groups_induction with
  | none_left => rfl
  | one a =>
    obtain ⟨p, q, r, t, made⟩ : ∃ p q r t, sextets a 0 0 = [p, q, r, t] := ⟨_, _, _, _, rfl⟩
    have small : ∀ v ∈ [p, q, r, t], v.toNat < 64 := fun v mem => sextets_small (made ▸ mem)
    have hp := small p (by simp)
    have hq := small q (by simp)
    have text : base64Encode [a] = [base64Char p, base64Char q, '=', '='] := by
      simp [base64Encode, encodeLoop, encodeRest, made]
    rw [text]
    simp [decodeText_known, isBase64_base64Char, decodeText_padding, decodeRest_two made, hp, hq]
  | two a b =>
    obtain ⟨p, q, r, t, made⟩ : ∃ p q r t, sextets a b 0 = [p, q, r, t] := ⟨_, _, _, _, rfl⟩
    have small : ∀ v ∈ [p, q, r, t], v.toNat < 64 := fun v mem => sextets_small (made ▸ mem)
    have hp := small p (by simp)
    have hq := small q (by simp)
    have hr := small r (by simp)
    have text : base64Encode [a, b] = [base64Char p, base64Char q, base64Char r, '='] := by
      simp [base64Encode, encodeLoop, encodeRest, made]
    rw [text]
    simp [decodeText_known, isBase64_base64Char, decodeText_padding, decodeRest_three made, hp, hq, hr]
  | group a b c bytes ih => rw [base64Encode_group, decodeText_group, ih]; rfl

end RoundTrip

section Countdown

variable {s held : Str} {inLen : ℤ}

private theorem decodeLoop_natCast (n : ℕ) (held s : Str) :
    decodeLoop n held s = some (decodeText held (s.take n)) := by
  have above : (n : ℤ) ≠ minInt := by
    unfold minInt
    omega
  induction s generalizing n held with
  | nil => rw [decodeLoop, if_neg above, List.take_nil, decodeText]
  | cons c s ih =>
    cases n with
    | zero => simp [decodeLoop, decodeText, minInt]
    | succ n =>
      have next : ((n + 1 : ℕ) : ℤ) - 1 = n := by omega
      have below : (n : ℤ) ≠ minInt := by
        unfold minInt
        omega
      have left : ((n + 1 : ℕ) : ℤ) ≠ 0 := by omega
      rw [decodeLoop, if_neg above, List.take_succ_cons, decodeText, next]
      by_cases known : c ≠ '=' ∧ isBase64 c
      · rw [if_pos ⟨left, known⟩, if_pos known]
        simp only [ih _ _ below]
        split_ifs <;> rfl
      · rw [if_neg fun h => known h.2, if_neg known]

/-- A countdown that begins below zero overflows if the characters do not end it before. -/
private theorem decodeLoop_of_neg (low : minInt ≤ inLen) (negative : inLen < 0) (held s : Str) :
    decodeLoop inLen held s =
      if ((s.takeWhile isBase64).length : ℤ) < inLen - minInt then some (decodeText held s)
      else none := by
  induction s generalizing inLen held with
  | nil =>
    rw [decodeLoop, List.takeWhile_nil, decodeText]
    split_ifs <;> grind
  | cons c s ih =>
    rw [decodeLoop, decodeText]
    by_cases last : inLen = minInt
    · rw [if_pos last, if_neg (by omega)]
    · rw [if_neg last]
      by_cases known : isBase64 c = true
      · have other : c ≠ '=' := by
          rintro rfl
          cases known
        have goes : inLen ≠ 0 ∧ c ≠ '=' ∧ isBase64 c = true := ⟨by omega, other, known⟩
        have later := fun held => ih (show minInt ≤ inLen - 1 by omega) (by omega) held
        rw [if_pos goes, if_pos goes.2, List.takeWhile_cons_of_pos known, List.length_cons]
        have step : ((s.takeWhile isBase64).length : ℤ) < inLen - 1 - minInt ↔
            (((s.takeWhile isBase64).length + 1 : ℕ) : ℤ) < inLen - minInt := by omega
        by_cases room : ((s.takeWhile isBase64).length : ℤ) < inLen - 1 - minInt
        · simp only [later, if_pos room, if_pos (step.mp room)]
          split_ifs <;> rfl
        · simp only [later, if_neg room, if_neg (mt step.mpr room)]
          split_ifs <;> rfl
      · have room : (((c :: s).takeWhile isBase64).length : ℤ) < inLen - minInt := by
          rw [List.takeWhile_cons_of_neg known, List.length_nil]
          omega
        rw [if_pos room, if_neg fun h => known h.2.2, if_neg fun h => known h.2]

end Countdown

section Reply

def TextChar (c : Char) : Prop := isBase64 c = true ∨ c = '='

private theorem textChar_base64Encode {c : Char} (bytes : List UInt8) (mem : c ∈ base64Encode bytes)
    : TextChar c := by
  have coded : ∀ {a b d : UInt8} {k : ℕ},
      c ∈ ((sextets a b d).take k).map base64Char → TextChar c := by
    intro a b d k mem
    obtain ⟨v, inside, rfl⟩ := List.mem_map.mp mem
    exact .inl (isBase64_base64Char (sextets_small (List.mem_of_mem_take inside)))
  have padded : ∀ {k : ℕ}, c ∈ List.replicate k '=' → TextChar c := fun mem =>
    .inr (List.eq_of_mem_replicate mem)
  induction bytes using groups_induction with
  | none_left => cases mem
  | one a =>
    rcases List.mem_append.mp (show c ∈ encodeRest [a] from mem) with front | back
    · exact coded front
    · exact padded back
  | two a b =>
    rcases List.mem_append.mp (show c ∈ encodeRest [a, b] from mem) with front | back
    · exact coded front
    · exact padded back
  | group a b d bytes ih =>
    rw [base64Encode_group, List.mem_append] at mem
    rcases mem with front | back
    · exact @coded a b d 4 (by simpa [sextets] using front)
    · exact ih back

theorem TextChar.printed {c : Char} (text : TextChar c) :
    shortEscape c = none ∧ 0x20 ≤ c.toNat ∧ c.toNat < 0x80 := by
  have small : c.toNat < 128 := by
    rcases text with known | rfl
    · exact ascii_of_isBase64 known
    · decide
  have all : ∀ n < 128, (isBase64 (Char.ofNat n) = true ∨ Char.ofNat n = '=') →
      shortEscape (Char.ofNat n) = none ∧ 0x20 ≤ n := by decide +kernel
  have at_c := all c.toNat small
  rw [Char.ofNat_toNat] at at_c
  exact ⟨(at_c text).1, (at_c text).2, small⟩

private theorem escapeFrom_text {s : Str} (text : ∀ c ∈ s, TextChar c) : escapeFrom 0 s = s := by
  induction s with
  | nil => rfl
  | cons c s ih =>
    obtain ⟨other, high, low⟩ := (text c (by simp)).printed
    have alone : utf8ToCodepoint c s = (c.toNat, 0) := by simp [utf8ToCodepoint, low]
    simp only [escapeFrom, other, alone]
    rw [ih fun c mem => text c (by simp [mem]), escape, if_pos ⟨low, high⟩, Char.ofNat_toNat]
    rfl

private theorem wellFormed_text {s : Str} (text : ∀ c ∈ s, TextChar c) : WellFormed s := by
  refine ⟨s, ?_⟩
  induction s with
  | nil => rfl
  | cons c s ih =>
    have alone : utf8Bytes c = [c] := by
      rw [← encoded_toNat, encoded_ascii (text c (by simp)).printed.2.2]
    rw [List.flatMap_cons, alone, ← ih fun c mem => text c (by simp [mem])]
    rfl

end Reply

section AnyText

variable {s held : Str}

private theorem decodeText_takeWhile (held s : Str) :
    decodeText held s = decodeText held (s.takeWhile isBase64) := by
  induction s generalizing held with
  | nil => rfl
  | cons c s ih =>
    cases known : isBase64 c with
    | false => simp [decodeText, known]
    | true =>
      rw [List.takeWhile_cons_of_pos known, decodeText, decodeText]
      simp only [ih]

def textBits (s : Str) : List Bool := s.flatMap fun c => bits 6 (findBase64 c).toNat

def byteBits (bytes : List UInt8) : List Bool := bytes.flatMap fun b => bits 8 b.toNat

private theorem byteBits_append (bytes more : List UInt8) :
    byteBits (bytes ++ more) = byteBits bytes ++ byteBits more := List.flatMap_append

section Words

variable {p q r t a b c : UInt8}

private theorem two_sextets (hq : q.toNat < 64) :
    bits 6 p.toNat ++ bits 6 q.toNat = bits 12 (p.toNat * 2 ^ 6 + q.toNat) :=
  bits_append 6 p.toNat hq

private theorem three_sextets (hq : q.toNat < 64) (hr : r.toNat < 64) :
    bits 6 p.toNat ++ (bits 6 q.toNat ++ bits 6 r.toNat) =
      bits 18 ((p.toNat * 2 ^ 6 + q.toNat) * 2 ^ 6 + r.toNat) := by
  rw [← List.append_assoc, two_sextets hq]
  exact bits_append 12 _ hr

private theorem four_sextets (hp : p.toNat < 64) (hq : q.toNat < 64) (hr : r.toNat < 64)
    (ht : t.toNat < 64) :
    bits 6 p.toNat ++ (bits 6 q.toNat ++ (bits 6 r.toNat ++ bits 6 t.toNat)) =
      byteBits (octets p q r t) := by
  obtain ⟨a, b, c, made⟩ : ∃ a b c, octets p q r t = [a, b, c] := ⟨_, _, _, rfl⟩
  have values := toNat_octets hp hq hr ht
  rw [made] at values ⊢
  simp only [List.map_cons, List.map_nil, List.cons.injEq, and_true] at values
  have sextet_bits : bits 6 p.toNat ++ (bits 6 q.toNat ++ (bits 6 r.toNat ++ bits 6 t.toNat)) =
      bits 24 (((p.toNat * 2 ^ 6 + q.toNat) * 2 ^ 6 + r.toNat) * 2 ^ 6 + t.toNat) := by
    rw [← List.append_assoc (bits 6 q.toNat), ← List.append_assoc, three_sextets hq hr]
    exact bits_append 18 _ ht
  have byte_bits : byteBits [a, b, c] =
      bits 24 ((a.toNat * 2 ^ 8 + b.toNat) * 2 ^ 8 + c.toNat) := by
    have front : bits 8 a.toNat ++ bits 8 b.toNat = bits 16 (a.toNat * 2 ^ 8 + b.toNat) :=
      bits_append 8 a.toNat b.toNat_lt
    simp only [byteBits, List.flatMap_cons, List.flatMap_nil, List.append_nil]
    rw [← List.append_assoc, front]
    exact bits_append 16 _ c.toNat_lt
  rw [sextet_bits, byte_bits]
  congr 1
  omega

end Words

private theorem text_induction {motive : Str → Prop} (none_left : motive []) (one : ∀ p, motive [p])
    (two : ∀ p q, motive [p, q]) (three : ∀ p q r, motive [p, q, r])
    (group : ∀ p q r t s, motive s → motive (p :: q :: r :: t :: s)) : ∀ s, motive s
  | [] => none_left
  | [p] => one p
  | [p, q] => two p q
  | [p, q, r] => three p q r
  | p :: q :: r :: t :: s => group p q r t s (text_induction none_left one two three group s)

private theorem two_left_bits {p q : Char} (hp : isBase64 p = true) (hq : isBase64 q = true) :
    ∃ left, left.length < 8 ∧ textBits [p, q] = byteBits (decodeText [] [p, q]) ++ left := by
  obtain ⟨a, b, c, made⟩ : ∃ a b c, octets (findBase64 p) (findBase64 q) 0 0 = [a, b, c] :=
    ⟨_, _, _, rfl⟩
  have values := toNat_octets (findBase64_small hp) (findBase64_small hq)
    (by decide : (0 : UInt8).toNat < 64) (by decide : (0 : UInt8).toNat < 64)
  have decoded : decodeText [] [p, q] = [a] := by
    simp [decodeText_known, decodeText_end, hp, hq, decodeRest, made]
  rw [made] at values
  simp only [List.map_cons, List.map_nil, List.cons.injEq] at values
  refine ⟨bits 4 ((findBase64 q).toNat % 16), by simp, ?_⟩
  rw [decoded]
  simp only [textBits, byteBits, List.flatMap_cons, List.flatMap_nil, List.append_nil]
  have small : (findBase64 q).toNat % 16 < 2 ^ 4 := Nat.mod_lt _ (by decide)
  rw [two_sextets (findBase64_small hq), bits_append 8 _ small]
  congr 1
  omega

private theorem three_left_bits {p q r : Char} (hp : isBase64 p = true) (hq : isBase64 q = true)
    (hr : isBase64 r = true) :
    ∃ left, left.length < 8 ∧
      textBits [p, q, r] = byteBits (decodeText [] [p, q, r]) ++ left := by
  obtain ⟨a, b, c, made⟩ : ∃ a b c,
      octets (findBase64 p) (findBase64 q) (findBase64 r) 0 = [a, b, c] := ⟨_, _, _, rfl⟩
  have values := toNat_octets (findBase64_small hp) (findBase64_small hq) (findBase64_small hr)
    (by decide : (0 : UInt8).toNat < 64)
  have decoded : decodeText [] [p, q, r] = [a, b] := by
    simp [decodeText_known, decodeText_end, hp, hq, hr, decodeRest, made]
  rw [made] at values
  simp only [List.map_cons, List.map_nil, List.cons.injEq] at values
  refine ⟨bits 2 ((findBase64 r).toNat % 4), by simp, ?_⟩
  rw [decoded]
  simp only [textBits, byteBits, List.flatMap_cons, List.flatMap_nil, List.append_nil]
  have small : (findBase64 r).toNat % 4 < 2 ^ 2 := Nat.mod_lt _ (by decide)
  rw [three_sextets (findBase64_small hq) (findBase64_small hr),
    bits_append 8 _ b.toNat_lt, bits_append (8 + 8) _ small]
  congr 1
  omega

private theorem decodeText_bits (known : ∀ c ∈ s, isBase64 c = true) :
    ∃ left, left.length < 8 ∧ textBits s = byteBits (decodeText [] s) ++ left := by
  induction s using text_induction with
  | none_left => exact ⟨[], by decide, rfl⟩
  | one p =>
    have hp := known p (by simp)
    exact ⟨textBits [p], by simp [textBits], by simp [decodeText, hp, decodeRest, byteBits]⟩
  | two p q => exact two_left_bits (known p (by simp)) (known q (by simp))
  | three p q r =>
    exact three_left_bits (known p (by simp)) (known q (by simp)) (known r (by simp))
  | group p q r t s ih =>
    obtain ⟨left, short, split⟩ := ih fun c mem => known c (by simp [mem])
    have hp := known p (by simp)
    have hq := known q (by simp)
    have hr := known r (by simp)
    have ht := known t (by simp)
    have group : decodeText [] (p :: q :: r :: t :: s) =
        octets (findBase64 p) (findBase64 q) (findBase64 r) (findBase64 t) ++ decodeText [] s := by
      simp [decodeText_known, hp, hq, hr, ht]
    have word := four_sextets (findBase64_small hp) (findBase64_small hq) (findBase64_small hr)
      (findBase64_small ht)
    refine ⟨left, short, ?_⟩
    have bytes := byteBits_append
      (octets (findBase64 p) (findBase64 q) (findBase64 r) (findBase64 t)) (decodeText [] s)
    rw [group, bytes, List.append_assoc, ← split, ← word]
    simp only [textBits, List.flatMap_cons, List.append_assoc]

/-- The characters that `base64_decode` reads. -/
def readable (s : Str) : Str :=
  (if s.length % 2 ^ 32 < 2 ^ 31 then s.take (s.length % 2 ^ 32) else s).takeWhile isBase64

private theorem length_readable_le {s : Str} (small : s.length % 2 ^ 32 < 2 ^ 31) :
    (readable s).length ≤ s.length % 2 ^ 32 := by
  rw [readable, if_pos small]
  exact (List.takeWhile_sublist isBase64).length_le.trans (List.length_take_le _ s)

/-- The countdown does not overflow. -/
def CountsDown (s : Str) : Prop :=
  s.length % 2 ^ 32 < 2 ^ 31 ∨ (s.takeWhile isBase64).length + 2 ^ 31 < s.length % 2 ^ 32

instance (s : Str) : Decidable (CountsDown s) :=
  inferInstanceAs (Decidable (_ ∨ _))

private theorem base64Decode_eq (s : Str) :
    base64Decode s = if CountsDown s then some (decodeText [] (readable s)) else none := by
  unfold base64Decode readable
  by_cases small : s.length % 2 ^ 32 < 2 ^ 31
  · have inLen : (s.length : ℤ).bmod (2 ^ 32) = (s.length % 2 ^ 32 : ℕ) := by
      rw [Int.bmod_def]
      split_ifs <;> omega
    have counts : CountsDown s := .inl small
    rw [inLen, decodeLoop_natCast, decodeText_takeWhile, if_pos counts, if_pos small]
  · have inLen : (s.length : ℤ).bmod (2 ^ 32) = (s.length % 2 ^ 32 : ℕ) - 2 ^ 32 := by
      rw [Int.bmod_def]
      split_ifs <;> omega
    have step : ((s.takeWhile isBase64).length : ℤ) < (s.length % 2 ^ 32 : ℕ) - 2 ^ 32 - minInt ↔
        CountsDown s := by
      unfold minInt CountsDown
      omega
    rw [inLen, decodeLoop_of_neg (by unfold minInt; omega) (by omega), if_neg small,
      ← decodeText_takeWhile]
    simp only [step]

private theorem readable_bits (s : Str) : ∃ left, left.length < 8 ∧
    textBits (readable s) = byteBits (decodeText [] (readable s)) ++ left :=
  decodeText_bits fun _ mem => List.mem_takeWhile_imp mem

/-- Decoding stops at the first character that is not of the alphabet: the bytes are those that
the bits of the characters before it fill.  A text shorter than `2 ^ 31` is read to there, and a
longer one up to its size as an `int` or until the countdown overflows. -/
theorem base64Decode_bits (s : Str) :
    ∃ bytes left, base64Decode s = (if CountsDown s then some bytes else none) ∧
      left.length < 8 ∧ textBits (readable s) = byteBits bytes ++ left := by
  obtain ⟨left, short, split⟩ := readable_bits s
  exact ⟨_, left, base64Decode_eq s, short, split⟩

end AnyText

section Thumbnail

@[simp] theorem length_textBits (s : Str) : (textBits s).length = 6 * s.length := by
  simp [textBits, Nat.mul_comm]

@[simp] theorem length_byteBits (bytes : List UInt8) :
    (byteBits bytes).length = 8 * bytes.length := by
  simp [byteBits, Nat.mul_comm]

private theorem base64Decode_base64Encode (bytes : List UInt8) :
    base64Decode (base64Encode bytes) = some bytes ↔ 4 * ((bytes.length + 2) / 3) < 2 ^ 31 := by
  have size := length_base64Encode bytes
  constructor
  · intro back
    obtain ⟨left, short, split⟩ := readable_bits (base64Encode bytes)
    rw [base64Decode_eq] at back
    split_ifs at back with counts
    -- what is read has six bits a character for the eight of each byte
    have bits := congrArg List.length split
    rw [Option.some.inj back, length_textBits, List.length_append, length_byteBits] at bits
    rcases counts with small | wraps
    · have front := length_readable_le small
      omega
    · rw [readable, if_neg (by omega)] at bits
      omega
  · intro small
    have rest : (base64Encode bytes).length % 2 ^ 32 = (base64Encode bytes).length := by omega
    have counts : CountsDown (base64Encode bytes) := .inl (by omega)
    rw [base64Decode_eq, if_pos counts, readable, rest, if_pos (by omega), List.take_length,
      ← decodeText_takeWhile, decodeText_base64Encode]

/-- A thumbnail comes back from a reply: the writer prints its text between quotes as it is, the
reader reads this text, and the decoder makes the bytes of it exactly if its size is an `int`. -/
theorem thumbnail_comes_back (bytes : List UInt8) :
    valueToQuotedStringN (base64Encode bytes) = '\x22' :: base64Encode bytes ++ ['\x22'] ∧
      decodeString (valueToQuotedStringN (base64Encode bytes)) = some (base64Encode bytes) ∧
      (base64Decode (base64Encode bytes) = some bytes ↔
        4 * ((bytes.length + 2) / 3) < 2 ^ 31) := by
  have text : ∀ c ∈ base64Encode bytes, TextChar c := fun c => textChar_base64Encode bytes
  refine ⟨?_, ?_, base64Decode_base64Encode bytes⟩
  · rw [valueToQuotedStringN_eq, escapeFrom_text text]
  · rw [decodeString_valueToQuotedStringN, (repair_eq_self_iff _).mpr (wellFormed_text text)]

end Thumbnail

end Tsender.Thumbnail
