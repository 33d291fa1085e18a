/- Tsender/Json/Text
   source: jsoncpp.cpp (uintToString, valueToString, isAnyCharRequiredQuoting, utf8ToCodepoint,
   toHex16Bit, valueToQuotedStringN)
   digest: Numbers and strings as the library writes them; the reader gets every number back, and a
   string exactly if it is well-formed UTF-8. -/

import Mathlib.Algebra.Order.Group.Nat
import Mathlib.Data.Nat.Bitwise
import Mathlib.Tactic.IntervalCases
import Tsender.Json.Reader

set_option autoImplicit false
set_option relaxedAutoImplicit false

namespace Tsender.Json

section Numbers

/-- The digits in front of what the buffer has already. -/
def uintToString (value : ℕ) (current : Str) : Str :=
  let current := Char.ofNat (value % 10 + '0'.toNat) :: current
  if value / 10 = 0 then current else uintToString (value / 10) current
termination_by value

/-- `valueToString` of a `LargestUInt`. -/
def uintText (value : UInt64) : Str := uintToString value.toNat []

/-- `valueToString` of a `LargestInt`. -/
def intText (value : Int64) : Str :=
  if value = Int64.minValue then '-' :: uintToString (maxInt64.toNat + 1) []
  else if value < 0 then '-' :: uintToString (-value).toInt.toNat []
  else uintToString value.toInt.toNat []

private theorem digitChar_eq {n : ℕ} (h : n < 10) : Nat.digitChar n = Char.ofNat
    (n + '0'.toNat) := by
  interval_cases n <;> rfl

private theorem uintToString_eq (value : ℕ) (current : Str) :
    uintToString value current = Nat.toDigits 10 value ++ current := by
  fun_induction uintToString value current with
  | case1 value current buffer small =>
    have digit : value < 10 := by omega
    have same : value % 10 = value := Nat.mod_eq_of_lt digit
    rw [Nat.toDigits_of_lt_base digit]
    simp [buffer, same, digitChar_eq digit]
  | case2 value current buffer large ih =>
    have digit : value % 10 < 10 := Nat.mod_lt _ (by decide)
    rw [ih, Nat.toDigits_of_base_le (b := 10) (n := value) (by decide) (by omega)]
    simp [buffer, digitChar_eq digit]

private theorem isDigit_eq (c : Char) : isDigit c = c.isDigit := by
  simp [isDigit, Char.isDigit]
  rfl

private theorem digit_le {c : Char} (digit : isDigit c = true) : c.toNat - '0'.toNat ≤ 9 := by
  have above : c ≤ '9' := (of_decide_eq_true digit).2
  have bound : c.toNat ≤ '9'.toNat := above
  have nine : '9'.toNat = 57 := rfl
  have zero : '0'.toNat = 48 := rfl
  omega

private theorem le_ofDigitChars (value : ℕ) (cs : Str) : value ≤ Nat.ofDigitChars 10 cs value := by
  induction cs generalizing value with
  | nil => exact Nat.le_refl _
  | cons c cs ih =>
    rw [Nat.ofDigitChars_cons]
    exact Nat.le_trans (by omega) (ih _)

private theorem le_ofDigitChars_of_ne_nil (value : ℕ) {cs : Str} (more : cs ≠ []) :
    10 * value ≤ Nat.ofDigitChars 10 cs value := by
  obtain ⟨c, cs, rfl⟩ := List.exists_cons_of_ne_nil more
  rw [Nat.ofDigitChars_cons]
  exact Nat.le_trans (by omega) (le_ofDigitChars _ cs)

private theorem decodeDigits_eq_none {maxIntegerValue value : ℕ} {ds : Str}
    (other : ds.all isDigit = false) : decodeDigits maxIntegerValue value ds = none := by
  induction ds generalizing value with
  | nil => simp at other
  | cons c cs ih =>
    simp only [decodeDigits]
    split_ifs with digit full
    · rfl
    · simp only [List.all_cons, digit, Bool.true_and] at other
      exact ih other
    · rfl

private theorem decodeDigits_of_digits {maxIntegerValue value : ℕ} {ds : Str}
    (ten : 10 ≤ maxIntegerValue) (fits : value ≤ maxIntegerValue)
    (digits : ds.all isDigit = true) :
    decodeDigits maxIntegerValue value ds =
      if Nat.ofDigitChars 10 ds value ≤ maxIntegerValue then some (Nat.ofDigitChars 10 ds value)
      else none := by
  induction ds generalizing value with
  | nil => simp [decodeDigits, fits]
  | cons c cs ih =>
    simp only [List.all_cons, Bool.and_eq_true] at digits
    have digit := digit_le digits.1
    have lower := le_ofDigitChars (10 * value + (c.toNat - '0'.toNat)) cs
    have longer := @le_ofDigitChars_of_ne_nil (10 * value + (c.toNat - '0'.toNat)) cs
    simp only [decodeDigits, digits.1, not_true_eq_false, if_false, Nat.ofDigitChars_cons]
    split_ifs with full inside inside
    · exfalso
      obtain ⟨reached, passed | more | large⟩ := full
      · omega
      · have tenfold := longer more
        omega
      · omega
    · rfl
    · rw [Nat.mul_comm value 10, ih (by omega) digits.2, if_pos inside]
    · by_cases next : 10 * value + (c.toNat - '0'.toNat) ≤ maxIntegerValue
      · rw [Nat.mul_comm value 10, ih next digits.2, if_neg inside]
      · omega

private theorem decodeDigits_eq {maxIntegerValue : ℕ} (ten : 10 ≤ maxIntegerValue) (ds : Str) :
    decodeDigits maxIntegerValue 0 ds =
      if ds.all isDigit ∧ Nat.ofDigitChars 10 ds 0 ≤ maxIntegerValue then
        some (Nat.ofDigitChars 10 ds 0)
      else none := by
  cases digits : ds.all isDigit with
  | true => simp [decodeDigits_of_digits ten (Nat.zero_le _) digits]
  | false => simp [decodeDigits_eq_none digits]

end Numbers

section Integers

variable {R : Type} [Doubles R]

def number (n : ℤ) : Value R := if n ≤ maxInt then .int (.ofInt n) else .uint (.ofNat n.toNat)

/-- The integer that a token stands for; a minus alone is zero. -/
def integerOf (token : Str) : Option ℤ :=
  if token.head? = some '-' then
    if (token.drop 1).all isDigit then some (-(Nat.ofDigitChars 10 (token.drop 1) 0 : ℕ)) else none
  else if token.all isDigit then some (Nat.ofDigitChars 10 token 0 : ℕ)
  else none

/-- What one of the types of 64 bits holds. -/
def fits64 (n : ℤ) : Bool := minInt64 ≤ n ∧ n ≤ maxUInt64

theorem decodeNumber_eq (token : Str) : (decodeNumber token : Option (Value R)) =
    match (integerOf token).filter fits64 with
    | some n => some (number n)
    | none => (Doubles.scan token).map Value.real := by
  have limits : maxInt = 2147483647 ∧ minInt64 = -9223372036854775808 ∧
      maxUInt64 = 18446744073709551615 := ⟨rfl, rfl, rfl⟩
  by_cases negative : token.head? = some '-'
  · simp only [decodeNumber, integerOf, negative, if_true]
    rw [decodeDigits_eq (by decide)]
    by_cases digits : (token.drop 1).all isDigit = true
    · by_cases fits : Nat.ofDigitChars 10 (token.drop 1) 0 ≤ 2 ^ 63
      · have inside : minInt64 ≤ -((Nat.ofDigitChars 10 (token.drop 1) 0 : ℕ) : ℤ) ∧
            -((Nat.ofDigitChars 10 (token.drop 1) 0 : ℕ) : ℤ) ≤ maxUInt64 := by omega
        have small : -((Nat.ofDigitChars 10 (token.drop 1) 0 : ℕ) : ℤ) ≤ maxInt := by omega
        rw [if_pos ⟨digits, fits⟩, if_pos digits, Option.filter_some_pos (p := fits64) (decide_eq_true inside)]
        simp only [number, if_pos small]
      · have outside : ¬minInt64 ≤ -((Nat.ofDigitChars 10 (token.drop 1) 0 : ℕ) : ℤ) := by omega
        rw [if_neg (fun h => fits h.2), if_pos digits, Option.filter_some_neg (p := fits64) (decide_eq_false fun h => outside h.1)]
    · rw [if_neg (fun h => digits h.1), if_neg digits, Option.filter_none]
  · simp only [decodeNumber, integerOf, negative, if_false]
    rw [decodeDigits_eq (by decide)]
    by_cases digits : token.all isDigit = true
    · by_cases fits : Nat.ofDigitChars 10 token 0 ≤ 2 ^ 64 - 1
      · have inside : minInt64 ≤ ((Nat.ofDigitChars 10 token 0 : ℕ) : ℤ) ∧
            ((Nat.ofDigitChars 10 token 0 : ℕ) : ℤ) ≤ maxUInt64 := by omega
        rw [if_pos ⟨digits, fits⟩, if_pos digits, Option.filter_some_pos (p := fits64) (decide_eq_true inside)]
        simp only [number, Int.toNat_natCast]
        split_ifs <;> rfl
      · have outside : ¬((Nat.ofDigitChars 10 token 0 : ℕ) : ℤ) ≤ maxUInt64 := by omega
        rw [if_neg (fun h => fits h.2), if_pos digits, Option.filter_some_neg (p := fits64) (decide_eq_false fun h => outside h.2)]
    · rw [if_neg (fun h => digits h.1), if_neg digits, Option.filter_none]

def decimal (n : ℤ) : Str :=
  if n < 0 then '-' :: Nat.toDigits 10 n.natAbs else Nat.toDigits 10 n.natAbs

theorem all_isDigit_toDigits (n : ℕ) : (Nat.toDigits 10 n).all isDigit = true := by
  simp only [List.all_eq_true, isDigit_eq]
  intro c inside
  exact Nat.isDigit_of_mem_toDigits (by decide) (by decide) inside

private theorem head_toDigits_ne (n : ℕ) : (Nat.toDigits 10 n).head? ≠ some '-' := by
  intro minus
  have digits := List.all_eq_true.mp (all_isDigit_toDigits n) '-' (List.mem_of_mem_head? minus)
  exact absurd digits (by decide)

private theorem integerOf_decimal (n : ℤ) : integerOf (decimal n) = some n := by
  unfold decimal
  split_ifs with negative
  · simp only [integerOf, List.head?_cons, if_true, List.drop_one, List.tail_cons,
      all_isDigit_toDigits, Nat.ofDigitChars_ten_toDigits]
    rw [Option.some.injEq]
    omega
  · simp only [integerOf, head_toDigits_ne, if_false, all_isDigit_toDigits, if_true,
      Nat.ofDigitChars_ten_toDigits]
    rw [Option.some.injEq]
    omega

theorem uintText_eq (value : UInt64) : uintText value = decimal value.toNat := by
  simp [uintText, uintToString_eq, decimal]

theorem intText_eq (value : Int64) : intText value = decimal value.toInt := by
  by_cases least : value = Int64.minValue
  · subst least
    rw [intText, if_pos rfl, uintToString_eq, List.append_nil]
    rfl
  · have above := value.minValue_le_toInt
    have apart : value.toInt ≠ Int64.minValue.toInt := fun same => least (Int64.toInt_inj.mp same)
    have below := value.toInt_lt
    rw [Int64.toInt_minValue] at above apart
    rw [intText, if_neg least, decimal]
    by_cases negative : value < 0
    · have sign : value.toInt < 0 := Int64.lt_iff_toInt_lt.mp negative
      have flipped : (-value).toInt.toNat = value.toInt.natAbs := by
        rw [Int64.toInt_neg, Int.bmod_eq_of_le (by omega) (by omega)]
        omega
      rw [if_pos negative, if_pos sign, uintToString_eq, List.append_nil, flipped]
    · have sign : ¬value.toInt < 0 := fun h => negative (Int64.lt_iff_toInt_lt.mpr h)
      have same : value.toInt.toNat = value.toInt.natAbs := by omega
      rw [if_neg negative, if_neg sign, uintToString_eq, List.append_nil, same]

theorem decodeNumber_decimal {n : ℤ} (above : minInt64 ≤ n) (below : n ≤ maxUInt64) :
    (decodeNumber (decimal n) : Option (Value R)) = some (number n) := by
  rw [decodeNumber_eq, integerOf_decimal, Option.filter_some_pos (p := fits64) (decide_eq_true ⟨above, below⟩)]

end Integers

section Strings

/-- A `char` is signed, so that a byte behind the ASCII range is below a space. -/
def isAnyCharRequiredQuoting (s : Str) : Bool :=
  s.any fun c => c = '\\' ∨ c = '\x22' ∨ (c.toNat < 0x20 ∨ 0x80 ≤ c.toNat) ∨ c.toNat < 0x80

def replacementCharacter : ℕ := 0xfffd

/-- The code point at `c` with `cs` behind it, and how far the cursor moves on. -/
def utf8ToCodepoint (c : Char) (cs : Str) : ℕ × ℕ :=
  let firstByte := c.toNat
  let low (c : Char) := c.toNat &&& 0x3f
  if firstByte < 0x80 then (firstByte, 0)
  else if firstByte < 0xe0 then
    match cs with
    | s1 :: _ =>
        let calculated := (firstByte &&& 0x1f) <<< 6 ||| low s1
        (if calculated < 0x80 then replacementCharacter else calculated, 1)
    | _ => (replacementCharacter, 0)
  else if firstByte < 0xf0 then
    match cs with
    | s1 :: s2 :: _ =>
        let calculated := (firstByte &&& 0x0f) <<< 12 ||| low s1 <<< 6 ||| low s2
        (if 0xd800 ≤ calculated ∧ calculated ≤ 0xdfff then replacementCharacter
          else if calculated < 0x800 then replacementCharacter else calculated, 2)
    | _ => (replacementCharacter, 0)
  else if firstByte < 0xf8 then
    match cs with
    | s1 :: s2 :: s3 :: _ =>
        let calculated :=
          (firstByte &&& 0x07) <<< 18 ||| low s1 <<< 12 ||| low s2 <<< 6 ||| low s3
        (if calculated < 0x10000 then replacementCharacter else calculated, 3)
    | _ => (replacementCharacter, 0)
  else (replacementCharacter, 0)

def hexChar (n : ℕ) : Char := Char.ofNat (if n < 10 then '0'.toNat + n else 'a'.toNat + (n - 10))

def hex2 (byte : ℕ) : Str := [hexChar (byte / 16), hexChar (byte % 16)]

def toHex16Bit (x : ℕ) : Str := hex2 (x >>> 8 &&& 0xff) ++ hex2 (x &&& 0xff)

/-- The first cases of the `switch`. -/
def shortEscape (c : Char) : Option Char :=
  if c = '\x22' ∨ c = '\\' then some c
  else if c = '\x08' then some 'b'
  else if c = '\x0c' then some 'f'
  else if c = '\n' then some 'n'
  else if c = '\r' then some 'r'
  else if c = '\t' then some 't'
  else none

/-- The last case. -/
def escape (cp : ℕ) : Str :=
  if cp < 0x80 ∧ 0x20 ≤ cp then [Char.ofNat cp]
  else if cp < 0x10000 then '\\' :: 'u' :: toHex16Bit cp
  else
    let cp := cp - 0x10000
    '\\' :: 'u' :: toHex16Bit ((cp >>> 10) + 0xd800) ++
      '\\' :: 'u' :: toHex16Bit ((cp &&& 0x3ff) + 0xdc00)

def escapeFrom : ℕ → Str → Str
  | _, [] => []
  | ahead + 1, _ :: cs => escapeFrom ahead cs
  | 0, c :: cs =>
      match shortEscape c with
      | some e => '\\' :: e :: escapeFrom 0 cs
      | none =>
          let (cp, moved) := utf8ToCodepoint c cs
          escape cp ++ escapeFrom moved cs

def valueToQuotedStringN (value : Str) : Str :=
  if ¬isAnyCharRequiredQuoting value then '\x22' :: value ++ ['\x22']
  else '\x22' :: escapeFrom 0 value ++ ['\x22']

end Strings

section Utf8

/-- The bytes of a character. -/
def utf8Bytes (c : Char) : Str := (String.utf8EncodeChar c).map fun b => Char.ofNat b.toNat

private theorem marked_eq (n : ℕ) {marker mask : ℕ} (k bits : ℕ) (aligned : marker = 2 ^ bits * k)
    (ones : mask = 2 ^ bits - 1) (shift : ℕ) :
    marker ||| (mask &&& (n >>> shift)) = n / 2 ^ shift % 2 ^ bits + marker := by
  have small : n / 2 ^ shift % 2 ^ bits < 2 ^ bits := Nat.mod_lt _ (Nat.two_pow_pos bits)
  rw [ones, Nat.and_comm, Nat.and_two_pow_sub_one_eq_mod, Nat.shiftRight_eq_div_pow, aligned,
    ← Nat.two_pow_add_eq_or_of_lt small k, Nat.add_comm]

theorem codePointToUTF8_eq (cp : ℕ) : codePointToUTF8 cp =
    if cp ≤ 0x7f then [Char.ofNat cp]
    else if cp ≤ 0x7ff then [Char.ofNat (cp / 64 % 32 + 0xc0), Char.ofNat (cp % 64 + 0x80)]
    else if cp ≤ 0xffff then
      [Char.ofNat (cp / 4096 % 16 + 0xe0), Char.ofNat (cp / 64 % 64 + 0x80),
        Char.ofNat (cp % 64 + 0x80)]
    else if cp ≤ 0x10ffff then
      [Char.ofNat (cp / 262144 % 8 + 0xf0), Char.ofNat (cp / 4096 % 64 + 0x80),
        Char.ofNat (cp / 64 % 64 + 0x80), Char.ofNat (cp % 64 + 0x80)]
    else [] := by
  have tail := @marked_eq cp 0x80 0x3f 2 6 rfl rfl
  have two := @marked_eq cp 0xc0 0x1f 6 5 rfl rfl
  have three := @marked_eq cp 0xe0 0xf 14 4 rfl rfl
  have four := @marked_eq cp 0xf0 0x7 30 3 rfl rfl
  simp only [codePointToUTF8, tail, two, three, four]
  simp

private theorem ofNat_byte {n : ℕ} (small : n < 256) : Char.ofNat
    (UInt8.ofNat n).toNat = Char.ofNat n := by
  rw [UInt8.toNat_ofNat', Nat.mod_eq_of_lt small]

private theorem toNat_le (c : Char) : c.toNat ≤ 0x10ffff := by
  rcases c.valid with small | ⟨_, large⟩
  · have below : c.toNat < 0xd800 := small
    omega
  · have below : c.toNat < 0x110000 := large
    omega

theorem codePointToUTF8_toNat (c : Char) : codePointToUTF8 c.toNat = utf8Bytes c := by
  have valid := toNat_le c
  have same : c.val.toNat = c.toNat := rfl
  rw [codePointToUTF8_eq, utf8Bytes, String.utf8EncodeChar]
  simp only [same]
  split_ifs with one two three <;> simp only [List.map_cons, List.map_nil]
  · rw [ofNat_byte (by omega)]
  · rw [ofNat_byte (by omega), ofNat_byte (by omega)]
  · rw [ofNat_byte (by omega), ofNat_byte (by omega), ofNat_byte (by omega)]
  · rw [ofNat_byte (by omega), ofNat_byte (by omega), ofNat_byte (by omega),
      ofNat_byte (by omega)]

theorem toNat_ofNat {n : ℕ} (valid : n.isValidChar) : (Char.ofNat n).toNat = n := by
  rw [Char.ofNat, dif_pos valid]
  rfl

end Utf8

section Cursor

/-- What the reader makes of an escaped code point; one behind the last comes as two halves. -/
def encoded (cp : ℕ) : Str :=
  if cp ≤ 0x10ffff then codePointToUTF8 cp
  else codePointToUTF8 ((cp - 0x10000) / 1024 + 0xd800) ++
    codePointToUTF8 ((cp - 0x10000) % 1024 + 0xdc00)

/-- What comes back of a string. -/
def repairFrom : ℕ → Str → Str
  | _, [] => []
  | ahead + 1, _ :: cs => repairFrom ahead cs
  | 0, c :: cs =>
      let (cp, moved) := utf8ToCodepoint c cs
      encoded cp ++ repairFrom moved cs

abbrev repair (s : Str) : Str := repairFrom 0 s

/-- A string of characters in UTF-8. -/
def WellFormed (s : Str) : Prop := ∃ text : List Char, s = text.flatMap utf8Bytes

private theorem low_eq (n : ℕ) : n &&& 0x3f = n % 64 := Nat.and_two_pow_sub_one_eq_mod n 6

private theorem join_eq {high low : ℕ} (bits : ℕ) (small : low < 2 ^ bits) :
    high <<< bits ||| low = high * 2 ^ bits + low := by
  rw [← Nat.shiftLeft_add_eq_or_of_lt small, Nat.shiftLeft_eq]

private theorem join_low (high x : ℕ) : high <<< 6 ||| x % 64 = high * 64 + x % 64 :=
  join_eq 6 (Nat.mod_lt _ (by decide))

theorem two_eq (b x : ℕ) : (b &&& 0x1f) <<< 6 ||| (x &&& 0x3f) = b % 32 * 64 + x % 64 := by
  rw [show b &&& 0x1f = b % 32 from Nat.and_two_pow_sub_one_eq_mod b 5, low_eq,
    join_low]

theorem three_eq (b x y : ℕ) : (b &&& 0x0f) <<< 12 ||| (x &&& 0x3f) <<< 6 ||| (y &&& 0x3f) =
    (b % 16 * 64 + x % 64) * 64 + y % 64 := by
  have shifted : (b % 16) <<< 12 ||| (x % 64) <<< 6 = (b % 16 * 64 + x % 64) <<< 6 := by
    rw [join_eq _ (by rw [Nat.shiftLeft_eq]; omega), Nat.shiftLeft_eq, Nat.shiftLeft_eq]
    omega
  rw [show b &&& 0x0f = b % 16 from Nat.and_two_pow_sub_one_eq_mod b 4, low_eq, low_eq, shifted,
    join_low]

theorem four_eq (b x y z : ℕ) :
    (b &&& 0x07) <<< 18 ||| (x &&& 0x3f) <<< 12 ||| (y &&& 0x3f) <<< 6 ||| (z &&& 0x3f) =
      ((b % 8 * 64 + x % 64) * 64 + y % 64) * 64 + z % 64 := by
  have first : (b % 8) <<< 18 ||| (x % 64) <<< 12 = (b % 8 * 64 + x % 64) <<< 12 := by
    rw [join_eq _ (by rw [Nat.shiftLeft_eq]; omega), Nat.shiftLeft_eq, Nat.shiftLeft_eq]
    omega
  have second : (b % 8 * 64 + x % 64) <<< 12 ||| (y % 64) <<< 6 =
      ((b % 8 * 64 + x % 64) * 64 + y % 64) <<< 6 := by
    rw [join_eq _ (by rw [Nat.shiftLeft_eq]; omega), Nat.shiftLeft_eq, Nat.shiftLeft_eq]
    omega
  rw [show b &&& 0x07 = b % 8 from Nat.and_two_pow_sub_one_eq_mod b 3, low_eq, low_eq, low_eq,
    first, second, join_low]

private theorem repairFrom_eq_drop (ahead : ℕ) (s : Str) : repairFrom ahead s = repair
    (s.drop ahead) := by
  induction s generalizing ahead with
  | nil => simp [repairFrom]
  | cons c cs ih =>
    cases ahead with
    | zero => rfl
    | succ ahead => simpa [repairFrom] using ih ahead

theorem repair_cons (c : Char) (cs : Str) : repair (c :: cs) =
    encoded (utf8ToCodepoint c cs).1 ++ repair (cs.drop (utf8ToCodepoint c cs).2) := by
  simp only [repair, repairFrom]
  rw [repairFrom_eq_drop]

theorem encoded_toNat (c : Char) : encoded c.toNat = utf8Bytes c := by
  rw [encoded, if_pos (toNat_le c), codePointToUTF8_toNat]

theorem encoded_of_valid {n : ℕ} (valid : n.isValidChar) : encoded n = utf8Bytes (Char.ofNat n) := by
  rw [← encoded_toNat, toNat_ofNat valid]

private theorem encoded_replacement :
    encoded replacementCharacter = [Char.ofNat 0xef, Char.ofNat 0xbf, Char.ofNat 0xbd] := by
  decide

theorem tail_toNat (n : ℕ) : (Char.ofNat (n % 64 + 0x80)).toNat = n % 64 + 0x80 :=
  toNat_ofNat (.inl (by omega))

theorem utf8ToCodepoint_utf8Bytes (x : Char) : ∃ c cs, utf8Bytes x = c :: cs ∧
    ∀ rest, utf8ToCodepoint c (cs ++ rest) = (x.toNat, cs.length) := by
  have valid : x.toNat.isValidChar := x.valid
  have bound := toNat_le x
  rw [← codePointToUTF8_toNat, codePointToUTF8_eq]
  split_ifs with one two three
  · refine ⟨_, _, rfl, fun rest => ?_⟩
    have small : x.toNat < 0x80 := by omega
    simp [utf8ToCodepoint, small]
  · refine ⟨_, _, rfl, fun rest => ?_⟩
    have lead : (Char.ofNat (x.toNat / 64 % 32 + 0xc0)).toNat = x.toNat / 64 % 32 + 0xc0 :=
      toNat_ofNat (.inl (by omega))
    simp only [utf8ToCodepoint, two_eq, lead, tail_toNat, List.cons_append]
    rw [if_neg (by omega), if_pos (by omega), if_neg (by omega)]
    exact Prod.ext (by simp only; omega) rfl
  · refine ⟨_, _, rfl, fun rest => ?_⟩
    have lead : (Char.ofNat (x.toNat / 4096 % 16 + 0xe0)).toNat = x.toNat / 4096 % 16 + 0xe0 :=
      toNat_ofNat (.inl (by omega))
    have whole : ((x.toNat / 4096 % 16 + 0xe0) % 16 * 64 + (x.toNat / 64 % 64 + 0x80) % 64) * 64 +
        (x.toNat % 64 + 0x80) % 64 = x.toNat := by omega
    simp only [utf8ToCodepoint, three_eq, lead, tail_toNat, List.cons_append, whole]
    have scalar : ¬(0xd800 ≤ x.toNat ∧ x.toNat ≤ 0xdfff) := by
      rcases valid with small | ⟨large, -⟩ <;> omega
    rw [if_neg (by omega), if_neg (by omega), if_pos (by omega), if_neg scalar,
      if_neg (by omega)]
    rfl
  · refine ⟨_, _, rfl, fun rest => ?_⟩
    have lead : (Char.ofNat (x.toNat / 262144 % 8 + 0xf0)).toNat = x.toNat / 262144 % 8 + 0xf0 :=
      toNat_ofNat (.inl (by omega))
    have whole : (((x.toNat / 262144 % 8 + 0xf0) % 8 * 64 + (x.toNat / 4096 % 64 + 0x80) % 64) * 64 +
        (x.toNat / 64 % 64 + 0x80) % 64) * 64 + (x.toNat % 64 + 0x80) % 64 = x.toNat := by omega
    simp only [utf8ToCodepoint, four_eq, lead, tail_toNat, List.cons_append, whole]
    rw [if_neg (by omega), if_neg (by omega), if_neg (by omega), if_pos (by omega),
      if_neg (by omega)]
    rfl

private theorem length_encoded {n : ℕ} (bound : n ≤ 0x10ffff) : (encoded n).length =
    if n ≤ 0x7f then 1 else if n ≤ 0x7ff then 2 else if n ≤ 0xffff then 3 else 4 := by
  rw [encoded, if_pos bound, codePointToUTF8_eq]
  split_ifs <;> rfl

private theorem encoded_of_large {n : ℕ} (large : 0x10ffff < n) (bound : n < 0x200000) :
    ∃ rest, encoded n = Char.ofNat 0xed :: rest := by
  have half : ∀ k, k < 0x7c0 → codePointToUTF8 (k + 0xd800) = Char.ofNat 0xed :: [
      Char.ofNat ((k + 0xd800) / 64 % 64 + 0x80), Char.ofNat ((k + 0xd800) % 64 + 0x80)] := by
    intro k small
    have lead : (k + 0xd800) / 4096 % 16 + 0xe0 = 0xed := by omega
    rw [codePointToUTF8_eq, if_neg (by omega), if_neg (by omega), if_pos (by omega), lead]
  rw [encoded, if_neg (by omega), half _ (by omega)]
  exact ⟨_, rfl⟩

structure Kept (c : Char) (cs back : Str) (r : ℕ × ℕ) : Prop where
  char : ∃ x : Char, encoded r.1 = utf8Bytes x
  rest : back = cs.drop r.2

private theorem kept_of_valid {c : Char} {cs back : Str} {n moved : ℕ} (valid : n.isValidChar)
    (len : (encoded n).length = moved + 1) (same : encoded n ++ back = c :: cs) :
    Kept c cs back (n, moved) where
  char := ⟨Char.ofNat n, encoded_of_valid valid⟩
  rest := by
    rw [← List.drop_succ_cons (a := c), ← same, List.drop_left' len]

private theorem kept_replaced {c : Char} {cs back : Str} {moved : ℕ}
    (same : encoded replacementCharacter ++ back = c :: cs)
    (cut : c.toNat = 0xef → cs.length < 2) : Kept c cs back (replacementCharacter, moved) := by
  rw [encoded_replacement] at same
  obtain ⟨rfl, rfl⟩ := List.cons.inj same
  exact absurd (cut rfl) (by simp)

theorem kept {c : Char} {cs back : Str}
    (same : encoded (utf8ToCodepoint c cs).1 ++ back = c :: cs) :
    Kept c cs back (utf8ToCodepoint c cs) := by
  simp only [utf8ToCodepoint, two_eq, three_eq, four_eq] at same ⊢
  split_ifs at same ⊢ with one two three four
  · exact kept_of_valid (.inl (by omega)) (by rw [length_encoded (by omega), if_pos (by omega)]) same
  · match cs with
    | [] => exact kept_replaced same fun lead => by omega
    | s1 :: rest =>
      simp only at same ⊢
      split_ifs at same ⊢ with short
      · exact kept_replaced same fun lead => by omega
      · exact kept_of_valid (.inl (by omega))
          (by rw [length_encoded (by omega), if_neg (by omega), if_pos (by omega)]) same
  · match cs with
    | [] => exact kept_replaced same fun lead => by simp
    | [_] => exact kept_replaced same fun lead => by simp
    | s1 :: s2 :: rest =>
      simp only at same ⊢
      split_ifs at same ⊢ with half short
      · exact kept_replaced same fun lead => by omega
      · exact kept_replaced same fun lead => by omega
      · exact kept_of_valid (by unfold Nat.isValidChar; omega)
          (by rw [length_encoded (by omega), if_neg (by omega), if_neg (by omega),
            if_pos (by omega)]) same
  · match cs with
    | [] => exact kept_replaced same fun lead => by omega
    | [_] => exact kept_replaced same fun lead => by omega
    | [_, _] => exact kept_replaced same fun lead => by omega
    | s1 :: s2 :: s3 :: rest =>
      simp only at same ⊢
      split_ifs at same ⊢ with short
      · exact kept_replaced same fun lead => by omega
      · by_cases bound : ((c.toNat % 8 * 64 + s1.toNat % 64) * 64 + s2.toNat % 64) * 64 +
            s3.toNat % 64 ≤ 0x10ffff
        · exact kept_of_valid (by unfold Nat.isValidChar; omega)
            (by rw [length_encoded bound, if_neg (by omega), if_neg (by omega),
              if_neg (by omega)]) same
        · obtain ⟨tail, begins⟩ := encoded_of_large (Nat.lt_of_not_le bound) (by omega)
          rw [begins] at same
          obtain ⟨rfl, -⟩ := List.cons.inj same
          exact absurd (show (Char.ofNat 0xed).toNat = 0xed from rfl) (by omega)
  · exact kept_replaced same fun lead => by omega

/-- The reader gets back exactly the strings of characters in UTF-8. -/
theorem repair_eq_self_iff (s : Str) : repair s = s ↔ WellFormed s := by
  constructor
  · induction len : s.length using Nat.strong_induction_on generalizing s with
    | _ n ih =>
      intro same
      cases s with
      | nil => exact ⟨[], rfl⟩
      | cons c cs =>
        rw [repair_cons] at same
        have ⟨⟨x, bytes⟩, rest⟩ := kept same
        have shorter : (cs.drop (utf8ToCodepoint c cs).2).length < n := by
          rw [← len, List.length_drop, List.length_cons]
          omega
        obtain ⟨text, whole⟩ := ih _ shorter _ rfl rest
        refine ⟨x :: text, ?_⟩
        rw [List.flatMap_cons, ← whole, ← bytes, ← rest, same]
  · rintro ⟨text, rfl⟩
    induction text with
    | nil => rfl
    | cons x text ih =>
      obtain ⟨c, cs, bytes, step⟩ := utf8ToCodepoint_utf8Bytes x
      rw [List.flatMap_cons]
      calc repair (utf8Bytes x ++ text.flatMap utf8Bytes)
          = encoded x.toNat ++ repair ((cs ++ text.flatMap utf8Bytes).drop cs.length) := by
            rw [bytes, List.cons_append, repair_cons, step]
        _ = utf8Bytes x ++ text.flatMap utf8Bytes := by
            rw [List.drop_left, ih, encoded_toNat]

end Cursor

section Escapes

private theorem hexDigit_hexChar {n : ℕ} (small : n < 16) : hexDigit (hexChar n) = some n := by
  interval_cases n <;> rfl

def Plain (c : Char) : Prop := c ≠ '\x22' ∧ c ≠ '\\'

private theorem plain_hexChar {n : ℕ} (small : n < 16) : Plain (hexChar n) := by
  interval_cases n <;> exact ⟨by decide, by decide⟩

private theorem toHex16Bit_eq {x : ℕ} (small : x < 0x10000) : toHex16Bit x =
    [hexChar (x / 4096), hexChar (x / 256 % 16), hexChar (x / 16 % 16), hexChar (x % 16)] := by
  have high : x >>> 8 &&& 0xff = x / 256 := by
    rw [Nat.and_two_pow_sub_one_eq_mod _ 8, Nat.shiftRight_eq_div_pow]
    omega
  have low : x &&& 0xff = x % 256 := Nat.and_two_pow_sub_one_eq_mod x 8
  have first : x / 256 / 16 = x / 4096 := by omega
  have third : x % 256 / 16 = x / 16 % 16 := by omega
  have last : x % 256 % 16 = x % 16 := by omega
  simp only [toHex16Bit, hex2, high, low, first, third, last, List.cons_append, List.nil_append]

private theorem hexCode_digits {x : ℕ} (small : x < 0x10000) : hexCode (hexChar (x / 4096))
    (hexChar (x / 256 % 16)) (hexChar (x / 16 % 16)) (hexChar (x % 16)) = some x := by
  simp only [hexCode, hexDigit_hexChar (show x / 4096 < 16 by omega),
    hexDigit_hexChar (Nat.mod_lt _ (by decide : 0 < 16)), Option.pure_def, Option.bind_eq_bind,
    Option.bind_some]
  rw [Option.some.injEq]
  omega

section Read

variable {t : Str}

private theorem readString_plain {c : Char} (plain : Plain c) : readString
    (c :: t) = readString t := by
  rw [readString.eq_def]
  simp [plain.1, plain.2]

private theorem readString_quote : readString ('\x22' :: t) = (true, t) := by
  rw [readString.eq_def]
  simp

private theorem readString_escape (e : Char) : readString ('\\' :: e :: t) = readString t := by
  rw [readString.eq_def]
  simp

private theorem readString_unicode {x : ℕ} (small : x < 0x10000) :
    readString ('\\' :: 'u' :: toHex16Bit x ++ t) = readString t := by
  rw [toHex16Bit_eq small]
  simp only [List.cons_append, List.nil_append]
  rw [readString_escape, readString_plain (plain_hexChar (by omega)),
    readString_plain (plain_hexChar (by omega)), readString_plain (plain_hexChar (by omega)),
    readString_plain (plain_hexChar (by omega))]

private theorem decodeChars_plain {c : Char} (plain : Plain c) :
    decodeChars (c :: t) = (decodeChars t).map (c :: ·) := by
  rw [decodeChars.eq_def]
  simp [plain.1, plain.2]

private theorem decodeChars_simple {e x : Char} (named : e ≠ 'u') (found : simpleEscape e = some x)
    : decodeChars ('\\' :: e :: t) = (decodeChars t).map (x :: ·) := by
  rw [decodeChars.eq_def]
  simp [named, found]

private theorem decodeChars_unicode {x : ℕ} (small : x < 0x10000)
    (single : ¬(0xd800 ≤ x ∧ x ≤ 0xdbff)) : decodeChars ('\\' :: 'u' :: toHex16Bit x ++ t) =
      (decodeChars t).map (codePointToUTF8 x ++ ·) := by
  rw [toHex16Bit_eq small, decodeChars.eq_def]
  simp [hexCode_digits small, single]

private theorem decodeChars_pair {high low : ℕ} (first : 0xd800 ≤ high ∧ high ≤ 0xdbff)
    (small : low < 0x10000) :
    decodeChars ('\\' :: 'u' :: toHex16Bit high ++ '\\' :: 'u' :: toHex16Bit low ++ t) =
      (decodeChars t).map
        (codePointToUTF8 (0x10000 + (high &&& 0x3ff) <<< 10 + (low &&& 0x3ff)) ++ ·) := by
  rw [toHex16Bit_eq (by omega : high < 0x10000), toHex16Bit_eq small, decodeChars.eq_def]
  simp [hexCode_digits (by omega : high < 0x10000), hexCode_digits small, first]

end Read

structure Escapable (cp : ℕ) : Prop where
  plain : Plain (Char.ofNat cp)
  scalar : ¬(0xd800 ≤ cp ∧ cp ≤ 0xdfff)
  bound : cp < 0x200000

private theorem plain_of_large {cp : ℕ} (large : 0x80 ≤ cp) : Plain (Char.ofNat cp) := by
  have apart : ∀ c : Char, 0 < c.toNat → c.toNat < 0x80 → Char.ofNat cp ≠ c := by
    rintro c positive small rfl
    by_cases valid : cp.isValidChar
    · rw [toNat_ofNat valid] at small
      omega
    · rw [Char.ofNat, dif_neg valid] at positive
      exact absurd positive (by decide)
  exact ⟨apart _ (by decide) (by decide), apart _ (by decide) (by decide)⟩

private theorem escapable_of_large {cp : ℕ} (large : 0x80 ≤ cp)
    (scalar : ¬(0xd800 ≤ cp ∧ cp ≤ 0xdfff)) (bound : cp < 0x200000) : Escapable cp :=
  ⟨plain_of_large large, scalar, bound⟩

private theorem escapable_replacement : Escapable replacementCharacter :=
  escapable_of_large (by decide) (by decide) (by decide)

private theorem escapable {c : Char} {cs : Str} (other : shortEscape c = none) :
    Escapable (utf8ToCodepoint c cs).1 := by
  simp only [utf8ToCodepoint, two_eq, three_eq, four_eq]
  split_ifs with one two three four
  · refine ⟨?_, by omega, by omega⟩
    rw [Char.ofNat_toNat]
    constructor <;> rintro rfl <;> exact absurd other (by decide)
  · match cs with
    | [] => exact escapable_replacement
    | s1 :: rest =>
      simp only
      split_ifs
      · exact escapable_replacement
      · exact escapable_of_large (by omega) (by omega) (by omega)
  · match cs with
    | [] | [_] => exact escapable_replacement
    | s1 :: s2 :: rest =>
      simp only
      split_ifs with half
      · exact escapable_replacement
      · exact escapable_replacement
      · exact escapable_of_large (by omega) half (by omega)
  · match cs with
    | [] | [_] | [_, _] => exact escapable_replacement
    | s1 :: s2 :: s3 :: rest =>
      simp only
      split_ifs
      · exact escapable_replacement
      · exact escapable_of_large (by omega) (by omega) (by omega)
  · exact escapable_replacement

private theorem readString_escapes {cp : ℕ} (h : Escapable cp) (t : Str) :
    readString (escape cp ++ t) = readString t := by
  have bound := h.bound
  have low : (cp - 0x10000) &&& 0x3ff = (cp - 0x10000) % 1024 :=
    Nat.and_two_pow_sub_one_eq_mod _ 10
  have high : (cp - 0x10000) >>> 10 = (cp - 0x10000) / 1024 := Nat.shiftRight_eq_div_pow _ 10
  unfold escape
  split_ifs with printable basic
  · exact readString_plain h.plain
  · exact readString_unicode basic
  · simp only [low, high]
    rw [List.append_assoc, readString_unicode (by omega), readString_unicode (by omega)]

private theorem decodeChars_escapes {cp : ℕ} (h : Escapable cp) (t : Str) :
    decodeChars (escape cp ++ t) = (decodeChars t).map (encoded cp ++ ·) := by
  have bound := h.bound
  have scalar := h.scalar
  have low : (cp - 0x10000) &&& 0x3ff = (cp - 0x10000) % 1024 :=
    Nat.and_two_pow_sub_one_eq_mod _ 10
  have high : (cp - 0x10000) >>> 10 = (cp - 0x10000) / 1024 := Nat.shiftRight_eq_div_pow _ 10
  unfold escape
  split_ifs with printable basic
  · rw [List.singleton_append, decodeChars_plain h.plain, encoded, if_pos (by omega),
      codePointToUTF8_eq, if_pos (by omega)]
    rfl
  · rw [decodeChars_unicode basic (by omega), encoded, if_pos (by omega)]
  · simp only [low, high]
    by_cases inside : cp ≤ 0x10ffff
    · have whole : 0x10000 + ((cp - 0x10000) / 1024 + 0xd800) % 1024 * 2 ^ 10 +
          ((cp - 0x10000) % 1024 + 0xdc00) % 1024 = cp := by omega
      rw [decodeChars_pair (by omega) (by omega), encoded, if_pos inside,
        Nat.and_two_pow_sub_one_eq_mod _ 10, Nat.and_two_pow_sub_one_eq_mod _ 10,
        Nat.shiftLeft_eq, whole]
    · rw [List.append_assoc, decodeChars_unicode (by omega) (by omega),
        decodeChars_unicode (by omega) (by omega), encoded, if_neg inside]
      simp [Function.comp_def]

theorem short {c e : Char} (found : shortEscape c = some e) :
    e ≠ 'u' ∧ simpleEscape e = some c ∧ c.toNat < 0x80 := by
  unfold shortEscape at found
  split_ifs at found with same <;> cases found
  · rcases same with rfl | rfl <;> decide
  all_goals subst_vars; decide

theorem encoded_ascii {c : Char} (small : c.toNat < 0x80) : encoded c.toNat = [c] := by
  rw [encoded, if_pos (by omega), codePointToUTF8_eq, if_pos (by omega), Char.ofNat_toNat]

private theorem readString_escapeFrom (ahead : ℕ) (s t : Str) :
    readString (escapeFrom ahead s ++ '\x22' :: t) = (true, t) := by
  induction s generalizing ahead with
  | nil => simp [escapeFrom, readString_quote]
  | cons c cs ih =>
    cases ahead with
    | succ ahead => exact ih ahead
    | zero =>
      simp only [escapeFrom]
      split
      · rw [List.cons_append, List.cons_append, readString_escape, ih]
      · rename_i other
        simp only [List.append_assoc]
        rw [readString_escapes (escapable other), ih]

private theorem decodeChars_escapeFrom (ahead : ℕ) (s : Str) :
    decodeChars (escapeFrom ahead s) = some (repairFrom ahead s) := by
  induction s generalizing ahead with
  | nil => simp [escapeFrom, repairFrom, decodeChars]
  | cons c cs ih =>
    cases ahead with
    | succ ahead => exact ih ahead
    | zero =>
      simp only [escapeFrom, repairFrom]
      split
      · rename_i e found
        obtain ⟨named, simple, small⟩ := short found
        have step : utf8ToCodepoint c cs = (c.toNat, 0) := by simp [utf8ToCodepoint, small]
        rw [decodeChars_simple named simple, ih, step]
        simp [encoded_ascii small]
      · rename_i other
        rw [decodeChars_escapes (escapable other), ih]
        rfl

end Escapes

section Quoted

theorem valueToQuotedStringN_eq (s : Str) :
    valueToQuotedStringN s = '\x22' :: escapeFrom 0 s ++ ['\x22'] := by
  cases s with
  | nil => rfl
  | cons c cs =>
    have required : isAnyCharRequiredQuoting (c :: cs) = true := by
      simp only [isAnyCharRequiredQuoting, List.any_cons, Bool.or_eq_true, decide_eq_true_eq]
      omega
    rw [valueToQuotedStringN, if_neg (not_not.mpr required)]

theorem scan_valueToQuotedStringN (s t : Str) :
    scan (valueToQuotedStringN s ++ t) = (.string, t) := by
  rw [valueToQuotedStringN_eq]
  simp only [List.cons_append, List.append_assoc, List.nil_append]
  rw [scan]
  simp [singles, List.lookup_cons, readString_escapeFrom, orError]

theorem decodeString_valueToQuotedStringN (s : Str) :
    decodeString (valueToQuotedStringN s) = some (repair s) := by
  rw [valueToQuotedStringN_eq, decodeString]
  simp [decodeChars_escapeFrom]

/-- A string is read back exactly if it is well-formed UTF-8, whatever its bytes are. -/
theorem string_read_back_iff (s : Str) :
    decodeString (valueToQuotedStringN s) = some s ↔ WellFormed s := by
  rw [decodeString_valueToQuotedStringN, Option.some.injEq, repair_eq_self_iff]

end Quoted

end Tsender.Json
