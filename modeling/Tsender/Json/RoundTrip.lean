/- Tsender/Json/RoundTrip
   source: jsoncpp.cpp (BuiltStyledStreamWriter, writeString; Reader: parse, readValue, readArray,
   readObject)
   digest: What the writer writes of a value of finite doubles is read back unless it stands too
   deep, and says the same if its texts are well-formed. -/

import Mathlib.Data.Char
import Mathlib.Data.List.Lex
import Tsender.Json.Writer

set_option autoImplicit false
set_option relaxedAutoImplicit false

namespace Tsender.Json

section Tokens

/-- Nothing that goes on with a number. -/
def Ends (rest : Str) : Prop := ∀ c ∈ rest.head?, isDigit c = false ∧ c ≠ '.' ∧ c ≠ 'e' ∧ c ≠ 'E'

private theorem ends_cons {c : Char} (h : c = ',' ∨ c = ']' ∨ c = '\x7d') (rest : Str) :
    Ends (c :: rest) := by
  intro d same
  cases same
  rcases h with rfl | rfl | rfl <;> decide

private theorem ends_nil : Ends [] := fun _ none => by simp at none

structure IsNumeral (t : Str) : Prop where
  shape : ∃ c int frac exp, t = c :: (int ++ frac ++ exp) ∧ (isDigit c = true ∨ c = '-') ∧
    int.all isDigit = true ∧
    (frac = [] ∨ ∃ ds, frac = '.' :: ds ∧ ds.all isDigit = true) ∧
    (exp = [] ∨ ∃ sign ds, exp = 'e' :: sign :: ds ∧ (sign = '+' ∨ sign = '-') ∧
      ds.all isDigit = true)

private theorem dropWhile_digits {ds rest : Str} (digits : ds.all isDigit = true)
    (stop : ∀ c ∈ rest.head?, isDigit c = false) : (ds ++ rest).dropWhile isDigit = rest := by
  rw [List.dropWhile_append_of_pos (List.all_eq_true.mp digits)]
  cases rest with
  | nil => rfl
  | cons c rest => simp [stop c rfl]

private theorem readExponent_append {exp rest : Str} (ends : Ends rest)
    (shape : exp = [] ∨ ∃ sign ds, exp = 'e' :: sign :: ds ∧ (sign = '+' ∨ sign = '-') ∧
      ds.all isDigit = true) : readExponent (exp ++ rest) = rest := by
  rcases shape with rfl | ⟨sign, ds, rfl, signed, digits⟩
  · cases rest with
    | nil => rfl
    | cons c rest => simp [readExponent, (ends c rfl).2.2]
  · simp only [List.cons_append, readExponent, true_or, if_true, if_pos signed]
    exact dropWhile_digits digits fun c h => (ends c h).1

private theorem readNumber_append {int frac exp rest : Str} (ends : Ends rest)
    (digits : int.all isDigit = true)
    (fraction : frac = [] ∨ ∃ ds, frac = '.' :: ds ∧ ds.all isDigit = true)
    (exponent : exp = [] ∨ ∃ sign ds, exp = 'e' :: sign :: ds ∧ (sign = '+' ∨ sign = '-') ∧
      ds.all isDigit = true) : readNumber (int ++ frac ++ exp ++ rest) = rest := by
  have stop : ∀ c ∈ (exp ++ rest).head?, isDigit c = false ∧ c ≠ '.' := by
    rcases exponent with rfl | ⟨sign, ds, rfl, -⟩
    · exact fun c h => ⟨(ends c h).1, (ends c h).2.1⟩
    · intro c h
      cases h
      decide
  have back := readExponent_append ends exponent
  rcases fraction with rfl | ⟨ds, rfl, more⟩
  · have skipped : (int ++ [] ++ exp ++ rest).dropWhile isDigit = exp ++ rest := by
      rw [List.append_nil, List.append_assoc]
      exact dropWhile_digits digits fun c h => (stop c h).1
    rw [readNumber, skipped]
    split
    · rename_i point
      exact absurd rfl (stop '.' (by rw [point]; rfl)).2
    · exact back
  · have skipped : (int ++ '.' :: ds ++ exp ++ rest).dropWhile isDigit =
        '.' :: (ds ++ (exp ++ rest)) := by
      rw [List.append_assoc, List.append_assoc]
      exact dropWhile_digits digits fun c h => by cases h; decide
    rw [readNumber, skipped]
    simp only [dropWhile_digits more fun c h => (stop c h).1, back]

private theorem scan_number {c : Char} (first : isDigit c = true ∨ c = '-') (cs : Str) :
    scan (c :: cs) = (.number, readNumber cs) := by
  have apart : ∀ d : Char, isDigit d = false → d ≠ '-' → c ≠ d := by
    rintro d other minus rfl
    rcases first with digit | rfl
    · rw [other] at digit
      exact absurd digit (by decide)
    · exact minus rfl
  have single : singles.lookup c = none := by
    rw [List.lookup_eq_none_iff]
    have others : ∀ p ∈ singles, isDigit p.1 = false ∧ p.1 ≠ '-' := by decide
    intro p inside
    exact bne_iff_ne.mpr (apart p.1 (others p inside).1 (others p inside).2)
  simp only [scan, single]
  rw [if_neg (apart _ (by decide) (by decide)), if_neg (apart _ (by decide) (by decide)),
    if_pos first]

private theorem scan_numeral {t rest : Str} (h : IsNumeral t) (ends : Ends rest) :
    scan (t ++ rest) = (.number, rest) := by
  obtain ⟨c, int, frac, exp, rfl, first, digits, fraction, exponent⟩ := h.shape
  rw [List.cons_append, scan_number first, readNumber_append ends digits fraction exponent]

private theorem isNumeral_decimal (n : ℤ) : IsNumeral (decimal n) := by
  unfold decimal
  split_ifs
  · exact ⟨'-', Nat.toDigits 10 n.natAbs, [], [], by simp, .inr rfl, all_isDigit_toDigits _, .inl rfl, .inl rfl⟩
  · obtain ⟨c, cs, whole⟩ := List.exists_cons_of_ne_nil (Nat.toDigits_ne_nil (b := 10)
      (n := n.natAbs))
    have digits := all_isDigit_toDigits n.natAbs
    rw [whole, List.all_cons, Bool.and_eq_true] at digits
    exact ⟨c, cs, [], [], by simp [whole], .inl digits.1, digits.2, .inl rfl, .inl rfl⟩

private theorem readToken_append {c : Char} {cs rest : Str} {type : TokenType}
    (tight : isSpace c = false) (found : scan (c :: cs ++ rest) = (type, rest)) :
    readToken (c :: cs ++ rest) = (⟨type, c :: cs⟩, rest) := by
  have start : skipSpaces (c :: cs ++ rest) = c :: cs ++ rest := by
    simp [skipSpaces, tight]
  simp only [readToken, start, found]
  rw [List.length_append, Nat.add_sub_cancel, List.take_left]

private theorem skipCommentTokens_eq {cs : Str} (h : (readToken cs).1.type ≠ .comment) :
    skipCommentTokens cs = readToken cs := by
  unfold skipCommentTokens
  cases cs.length with
  | zero => rfl
  | succ n => simp only [skipComments, if_neg h]

private theorem skipCommentTokens_append {c : Char} {cs rest : Str} {type : TokenType}
    (tight : isSpace c = false) (found : scan (c :: cs ++ rest) = (type, rest))
    (other : type ≠ .comment) : skipCommentTokens (c :: cs ++ rest) = (⟨type, c :: cs⟩, rest) := by
  have token := readToken_append tight found
  rw [skipCommentTokens_eq (by rw [token]; exact other), token]

end Tokens

section Reread

variable {R : Type}

mutual

/-- The value that comes back, with members of one name become one. -/
def reread : Value R → Value R
  | .null => .null
  | .bool b => .bool b
  | .int n => number n.toInt
  | .uint n => number n.toNat
  | .real r => .real r
  | .string s => .string (repair s)
  | .array vs => .array (rereadAll vs)
  | .object ms => .object (rereadMembers [] ms)

def rereadAll : List (Value R) → List (Value R)
  | [] => []
  | v :: vs => reread v :: rereadAll vs

def rereadMembers : List (Str × Value R) → List (Str × Value R) → List (Str × Value R)
  | before, [] => before
  | before, (name, v) :: ms => rereadMembers (setMember before (repair name) (reread v)) ms

end

mutual

def height : Value R → ℕ
  | .array vs => heights vs
  | .object ms => memberHeights ms
  | .null | .bool _ | .int _ | .uint _ | .real _ | .string _ => 0

def heights : List (Value R) → ℕ
  | [] => 0
  | v :: vs => max (height v + 1) (heights vs)

def memberHeights : List (Str × Value R) → ℕ
  | [] => 0
  | (_, v) :: ms => max (height v + 1) (memberHeights ms)

end

mutual

def reals : Value R → List R
  | .real r => [r]
  | .array vs => allReals vs
  | .object ms => memberReals ms
  | .null | .bool _ | .int _ | .uint _ | .string _ => []

def allReals : List (Value R) → List R
  | [] => []
  | v :: vs => reals v ++ allReals vs

def memberReals : List (Str × Value R) → List R
  | [] => []
  | (_, v) :: ms => reals v ++ memberReals ms

end

theorem mem_allReals {vs : List (Value R)} {v : Value R} {r : R} (inside : v ∈ vs)
    (deeper : r ∈ reals v) : r ∈ allReals vs := by
  induction vs with
  | nil => exact absurd inside List.not_mem_nil
  | cons w vs ih =>
    rw [allReals, List.mem_append]
    rcases List.mem_cons.mp inside with rfl | behind
    · exact .inl deeper
    · exact .inr (ih behind)

theorem mem_memberReals {ms : List (Str × Value R)} {m : Str × Value R} {r : R} (inside : m ∈ ms)
    (deeper : r ∈ reals m.2) : r ∈ memberReals ms := by
  induction ms with
  | nil => exact absurd inside List.not_mem_nil
  | cons w ms ih =>
    obtain ⟨name, v⟩ := w
    rw [memberReals, List.mem_append]
    rcases List.mem_cons.mp inside with rfl | behind
    · exact .inl deeper
    · exact .inr (ih behind)

end Reread

section Values

variable {R : Type} [Doubles R]

/-- A finite double: its text has a point or an exponent, and the stream reads it back. -/
structure PrintsBack (r : R) : Prop where
  numeral : IsNumeral (Doubles.toStr r)
  marked : '.' ∈ Doubles.toStr r ∨ 'e' ∈ Doubles.toStr r
  scanned : Doubles.scan (Doubles.toStr r) = some r

private theorem integerOf_eq_none {t : Str} (marked : '.' ∈ t ∨ 'e' ∈ t) : integerOf t = none := by
  have other : ∃ c ∈ t, isDigit c = false ∧ c ≠ '-' := by
    rcases marked with h | h
    · exact ⟨'.', h, by decide, by decide⟩
    · exact ⟨'e', h, by decide, by decide⟩
  obtain ⟨c, inside, noDigit, noMinus⟩ := other
  have mixed : t.all isDigit ≠ true := fun all => by
    have digit := List.all_eq_true.mp all c inside
    rw [noDigit] at digit
    exact absurd digit (by decide)
  unfold integerOf
  split_ifs with negative rest
  · exfalso
    obtain ⟨d, t, rfl⟩ := List.exists_cons_of_ne_nil (List.ne_nil_of_mem inside)
    cases negative
    rcases List.mem_cons.mp inside with rfl | behind
    · exact noMinus rfl
    · have digit := List.all_eq_true.mp rest c behind
      rw [noDigit] at digit
      exact absurd digit (by decide)
  · rfl
  · rfl

private theorem decodeNumber_real {r : R} (h : PrintsBack r) :
    (decodeNumber (Doubles.toStr r) : Option (Value R)) = some (.real r) := by
  rw [decodeNumber_eq, integerOf_eq_none h.marked]
  simp [h.scanned]

structure ReadsBack (v : Value R) : Prop where
  front : ∃ c cs, render v = c :: cs ∧ isSpace c = false ∧ c ≠ ']'
  read : ∀ fuel depth rest, 2 * (render v).length + 1 ≤ fuel → Ends rest →
    readValue fuel depth (render v ++ rest) =
      if depth + height v ≤ stackLimit then .ok (reread v, rest) else .error .limit

private theorem readsBack_of_token {v : Value R} {c : Char} {cs : Str} {type : TokenType}
    (text : render v = c :: cs) (tight : isSpace c = false ∧ c ≠ ']') (flat : height v = 0)
    (found : ∀ rest, Ends rest → scan (c :: cs ++ rest) = (type, rest)) (other : type ≠ .comment)
    (value : ∀ fuel depth rest cs', ¬stackLimit < depth →
      skipCommentTokens cs' = (⟨type, c :: cs⟩, rest) →
      readValue (fuel + 1) depth cs' = .ok (reread v, rest)) : ReadsBack v := by
  refine ⟨⟨c, cs, text, tight⟩, fun fuel depth rest enough ends => ?_⟩
  obtain ⟨fuel, rfl⟩ : ∃ n, fuel = n + 1 := ⟨fuel - 1, by omega⟩
  have token := skipCommentTokens_append tight.1 (found rest ends) other
  rw [flat, Nat.add_zero, text]
  by_cases deep : stackLimit < depth
  · rw [if_neg (by omega), readValue, if_pos deep]
  · rw [if_pos (by omega)]
    exact value fuel depth rest _ deep token

private theorem readsBack_null : ReadsBack (.null : Value R) :=
  readsBack_of_token rfl (by decide) rfl (fun _ _ => rfl) (by decide)
    fun fuel depth rest cs' shallow token => by
      rw [readValue, if_neg shallow, token]
      rfl

private theorem readsBack_bool (b : Bool) : ReadsBack (.bool b : Value R) := by
  cases b with
  | true =>
    exact readsBack_of_token rfl (by decide) rfl (fun _ _ => rfl) (by decide)
      fun fuel depth rest cs' shallow token => by
        rw [readValue, if_neg shallow, token]
        rfl
  | false =>
    exact readsBack_of_token rfl (by decide) rfl (fun _ _ => rfl) (by decide)
      fun fuel depth rest cs' shallow token => by
        rw [readValue, if_neg shallow, token]
        rfl

private theorem tight_numeral {c : Char} {cs : Str} (h : IsNumeral (c :: cs)) :
    isSpace c = false ∧ c ≠ ']' := by
  obtain ⟨d, int, frac, exp, same, first, -⟩ := h.shape
  cases same
  rcases first with digit | rfl
  · constructor
    · by_contra space
      simp only [isSpace, decide_eq_true_eq, Bool.not_eq_false, List.mem_cons,
        List.not_mem_nil, or_false] at space
      rcases space with rfl | rfl | rfl | rfl <;> exact absurd digit (by decide)
    · rintro rfl
      exact absurd digit (by decide)
  · decide

private theorem readsBack_numeral {v : Value R} (numeral : IsNumeral (render v))
    (flat : height v = 0) (decoded : decodeNumber (render v) = some (reread v)) : ReadsBack v := by
  obtain ⟨c, cs, text⟩ : ∃ c cs, render v = c :: cs := by
    obtain ⟨c, int, frac, exp, same, -⟩ := numeral.shape
    exact ⟨c, _, same⟩
  rw [text] at numeral decoded
  exact readsBack_of_token text (tight_numeral numeral) flat
    (fun rest ends => scan_numeral numeral ends) (by decide)
    fun fuel depth rest cs' shallow token => by
      rw [readValue, if_neg shallow, token]
      simp only [decoded]

private theorem readsBack_string (s : Str) : ReadsBack (.string s : Value R) := by
  have text : render (.string s : Value R) = '\x22' :: (escapeFrom 0 s ++ ['\x22']) := by
    rw [render, valueToQuotedStringN_eq]
    rfl
  have found : ∀ rest, Ends rest →
      scan ('\x22' :: (escapeFrom 0 s ++ ['\x22']) ++ rest) = (.string, rest) := by
    intro rest _
    rw [← text]
    exact scan_valueToQuotedStringN s rest
  have decoded : decodeString ('\x22' :: (escapeFrom 0 s ++ ['\x22'])) = some (repair s) := by
    rw [← text]
    exact decodeString_valueToQuotedStringN s
  refine readsBack_of_token text (by decide) rfl found (by decide)
    fun fuel depth rest cs' shallow token => ?_
  rw [readValue, if_neg shallow, token]
  simp only [decoded]
  rfl

private theorem skipCommentTokens_single {c : Char} {type : TokenType} (tight : isSpace c = false)
    (other : type ≠ .comment) (rest : Str) (found : scan (c :: rest) = (type, rest)) :
    skipCommentTokens (c :: rest) = (⟨type, [c]⟩, rest) :=
  @skipCommentTokens_append c [] rest type tight found other

private theorem readElements_back {vs : List (Value R)} (each : ∀ v ∈ vs, ReadsBack v)
    (some : vs ≠ []) : ∀ fuel depth before rest, 2 * (renderElements vs).length + 2 ≤ fuel →
      readElements fuel depth before (renderElements vs ++ ']' :: rest) =
        if depth + heights vs ≤ stackLimit then .ok (.array (before ++ rereadAll vs), rest)
        else .error .limit := by
  induction vs with
  | nil => exact absurd rfl some
  | cons v vs ih =>
    intro fuel depth before rest enough
    obtain ⟨fuel, rfl⟩ : ∃ n, fuel = n + 1 := ⟨fuel - 1, by omega⟩
    have first := (each v List.mem_cons_self).read fuel (depth + 1)
    simp only [renderElements, List.length_append] at enough
    have tall : heights (v :: vs) = max (height v + 1) (heights vs) := rfl
    simp only [renderElements, rereadAll, List.append_assoc]
    by_cases fits : depth + 1 + height v ≤ stackLimit
    · cases vs with
      | nil =>
        have read := first (']' :: rest) (by omega) (ends_cons (by decide) rest)
        rw [if_pos fits] at read
        have one : heights [v] = height v + 1 := by simp [heights]
        simp only [List.isEmpty_nil, if_true, List.nil_append, rereadAll]
        rw [if_pos (by omega), readElements, read]
        simp only [skipCommentTokens_single (c := ']') (by decide) (by decide) rest rfl]
      | cons w vs =>
        simp only [List.isEmpty_cons, Bool.false_eq_true, if_false, List.cons_append,
          List.length_cons] at enough ⊢
        have read := first (',' :: (renderElements (w :: vs) ++ ']' :: rest)) (by omega)
          (ends_cons (by decide) _)
        have others := ih (fun u inside => each u (List.mem_cons_of_mem _ inside)) (by simp) fuel
          depth (before ++ [reread v]) rest (by omega)
        rw [if_pos fits] at read
        rw [readElements, read]
        simp only [@skipCommentTokens_single ',' .arraySeparator (by decide)
          (by decide) _ rfl, others, List.append_assoc, List.singleton_append]
        exact if_congr (by omega) rfl rfl
    · have tail : ∃ c cs, (if vs.isEmpty then [] else ',' :: renderElements vs) ++ ']' :: rest =
          c :: cs ∧ (c = ',' ∨ c = ']' ∨ c = '\x7d') := by
        cases vs with
        | nil => exact ⟨_, _, rfl, by decide⟩
        | cons w vs => exact ⟨_, _, rfl, by decide⟩
      obtain ⟨c, cs, same, mark⟩ := tail
      have read := first (c :: cs) (by omega) (ends_cons mark cs)
      rw [if_neg fits] at read
      rw [same, readElements, read]
      exact (if_neg (by omega)).symm

private theorem readsBack_array {vs : List (Value R)} (each : ∀ v ∈ vs, ReadsBack v) :
    ReadsBack (.array vs) := by
  refine ⟨⟨'[', renderElements vs ++ [']'], by simp [render], by decide⟩,
    fun fuel depth rest enough _ => ?_⟩
  have text : render (.array vs) ++ rest = '[' :: (renderElements vs ++ ']' :: rest) := by
    simp [render]
  have opened := @skipCommentTokens_single '[' .arrayBegin (by decide)
    (by decide) (renderElements vs ++ ']' :: rest) rfl
  have size : (render (.array vs)).length = (renderElements vs).length + 2 := by simp [render]
  have tall : height (.array vs) = heights vs := rfl
  obtain ⟨fuel, rfl⟩ : ∃ n, fuel = n + 1 := ⟨fuel - 1, by omega⟩
  by_cases deep : stackLimit < depth
  · rw [if_neg (by omega), readValue, if_pos deep]
  · rw [text, readValue, if_neg deep, opened]
    cases vs with
    | nil =>
      rw [if_pos (by have flat : heights ([] : List (Value R)) = 0 := rfl; omega)]
      rfl
    | cons v vs =>
      obtain ⟨c, cs, first, tight, other⟩ := (each v List.mem_cons_self).front
      have elements := readElements_back each (by simp) fuel depth [] rest (by omega)
      have start : ∃ more, renderElements (v :: vs) ++ ']' :: rest = c :: more := by
        rw [renderElements, first]
        exact ⟨_, rfl⟩
      obtain ⟨more, same⟩ := start
      rw [same] at elements ⊢
      have still : skipSpaces (c :: more) = c :: more := by simp [skipSpaces, tight]
      simp only [still]
      split
      · rename_i closed
        cases closed
        exact absurd rfl other
      · exact elements

private theorem skipCommentTokens_name (name rest : Str) :
    skipCommentTokens (valueToQuotedStringN name ++ rest) =
      (⟨.string, valueToQuotedStringN name⟩, rest) := by
  have found := scan_valueToQuotedStringN name rest
  rw [valueToQuotedStringN_eq] at found ⊢
  exact skipCommentTokens_append (by decide) found (by decide)

private theorem readToken_single {c : Char} {type : TokenType} (tight : isSpace c = false)
    (rest : Str)
    (found : scan (c :: rest) = (type, rest)) : readToken (c :: rest) = (⟨type, [c]⟩, rest) :=
  @readToken_append c [] rest type tight found

private theorem readMembers_back {ms : List (Str × Value R)} (each : ∀ m ∈ ms, ReadsBack m.2)
    (some : ms ≠ []) : ∀ fuel depth last before rest, 2 * (renderMembers ms).length + 2 ≤ fuel →
      readMembers fuel depth last before (renderMembers ms ++ '\x7d' :: rest) =
        if depth + memberHeights ms ≤ stackLimit then .ok (.object (rereadMembers before ms), rest)
        else .error .limit := by
  induction ms with
  | nil => exact absurd rfl some
  | cons m ms ih =>
    obtain ⟨name, v⟩ := m
    intro fuel depth last before rest enough
    obtain ⟨fuel, rfl⟩ : ∃ n, fuel = n + 1 := ⟨fuel - 1, by omega⟩
    have back : ReadsBack v := each (name, v) List.mem_cons_self
    have first := back.read fuel (depth + 1)
    simp only [renderMembers, List.length_append, List.length_cons] at enough
    have tall : memberHeights ((name, v) :: ms) = max (height v + 1) (memberHeights ms) := rfl
    have named := decodeString_valueToQuotedStringN name
    have colon := fun rest => @readToken_single ':' .memberSeparator (by decide)
      rest rfl
    simp only [renderMembers, rereadMembers, List.append_assoc, List.cons_append]
    rw [readMembers, skipCommentTokens_name]
    simp only [reduceCtorEq, false_and, if_false, ne_eq, not_true_eq_false, named, colon]
    by_cases fits : depth + 1 + height v ≤ stackLimit
    · cases ms with
      | nil =>
        have read := first ('\x7d' :: rest) (by omega) (ends_cons (by decide) rest)
        have one : memberHeights [(name, v)] = height v + 1 := by simp [memberHeights]
        rw [if_pos fits] at read
        simp only [List.isEmpty_nil, if_true, List.nil_append, rereadMembers]
        rw [if_pos (by omega), read]
        simp only [readToken_single (c := '\x7d') (by decide) rest rfl]
      | cons m ms =>
        simp only [List.isEmpty_cons, Bool.false_eq_true, if_false, List.cons_append,
          List.length_cons] at enough ⊢
        have read := first (',' :: (renderMembers (m :: ms) ++ '\x7d' :: rest)) (by omega)
          (ends_cons (by decide) _)
        have others := ih (fun u inside => each u (List.mem_cons_of_mem _ inside)) (by simp) fuel
          depth (repair name) (setMember before (repair name) (reread v)) rest (by omega)
        rw [if_pos fits] at read
        rw [read]
        simp only [@readToken_single ',' .arraySeparator (by decide) _ rfl, others]
        exact if_congr (by omega) rfl rfl
    · have tail : ∃ c cs, (if ms.isEmpty then [] else ',' :: renderMembers ms) ++ '\x7d' :: rest =
          c :: cs ∧ (c = ',' ∨ c = ']' ∨ c = '\x7d') := by
        cases ms with
        | nil => exact ⟨_, _, rfl, by decide⟩
        | cons m ms => exact ⟨_, _, rfl, by decide⟩
      obtain ⟨c, cs, same, mark⟩ := tail
      have read := first (c :: cs) (by omega) (ends_cons mark cs)
      rw [if_neg fits] at read
      rw [same, read]
      exact (if_neg (by omega)).symm

private theorem readsBack_object {ms : List (Str × Value R)} (each : ∀ m ∈ ms, ReadsBack m.2) :
    ReadsBack (.object ms) := by
  refine ⟨⟨'\x7b', renderMembers ms ++ ['\x7d'], by simp [render], by decide⟩,
    fun fuel depth rest enough _ => ?_⟩
  have text : render (.object ms) ++ rest =
      '\x7b' :: (renderMembers ms ++ '\x7d' :: rest) := by
    simp [render]
  have opened := @skipCommentTokens_single '\x7b' .objectBegin (by decide)
    (by decide) (renderMembers ms ++ '\x7d' :: rest) rfl
  have size : (render (.object ms)).length = (renderMembers ms).length + 2 := by simp [render]
  have tall : height (.object ms) = memberHeights ms := rfl
  obtain ⟨fuel, rfl⟩ : ∃ n, fuel = n + 2 := ⟨fuel - 2, by omega⟩
  by_cases deep : stackLimit < depth
  · rw [if_neg (by omega), readValue, if_pos deep]
  · rw [text, readValue, if_neg deep, opened]
    cases ms with
    | nil =>
      rw [if_pos (by have flat : memberHeights ([] : List (Str × Value R)) = 0 := rfl; omega)]
      simp only [renderMembers, List.nil_append, readMembers,
        @skipCommentTokens_single '\x7d' .objectEnd (by decide) (by decide) rest rfl]
      rfl
    | cons m ms => exact readMembers_back each (by simp) (fuel + 1) depth [] [] rest (by omega)

/-- Every value with finite doubles is read back from its text. -/
theorem readsBack (v : Value R) : (∀ r ∈ reals v, PrintsBack r) → ReadsBack v := by
  refine Inductive.all (motive := fun v => (∀ r ∈ reals v, PrintsBack r) → ReadsBack v) ?_ v
  exact {
    null := fun _ => readsBack_null
    bool := fun b _ => readsBack_bool b
    int := fun n _ => by
      have range : minInt64 ≤ n.toInt ∧ n.toInt ≤ maxUInt64 := by
        have above := n.minValue_le_toInt
        have below := n.toInt_lt
        rw [Int64.toInt_minValue] at above
        exact ⟨above, by unfold maxUInt64; omega⟩
      exact readsBack_numeral (isNumeral_decimal _) rfl (decodeNumber_decimal range.1 range.2)
    uint := fun n _ => by
      have range : (n.toNat : ℤ) ≤ maxUInt64 := by
        have below := n.toNat_lt
        unfold maxUInt64
        omega
      exact readsBack_numeral (isNumeral_decimal _) rfl
        (decodeNumber_decimal (by unfold minInt64; omega) range)
    real := fun r printed =>
      have finite := printed r (by simp [reals])
      readsBack_numeral finite.numeral rfl (decodeNumber_real finite)
    string := fun s _ => readsBack_string s
    array := fun vs each printed => readsBack_array fun v inside =>
      each v inside fun r deeper => printed r (mem_allReals inside deeper)
    object := fun ms each printed => readsBack_object fun m inside =>
      each m inside fun r deeper => printed r (mem_memberReals inside deeper) }

theorem height_le_length (v : Value R) : 2 * height v ≤ (render v).length := by
  refine Inductive.all (motive := fun v => 2 * height v ≤ (render v).length) ?_ v
  refine {
    null := Nat.zero_le _
    bool := fun b => Nat.zero_le _
    int := fun n => Nat.zero_le _
    uint := fun n => Nat.zero_le _
    real := fun r => Nat.zero_le _
    string := fun s => Nat.zero_le _
    array := fun vs each => ?_
    object := fun ms each => ?_ }
  · have inner : 2 * heights vs ≤ (renderElements vs).length + 2 := by
      induction vs with
      | nil => exact Nat.zero_le _
      | cons v vs ih =>
        have first := each v List.mem_cons_self
        have others := ih fun u below => each u (List.mem_cons_of_mem _ below)
        cases vs with
        | nil => simpa [heights, renderElements, Nat.mul_add] using first
        | cons u us =>
          rw [heights, renderElements, List.length_append]
          simp only [List.isEmpty_cons, Bool.false_eq_true, if_false, List.length_cons]
          omega
    simpa [height, render] using inner
  · have inner : 2 * memberHeights ms ≤ (renderMembers ms).length + 2 := by
      induction ms with
      | nil => exact Nat.zero_le _
      | cons m ms ih =>
        obtain ⟨name, v⟩ := m
        have first : 2 * height v ≤ (render v).length := each (name, v) List.mem_cons_self
        have others := ih fun u below => each u (List.mem_cons_of_mem _ below)
        cases ms with
        | nil =>
          simp only [memberHeights, renderMembers, List.length_append, List.length_cons]
          omega
        | cons u us =>
          rw [memberHeights, renderMembers, List.length_append]
          simp only [List.isEmpty_cons, Bool.false_eq_true, if_false, List.length_cons,
            List.length_append]
          omega
    simpa [height, render] using inner

end Values

section Order

variable {R : Type}

private theorem keyLt_iff (a b : Str) : keyLt a b = true ↔ a < b := by
  induction a generalizing b with
  | nil => cases b <;> simp [keyLt]
  | cons x a ih =>
    cases b with
    | nil => simp [keyLt]
    | cons y b =>
      simp only [keyLt, decide_eq_true_eq, ih, List.cons_lt_cons_iff]
      rfl

theorem mem_insertMember {name : Str} {v : Value R} {ms : List (Str × Value R)} {m : Str × Value R}
    (inside : m ∈ insertMember name v ms) : m = (name, v) ∨ m ∈ ms := by
  induction ms with
  | nil => exact .inl (by simpa [insertMember] using inside)
  | cons n ms ih =>
    obtain ⟨k, w⟩ := n
    simp only [insertMember] at inside
    split_ifs at inside with before same
    · exact List.mem_cons.mp inside
    · exact (List.mem_cons.mp inside).imp_right (List.mem_cons_of_mem _)
    · rcases List.mem_cons.mp inside with rfl | behind
      · exact .inr List.mem_cons_self
      · exact (ih behind).imp_right (List.mem_cons_of_mem _)

private theorem lookup_behind {key name : Str} (apart : key ≠ name) (v : Value R)
    (ms : List (Str × Value R)) : ((name, v) :: ms).lookup key = ms.lookup key := by
  have different : (key == name) = false := by simpa using apart
  rw [List.lookup_cons, different]

private theorem lookup_insertMember (name key : Str) (v : Value R) (ms : List (Str × Value R)) :
    (insertMember name v ms).lookup key = if key = name then some v else ms.lookup key := by
  induction ms with
  | nil =>
    split_ifs with here
    · rw [here, insertMember, List.lookup_cons_self]
    · rw [insertMember, lookup_behind here]
  | cons n ms ih =>
    obtain ⟨k, w⟩ := n
    simp only [insertMember]
    split_ifs with before here same here here
    · rw [here, List.lookup_cons_self]
    · rw [lookup_behind here]
    · rw [here, List.lookup_cons_self]
    · rw [lookup_behind here, lookup_behind (same ▸ here)]
    · rw [lookup_behind (here ▸ same), ih, if_pos here]
    · rw [List.lookup_cons, List.lookup_cons, ih, if_neg here]

def Ascending (ms : List (Str × Value R)) : Prop := ms.Pairwise fun m n => m.1 < n.1

private theorem ascending_insertMember {name : Str} {v : Value R} {ms : List (Str × Value R)}
    (h : Ascending ms) : Ascending (insertMember name v ms) := by
  induction ms with
  | nil => simp [insertMember, Ascending]
  | cons n ms ih =>
    obtain ⟨k, w⟩ := n
    obtain ⟨first, rest⟩ := List.pairwise_cons.mp h
    simp only [insertMember]
    split_ifs with before same
    · rw [keyLt_iff] at before
      refine List.pairwise_cons.mpr ⟨fun m inside => ?_, h⟩
      rcases List.mem_cons.mp inside with rfl | behind
      · exact before
      · exact lt_trans before (first m behind)
    · subst same
      exact List.pairwise_cons.mpr ⟨first, rest⟩
    · rw [keyLt_iff] at before
      refine List.pairwise_cons.mpr ⟨fun m inside => ?_, ih rest⟩
      rcases mem_insertMember inside with rfl | behind
      · exact lt_of_le_of_ne (not_lt.mp before) (Ne.symm same)
      · exact first m behind

theorem ascending_membersInOrder (ms : List (Str × Value R)) : Ascending (membersInOrder ms) := by
  induction ms with
  | nil => exact List.Pairwise.nil
  | cons m ms ih => exact ascending_insertMember ih

theorem mem_setMember {ms : List (Str × Value R)} {key : Str} {v : Value R} {m : Str × Value R}
    (inside : m ∈ setMember ms key v) : m.1 = key ∨ m ∈ ms := by
  induction ms with
  | nil =>
    rw [setMember, List.mem_singleton] at inside
    exact .inl (by rw [inside])
  | cons n ms ih =>
    obtain ⟨k, u⟩ := n
    simp only [setMember] at inside
    split_ifs at inside with here
    · rcases List.mem_cons.mp inside with rfl | behind
      · exact .inl here.symm
      · exact .inr (List.mem_cons_of_mem _ behind)
    · rcases List.mem_cons.mp inside with rfl | behind
      · exact .inr List.mem_cons_self
      · exact (ih behind).imp_right (List.mem_cons_of_mem _)

theorem name_membersInOrder {ms : List (Str × Value R)} {m : Str × Value R}
    (inside : m ∈ membersInOrder ms) : ∃ n ∈ ms, m.1 = n.1 := by
  induction ms with
  | nil => exact absurd inside List.not_mem_nil
  | cons n ms ih =>
    obtain ⟨name, v⟩ := n
    rcases mem_insertMember inside with rfl | behind
    · exact ⟨_, List.mem_cons_self, rfl⟩
    · obtain ⟨n, below, same⟩ := ih behind
      exact ⟨n, List.mem_cons_of_mem _ below, same⟩

theorem lookup_membersInOrder (key : Str) (ms : List (Str × Value R)) :
    (membersInOrder ms).lookup key = (ms.lookup key).map inOrder := by
  induction ms with
  | nil => rfl
  | cons m ms ih =>
    obtain ⟨name, v⟩ := m
    rw [membersInOrder, lookup_insertMember, ih]
    split_ifs with here
    · rw [here, List.lookup_cons_self, Option.map_some]
    · rw [lookup_behind here]

theorem lookup_rereadMembers {ms : List (Str × Value R)} (ascending : Ascending ms)
    (named : ∀ m ∈ ms, WellFormed m.1) (before : List (Str × Value R)) (key : Str) :
    (rereadMembers before ms).lookup key =
      ((ms.lookup key).map reread).or (before.lookup key) := by
  induction ms generalizing before with
  | nil => rfl
  | cons m ms ih =>
    obtain ⟨name, v⟩ := m
    obtain ⟨first, rest⟩ := List.pairwise_cons.mp ascending
    have kept : repair name = name := (repair_eq_self_iff name).mpr (named _ List.mem_cons_self)
    rw [rereadMembers, kept, ih rest fun n inside => named n (List.mem_cons_of_mem _ inside)]
    by_cases here : key = name
    · subst here
      have absent : ms.lookup key = none := by
        rw [List.lookup_eq_none_iff]
        intro n inside
        exact bne_iff_ne.mpr (ne_of_lt (first n inside))
      simp [absent]
    · rw [lookup_setMember_other here, lookup_behind here]

private theorem reals_of_insertMember {name : Str} {v : Value R} {ms : List (Str × Value R)} {r : R}
    (inside : r ∈ memberReals (insertMember name v ms)) : r ∈ reals v ∨ r ∈ memberReals ms := by
  induction ms with
  | nil => simpa [insertMember, memberReals] using inside
  | cons n ms ih =>
    obtain ⟨k, w⟩ := n
    simp only [insertMember] at inside
    split_ifs at inside <;> simp only [memberReals, List.mem_append] at inside ⊢
    · exact inside
    · exact inside.imp_right .inr
    · rcases inside with front | behind
      · exact .inr (.inl front)
      · exact (ih behind).imp_right .inr

theorem reals_inOrder (v : Value R) : ∀ r ∈ reals (inOrder v), r ∈ reals v := by
  refine Inductive.all (motive := fun v => ∀ r ∈ reals (inOrder v), r ∈ reals v) ?_ v
  refine {
    null := fun r inside => inside
    bool := fun b r inside => inside
    int := fun n r inside => inside
    uint := fun n r inside => inside
    real := fun x r inside => inside
    string := fun s r inside => inside
    array := fun vs each => ?_
    object := fun ms each => ?_ }
  · show ∀ r ∈ allReals (allInOrder vs), r ∈ allReals vs
    induction vs with
    | nil => exact fun r inside => inside
    | cons v vs ih =>
      intro r inside
      rw [allInOrder, allReals, List.mem_append] at inside
      rw [allReals, List.mem_append]
      exact inside.imp (each v List.mem_cons_self r)
        (ih (fun u below => each u (List.mem_cons_of_mem _ below)) r)
  · show ∀ r ∈ memberReals (membersInOrder ms), r ∈ memberReals ms
    induction ms with
    | nil => exact fun r inside => inside
    | cons m ms ih =>
      intro r inside
      rw [memberReals, List.mem_append]
      exact (reals_of_insertMember inside).imp (each m List.mem_cons_self r)
        (ih (fun u below => each u (List.mem_cons_of_mem _ below)) r)

end Order

section Meaning

variable {R : Type}

def integerIn : Value R → Option ℤ
  | .int n => some n.toInt
  | .uint n => some n.toNat
  | _ => none

/-- Two values that say the same: integers by their value, objects by what is found in them. -/
inductive Value.Same : Value R → Value R → Prop
  | null : Same .null .null
  | bool (b : Bool) : Same (.bool b) (.bool b)
  | integer {v w : Value R} (n : ℤ) : integerIn v = some n → integerIn w = some n → Same v w
  | real (r : R) : Same (.real r) (.real r)
  | string (s : Str) : Same (.string s) (.string s)
  | array {vs ws : List (Value R)} : List.Forall₂ Same vs ws → Same (.array vs) (.array ws)
  | object {ms ns : List (Str × Value R)} :
      (∀ key, Option.Rel Same (ms.lookup key) (ns.lookup key)) → Same (.object ms) (.object ns)

mutual

def Encoded : Value R → Prop
  | .string s => WellFormed s
  | .array vs => AllEncoded vs
  | .object ms => MembersEncoded ms
  | .null | .bool _ | .int _ | .uint _ | .real _ => True

def AllEncoded : List (Value R) → Prop
  | [] => True
  | v :: vs => Encoded v ∧ AllEncoded vs

def MembersEncoded : List (Str × Value R) → Prop
  | [] => True
  | (name, v) :: ms => WellFormed name ∧ Encoded v ∧ MembersEncoded ms

end

private theorem integerIn_number {n : ℤ} (above : minInt64 ≤ n) (below : n ≤ maxUInt64) :
    integerIn (number n : Value R) = some n := by
  have limits : maxInt = 2147483647 ∧ minInt64 = -9223372036854775808 ∧
      maxUInt64 = 18446744073709551615 := ⟨rfl, rfl, rfl⟩
  unfold number
  split_ifs with small
  · rw [integerIn, Int64.toInt_ofInt_of_le (by omega) (by omega)]
  · rw [integerIn, UInt64.toNat_ofNat_of_lt' (by omega : n.toNat < 2 ^ 64), Option.some.injEq]
    omega

private theorem membersEncoded_of_mem {ms : List (Str × Value R)} {m : Str × Value R}
    (inside : m ∈ ms) (h : MembersEncoded ms) : WellFormed m.1 ∧ Encoded m.2 := by
  induction ms with
  | nil => exact absurd inside List.not_mem_nil
  | cons n ms ih =>
    obtain ⟨name, v⟩ := n
    rcases List.mem_cons.mp inside with rfl | behind
    · exact ⟨h.1, h.2.1⟩
    · exact ih behind h.2.2

private theorem wellFormed_membersInOrder {ms : List (Str × Value R)} (h : MembersEncoded ms) :
    ∀ m ∈ membersInOrder ms, WellFormed m.1 := by
  induction ms with
  | nil => exact fun m inside => absurd inside List.not_mem_nil
  | cons n ms ih =>
    obtain ⟨name, v⟩ := n
    intro m inside
    rcases mem_insertMember inside with rfl | behind
    · exact h.1
    · exact ih h.2.2 m behind

/-- What comes back says the same if all texts are well-formed. -/
theorem same_reread (v : Value R) : Encoded v → Value.Same v (reread (inOrder v)) := by
  refine Inductive.all (motive := fun v => Encoded v → Value.Same v (reread (inOrder v))) ?_ v
  refine {
    null := fun _ => .null
    bool := fun b _ => .bool b
    int := fun n _ => .integer n.toInt rfl (integerIn_number ?_ ?_)
    uint := fun n _ => .integer n.toNat rfl (integerIn_number ?_ ?_)
    real := fun r _ => .real r
    string := fun s encoded => ?_
    array := fun vs each encoded => .array ?_
    object := fun ms each encoded => .object fun key => ?_ }
  · have above := n.minValue_le_toInt
    rwa [Int64.toInt_minValue] at above
  · have below := n.toInt_lt
    unfold maxUInt64
    omega
  · unfold minInt64
    omega
  · have below := n.toNat_lt
    unfold maxUInt64
    omega
  · rw [inOrder, reread, (repair_eq_self_iff s).mpr encoded]
    exact .string s
  · clear v
    induction vs with
    | nil => exact .nil
    | cons v vs ih =>
      exact .cons (each v List.mem_cons_self encoded.1)
        (ih (fun u inside => each u (List.mem_cons_of_mem _ inside)) encoded.2)
  · rw [lookup_rereadMembers (ascending_membersInOrder ms) (wellFormed_membersInOrder encoded),
      lookup_membersInOrder]
    cases found : ms.lookup key with
    | none => exact .none
    | some v =>
      have inside : (key, v) ∈ ms := by
        obtain ⟨before, after, whole, -⟩ := List.lookup_eq_some_iff.mp found
        rw [whole]
        simp
      exact .some (each (key, v) inside (membersEncoded_of_mem inside encoded).2)

end Meaning

section RoundTrip

variable {R : Type} [Doubles R] {hasComment : Value R → Bool}

theorem parse_write {root : Value R} (printed : ∀ r ∈ reals root, PrintsBack r)
    (w : BuiltStyledStreamWriter) : parse (write (compact hasComment) root w) =
      if height (inOrder root) < stackLimit then .ok (some (reread (inOrder root)))
      else .error .runtimeError := by
  have back := readsBack (inOrder root) fun r inside => printed r (reals_inOrder root r inside)
  have read := back.read _ 1 [] (Nat.le_refl _) ends_nil
  have text : write (compact hasComment) root w = render (inOrder root) := write_eq_render root w
  rw [List.append_nil] at read
  rw [text, parse, read]
  by_cases shallow : height (inOrder root) < stackLimit
  · rw [if_pos shallow, if_pos (by omega)]
  · rw [if_neg shallow, if_neg (by omega)]

/-- A reply is read back by the reader of the library unless it stands too deep, in which case the
reader throws; with all texts in UTF-8 it says the same. -/
theorem written_value_comes_back {root : Value R} (printed : ∀ r ∈ reals root, PrintsBack r)
    (w : BuiltStyledStreamWriter) :
    (parse (write (compact hasComment) root w) =
      if height (inOrder root) < stackLimit then .ok (some (reread (inOrder root)))
      else .error .runtimeError) ∧
    (Encoded root → Value.Same root (reread (inOrder root))) :=
  ⟨parse_write printed w, same_reread root⟩

end RoundTrip

section Printable

/-- An ASCII character that is no control character but `DEL`. -/
def Printable (c : Char) : Prop := 0x20 ≤ c.toNat ∧ c.toNat < 0x80

def AllPrintable (t : Str) : Prop := ∀ c ∈ t, Printable c

instance (c : Char) : Decidable (Printable c) :=
  inferInstanceAs (Decidable (0x20 ≤ c.toNat ∧ c.toNat < 0x80))

instance (t : Str) : Decidable (AllPrintable t) :=
  List.decidableBAll Printable t

private theorem allPrintable_append {s t : Str} (h : AllPrintable s) (h' : AllPrintable t) :
    AllPrintable (s ++ t) :=
  List.forall_mem_append.mpr ⟨h, h'⟩

private theorem allPrintable_cons {c : Char} {t : Str} (h : Printable c) (h' : AllPrintable t) :
    AllPrintable (c :: t) :=
  List.forall_mem_cons.mpr ⟨h, h'⟩

private theorem allPrintable_nil : AllPrintable [] := List.forall_mem_nil _

private theorem printable_hexChar {n : ℕ} (small : n < 16) : Printable (hexChar n) := by
  interval_cases n <;> exact ⟨by decide, by decide⟩

private theorem allPrintable_toHex16Bit (x : ℕ) : AllPrintable (toHex16Bit x) := by
  have byte : ∀ b, b < 256 → AllPrintable (hex2 b) := fun b small =>
    allPrintable_cons (printable_hexChar (by omega))
      (allPrintable_cons (printable_hexChar (by omega)) allPrintable_nil)
  have high : x >>> 8 &&& 0xff < 256 := Nat.lt_succ_of_le Nat.and_le_right
  have low : x &&& 0xff < 256 := Nat.lt_succ_of_le Nat.and_le_right
  exact allPrintable_append (byte _ high) (byte _ low)

private theorem allPrintable_escape (cp : ℕ) : AllPrintable (escape cp) := by
  have unicode : ∀ x, AllPrintable ('\\' :: 'u' :: toHex16Bit x) := fun x =>
    allPrintable_cons (by decide) (allPrintable_cons (by decide) (allPrintable_toHex16Bit x))
  unfold escape
  split_ifs with printable
  · refine allPrintable_cons ?_ allPrintable_nil
    rw [Printable, toNat_ofNat (.inl (by omega))]
    omega
  · exact unicode cp
  · exact allPrintable_append (unicode _) (unicode _)

private theorem allPrintable_escapeFrom (ahead : ℕ) (s : Str) : AllPrintable
    (escapeFrom ahead s) := by
  induction s generalizing ahead with
  | nil => exact allPrintable_nil
  | cons c cs ih =>
    cases ahead with
    | succ ahead => exact ih ahead
    | zero =>
      simp only [escapeFrom]
      split
      · rename_i e found
        have named : Printable e := by
          unfold shortEscape at found
          split_ifs at found with same <;> cases found
          · rcases same with rfl | rfl <;> decide
          all_goals decide
        exact allPrintable_cons (by decide) (allPrintable_cons named (ih 0))
      · exact allPrintable_append (allPrintable_escape _) (ih _)

private theorem allPrintable_valueToQuotedStringN (s : Str) : AllPrintable
    (valueToQuotedStringN s) := by
  rw [valueToQuotedStringN_eq]
  exact allPrintable_cons (by decide) (allPrintable_append (allPrintable_escapeFrom 0 s)
    (allPrintable_cons (by decide) allPrintable_nil))

private theorem printable_of_isDigit {c : Char} (digit : isDigit c = true) : Printable c := by
  have both : '0' ≤ c ∧ c ≤ '9' := of_decide_eq_true digit
  have above : '0'.toNat ≤ c.toNat := both.1
  have below : c.toNat ≤ '9'.toNat := both.2
  have bounds : '0'.toNat = 48 ∧ '9'.toNat = 57 := ⟨rfl, rfl⟩
  exact ⟨by omega, by omega⟩

private theorem allPrintable_digits {ds : Str} (digits : ds.all isDigit = true) : AllPrintable ds :=
  fun c inside => printable_of_isDigit (List.all_eq_true.mp digits c inside)

private theorem allPrintable_numeral {t : Str} (h : IsNumeral t) : AllPrintable t := by
  obtain ⟨c, int, frac, exp, rfl, first, digits, fraction, exponent⟩ := h.shape
  refine allPrintable_cons ?_ (allPrintable_append (allPrintable_append
    (allPrintable_digits digits) ?_) ?_)
  · rcases first with digit | rfl
    · exact printable_of_isDigit digit
    · decide
  · rcases fraction with rfl | ⟨ds, rfl, more⟩
    · exact allPrintable_nil
    · exact allPrintable_cons (by decide) (allPrintable_digits more)
  · rcases exponent with rfl | ⟨sign, ds, rfl, signed, more⟩
    · exact allPrintable_nil
    · have mark : Printable sign := by rcases signed with rfl | rfl <;> decide
      exact allPrintable_cons (by decide) (allPrintable_cons mark (allPrintable_digits more))

variable {R : Type} [Doubles R]

private theorem allPrintable_renderElements {vs : List (Value R)}
    (each : ∀ v ∈ vs, AllPrintable (render v)) : AllPrintable (renderElements vs) := by
  induction vs with
  | nil => exact allPrintable_nil
  | cons v vs ih =>
    rw [renderElements]
    refine allPrintable_append (each v List.mem_cons_self) ?_
    split_ifs
    · exact allPrintable_nil
    · exact allPrintable_cons (by decide)
        (ih fun u inside => each u (List.mem_cons_of_mem _ inside))

private theorem allPrintable_renderMembers {ms : List (Str × Value R)}
    (each : ∀ m ∈ ms, AllPrintable (render m.2)) : AllPrintable (renderMembers ms) := by
  induction ms with
  | nil => exact allPrintable_nil
  | cons m ms ih =>
    obtain ⟨name, v⟩ := m
    rw [renderMembers]
    refine allPrintable_append (allPrintable_append (allPrintable_valueToQuotedStringN name)
      (allPrintable_cons (by decide) (each (name, v) List.mem_cons_self))) ?_
    split_ifs
    · exact allPrintable_nil
    · exact allPrintable_cons (by decide)
        (ih fun u inside => each u (List.mem_cons_of_mem _ inside))

theorem allPrintable_render (v : Value R) :
    (∀ r ∈ reals v, IsNumeral (Doubles.toStr r)) → AllPrintable (render v) := by
  refine Inductive.all (motive := fun v => (∀ r ∈ reals v, IsNumeral (Doubles.toStr r)) →
    AllPrintable (render v)) ?_ v
  exact {
    null := fun _ => show AllPrintable "null".toList by decide
    bool := fun b _ => show AllPrintable (if b then "true".toList else "false".toList) by
      cases b <;> decide
    int := fun n _ => allPrintable_numeral (isNumeral_decimal _)
    uint := fun n _ => allPrintable_numeral (isNumeral_decimal _)
    real := fun r numerals => allPrintable_numeral (numerals r (by simp [reals]))
    string := fun s _ => allPrintable_valueToQuotedStringN s
    array := fun vs each numerals =>
      allPrintable_append (allPrintable_cons (by decide) (allPrintable_renderElements
        fun v inside => each v inside fun r deeper => numerals r (mem_allReals inside deeper)))
        (allPrintable_cons (by decide) allPrintable_nil)
    object := fun ms each numerals =>
      allPrintable_append (allPrintable_cons (by decide) (allPrintable_renderMembers
        fun m inside => each m inside fun r deeper => numerals r (mem_memberReals inside deeper)))
        (allPrintable_cons (by decide) allPrintable_nil) }

end Printable

section Sample

instance oneAndAHalf : Doubles Unit where
  scan s := if s = "1.5".toList then some () else none
  inRange low high _ := low ≤ 1 ∧ 1 < high
  toInt _ := 1
  isIntegral _ := false
  toStr _ := "1.5".toList

/-- Names out of order, a control character, a character of two bytes and a byte that is none. -/
def sample : Value Unit := .object [
  ("b".toList, .array [.real (), .int (-3), .uint 4294967295, .array []]),
  ("a".toList, .string ['\n', Char.ofNat 0xc3, Char.ofNat 0xa4, Char.ofNat 0xff])]

theorem written_value_comes_back_sample :
    (parse (write (compact fun _ => true) sample ⟨[], [], [], true, true⟩) :
      Except Fault (Option (Value Unit))) = .ok (some (.object [
        ("a".toList, .string ['\n', Char.ofNat 0xc3, Char.ofNat 0xa4, Char.ofNat 0xef,
          Char.ofNat 0xbf, Char.ofNat 0xbd]),
        ("b".toList, .array [.real (), .int (-3), .uint 4294967295, .array []])])) := by
  have printed : ∀ r ∈ reals sample, PrintsBack r := fun r _ =>
    ⟨⟨'1', [], ".5".toList, [], rfl, .inl rfl, rfl, .inr ⟨['5'], rfl, rfl⟩, .inl rfl⟩,
      .inl (show '.' ∈ "1.5".toList by decide), rfl⟩
  exact (written_value_comes_back printed _).1.trans rfl

end Sample

end Tsender.Json
