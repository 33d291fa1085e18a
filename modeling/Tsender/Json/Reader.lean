/- Tsender/Json/Reader
   source: jsoncpp.cpp (Reader: parse, readValue, readObject, readArray, readToken, readString,
   readNumber, readComment, decodeNumber, decodeString; codePointToUTF8)
   digest: The reader of JSON texts as it is, with comments, its lenient objects and its limit on
   nested values; it consumes a character with every value, so that it comes to an end. -/

import Tsender.Json.Value

set_option autoImplicit false
set_option relaxedAutoImplicit false

namespace Tsender.Json

/-- `stackLimit_g`. -/
def stackLimit : ℕ := 1000

inductive TokenType where
  | objectBegin
  | objectEnd
  | arrayBegin
  | arrayEnd
  | string
  | number
  | true
  | false
  | null
  | arraySeparator
  | memberSeparator
  | comment
  | endOfStream
  | error
  deriving DecidableEq

structure Token where
  type : TokenType
  text : Str

section Scanner

def isSpace (c : Char) : Bool := c ∈ [' ', '\t', '\r', '\n']

def isDigit (c : Char) : Bool := '0' ≤ c ∧ c ≤ '9'

def skipSpaces (cs : Str) : Str := cs.dropWhile isSpace

/-- Behind the opening quote: whether there is a closing one, and what is left. -/
def readString : Str → Bool × Str
  | [] => (false, [])
  | c :: cs =>
      if c = '\\' then
        match cs with
        | [] => (false, [])
        | _ :: cs => readString cs
      else if c = '\x22' then (true, cs)
      else readString cs

def readExponent : Str → Str
  | [] => []
  | c :: cs =>
      if c = 'e' ∨ c = 'E' then
        match cs with
        | [] => []
        | sign :: rest =>
            if sign = '+' ∨ sign = '-' then rest.dropWhile isDigit else cs.dropWhile isDigit
      else c :: cs

/-- Behind the first character of a number. -/
def readNumber (cs : Str) : Str :=
  match cs.dropWhile isDigit with
  | '.' :: cs => readExponent (cs.dropWhile isDigit)
  | cs => readExponent cs

/-- The last character is taken for the end of the comment even without a star. -/
def readCStyleComment : Str → Bool × Str
  | [] => (false, [])
  | [c] => (c = '/', [])
  | c :: d :: cs => if c = '*' ∧ d = '/' then (true, cs) else readCStyleComment (d :: cs)

def readCppStyleComment : Str → Str
  | [] => []
  | c :: cs =>
      if c = '\n' then cs
      else if c = '\r' then
        match cs with
        | '\n' :: rest => rest
        | _ => cs
      else readCppStyleComment cs

/-- Behind a slash. -/
def readComment : Str → Bool × Str
  | [] => (false, [])
  | c :: cs =>
      if c = '*' then readCStyleComment cs
      else if c = '/' then (true, readCppStyleComment cs)
      else (false, cs)

def expect (type : TokenType) (pattern cs : Str) : TokenType × Str :=
  if pattern.isPrefixOf cs then (type, cs.drop pattern.length) else (.error, cs)

def orError (type : TokenType) (r : Bool × Str) : TokenType × Str :=
  (if r.1 then type else .error, r.2)

def singles : List (Char × TokenType) :=
  [('\x7b', .objectBegin), ('\x7d', .objectEnd), ('[', .arrayBegin), (']', .arrayEnd),
    (',', .arraySeparator), (':', .memberSeparator), ('\x00', .endOfStream)]

/-- The type of the token at the front, and what is left behind it. -/
def scan : Str → TokenType × Str
  | [] => (.endOfStream, [])
  | c :: cs =>
      match singles.lookup c with
      | some type => (type, cs)
      | none =>
          if c = '\x22' then orError .string (readString cs)
          else if c = '/' then orError .comment (readComment cs)
          else if isDigit c ∨ c = '-' then (.number, readNumber cs)
          else if c = 't' then expect .true "rue".toList cs
          else if c = 'f' then expect .false "alse".toList cs
          else if c = 'n' then expect .null "ull".toList cs
          else (.error, cs)

def readToken (cs : Str) : Token × Str :=
  let start := skipSpaces cs
  let r := scan start
  (⟨r.1, start.take (start.length - r.2.length)⟩, r.2)

def skipComments : ℕ → Str → Token × Str
  | 0, cs => readToken cs
  | n + 1, cs =>
      let r := readToken cs
      if r.1.type = .comment then skipComments n r.2 else r

/-- `skipCommentTokens`.  There are no more comments than characters. -/
def skipCommentTokens (cs : Str) : Token × Str := skipComments cs.length cs

end Scanner

section Decoder

def hexDigit (c : Char) : Option ℕ :=
  if '0' ≤ c ∧ c ≤ '9' then some (c.toNat - '0'.toNat)
  else if 'a' ≤ c ∧ c ≤ 'f' then some (c.toNat - 'a'.toNat + 10)
  else if 'A' ≤ c ∧ c ≤ 'F' then some (c.toNat - 'A'.toNat + 10)
  else none

/-- `decodeUnicodeEscapeSequence`. -/
def hexCode (a b c d : Char) : Option ℕ := do
  let a ← hexDigit a
  let b ← hexDigit b
  let c ← hexDigit c
  let d ← hexDigit d
  return ((a * 16 + b) * 16 + c) * 16 + d

/-- The bytes of a code point, each as a character. -/
def codePointToUTF8 (cp : ℕ) : Str :=
  let tail (shift : ℕ) := Char.ofNat (0x80 ||| (0x3f &&& (cp >>> shift)))
  if cp ≤ 0x7f then [Char.ofNat cp]
  else if cp ≤ 0x7ff then [Char.ofNat (0xc0 ||| (0x1f &&& (cp >>> 6))), tail 0]
  else if cp ≤ 0xffff then [Char.ofNat (0xe0 ||| (0xf &&& (cp >>> 12))), tail 6, tail 0]
  else if cp ≤ 0x10ffff then
    [Char.ofNat (0xf0 ||| (0x7 &&& (cp >>> 18))), tail 12, tail 6, tail 0]
  else []

def simpleEscape (c : Char) : Option Char :=
  if c = '\x22' ∨ c = '/' ∨ c = '\\' then some c
  else if c = 'b' then some '\x08'
  else if c = 'f' then some '\x0c'
  else if c = 'n' then some '\n'
  else if c = 'r' then some '\r'
  else if c = 't' then some '\t'
  else none

/-- The characters between the quotes. -/
def decodeChars : Str → Option Str
  | [] => some []
  | c :: cs =>
      if c = '\x22' then some []
      else if c ≠ '\\' then (decodeChars cs).map (c :: ·)
      else
        match cs with
        | [] => none
        | e :: cs =>
            if e ≠ 'u' then
              match simpleEscape e with
              | some x => (decodeChars cs).map (x :: ·)
              | none => none
            else
              match cs with
              | a :: b :: c :: d :: cs =>
                  match hexCode a b c d with
                  | none => none
                  | some unicode =>
                      if 0xd800 ≤ unicode ∧ unicode ≤ 0xdbff then
                        -- A surrogate needs its second half right behind it.
                        match cs with
                        | back :: u :: a :: b :: c :: d :: cs =>
                            if back = '\\' ∧ u = 'u' then
                              match hexCode a b c d with
                              | none => none
                              | some pair =>
                                  let high := (unicode &&& 0x3ff) <<< 10
                                  let point := 0x10000 + high + (pair &&& 0x3ff)
                                  (decodeChars cs).map (codePointToUTF8 point ++ ·)
                            else none
                        | _ => none
                      else (decodeChars cs).map (codePointToUTF8 unicode ++ ·)
              | _ => none

def decodeString (token : Str) : Option Str := decodeChars (token.drop 1).dropLast

/-- The digits of an integer; `none` if it does not fit or there is more than digits. -/
def decodeDigits (maxIntegerValue : ℕ) : ℕ → Str → Option ℕ
  | value, [] => some value
  | value, c :: cs =>
      let digit := c.toNat - '0'.toNat
      let threshold := maxIntegerValue / 10
      if ¬isDigit c then none
      else if threshold ≤ value ∧
          (threshold < value ∨ cs ≠ [] ∨ maxIntegerValue % 10 < digit) then none
      else decodeDigits maxIntegerValue (value * 10 + digit) cs

def decodeNumber {R : Type} [Doubles R] (token : Str) : Option (Value R) :=
  let isNegative := token.head? = some '-'
  let digits := if isNegative then token.drop 1 else token
  let maxIntegerValue := if isNegative then 2 ^ 63 else 2 ^ 64 - 1
  match decodeDigits maxIntegerValue 0 digits with
  | none => (Doubles.scan token).map Value.real
  | some value =>
      if isNegative then some (.int (.ofInt (-value)))
      else if value ≤ maxInt then some (.int (.ofInt value))
      else some (.uint (.ofNat value))

end Decoder

inductive Stop where
  /-- The one error that is left of it: the number of characters from the start of its token on, and
  whether it points to a place within the token, too. -/
  | malformed (left : ℕ) (extra : Bool)
  /-- `throwRuntimeError` in `readValue`. -/
  | limit
  /-- The model ran out of fuel. -/
  | fuel
  deriving DecidableEq

/-- `addError`, with what is left behind the token. -/
def addError {α : Type} (token : Token) (rest : Str) (extra : Bool) : Except Stop α :=
  .error (.malformed (token.text.length + rest.length) extra)

section Values

variable {R : Type} [Doubles R]

mutual

/-- `depth` is the size of `nodes_`.  Recovery after an error reads on, but to no effect on the
result. -/
def readValue : ℕ → ℕ → Str → Except Stop (Value R × Str)
  | 0, _, _ => .error .fuel
  | fuel + 1, depth, cs =>
      if stackLimit < depth then .error .limit
      else
        let (token, cs) := skipCommentTokens cs
        match token.type with
        | .objectBegin => readMembers fuel depth [] [] cs
        | .arrayBegin =>
            match skipSpaces cs with
            | ']' :: cs => .ok (.array [], cs)
            | _ => readElements fuel depth [] cs
        | .number =>
            match decodeNumber token.text with
            | some v => .ok (v, cs)
            | none => addError token cs false
        | .string =>
            match decodeString token.text with
            | some s => .ok (.string s, cs)
            | none => addError token cs true
        | .true => .ok (.bool true, cs)
        | .false => .ok (.bool false, cs)
        | .null => .ok (.null, cs)
        | _ => addError token cs false

/-- The loop of `readArray`. -/
def readElements : ℕ → ℕ → List (Value R) → Str → Except Stop (Value R × Str)
  | 0, _, _, _ => .error .fuel
  | fuel + 1, depth, vs, cs =>
      match readValue fuel (depth + 1) cs with
      | .error e => .error e
      | .ok (v, cs) =>
          let (token, cs) := skipCommentTokens cs
          match token.type with
          | .arraySeparator => readElements fuel depth (vs ++ [v]) cs
          | .arrayEnd => .ok (.array (vs ++ [v]), cs)
          | _ => addError token cs false

/-- The loop of `readObject` with the last name.  An object may also end behind a comma if the last
name is empty, and behind a comment after a value any token passes for the comma. -/
def readMembers : ℕ → ℕ → Str → List (Str × Value R) → Str → Except Stop (Value R × Str)
  | 0, _, _, _, _ => .error .fuel
  | fuel + 1, depth, name, ms, cs =>
      let (tokenName, cs) := skipCommentTokens cs
      if tokenName.type = .objectEnd ∧ name = [] then .ok (.object ms, cs)
      else if tokenName.type ≠ .string then addError tokenName cs false
      else
        match decodeString tokenName.text with
        | none => addError tokenName cs true
        | some name =>
            let (colon, cs) := readToken cs
            if colon.type ≠ .memberSeparator then addError colon cs false
            else
              match readValue fuel (depth + 1) cs with
              | .error e => .error e
              | .ok (v, cs) =>
                  let ms := setMember ms name v
                  let (comma, cs) := readToken cs
                  match comma.type with
                  | .objectEnd => .ok (.object ms, cs)
                  | .arraySeparator => readMembers fuel depth name ms cs
                  | .comment =>
                      let (next, cs) := skipCommentTokens cs
                      if next.type = .objectEnd then .ok (.object ms, cs)
                      else readMembers fuel depth name ms cs
                  | _ => addError comma cs false

end

/-- `Reader::parse`: `none` stands for `false`.  What follows the value is ignored. -/
def parse (doc : Str) : Except Fault (Option (Value R)) :=
  match (readValue (2 * doc.length + 1) 1 doc : Except Stop (Value R × Str)) with
  | .ok (root, _) => .ok (some root)
  | .error .limit => .error .runtimeError
  | .error _ => .ok none

/-- Whether `getFormatedErrorMessages` reads the text, on its way from the start of it to the token of
the error and to the place within it. -/
def errorsReadText (R : Type) [Doubles R] (doc : Str) : Bool :=
  match (readValue (2 * doc.length + 1) 1 doc : Except Stop (Value R × Str)) with
  | .error (.malformed left extra) => extra || left < doc.length
  | _ => false

/-- The text is refused for its first token, which stands at its start. -/
def RefusedAtStart (R : Type) [Doubles R] (doc : Str) : Prop :=
  (readValue (2 * doc.length + 1) 1 doc : Except Stop (Value R × Str)) =
    .error (.malformed doc.length false)

theorem errorsReadText_eq_false {doc : Str} {root : Value R} (done : parse doc = .ok (some root)) :
    errorsReadText R doc = false := by
  unfold parse at done
  unfold errorsReadText
  split at done
  · rename_i read
    rw [read]
  · cases done
  · cases done

end Values

section Consumption

private theorem readString_suffix (cs : Str) : (readString cs).2 <:+ cs := by
  fun_induction readString cs with
  | case1 => exact List.suffix_refl _
  | case2 => exact List.nil_suffix
  | case3 c d ih => exact ih.trans ((List.suffix_cons _ _).trans (List.suffix_cons _ _))
  | case4 => exact List.suffix_cons _ _
  | case5 _ _ _ _ ih => exact ih.trans (List.suffix_cons _ _)

private theorem readExponent_suffix (cs : Str) : readExponent cs <:+ cs := by
  unfold readExponent
  split
  · exact List.suffix_refl _
  · split_ifs
    · split
      · exact List.nil_suffix
      · rename_i sign rest
        have behind := List.suffix_cons sign rest
        split
        · exact (List.dropWhile_suffix _).trans (behind.trans (List.suffix_cons _ _))
        · exact (List.dropWhile_suffix _).trans (List.suffix_cons _ _)
    · exact List.suffix_refl _

private theorem readNumber_suffix (cs : Str) : readNumber cs <:+ cs := by
  have integral : cs.dropWhile isDigit <:+ cs := List.dropWhile_suffix _
  unfold readNumber
  split
  · rename_i rest point
    have fraction : rest <:+ cs := (point ▸ List.suffix_cons _ _ : rest <:+ _).trans integral
    exact (readExponent_suffix _).trans ((List.dropWhile_suffix _).trans fraction)
  · exact (readExponent_suffix _).trans integral

private theorem readCStyleComment_suffix (cs : Str) : (readCStyleComment cs).2 <:+ cs := by
  fun_induction readCStyleComment cs with
  | case1 => exact List.suffix_refl _
  | case2 => exact List.nil_suffix
  | case3 => exact (List.suffix_cons _ _).trans (List.suffix_cons _ _)
  | case4 _ _ _ _ ih => exact ih.trans (List.suffix_cons _ _)

private theorem readCppStyleComment_suffix (cs : Str) : readCppStyleComment cs <:+ cs := by
  fun_induction readCppStyleComment cs with
  | case1 => exact List.suffix_refl _
  | case2 => exact List.suffix_cons _ _
  | case3 => exact (List.suffix_cons _ _).trans (List.suffix_cons _ _)
  | case4 => exact List.suffix_cons _ _
  | case5 _ _ _ _ ih => exact ih.trans (List.suffix_cons _ _)

private theorem readComment_suffix (cs : Str) : (readComment cs).2 <:+ cs := by
  cases cs with
  | nil => exact List.suffix_refl _
  | cons c cs =>
    simp only [readComment]
    split_ifs
    · exact (readCStyleComment_suffix cs).trans (List.suffix_cons _ _)
    · exact (readCppStyleComment_suffix cs).trans (List.suffix_cons _ _)
    · exact List.suffix_cons _ _

private theorem expect_suffix (type : TokenType) (pattern cs : Str) :
    (expect type pattern cs).2 <:+ cs := by
  unfold expect
  split
  · exact List.drop_suffix _ _
  · exact List.suffix_refl _

private theorem scan_cons_suffix (c : Char) (cs : Str) : (scan (c :: cs)).2 <:+ cs := by
  rw [scan]
  split
  · exact List.suffix_refl _
  · split_ifs
    · exact readString_suffix cs
    · exact readComment_suffix cs
    · exact readNumber_suffix cs
    · exact expect_suffix _ _ _
    · exact expect_suffix _ _ _
    · exact expect_suffix _ _ _
    · exact List.suffix_refl _

def Behind (rest cs : Str) : Prop := ∃ c front, cs = front ++ c :: rest

private theorem behind_cons_of_suffix {rest cs : Str} (h : rest <:+ cs) (c : Char) :
    Behind rest (c :: cs) := by
  obtain ⟨front, rfl⟩ := h
  rcases List.eq_nil_or_concat front with rfl | ⟨front, d, rfl⟩
  · exact ⟨c, [], rfl⟩
  · exact ⟨d, c :: front, by simp⟩

private theorem Behind.suffix {rest cs : Str} (h : Behind rest cs) : rest <:+ cs := by
  obtain ⟨c, front, rfl⟩ := h
  exact (List.suffix_cons c rest).trans (List.suffix_append front _)

private theorem Behind.length_lt {rest cs : Str} (h : Behind rest cs) :
    rest.length < cs.length := by
  obtain ⟨c, front, rfl⟩ := h
  simp only [List.length_append, List.length_cons]
  omega

private theorem Behind.of_suffix {rest mid cs : Str} (h : Behind rest mid) (inside : mid <:+ cs) :
    Behind rest cs := by
  obtain ⟨c, front, rfl⟩ := h
  obtain ⟨start, rfl⟩ := inside
  exact ⟨c, start ++ front, by simp⟩

private theorem Behind.after_suffix {rest mid cs : Str} (h : Behind mid cs) (inside : rest <:+ mid)
    : Behind rest cs := by
  obtain ⟨c, front, rfl⟩ := h
  exact (behind_cons_of_suffix inside c).of_suffix (List.suffix_append front _)

private theorem readToken_suffix (cs : Str) : (readToken cs).2 <:+ cs := by
  have spaces : skipSpaces cs <:+ cs := List.dropWhile_suffix _
  simp only [readToken]
  cases start : skipSpaces cs with
  | nil => exact List.nil_suffix
  | cons c rest =>
    rw [start] at spaces
    exact (scan_cons_suffix c rest).trans ((List.suffix_cons c rest).trans spaces)

private theorem readToken_behind {cs : Str} (more : (readToken cs).1.type ≠ .endOfStream) :
    Behind (readToken cs).2 cs := by
  have spaces : skipSpaces cs <:+ cs := List.dropWhile_suffix _
  simp only [readToken] at more ⊢
  cases start : skipSpaces cs with
  | nil => simp [start, scan] at more
  | cons c rest =>
    rw [start] at spaces
    exact (behind_cons_of_suffix (scan_cons_suffix c rest) c).of_suffix spaces

private theorem skipComments_suffix (n : ℕ) (cs : Str) : (skipComments n cs).2 <:+ cs := by
  induction n generalizing cs with
  | zero => exact readToken_suffix cs
  | succ n ih =>
    simp only [skipComments]
    split
    · exact (ih _).trans (readToken_suffix cs)
    · exact readToken_suffix cs

private theorem skipComments_behind {n : ℕ} {cs : Str}
    (more : (skipComments n cs).1.type ≠ .endOfStream) : Behind (skipComments n cs).2 cs := by
  induction n generalizing cs with
  | zero => exact readToken_behind more
  | succ n ih =>
    simp only [skipComments] at more ⊢
    split at more
    · rename_i comment
      rw [if_pos comment]
      exact (ih more).of_suffix (readToken_suffix cs)
    · rename_i other
      rw [if_neg other]
      exact readToken_behind more

private theorem readToken_length (cs : Str) :
    (readToken cs).1.text.length + (readToken cs).2.length ≤ cs.length := by
  have spaces : (skipSpaces cs).length ≤ cs.length := (List.dropWhile_suffix _).length_le
  have inside : (scan (skipSpaces cs)).2.length ≤ (skipSpaces cs).length := by
    cases skipSpaces cs with
    | nil => exact Nat.le_refl _
    | cons c rest => exact Nat.le_trans (scan_cons_suffix c rest).length_le (Nat.le_succ _)
  simp only [readToken, List.length_take]
  omega

private theorem skipComments_length (n : ℕ) (cs : Str) :
    (skipComments n cs).1.text.length + (skipComments n cs).2.length ≤ cs.length := by
  induction n generalizing cs with
  | zero => exact readToken_length cs
  | succ n ih =>
    simp only [skipComments]
    split
    · exact Nat.le_trans (ih _) (readToken_suffix cs).length_le
    · exact readToken_length cs

end Consumption

section Found

variable {cs rest : Str} {token : Token}

private theorem suffix_of_readToken (found : readToken cs = (token, rest)) : rest <:+ cs := by
  have behind := readToken_suffix cs
  rwa [found] at behind

private theorem suffix_of_skip (found : skipCommentTokens cs = (token, rest)) : rest <:+ cs := by
  have behind := skipComments_suffix cs.length cs
  rwa [← skipCommentTokens.eq_def, found] at behind

private theorem behind_of_skip (found : skipCommentTokens cs = (token, rest))
    (more : token.type ≠ .endOfStream) : Behind rest cs := by
  have behind : (skipCommentTokens cs).1.type ≠ .endOfStream → Behind (skipCommentTokens cs).2 cs :=
    skipComments_behind
  rw [found] at behind
  exact behind more

private theorem length_of_readToken (found : readToken cs = (token, rest)) :
    token.text.length + rest.length ≤ cs.length := by
  have inside := readToken_length cs
  rwa [found] at inside

private theorem length_of_skip (found : skipCommentTokens cs = (token, rest)) :
    token.text.length + rest.length ≤ cs.length := by
  have inside := skipComments_length cs.length cs
  rwa [← skipCommentTokens.eq_def, found] at inside

end Found

section Termination

variable {R : Type}

/-- What the readers do with a text: a value comes with a proper end of it, an error stands in it,
and the fuel does not run out. -/
def Reads (cs : Str) : Except Stop (Value R × Str) → Prop
  | .ok (_, rest) => Behind rest cs
  | .error .limit => True
  | .error .fuel => False
  | .error (.malformed left _) => left ≤ cs.length

private theorem Reads.of_suffix {cs ds : Str} {r : Except Stop (Value R × Str)} (h : Reads ds r)
    (inside : ds <:+ cs) : Reads cs r := by
  rcases r with stop | ⟨v, rest⟩
  · cases stop with
    | malformed left extra => exact Nat.le_trans h inside.length_le
    | limit => exact trivial
    | fuel => exact h
  · exact Behind.of_suffix h inside

variable [Doubles R] {fuel : ℕ}

structure Fuelled (R : Type) [Doubles R] (fuel : ℕ) : Prop where
  value : ∀ depth cs, 2 * cs.length + 1 ≤ fuel → Reads cs (readValue (R := R) fuel depth cs)
  elements : ∀ depth (vs : List (Value R)) cs, 2 * cs.length + 2 ≤ fuel →
    Reads cs (readElements fuel depth vs cs)
  members : ∀ depth name (ms : List (Str × Value R)) cs, 2 * cs.length + 2 ≤ fuel →
    Reads cs (readMembers fuel depth name ms cs)

private theorem value_step (h : Fuelled R fuel) {depth : ℕ} {cs : Str}
    (enough : 2 * cs.length + 1 ≤ fuel + 1) :
    Reads cs (readValue (R := R) (fuel + 1) depth cs) := by
  unfold readValue
  split
  · exact trivial
  · rcases found : skipCommentTokens cs with ⟨token, rest⟩
    have behind := behind_of_skip found
    have inside := length_of_skip found
    simp only
    cases type : token.type with
    | objectBegin =>
      have taken := behind (by rw [type]; decide)
      have less := taken.length_lt
      exact (h.members depth [] [] rest (by omega)).of_suffix taken.suffix
    | arrayBegin =>
      have taken := behind (by rw [type]; decide)
      have less := taken.length_lt
      simp only
      split
      · rename_i closed
        have spaces : skipSpaces rest <:+ rest := List.dropWhile_suffix _
        rw [closed] at spaces
        exact taken.after_suffix ((List.suffix_cons _ _).trans spaces)
      · exact (h.elements depth [] rest (by omega)).of_suffix taken.suffix
    | number =>
      have taken := behind (by rw [type]; decide)
      simp only
      split
      · exact taken
      · exact inside
    | string =>
      have taken := behind (by rw [type]; decide)
      simp only
      split
      · exact taken
      · exact inside
    | true => exact behind (by rw [type]; decide)
    | false => exact behind (by rw [type]; decide)
    | null => exact behind (by rw [type]; decide)
    | objectEnd | arrayEnd | arraySeparator | memberSeparator | comment | endOfStream | error =>
      exact inside

private theorem elements_step (h : Fuelled R fuel) {depth : ℕ} {vs : List (Value R)} {cs : Str}
    (enough : 2 * cs.length + 2 ≤ fuel + 1) :
    Reads cs (readElements (fuel + 1) depth vs cs) := by
  have value := h.value (depth + 1) cs (by omega)
  unfold readElements
  rcases read : readValue (R := R) fuel (depth + 1) cs with stop | ⟨v, rest⟩
  · rw [read] at value
    exact value
  · rw [read] at value
    have taken : Behind rest cs := value
    have less := taken.length_lt
    rcases found : skipCommentTokens rest with ⟨token, after⟩
    have inside := suffix_of_skip found
    have shorter := inside.length_le
    have place := length_of_skip found
    simp only [found]
    split
    · exact (h.elements depth _ after (by omega)).of_suffix (inside.trans taken.suffix)
    · exact taken.after_suffix inside
    · exact Nat.le_trans place (Nat.le_of_lt less)

private theorem members_step (h : Fuelled R fuel) {depth : ℕ} {name : Str}
    {ms : List (Str × Value R)} {cs : Str} (enough : 2 * cs.length + 2 ≤ fuel + 1) :
    Reads cs (readMembers (fuel + 1) depth name ms cs) := by
  unfold readMembers
  rcases found : skipCommentTokens cs with ⟨tokenName, afterName⟩
  have behind := behind_of_skip found
  have place := length_of_skip found
  rcases separator : readToken afterName with ⟨colon, afterColon⟩
  have colon_inside := suffix_of_readToken separator
  have colon_place := Nat.le_trans (length_of_readToken separator) (suffix_of_skip found).length_le
  simp only [separator]
  by_cases closed : tokenName.type = .objectEnd ∧ name = []
  · rw [if_pos closed]
    exact behind (by rw [closed.1]; decide)
  by_cases named : tokenName.type = .string
  · have taken : Behind afterColon cs :=
      (behind (by rw [named]; decide)).after_suffix colon_inside
    have less := taken.length_lt
    rw [if_neg closed, if_neg (not_not.mpr named)]
    split
    · exact place
    · rename_i name' decoded
      split
      · exact colon_place
      · have value := h.value (depth + 1) afterColon (by omega)
        rcases read : readValue (R := R) fuel (depth + 1) afterColon with stop | ⟨v, afterValue⟩
        · rw [read] at value
          exact Reads.of_suffix value taken.suffix
        · rw [read] at value
          have value_taken : Behind afterValue cs := Behind.of_suffix value taken.suffix
          have value_less := value_taken.length_lt
          rcases last : readToken afterValue with ⟨comma, afterComma⟩
          have comma_inside := suffix_of_readToken last
          have comma_shorter := comma_inside.length_le
          have comma_place := length_of_readToken last
          simp only [last]
          split
          · exact value_taken.after_suffix comma_inside
          · exact (h.members depth _ _ afterComma (by omega)).of_suffix
              (comma_inside.trans value_taken.suffix)
          · rcases skipped : skipCommentTokens afterComma with ⟨next, afterNext⟩
            have next_inside := (suffix_of_skip skipped).trans comma_inside
            have next_shorter := next_inside.length_le
            simp only
            split
            · exact value_taken.after_suffix next_inside
            · exact (h.members depth _ _ afterNext (by omega)).of_suffix
                (next_inside.trans value_taken.suffix)
          · exact Nat.le_trans comma_place (Nat.le_of_lt value_less)
  · rw [if_neg closed, if_pos named]
    exact place

private theorem fuelled (fuel : ℕ) : Fuelled R fuel := by
  induction fuel with
  | zero => exact ⟨fun _ _ few => by omega, fun _ _ _ few => by omega, fun _ _ _ _ few => by omega⟩
  | succ fuel ih =>
    exact ⟨fun _ _ => value_step ih, fun _ _ _ => elements_step ih, fun _ _ _ _ => members_step ih⟩

/-- Two rounds for each character are enough for a text, and the error of a text that is refused
stands in it. -/
private theorem malformed_of_refused {doc : Str}
    (refused : parse doc = .ok (none : Option (Value R))) : ∃ left extra, left ≤ doc.length ∧
      readValue (R := R) (2 * doc.length + 1) 1 doc = .error (.malformed left extra) := by
  have reads := (fuelled (R := R) _).value 1 doc (Nat.le_refl _)
  unfold parse at refused
  rcases read : readValue (R := R) (2 * doc.length + 1) 1 doc with stop | ⟨v, rest⟩
  · rw [read] at reads refused
    cases stop with
    | malformed left extra => exact ⟨left, extra, reads, rfl⟩
    | limit => cases refused
    | fuel => exact reads.elim
  · rw [read] at refused
    cases refused

theorem errorsReadText_eq_false_iff {doc : Str}
    (refused : parse doc = .ok (none : Option (Value R))) :
    errorsReadText R doc = false ↔ RefusedAtStart R doc := by
  obtain ⟨left, extra, inside, read⟩ := malformed_of_refused refused
  simp only [errorsReadText, RefusedAtStart, read, Except.error.injEq, Stop.malformed.injEq]
  cases extra with
  | false => simp; omega
  | true => simp

end Termination

end Tsender.Json
