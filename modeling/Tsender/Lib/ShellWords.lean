/- Tsender/Lib/ShellWords
   digest: The literal words that a shell reads in a line of one simple command: quotes, escapes,
   comments and the end of the command, but no operator, no expansion and no pattern. -/

import Mathlib.Data.List.Basic
import Mathlib.Tactic.Common

set_option autoImplicit false
set_option relaxedAutoImplicit false

namespace Tsender.Lib.ShellWords

/-- How a character stands in a word. -/
inductive Mark where
  | bare
  | escaped
  | quoted
  /-- A quote, which is removed in the end. -/
  | delimiter
  deriving DecidableEq

structure Piece where
  char : Char
  mark : Mark
  deriving DecidableEq

/-- The character with its meaning for the shell. -/
def Piece.is (p : Piece) (c : Char) : Bool := p.mark = .bare && p.char = c

abbrev Word := List Piece

/-- Quote removal. -/
def Word.text (w : Word) : List Char := (w.filter (·.mark ≠ .delimiter)).map Piece.char

def Word.ofText (cs : List Char) : Word := cs.map (⟨·, .bare⟩)

/-- What a shell reads otherwise than POSIX says. -/
structure Shell where
  /-- Behind a dollar, in double quotes or not, the character begins an expansion or quotation of
  this shell. -/
  dollar : Bool → Char → Bool
  /-- A caret makes the complement of a bracket expression, as `!` does. -/
  caret : Bool
  /-- An expansion of this shell rewrites the word. -/
  rewrites : Word → Bool
  needs_brace : ∀ w, rewrites w = true → ∃ p ∈ w, p.is '\x7b' = true

/-- No expansions but those of POSIX. -/
def posix : Shell := ⟨fun _ _ => false, false, fun _ => false, nofun⟩

section Braces

/-- Behind an opening brace: what stands up to the brace that closes it, and what behind.  Only
behind a comma or two dots a brace closes one. -/
def braced : ℕ → Bool → Word → Option (Word × Word)
  | _, _, [] => none
  | depth, parted, p :: w =>
      if p.is '\x7d' ∧ depth = 0 ∧ parted then some ([], w)
      else
        let inner := if p.is '\x7b' then depth + 1 else if p.is '\x7d' then depth - 1 else depth
        let dots := match w with
          | [] => false
          | [d] => p.is '.' && d.is '.'
          | d :: e :: _ => p.is '.' && d.is '.' && !e.is '\x7d'
        (braced inner (parted || (depth = 0 && (p.is ',' || dots))) w).map fun (u, v) => (p :: u, v)

/-- A number with its sign, as the ends of a sequence may be. -/
def isNumber (cs : List Char) : Bool :=
  let digits := match cs with
    | '+' :: ds | '-' :: ds => ds
    | ds => ds
  digits ≠ [] ∧ digits.all Char.isDigit

/-- The parts between two dots each. -/
def splitDots : List Char → List (List Char)
  | [] => [[]]
  | '.' :: '.' :: cs => [] :: splitDots cs
  | c :: cs =>
      match splitDots cs with
      | [] => [[c]]
      | part :: parts => (c :: part) :: parts

def isLetter (cs : List Char) : Bool := cs.length = 1 ∧ cs.all Char.isAlpha

/-- Two numbers or two letters with dots between them, and perhaps an increment. -/
def isSequence (w : Word) : Bool :=
  w.all (·.mark = .bare) &&
    match splitDots w.text with
    | [a, b] => isNumber a && isNumber b || isLetter a && isLetter b
    | [a, b, n] => (isNumber a && isNumber b || isLetter a && isLetter b) && isNumber n
    | _ => false

/-- A brace expansion in the word.  `front` says that it begins here or behind a blank, where `\x7b\x7d`
is left alone. -/
def bracesFrom : ℕ → Bool → Word → Bool
  | 0, _, _ | _, _, [] => false
  | fuel + 1, front, p :: w =>
      if p.is '\x7b' && !(front && w.head?.any (·.is '\x7d')) then
        match braced 0 false w with
        | none => bracesFrom fuel false w
        | some (u, v) =>
            u.any (fun q => q.char = ',' ∧ q.mark ≠ .escaped) || isSequence u ||
              bracesFrom fuel true v
      else bracesFrom fuel (p.char = ' ' || p.char = '\t') w

def braces (w : Word) : Bool := bracesFrom w.length true w

private theorem exists_of_bracesFrom {fuel : ℕ} {front : Bool} {w : Word}
    (expands : bracesFrom fuel front w = true) : ∃ p ∈ w, p.is '\x7b' = true := by
  induction fuel generalizing front w with
  | zero => simp [bracesFrom] at expands
  | succ fuel ih =>
    cases w with
    | nil => simp [bracesFrom] at expands
    | cons p w =>
      rw [bracesFrom] at expands
      split at expands
      · rename_i opening
        exact ⟨p, List.mem_cons_self, (Bool.and_eq_true_iff.mp opening).1⟩
      · obtain ⟨q, mem, brace⟩ := ih expands
        exact ⟨q, List.mem_cons_of_mem p mem, brace⟩

/-- The expansion of braces, and `$[`, `$'` and `$"`. -/
def bash : Shell where
  dollar quotes c := c = '[' || (!quotes && (c = '\x27' || c = '\x22'))
  caret := true
  rewrites := braces
  needs_brace _ := exists_of_bracesFrom

end Braces

section Patterns

/-- Behind a bracket and its first character: whether it is closed in the same component. -/
def closes : Word → Bool
  | [] => false
  | p :: w => p.char ≠ '/' && (p.is ']' || closes w)

/-- Behind a bracket: whether it is a bracket expression. -/
def isBracket (sh : Shell) (w : Word) : Bool :=
  match w with
  | [] => false
  | p :: v =>
      match if p.is '!' ∨ sh.caret ∧ p.is '^' then v else w with
      | [] => false
      | q :: u => q.char ≠ '/' && closes u

def hasPattern (sh : Shell) : Word → Bool
  | [] => false
  | p :: w => p.is '*' || p.is '?' || (p.is '[' && isBracket sh w) || hasPattern sh w

/-- Nothing in the word is expanded. -/
def literal (sh : Shell) (w : Word) : Bool :=
  !hasPattern sh (w.filter (·.mark ≠ .delimiter)) && !sh.rewrites w

end Patterns

section Reading

inductive Mode where
  /-- Between two words. -/
  | between
  /-- Behind a backslash between two words. -/
  | gap
  | word
  /-- Behind a backslash in a word. -/
  | escape
  /-- Behind a dollar. -/
  | dollar
  | dollarEscape
  | single
  | double
  | doubleEscape
  | doubleDollar
  | doubleDollarEscape
  | comment
  /-- Behind the newline, `;` or `&` that ends the command. -/
  | ended
  | endedEscape
  deriving DecidableEq

def blank (c : Char) : Bool := c ∈ [' ', '\t']

/-- What ends a command. -/
def ends (c : Char) : Bool := c ∈ ['\n', ';', '&']

/-- The other operators, and the quotation of commands. -/
def operator (c : Char) : Bool := c ∈ ['|', '<', '>', '(', ')', '\x60']

/-- What makes an expansion of a dollar in front of it. -/
def parameter (c : Char) : Bool :=
  c.isAlphanum || c ∈ ['_', '@', '*', '#', '?', '$', '!', '-', '\x7b', '(']

/-- What a backslash escapes in double quotes. -/
def special (c : Char) : Bool := c ∈ ['$', '\x60', '\x22', '\\']

/-- What is read of a line. -/
inductive Token where
  /-- A word begins. -/
  | new
  | put (p : Piece)

def bare (c : Char) : Token := .put ⟨c, .bare⟩

def escaped (c : Char) : Token := .put ⟨c, .escaped⟩

def quoted (c : Char) : Token := .put ⟨c, .quoted⟩

def delimiter (c : Char) : Token := .put ⟨c, .delimiter⟩

def wordStep (c : Char) : Option (List Token × Mode) :=
  if blank c then some ([], .between)
  else if ends c then some ([], .ended)
  else if operator c then none
  else if c = '$' then some ([], .dollar)
  else if c = '\\' then some ([], .escape)
  else if c = '\x27' then some ([delimiter c], .single)
  else if c = '\x22' then some ([delimiter c], .double)
  else some ([bare c], .word)

def doubleStep (c : Char) : Option (List Token × Mode) :=
  if c = '\x22' then some ([delimiter c], .word)
  else if c = '\x60' then none
  else if c = '$' then some ([], .doubleDollar)
  else if c = '\\' then some ([], .doubleEscape)
  else some ([quoted c], .double)

/-- Behind tokens that are read already. -/
def after (ts : List Token) : Option (List Token × Mode) → Option (List Token × Mode) :=
  Option.map fun next => (ts ++ next.1, next.2)

/-- What a character is read as; `none` if the line is more than one command of literal words. -/
def step (sh : Shell) : Mode → Char → Option (List Token × Mode)
  | .between, c =>
      if blank c then some ([], .between)
      else if ends c then some ([], .ended)
      else if c = '~' then none
      else if c = '#' then some ([], .comment)
      else if c = '\\' then some ([], .gap)
      else after [.new] (wordStep c)
  | .gap, c => if c = '\n' then some ([], .between) else some ([.new, escaped c], .word)
  | .word, c => wordStep c
  | .escape, c => if c = '\n' then some ([], .word) else some ([escaped c], .word)
  | .dollar, c =>
      if parameter c || sh.dollar false c then none
      else if c = '\\' then some ([], .dollarEscape)
      else after [bare '$'] (wordStep c)
  | .dollarEscape, c =>
      if c = '\n' then some ([], .dollar) else some ([bare '$', escaped c], .word)
  | .single, c =>
      if c = '\x27' then some ([delimiter c], .word) else some ([quoted c], .single)
  | .double, c => doubleStep c
  | .doubleEscape, c =>
      if c = '\n' then some ([], .double)
      else if special c then some ([quoted c], .double)
      else some ([quoted '\\', quoted c], .double)
  | .doubleDollar, c =>
      if parameter c || sh.dollar true c then none
      else if c = '\\' then some ([], .doubleDollarEscape)
      else after [quoted '$'] (doubleStep c)
  | .doubleDollarEscape, c =>
      if c = '\n' then some ([], .doubleDollar)
      else if special c then some ([quoted '$', quoted c], .double)
      else some ([quoted '$', quoted '\\', quoted c], .double)
  | .comment, c => some ([], if c = '\n' then .ended else .comment)
  | .ended, c =>
      if blank c ∨ c = '\n' then some ([], .ended)
      else if c = '#' then some ([], .comment)
      else if c = '\\' then some ([], .endedEscape)
      else none
  | .endedEscape, c => if c = '\n' then some ([], .ended) else none

/-- What the end of the line is read as: a backslash or a dollar in front of it stands for
itself. -/
def finish : Mode → Option (List Token)
  | .between | .word | .comment | .ended => some []
  | .gap => some [.new, escaped '\\']
  | .escape => some [escaped '\\']
  | .dollar => some [bare '$']
  | .dollarEscape => some [bare '$', escaped '\\']
  | .single | .double | .doubleEscape | .doubleDollar | .doubleDollarEscape | .endedEscape => none

/-- The rest of the word that is being read, and the words after it. -/
structure Reading where
  rest : Word
  words : List Word
  deriving DecidableEq

def Reading.add : Token → Reading → Reading
  | .new, r => ⟨[], r.rest :: r.words⟩
  | .put p, r => ⟨p :: r.rest, r.words⟩

def Reading.addAll (ts : List Token) (r : Reading) : Reading := ts.foldr .add r

def read (sh : Shell) : Mode → List Char → Option Reading
  | mode, [] => (finish mode).map fun ts => .addAll ts ⟨[], []⟩
  | mode, c :: cs =>
      match step sh mode c with
      | none => none
      | some (ts, next) => (read sh next cs).map (.addAll ts)

/-- The words of a line; `none` if the line is anything but one command of literal words. -/
def words (sh : Shell) (line : List Char) : Option (List (List Char)) :=
  match read sh .between line with
  | none => none
  | some r => if r.words.all (literal sh) then some (r.words.map Word.text) else none

/-- What a text adds to the word in front of it, if it adds that and nothing else and the whole
word is literal. -/
def continues (sh : Shell) (front text : List Char) : Option (List Char) :=
  match read sh .word text with
  | some ⟨rest, []⟩ => if literal sh (.ofText front ++ rest) then some (Word.text rest) else none
  | some ⟨_, _ :: _⟩ | none => none

end Reading

section Plain

/-- What stands for itself in a word, for every shell. -/
def plain (c : Char) : Bool :=
  !blank c && !ends c && !operator c &&
    c ∉ ['$', '\\', '\x27', '\x22', '*', '?', '[', '\x7b']

variable {sh : Shell} {c : Char} {front : List Char}

private theorem wordStep_plain (h : plain c = true) : wordStep c = some ([bare c], .word) := by
  simp only [plain, Bool.and_eq_true, Bool.not_eq_true', decide_eq_true_eq, List.mem_cons,
    List.not_mem_nil, or_false, not_or] at h
  obtain ⟨⟨⟨not_blank, not_end⟩, not_operator⟩, dollar, escape, single, double, -⟩ := h
  simp [wordStep, not_blank, not_end, not_operator, dollar, escape, single, double]

private theorem betweenStep_plain (h : plain c = true) (tilde : c ≠ '~') (comment : c ≠ '#') :
    step sh .between c = some ([.new, bare c], .word) := by
  have first := wordStep_plain h
  simp only [plain, Bool.and_eq_true, Bool.not_eq_true', decide_eq_true_eq, List.mem_cons,
    List.not_mem_nil, or_false, not_or] at h
  obtain ⟨⟨⟨not_blank, not_end⟩, -⟩, -, escape, -⟩ := h
  simp [step, not_blank, not_end, escape, tilde, comment, first, after]

private theorem read_word_append (h : ∀ c ∈ front, plain c = true) (cs : List Char) :
    read sh .word (front ++ cs) =
      (read sh .word cs).map fun r => ⟨.ofText front ++ r.rest, r.words⟩ := by
  induction front with
  | nil => simp [Word.ofText]
  | cons c front ih =>
    have later := ih fun d hd => h d (List.mem_cons_of_mem c hd)
    simp only [List.cons_append, read, step, wordStep_plain (h c List.mem_cons_self), later,
      Option.map_map]
    rfl

theorem read_between_append (h : ∀ d ∈ c :: front, plain d = true) (tilde : c ≠ '~')
    (comment : c ≠ '#') (cs : List Char) : read sh .between (c :: front ++ cs) =
      (read sh .word cs).map fun r => ⟨[], (.ofText (c :: front) ++ r.rest) :: r.words⟩ := by
  have later := @read_word_append sh _ (fun d hd => h d (List.mem_cons_of_mem c hd)) cs
  simp only [List.cons_append, read, betweenStep_plain (h c List.mem_cons_self) tilde comment,
    later, Option.map_map]
  rfl

/-- The modes in which no word is being read. -/
def Mode.outside : Mode → Bool
  | .between | .gap | .comment | .ended | .endedEscape => true
  | _ => false

theorem step_outside {mode next : Mode} {ts : List Token} (outside : mode.outside = true)
    (taken : step sh mode c = some (ts, next)) :
    ts = [] ∧ next.outside = true ∨ ts.head? = some .new := by
  cases mode with
  | between =>
    simp only [step] at taken
    split_ifs at taken
    iterate 4
      · cases taken
        exact .inl ⟨rfl, rfl⟩
    · obtain ⟨next, -, same⟩ := Option.map_eq_some_iff.mp taken
      cases same
      exact .inr rfl
  | gap =>
    simp only [step] at taken
    split_ifs at taken
    · cases taken
      exact .inl ⟨rfl, rfl⟩
    · cases taken
      exact .inr rfl
  | comment =>
    cases taken
    exact .inl ⟨rfl, by split_ifs <;> rfl⟩
  | ended =>
    simp only [step] at taken
    split_ifs at taken
    all_goals
      cases taken
      exact .inl ⟨rfl, rfl⟩
  | endedEscape =>
    simp only [step] at taken
    split_ifs at taken
    cases taken
    exact .inl ⟨rfl, rfl⟩
  | _ => cases outside

private theorem rest_addAll_new {ts : List Token} {r : Reading} (first : ts.head? = some .new) :
    (r.addAll ts).rest = [] := by
  obtain ⟨ts, rfl⟩ := List.head?_eq_some_iff.mp first
  rfl

private theorem rest_eq_nil {mode : Mode} (outside : mode.outside = true) {cs : List Char}
    {r : Reading} (done : read sh mode cs = some r) : r.rest = [] := by
  induction cs generalizing mode r with
  | nil =>
    obtain ⟨ts, finished, rfl⟩ := Option.map_eq_some_iff.mp done
    cases mode with
    | between | gap | comment | ended =>
      cases finished
      rfl
    | endedEscape => cases finished
    | _ => cases outside
  | cons c cs ih =>
    simp only [read] at done
    split at done
    · cases done
    · rename_i ts next taken
      obtain ⟨r', later, rfl⟩ := Option.map_eq_some_iff.mp done
      rcases step_outside outside taken with ⟨rfl, still⟩ | first
      · exact ih still later
      · exact rest_addAll_new first

theorem read_between_word {b : Char} (h : ∀ d ∈ c :: front, plain d = true) (tilde : c ≠ '~')
    (comment : c ≠ '#') (gap : blank b = true) (cs : List Char) :
    read sh .between (c :: front ++ b :: cs) =
      (read sh .between cs).map fun r => ⟨[], .ofText (c :: front) :: r.words⟩ := by
  have closed : read sh .word (b :: cs) = read sh .between cs := by
    have same : Reading.addAll [] = id := rfl
    simp [read, step, wordStep, gap, same]
  rw [read_between_append h tilde comment, closed]
  apply Option.map_congr
  intro r done
  simp only [rest_eq_nil rfl done, List.append_nil]

@[simp]
theorem text_ofText (cs : List Char) : (Word.ofText cs).text = cs := by
  simp [Word.text, Word.ofText, List.filter_map, Function.comp_def]

@[simp]
theorem text_append (u v : Word) : (Word.text (u ++ v)) = u.text ++ v.text := by
  simp [Word.text]

private theorem plain_ne {d : Char} (h : plain c = true) (active : plain d = false) : c ≠ d := by
  rintro rfl
  rw [h] at active
  cases active

private theorem hasPattern_plain (h : ∀ c ∈ front, plain c = true) :
    hasPattern sh (.ofText front) = false := by
  induction front with
  | nil => rfl
  | cons c front ih =>
    have here := h c List.mem_cons_self
    have later := ih fun d hd => h d (List.mem_cons_of_mem c hd)
    have other : ∀ d, plain d = false → Piece.is ⟨c, .bare⟩ d = false := by
      intro d active
      simp [Piece.is, plain_ne here active]
    simp only [Word.ofText, List.map_cons, hasPattern, other _ (by decide : plain '*' = false),
      other _ (by decide : plain '?' = false), other _ (by decide : plain '[' = false),
      Bool.false_and, Bool.false_or]
    exact later

theorem literal_plain (h : ∀ c ∈ front, plain c = true) : literal sh (.ofText front) = true := by
  have whole : (Word.ofText front).filter (·.mark ≠ .delimiter) = Word.ofText front := by
    simp [Word.ofText, List.filter_map, Function.comp_def]
  have kept : sh.rewrites (.ofText front) = false := by
    rw [Bool.eq_false_iff]
    intro rewrites
    obtain ⟨p, mem, brace⟩ := sh.needs_brace _ rewrites
    obtain ⟨c, inside, rfl⟩ := List.mem_map.mp mem
    have other := plain_ne (h c inside) (by decide : plain '\x7b' = false)
    exact other (of_decide_eq_true (Bool.and_eq_true_iff.mp brace).2)
  rw [literal, whole, hasPattern_plain h, kept]
  rfl

end Plain

example : words bash "rm -rf 'a b'/\\$c \"d\" e$ f[ g\\".toList =
    some (["rm", "-rf", "a b/$c", "d", "e$", "f[", "g\\"].map String.toList) := by decide

example : words posix "rm -rf a; rm b".toList = none := by decide

-- The braces are for bash only.
example : words posix "rm a/\x7bx,..\x7d".toList =
    some (["rm", "a/\x7bx,..\x7d"].map String.toList) := by decide

example : words bash "rm a/\x7bx,..\x7d".toList = none := by decide

end Tsender.Lib.ShellWords
