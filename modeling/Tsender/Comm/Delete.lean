/- Tsender/Comm/Delete
   source: comm.cpp (RX, play_delete)
   digest: The command line that play_delete hands to the shell, and exactly which targets keep
   it inside the directory of the recordings. -/

import Tsender.Json.Value
import Tsender.Lib.PathWalk
import Tsender.Lib.ShellWords

set_option autoImplicit false
set_option relaxedAutoImplicit false

namespace Tsender.Comm.Delete

open Json Lib.PathWalk Lib.ShellWords

/-- What a C function reads of `s.c_str()`. -/
def cStr (s : Str) : Str := s.takeWhile (· ≠ '\x00')

/-- The argument of `system`, if `play_delete` calls it. -/
def deleteCommand (fileDst infoTarget : Str) : Option Str :=
  let target := fileDst ++ "/".toList ++ infoTarget
  let line := "rm -rf ".toList ++ target
  if 0 < target.length then
    if target.take 1 ≠ "/".toList then some (cStr line) else none
  else none

def dirChar (c : Char) : Bool := c.isAlphanum || c ∈ ['_', '-', '/']

/-- A directory as the setting `file_dst` names it. -/
structure Dir where
  text : Str
  nonempty : text ≠ []
  relative : text.head? ≠ some '/'
  chars : ∀ c ∈ text, dirChar c = true

/-- The shell reads `line` as `rm -rf` with a single literal operand, which leads strictly below
`fileDst`. -/
def Confined (sh : Shell) (fileDst line : Str) : Prop :=
  ∃ word, words sh line = some ["rm".toList, "-rf".toList, word] ∧ word.head? ≠ some '-' ∧
    (place fileDst).StrictlyAbove (place word)

/-- The directory is no option, the shell reads the target up to its first NUL as the rest of one
literal word, and this rest comes down again on the same way as it goes up, and further. -/
def Inside (sh : Shell) (fileDst infoTarget : Str) : Prop :=
  fileDst.head? ≠ some '-' ∧
    ∃ rest, continues sh (fileDst ++ "/".toList) (cStr infoTarget) = some rest ∧
    (place rest).ups ≤ (place fileDst).names.length ∧
    (place fileDst).names.drop ((place fileDst).names.length - (place rest).ups) <+:
      (place rest).names ∧
    (place rest).ups < (place rest).names.length

section Characters

private def special : List Char :=
  [' ', '\t', '\n', ';', '&', '|', '<', '>', '(', ')', '$', '\x60', '*', '?', '[', '\\', '\x27',
    '\x22', '\x7b']

private theorem dirChar_special : ∀ c ∈ special, dirChar c = false := by
  have none_dir : special.all (fun c => !dirChar c) = true := by decide
  simpa only [List.all_eq_true, Bool.not_eq_true'] using none_dir

private theorem plain_of_dirChar {c : Char} (h : dirChar c = true) : plain c = true := by
  by_contra not_plain
  have found : c ∈ special := by
    simp only [plain, blank, ends, operator, special, List.mem_cons, List.not_mem_nil, or_false,
      Bool.and_eq_true, Bool.not_eq_true', decide_eq_true_eq, decide_eq_false_iff_not] at *
    tauto
  rw [dirChar_special c found] at h
  cases h

private theorem dirChar_ne {c d : Char} (h : dirChar c = true) (special : dirChar d = false) :
    c ≠ d := by
  rintro rfl
  rw [h] at special
  cases special

theorem cStr_append {front : Str} (h : '\x00' ∉ front) (back : Str) :
    cStr (front ++ back) = front ++ cStr back := by
  unfold cStr
  rw [List.takeWhile_append_of_pos]
  intro c hc
  have other : c ≠ '\x00' := fun nul => h (nul ▸ hc)
  simpa using other

end Characters

section Line

variable (fileDst : Dir) (infoTarget : Str)

private theorem Dir.exists_cons : ∃ c front, fileDst.text = c :: front ∧ c ≠ '/' := by
  obtain ⟨c, front, whole⟩ := List.exists_cons_of_ne_nil fileDst.nonempty
  refine ⟨c, front, whole, ?_⟩
  have relative := fileDst.relative
  rw [whole] at relative
  simpa using relative

private theorem deleteCommand_eq : deleteCommand fileDst.text infoTarget =
    some ("rm -rf ".toList ++ fileDst.text ++ '/' :: cStr infoTarget) := by
  obtain ⟨c, front, whole, relative⟩ := fileDst.exists_cons
  have no_nul : '\x00' ∉ "rm -rf ".toList ++ fileDst.text ++ "/".toList := by
    intro nul
    rcases List.mem_append.mp nul with inside | slash
    · rcases List.mem_append.mp inside with fixed | text
      · revert fixed
        decide
      · exact dirChar_ne (fileDst.chars _ text) (by decide) rfl
    · revert slash
      decide
  have first : (fileDst.text ++ "/".toList ++ infoTarget).take 1 ≠ "/".toList := by
    rw [whole]
    simpa using relative
  have some_char : 0 < (fileDst.text ++ "/".toList ++ infoTarget).length := by
    simp only [List.length_append, String.reduceToList, List.length_cons]
    omega
  have line := cStr_append no_nul infoTarget
  simp only [deleteCommand, if_pos some_char, if_pos first, ← List.append_assoc, line]
  simp

private theorem read_rm (sh : Shell) (cs : Str) :
    read sh .between ("rm -rf ".toList ++ cs) = (read sh .between cs).map fun r =>
      ⟨[], .ofText "rm".toList :: .ofText "-rf".toList :: r.words⟩ := by
  have rm : ∀ d ∈ 'r' :: ['m'], plain d = true := List.all_eq_true.mp (by decide)
  have rf : ∀ d ∈ '-' :: ['r', 'f'], plain d = true := List.all_eq_true.mp (by decide)
  have line : "rm -rf ".toList ++ cs = 'r' :: ['m'] ++ ' ' :: ('-' :: ['r', 'f'] ++ ' ' :: cs) := by
    simp
  rw [line, read_between_word rm (by decide) (by decide) rfl,
    read_between_word rf (by decide) (by decide) rfl, Option.map_map]
  simp [Function.comp_def]

private theorem read_line (sh : Shell) (cs : Str) :
    read sh .between ("rm -rf ".toList ++ fileDst.text ++ '/' :: cs) =
      (read sh .word cs).map fun r => ⟨[], .ofText "rm".toList :: .ofText "-rf".toList ::
        (.ofText (fileDst.text ++ "/".toList) ++ r.rest) :: r.words⟩ := by
  obtain ⟨c, front, whole, -⟩ := fileDst.exists_cons
  have text : ∀ d ∈ c :: (front ++ ['/']), plain d = true := by
    intro d hd
    have inside : d ∈ fileDst.text ++ ['/'] := by simpa [whole] using hd
    rcases List.mem_append.mp inside with dir | slash
    · exact plain_of_dirChar (fileDst.chars d dir)
    · rw [List.mem_singleton.mp slash]
      decide
  have head := fileDst.chars c (by simp [whole])
  have operand := @read_between_append sh _ _ text (dirChar_ne head (by decide))
    (dirChar_ne head (by decide)) cs
  have line : "rm -rf ".toList ++ fileDst.text ++ '/' :: cs =
      "rm -rf ".toList ++ (c :: (front ++ ['/']) ++ cs) := by
    simp [whole]
  rw [line, read_rm, operand]
  simp [Function.comp_def, whole]

private theorem words_line {sh : Shell} {cs word : Str} :
    words sh ("rm -rf ".toList ++ fileDst.text ++ '/' :: cs) =
        some ["rm".toList, "-rf".toList, word] ↔
      ∃ rest, continues sh (fileDst.text ++ "/".toList) cs = some rest ∧
        word = fileDst.text ++ '/' :: rest := by
  have rm : literal sh (.ofText "rm".toList) = true := literal_plain (List.all_eq_true.mp (by decide))
  have rf : literal sh (.ofText "-rf".toList) = true :=
    literal_plain (List.all_eq_true.mp (by decide))
  rw [words, read_line]
  cases found : read sh .word cs with
  | none => simp [continues, found]
  | some r =>
    obtain ⟨w, more⟩ := r
    simp only [Option.map_some, List.all_cons, rm, rf, Bool.true_and, List.map_cons, text_ofText,
      text_append]
    cases more with
    | nil =>
      simp only [continues, found, List.all_nil, Bool.and_true, List.map_nil]
      generalize literal sh (.ofText (fileDst.text ++ "/".toList) ++ w) = whole
      cases whole with
      | false => simp
      | true => simp [eq_comm (a := word)]
    | cons v vs =>
      simp only [continues, found, reduceCtorEq, false_and, exists_false, iff_false]
      split
      · simp
      · exact nofun

end Line

/-- Whatever the shell, `play_delete` is confined for exactly the targets that stay inside. -/
theorem deleteCommand_confined_iff (sh : Shell) (fileDst : Dir) (infoTarget : Str) :
    (∀ line, deleteCommand fileDst.text infoTarget = some line →
      Confined sh fileDst.text line) ↔ Inside sh fileDst.text infoTarget := by
  have below : ∀ rest, (place fileDst.text).StrictlyAbove (place (fileDst.text ++ '/' :: rest)) ↔
      (place rest).ups ≤ (place fileDst.text).names.length ∧
        (place fileDst.text).names.drop ((place fileDst.text).names.length - (place rest).ups) <+:
          (place rest).names ∧ (place rest).ups < (place rest).names.length := by
    intro rest
    rw [place_append_slash]
    exact Place.strictlyAbove_append_iff _ _
  have head : ∀ rest, (fileDst.text ++ '/' :: rest).head? = fileDst.text.head? := by
    intro rest
    obtain ⟨c, front, whole, -⟩ := fileDst.exists_cons
    simp [whole]
  constructor
  · intro confined
    obtain ⟨word, line, no_option, above⟩ := confined _ (deleteCommand_eq fileDst infoTarget)
    obtain ⟨rest, done, rfl⟩ := (words_line fileDst).mp line
    exact ⟨head rest ▸ no_option, rest, done, (below rest).mp above⟩
  · rintro ⟨no_option, rest, done, inside⟩ line command
    obtain rfl := Option.some.inj ((deleteCommand_eq fileDst infoTarget).symm.trans command)
    exact ⟨fileDst.text ++ '/' :: rest, (words_line fileDst).mpr ⟨rest, done, rfl⟩,
      (head rest).symm ▸ no_option, (below rest).mpr inside⟩

/-- An empty target removes the directory of the recordings itself. -/
theorem empty_target_deletes_all :
    ¬ ∀ (sh : Shell) (fileDst : Dir) (infoTarget line : Str),
      deleteCommand fileDst.text infoTarget = some line → Confined sh fileDst.text line := by
  intro claim
  obtain ⟨word, line, -, above⟩ := claim posix
    ⟨"output".toList, by decide, by decide, List.all_eq_true.mp (by decide)⟩ []
    "rm -rf output/".toList (by decide)
  have whole : words posix "rm -rf output/".toList =
      some ["rm".toList, "-rf".toList, "output/".toList] := by decide
  rw [whole] at line
  obtain rfl : "output/".toList = word := by simpa using line
  revert above
  decide

end Tsender.Comm.Delete
