/- Tsender/Json/Writer
   source: jsoncpp.cpp (BuiltStyledStreamWriter, StreamWriterBuilder::newStreamWriter, writeString;
   Value::CZString::operator<, getMemberNames)
   digest: The writer with its saved state; without indentation it writes the plain text of a value,
   whatever comments the value has. -/

import Tsender.Json.Text

set_option autoImplicit false
set_option relaxedAutoImplicit false

namespace Tsender.Json

section Order

variable {R : Type}

/-- `CZString::operator<`: by the bytes of the common length, then by the lengths. -/
def keyLt : Str → Str → Bool
  | [], [] => false
  | [], _ :: _ => true
  | _ :: _, [] => false
  | a :: as, b :: bs => a.toNat < b.toNat ∨ a = b ∧ keyLt as bs

/-- A member at its place in the map, instead of one with the same name. -/
def insertMember (name : Str) (v : Value R) : List (Str × Value R) → List (Str × Value R)
  | [] => [(name, v)]
  | (k, w) :: ms =>
      if keyLt name k then (name, v) :: (k, w) :: ms
      else if name = k then (name, v) :: ms
      else (k, w) :: insertMember name v ms

mutual

/-- A value with the members of its objects in the order of `getMemberNames`. -/
def inOrder : Value R → Value R
  | .array vs => .array (allInOrder vs)
  | .object ms => .object (membersInOrder ms)
  | .null => .null
  | .bool b => .bool b
  | .int n => .int n
  | .uint n => .uint n
  | .real r => .real r
  | .string s => .string s

def allInOrder : List (Value R) → List (Value R)
  | [] => []
  | v :: vs => inOrder v :: allInOrder vs

def membersInOrder : List (Str × Value R) → List (Str × Value R)
  | [] => []
  | (name, v) :: ms => insertMember name (inOrder v) (membersInOrder ms)

end

end Order

section State

structure BuiltStyledStreamWriter where
  sout : Str
  childValues : List Str
  indentString : Str
  addChildValues : Bool
  indented : Bool

/-- What the writer is built with, and what the reader left with the values it read. -/
structure Settings (R : Type) where
  indentation : Str
  colonSymbol : Str
  nullSymbol : Str
  endingLineFeedSymbol : Str
  rightMargin : ℕ
  hasCommentForValue : Value R → Bool

/-- `newStreamWriter` with the comment style `None`. -/
def newStreamWriter {R : Type} (indentation : Str) (eyc dnp : Bool)
    (hasCommentForValue : Value R → Bool) : Settings R where
  indentation := indentation
  colonSymbol :=
    if eyc then ": ".toList else if indentation.isEmpty then ":".toList else " : ".toList
  nullSymbol := if dnp then [] else "null".toList
  endingLineFeedSymbol := []
  rightMargin := 74
  hasCommentForValue := hasCommentForValue

variable {R : Type} (st : Settings R)

def put (text : Str) (w : BuiltStyledStreamWriter) : BuiltStyledStreamWriter :=
  { w with sout := w.sout ++ text }

def pushValue (value : Str) (w : BuiltStyledStreamWriter) : BuiltStyledStreamWriter :=
  if w.addChildValues then { w with childValues := w.childValues ++ [value] } else put value w

def writeIndent (w : BuiltStyledStreamWriter) : BuiltStyledStreamWriter :=
  if st.indentation.isEmpty then w else put ('\n' :: w.indentString) w

def writeWithIndent (value : Str) (w : BuiltStyledStreamWriter) : BuiltStyledStreamWriter :=
  { put value (if w.indented then w else writeIndent st w) with indented := false }

def indent (w : BuiltStyledStreamWriter) : BuiltStyledStreamWriter :=
  { w with indentString := w.indentString ++ st.indentation }

def unindent (w : BuiltStyledStreamWriter) : BuiltStyledStreamWriter :=
  { w with indentString := w.indentString.take (w.indentString.length - st.indentation.length) }

def BuiltStyledStreamWriter.childAt (w : BuiltStyledStreamWriter) (index : ℕ) : Str :=
  (w.childValues[index]?).getD []

end State

section Write

variable {R : Type} [Doubles R] (st : Settings R)

def isFilled : Value R → Bool
  | .array vs => !vs.isEmpty
  | .object ms => !ms.isEmpty
  | _ => false

/-- With the loop that writes the children; it adds their lengths to the one of the line. -/
def isMultilineArray (vs : List (Value R))
    (writeChildren : Bool → ℕ → BuiltStyledStreamWriter → Bool × ℕ × BuiltStyledStreamWriter)
    (w : BuiltStyledStreamWriter) : Bool × BuiltStyledStreamWriter :=
  let size := vs.length
  let w := { w with childValues := [] }
  if st.rightMargin ≤ size * 3 % 2 ^ 32 ∨ vs.any isFilled then (true, w)
  else
    let r := writeChildren false (4 + (size - 1) * 2) { w with addChildValues := true }
    (r.1 || st.rightMargin ≤ r.2.1, { r.2.2 with addChildValues := false })

def writeLine (size : ℕ) (w : BuiltStyledStreamWriter) : BuiltStyledStreamWriter :=
  let space := if st.indentation.isEmpty then [] else [' ']
  let child (index : ℕ) := (if 0 < index then ',' :: space else []) ++ w.childAt index
  put ('[' :: space ++ (List.range size).flatMap child ++ space ++ [']']) w

/-- With its loops over the children. -/
def writeArrayValue (vs : List (Value R))
    (writeChildren : Bool → ℕ → BuiltStyledStreamWriter → Bool × ℕ × BuiltStyledStreamWriter)
    (writeElements : Bool → BuiltStyledStreamWriter → BuiltStyledStreamWriter)
    (w : BuiltStyledStreamWriter) : BuiltStyledStreamWriter :=
  if vs.isEmpty then pushValue "[]".toList w
  else
    let (isMultiLine, w) := isMultilineArray st vs writeChildren w
    if isMultiLine then
      let w := indent st (writeWithIndent st ['['] w)
      let hasChildValue := !w.childValues.isEmpty
      writeWithIndent st [']'] (unindent st (writeElements hasChildValue w))
    else writeLine st vs.length w

mutual

def writeValue : Value R → BuiltStyledStreamWriter → BuiltStyledStreamWriter
  | .null, w => pushValue st.nullSymbol w
  | .int n, w => pushValue (intText n) w
  | .uint n, w => pushValue (uintText n) w
  | .real r, w => pushValue (Doubles.toStr r) w
  | .string s, w => pushValue (valueToQuotedStringN s) w
  | .bool b, w => pushValue (if b then "true".toList else "false".toList) w
  | .array vs, w => writeArrayValue st vs (writeChildren vs 0) (writeElements vs 0) w
  | .object ms, w =>
      if ms.isEmpty then pushValue "\x7b\x7d".toList w
      else
        let w := writeMembers ms (indent st (writeWithIndent st ['\x7b'] w))
        writeWithIndent st ['\x7d'] (unindent st w)

/-- The second loop of `isMultilineArray`. -/
def writeChildren : List (Value R) → ℕ → Bool → ℕ → BuiltStyledStreamWriter →
    Bool × ℕ × BuiltStyledStreamWriter
  | [], _, isMultiLine, lineLength, w => (isMultiLine, lineLength, w)
  | v :: vs, index, isMultiLine, lineLength, w =>
      let w := writeValue v w
      writeChildren vs (index + 1) (isMultiLine || st.hasCommentForValue v)
        ((lineLength + (w.childAt index).length) % 2 ^ 32) w

def writeElements : List (Value R) → ℕ → Bool → BuiltStyledStreamWriter → BuiltStyledStreamWriter
  | [], _, _, w => w
  | v :: vs, index, hasChildValue, w =>
      let w :=
        if hasChildValue then writeWithIndent st (w.childAt index) w
        else
          let w := if w.indented then w else writeIndent st w
          { writeValue v { w with indented := true } with indented := false }
      writeElements vs (index + 1) hasChildValue (if vs.isEmpty then w else put [','] w)

def writeMembers : List (Str × Value R) → BuiltStyledStreamWriter → BuiltStyledStreamWriter
  | [], w => w
  | (name, v) :: ms, w =>
      let w := put st.colonSymbol (writeWithIndent st (valueToQuotedStringN name) w)
      let w := writeValue v w
      writeMembers ms (if ms.isEmpty then w else put [','] w)

end

/-- `write` with the saved state of an earlier call. -/
def write (root : Value R) (w : BuiltStyledStreamWriter) : Str :=
  let w := { w with sout := [], addChildValues := false, indented := true, indentString := [] }
  (put st.endingLineFeedSymbol (writeValue st (inOrder root) w)).sout

def writeString (root : Value R) : Str := write st root ⟨[], [], [], false, false⟩

end Write

section Induction

variable {R : Type} {motive : Value R → Prop}

structure Inductive (motive : Value R → Prop) : Prop where
  null : motive .null
  bool : ∀ b, motive (.bool b)
  int : ∀ n, motive (.int n)
  uint : ∀ n, motive (.uint n)
  real : ∀ r, motive (.real r)
  string : ∀ s, motive (.string s)
  array : ∀ vs, (∀ v ∈ vs, motive v) → motive (.array vs)
  object : ∀ ms, (∀ m ∈ ms, motive m.2) → motive (.object ms)

mutual

theorem Inductive.all (h : Inductive motive) : ∀ v, motive v
  | .null => h.null
  | .bool b => h.bool b
  | .int n => h.int n
  | .uint n => h.uint n
  | .real r => h.real r
  | .string s => h.string s
  | .array vs => h.array vs (h.elements vs)
  | .object ms => h.object ms (h.members ms)

theorem Inductive.elements (h : Inductive motive) : ∀ vs : List (Value R), ∀ v ∈ vs, motive v
  | [], _, inside => absurd inside List.not_mem_nil
  | w :: vs, v, inside =>
    (List.mem_cons.mp inside).elim (fun same => same ▸ h.all w) (h.elements vs v)

theorem Inductive.members (h : Inductive motive) :
    ∀ ms : List (Str × Value R), ∀ m ∈ ms, motive m.2
  | [], _, inside => absurd inside List.not_mem_nil
  | (_, w) :: ms, m, inside =>
    (List.mem_cons.mp inside).elim (fun same => same ▸ h.all w) (h.members ms m)

end

end Induction

section PlainText

variable {R : Type} [Doubles R]

mutual

def render : Value R → Str
  | .null => "null".toList
  | .int n => decimal n.toInt
  | .uint n => decimal n.toNat
  | .real r => Doubles.toStr r
  | .string s => valueToQuotedStringN s
  | .bool b => if b then "true".toList else "false".toList
  | .array vs => '[' :: renderElements vs ++ [']']
  | .object ms => '\x7b' :: renderMembers ms ++ ['\x7d']

def renderElements : List (Value R) → Str
  | [] => []
  | v :: vs => render v ++ (if vs.isEmpty then [] else ',' :: renderElements vs)

def renderMembers : List (Str × Value R) → Str
  | [] => []
  | (name, v) :: ms =>
      valueToQuotedStringN name ++ ':' :: render v ++
        (if ms.isEmpty then [] else ',' :: renderMembers ms)

end

end PlainText

section Refinement

variable {R : Type} [Doubles R] {hasComment : Value R → Bool} {w w' : BuiltStyledStreamWriter}

structure Wrote (text : Str) (w w' : BuiltStyledStreamWriter) : Prop where
  sout : w'.sout = w.sout ++ text
  direct : w'.addChildValues = false

abbrev compact (hasComment : Value R → Bool) : Settings R :=
  newStreamWriter [] false false hasComment

omit [Doubles R] in
private theorem writeIndent_compact : writeIndent (compact hasComment) w = w := rfl

theorem Wrote.trans {text more : Str} {w'' : BuiltStyledStreamWriter} (h : Wrote text w w')
    (h' : Wrote more w' w'') : Wrote (text ++ more) w w'' :=
  ⟨by rw [h'.sout, h.sout, List.append_assoc], h'.direct⟩

theorem Wrote.congr {text : Str} {u : BuiltStyledStreamWriter} (h : Wrote text u w')
    (same : u.sout = w.sout) : Wrote text w w' :=
  ⟨same ▸ h.sout, h.direct⟩

private theorem wrote_put (direct : w.addChildValues = false) (text : Str) : Wrote text w
    (put text w) :=
  ⟨rfl, direct⟩

private theorem wrote_pushValue (direct : w.addChildValues = false) (text : Str) :
    Wrote text w (pushValue text w) := by
  rw [pushValue, direct]
  exact wrote_put direct text

omit [Doubles R] in
private theorem wrote_writeWithIndent (direct : w.addChildValues = false) (text : Str) :
    Wrote text w (writeWithIndent (compact hasComment) text w) := by
  unfold writeWithIndent
  split <;> exact ⟨rfl, direct⟩

omit [Doubles R] in
private theorem childValues_writeWithIndent (text : Str) :
    (writeWithIndent (compact hasComment) text w).childValues = w.childValues := by
  unfold writeWithIndent
  split <;> rfl

omit [Doubles R] in
private theorem colonSymbol_compact : (compact hasComment).colonSymbol = [':'] := rfl

omit [Doubles R] in
private theorem wrote_bracketed {opening closing : Char} {text : Str}
    (loop : BuiltStyledStreamWriter → BuiltStyledStreamWriter)
    (inner : ∀ u : BuiltStyledStreamWriter, u.addChildValues = false →
      u.childValues = w.childValues → Wrote text u (loop u))
    (direct : w.addChildValues = false) :
    Wrote (opening :: text ++ [closing]) w (writeWithIndent (compact hasComment) [closing]
      (unindent (compact hasComment)
        (loop (indent (compact hasComment)
          (writeWithIndent (compact hasComment) [opening] w))))) := by
  have front := @wrote_writeWithIndent R hasComment _ direct [opening]
  have opened : Wrote [opening] w
      (indent (compact hasComment) (writeWithIndent (compact hasComment) [opening] w)) :=
    ⟨front.sout, front.direct⟩
  have written := opened.trans (inner _ opened.direct (childValues_writeWithIndent [opening]))
  have closed : Wrote ([opening] ++ text) w (unindent (compact hasComment)
      (loop (indent (compact hasComment)
        (writeWithIndent (compact hasComment) [opening] w)))) :=
    ⟨written.sout, written.direct⟩
  exact closed.trans (wrote_writeWithIndent closed.direct [closing])

private theorem writeValue_of_not_filled {v : Value R} (plain : isFilled v = false) :
    writeValue (compact hasComment) v w = pushValue (render v) w := by
  cases v with
  | null | real | string | bool => rfl
  | int n => simp only [writeValue, render, intText_eq]
  | uint n => simp only [writeValue, render, uintText_eq]
  | array vs =>
    have empty : vs = [] := by simpa [isFilled] using plain
    subst empty
    rfl
  | object ms =>
    have empty : ms = [] := by simpa [isFilled] using plain
    subst empty
    rfl

private theorem writeChildren_collects {vs : List (Value R)} (plain : ∀ v ∈ vs, isFilled v = false)
    (index lineLength : ℕ) (isMultiLine : Bool) (collect : w.addChildValues = true) :
    (writeChildren (compact hasComment) vs index isMultiLine lineLength w).2.2 =
      { w with childValues := w.childValues ++ vs.map render } := by
  induction vs generalizing index lineLength isMultiLine w with
  | nil => simp [writeChildren]
  | cons v vs ih =>
    have first := @writeValue_of_not_filled R _ hasComment w v
      (plain v List.mem_cons_self)
    have pushed : pushValue (render v) w =
        { w with childValues := w.childValues ++ [render v] } := by simp [pushValue, collect]
    rw [writeChildren, ih (fun u inside => plain u (List.mem_cons_of_mem v inside)) _ _ _
      (by rw [first, pushed]; exact collect), first, pushed]
    simp

private theorem renderElements_cons (v : Value R) (vs : List (Value R)) :
    renderElements (v :: vs) = render v ++ vs.flatMap fun u => ',' :: render u := by
  induction vs generalizing v with
  | nil => simp [renderElements]
  | cons u vs ih =>
    rw [renderElements, ih u]
    simp

private theorem wrote_collected {vs : List (Value R)} {index : ℕ}
    (held : w.childValues.drop index = vs.map render) (direct : w.addChildValues = false) :
    Wrote (renderElements vs) w (writeElements (compact hasComment) vs index true w) := by
  induction vs generalizing index w with
  | nil => exact ⟨by simp [writeElements, renderElements], direct⟩
  | cons v vs ih =>
    have front : w.childAt index = render v := by
      rw [BuiltStyledStreamWriter.childAt, ← List.head?_drop, held]
      rfl
    have behind : w.childValues.drop (index + 1) = vs.map render := by
      rw [← List.drop_drop, held]
      rfl
    have first := @wrote_writeWithIndent R hasComment _ direct (render v)
    simp only [writeElements, renderElements, if_true, front]
    cases vs with
    | nil => simpa [writeElements] using first
    | cons u vs =>
      have kept := @childValues_writeWithIndent R hasComment w (render v)
      rw [← kept] at behind
      exact first.trans ((wrote_put first.direct [',']).trans (ih behind first.direct))

private theorem wrote_each {vs : List (Value R)} {index : ℕ}
    (child : ∀ v ∈ vs, ∀ u : BuiltStyledStreamWriter, u.addChildValues = false →
      Wrote (render v) u (writeValue (compact hasComment) v u))
    (direct : w.addChildValues = false) :
    Wrote (renderElements vs) w (writeElements (compact hasComment) vs index false w) := by
  induction vs generalizing index w with
  | nil => exact ⟨by simp [writeElements, renderElements], direct⟩
  | cons v vs ih =>
    have written := child v List.mem_cons_self { w with indented := true } direct
    have first : Wrote (render v) w
        { writeValue (compact hasComment) v { w with indented := true } with indented := false } :=
      ⟨written.sout, written.direct⟩
    have rest := fun v inside => child v (List.mem_cons_of_mem _ inside)
    simp only [writeElements, renderElements, writeIndent_compact, ite_self]
    cases vs with
    | nil => simpa [writeElements] using first
    | cons u vs => exact first.trans ((wrote_put first.direct [',']).trans (ih rest first.direct))

private theorem wrote_writeMembers {ms : List (Str × Value R)}
    (child : ∀ m ∈ ms, ∀ u : BuiltStyledStreamWriter, u.addChildValues = false →
      Wrote (render m.2) u (writeValue (compact hasComment) m.2 u))
    (direct : w.addChildValues = false) :
    Wrote (renderMembers ms) w (writeMembers (compact hasComment) ms w) := by
  induction ms generalizing w with
  | nil => exact ⟨by simp [writeMembers, renderMembers], direct⟩
  | cons m ms ih =>
    obtain ⟨name, v⟩ := m
    have named := @wrote_writeWithIndent R hasComment _ direct
      (valueToQuotedStringN name)
    have colon := wrote_put named.direct [':']
    have first := named.trans (colon.trans (child (name, v) List.mem_cons_self _ colon.direct))
    have rest := fun m inside => child m (List.mem_cons_of_mem _ inside)
    simp only [writeMembers, renderMembers, colonSymbol_compact]
    cases ms with
    | nil => simpa [writeMembers] using first
    | cons m ms =>
      have written := first.trans ((wrote_put first.direct [',']).trans (ih rest first.direct))
      simpa [List.append_assoc] using written

omit [Doubles R] in
private theorem flatMap_getElem? (f : Str → Str) (texts : List Str) :
    (List.range texts.length).flatMap (fun i => f (texts[i]?.getD [])) = texts.flatMap f := by
  induction texts with
  | nil => rfl
  | cons t texts ih =>
    rw [List.length_cons, List.range_succ_eq_map, List.flatMap_cons, List.flatMap_map]
    simp only [List.getElem?_cons_zero, Option.getD_some, List.getElem?_cons_succ, ih,
      List.flatMap_cons]

private theorem wrote_writeLine {v : Value R} {vs : List (Value R)}
    (held : w.childValues = (v :: vs).map render) (direct : w.addChildValues = false) :
    Wrote (render (.array (v :: vs))) w (writeLine (compact hasComment) (v :: vs).length w) := by
  have rest := flatMap_getElem? (fun t => ',' :: t) (vs.map render)
  rw [List.length_map, List.flatMap_map] at rest
  refine ⟨?_, direct⟩
  simp only [writeLine, put, BuiltStyledStreamWriter.childAt, held, List.length_cons,
    List.range_succ_eq_map, List.flatMap_cons, List.flatMap_map, List.map_cons,
    List.getElem?_cons_zero, List.getElem?_cons_succ, Option.getD_some, render,
    renderElements_cons, ← rest]
  simp [newStreamWriter]

private theorem wrote_array {vs : List (Value R)}
    (child : ∀ v ∈ vs, ∀ u : BuiltStyledStreamWriter, u.addChildValues = false →
      Wrote (render v) u (writeValue (compact hasComment) v u))
    (direct : w.addChildValues = false) :
    Wrote (render (.array vs)) w (writeValue (compact hasComment) (.array vs) w) := by
  cases vs with
  | nil => exact wrote_pushValue direct _
  | cons v vs =>
    simp only [writeValue, writeArrayValue, isMultilineArray, List.isEmpty_cons,
      Bool.false_eq_true, if_false]
    by_cases several : (compact hasComment).rightMargin ≤ (v :: vs).length * 3 % 2 ^ 32 ∨
        ((v :: vs).any isFilled) = true
    · simp only [if_pos several, if_true]
      refine (wrote_bracketed (w := { w with childValues := [] })
        (fun u => writeElements (compact hasComment) (v :: vs) 0 (!u.childValues.isEmpty) u)
        (fun u straight none => ?_) direct).congr rfl
      rw [show u.childValues = [] from none]
      exact wrote_each child straight
    · have plain : ∀ u ∈ v :: vs, isFilled u = false := by
        simpa using fun h => several (.inr h)
      simp only [if_neg several]
      have collected := @writeChildren_collects R _ hasComment
        { w with childValues := [], addChildValues := true } (v :: vs) plain 0
        (4 + ((v :: vs).length - 1) * 2) false rfl
      generalize writeChildren (compact hasComment) (v :: vs) 0 false
        (4 + ((v :: vs).length - 1) * 2)
        { w with childValues := [], addChildValues := true } = r at collected ⊢
      obtain ⟨isMultiLine, lineLength, w'⟩ := r
      simp only [List.nil_append] at collected
      subst collected
      simp only
      split_ifs with long
      · refine (wrote_bracketed
          (w := { w with childValues := (v :: vs).map render, addChildValues := false })
          (fun u => writeElements (compact hasComment) (v :: vs) 0 (!u.childValues.isEmpty) u)
          (fun u straight held => ?_) rfl).congr rfl
        have all : u.childValues = (v :: vs).map render := held
        rw [all]
        exact wrote_collected (by rw [all, List.drop_zero]) straight
      · exact (wrote_writeLine
          (w := { w with childValues := (v :: vs).map render, addChildValues := false })
          rfl rfl).congr rfl

/-- The writer writes the text of a value, whatever it has saved before. -/
private theorem wrote_writeValue (v : Value R) : ∀ w : BuiltStyledStreamWriter,
    w.addChildValues = false → Wrote (render v) w (writeValue (compact hasComment) v w) := by
  have leaf : ∀ v : Value R, isFilled v = false → ∀ w : BuiltStyledStreamWriter,
      w.addChildValues = false → Wrote (render v) w (writeValue (compact hasComment) v w) := by
    intro v plain w direct
    rw [writeValue_of_not_filled plain]
    exact wrote_pushValue direct _
  refine Inductive.all (motive := fun v => ∀ w : BuiltStyledStreamWriter,
    w.addChildValues = false → Wrote (render v) w (writeValue (compact hasComment) v w)) ?_ v
  exact {
    null := leaf .null rfl
    bool := fun b => leaf (.bool b) rfl
    int := fun n => leaf (.int n) rfl
    uint := fun n => leaf (.uint n) rfl
    real := fun r => leaf (.real r) rfl
    string := fun s => leaf (.string s) rfl
    array := fun vs child w direct => wrote_array child direct
    object := fun ms child w direct => by
      cases ms with
      | nil => exact wrote_pushValue direct _
      | cons m ms =>
        simp only [writeValue, List.isEmpty_cons, Bool.false_eq_true, if_false]
        exact wrote_bracketed (writeMembers (compact hasComment) (m :: ms))
          (fun u straight _ => wrote_writeMembers child straight) direct }

/-- A writer that was used before writes the same. -/
theorem write_eq_render (root : Value R) (w : BuiltStyledStreamWriter) :
    write (compact hasComment) root w = render (inOrder root) := by
  have written := @wrote_writeValue R _ hasComment (inOrder root)
    { w with sout := [], addChildValues := false, indented := true, indentString := [] } rfl
  have text := written.sout
  rw [List.nil_append] at text
  simp only [write, put, text]
  rw [show (compact hasComment).endingLineFeedSymbol = [] from rfl, List.append_nil]

end Refinement

end Tsender.Json
