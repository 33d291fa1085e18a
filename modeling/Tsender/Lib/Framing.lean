/- Tsender/Lib/Framing
   digest: Messages sent as numbered parts, one after the other over one line, and a collector
   that finds their ends from the labels alone. -/

import Mathlib.Algebra.Ring.Int.Defs
import Mathlib.Data.List.Basic
import Mathlib.Tactic.Common

set_option autoImplicit false
set_option relaxedAutoImplicit false

namespace Tsender.Lib.Framing

universe u v w

/-- What a part says about itself. -/
structure Label (δ : Type u) (β : Type v) where
  /-- How many parts the message has. -/
  total : δ → ℤ
  /-- Which of them this one is, from 1 on. -/
  number : δ → ℤ
  load : δ → List β

/-- A message of which the parts before `next` are there. -/
structure Assembly (β : Type v) where
  total : ℤ
  next : ℤ
  loaded : List β
  deriving DecidableEq

variable {δ : Type u} {β : Type v}

/-- What is loaded with this part: the first one starts a message, any other one must be the
next of the message in hand. -/
def Label.join (l : Label δ β) (held : Option (Assembly β)) (d : δ) : Option (List β) :=
  if l.number d = 1 then some (l.load d)
  else
    match held with
    | none => none
    | some a =>
        if l.total d = a.total ∧ l.number d = a.next then some (a.loaded ++ l.load d) else none

/-- Take one part; the last one completes the message. -/
def Label.accept (l : Label δ β) (held : Option (Assembly β)) (d : δ) :
    Option (Assembly β) × List (List β) :=
  match l.join held d with
  | none => (none, [])
  | some loaded =>
      if l.number d = l.total d then (none, [loaded])
      else (some ⟨l.total d, l.number d + 1, loaded⟩, [])

/-- Take part after part: the message in hand at the end and those completed. -/
def Label.collect (l : Label δ β) :
    Option (Assembly β) → List δ → Option (Assembly β) × List (List β)
  | held, [] => (held, [])
  | held, d :: ds =>
      let (next, done) := l.accept held d
      let (last, later) := l.collect next ds
      (last, done ++ later)

/-- Consecutive parts of one message, from a number on. -/
def Label.Consecutive (l : Label δ β) (total : ℤ) : ℤ → List δ → Prop
  | _, [] => True
  | first, d :: ds =>
      l.total d = total ∧ l.number d = first ∧ l.Consecutive total (first + 1) ds

/-- The parts one message was sent as: all of them, or the front of them. -/
structure Label.Sends (l : Label δ β) (parts : List δ) (whole : Bool) (message : List β) :
    Prop where
  consecutive : ∃ total, l.Consecutive total 1 parts ∧
    if whole then parts ≠ [] ∧ parts.length = total else parts.length < total
  loads : whole = true → (parts.map l.load).flatten = message

section Collect

variable {l : Label δ β} {held : Option (Assembly β)} {d : δ} {ds es : List δ} {total first : ℤ}
  {loaded : List β}

private theorem Label.collect_append (held : Option (Assembly β)) (ds es : List δ) :
    l.collect held (ds ++ es) =
      ((l.collect (l.collect held ds).1 es).1,
        (l.collect held ds).2 ++ (l.collect (l.collect held ds).1 es).2) := by
  induction ds generalizing held with
  | nil => simp [collect]
  | cons d ds ih => simp only [List.cons_append, collect, ih, List.append_assoc]

theorem Label.consecutive_of_getElem
    (labels : ∀ (i : ℕ) (h : i < ds.length), l.total ds[i] = total ∧ l.number ds[i] = first + i) :
    l.Consecutive total first ds := by
  induction ds generalizing first with
  | nil => trivial
  | cons d ds ih =>
    obtain ⟨same, front⟩ := labels 0 (by simp)
    refine ⟨same, by simpa using front, ih fun i below => ?_⟩
    obtain ⟨same, next⟩ := labels (i + 1) (by simpa using below)
    refine ⟨same, next.trans ?_⟩
    push_cast
    omega

theorem Label.Consecutive.take (run : l.Consecutive total first ds) (k : ℕ) :
    l.Consecutive total first (ds.take k) := by
  induction ds generalizing first k with
  | nil => simpa using run
  | cons d ds ih =>
    cases k with
    | zero => trivial
    | succ k => exact ⟨run.1, run.2.1, ih run.2.2 k⟩

private theorem Label.accept_next (same : l.total d = total) (next : l.number d = first)
    (later : first ≠ 1) :
    l.accept (some ⟨total, first, loaded⟩) d =
      if first = total then (none, [loaded ++ l.load d])
      else (some ⟨total, first + 1, loaded ++ l.load d⟩, []) := by
  simp [accept, join, same, next, later]

private theorem Label.accept_first (same : l.total d = total) (front : l.number d = 1) :
    l.accept held d =
      if total = 1 then (none, [l.load d]) else (some ⟨total, 2, l.load d⟩, []) := by
  simp [accept, join, same, front, eq_comm]

private theorem Label.collect_front (run : l.Consecutive total first ds) (later : 1 < first)
    (short : first + ds.length ≤ total) :
    l.collect (some ⟨total, first, loaded⟩) ds =
      (some ⟨total, first + ds.length, loaded ++ (ds.map l.load).flatten⟩, []) := by
  induction ds generalizing first loaded with
  | nil => simp [collect]
  | cons d ds ih =>
    obtain ⟨same, next, run⟩ := run
    rw [List.length_cons] at short
    push_cast at short
    have before : first ≠ total := by omega
    simp only [collect, accept_next same next (by omega), if_neg before]
    rw [ih run (by omega) (by omega)]
    have shift : first + 1 + (ds.length : ℤ) = first + ((d :: ds).length : ℤ) := by
      rw [List.length_cons]
      push_cast
      omega
    simp [shift]

private theorem Label.collect_back (run : l.Consecutive total first ds) (later : 1 < first)
    (some_left : ds ≠ []) (reaches : first + ds.length = total + 1) :
    l.collect (some ⟨total, first, loaded⟩) ds = (none, [loaded ++ (ds.map l.load).flatten]) := by
  induction ds generalizing first loaded with
  | nil => exact absurd rfl some_left
  | cons d ds ih =>
    obtain ⟨same, next, run⟩ := run
    rw [List.length_cons] at reaches
    push_cast at reaches
    cases ds with
    | nil =>
      have last : first = total := by simpa using reaches
      simp only [collect, accept_next same next (by omega), if_pos last]
      simp
    | cons d' ds =>
      have before : first ≠ total := by
        rw [List.length_cons] at reaches
        push_cast at reaches
        omega
      rw [collect]
      simp only [accept_next same next (by omega), if_neg before]
      rw [ih run (by omega) (by simp) (by omega)]
      simp

private theorem Label.collect_whole (run : l.Consecutive total 1 ds) (some_left : ds ≠ [])
    (all : ds.length = total) :
    l.collect held ds = (none, [(ds.map l.load).flatten]) := by
  cases ds with
  | nil => exact absurd rfl some_left
  | cons d ds =>
    obtain ⟨same, front, run⟩ := run
    rw [one_add_one_eq_two] at run
    rw [List.length_cons] at all
    push_cast at all
    cases ds with
    | nil =>
      have one : total = 1 := by simpa using all.symm
      simp [collect, accept_first same front, one]
    | cons d' ds =>
      have more : total ≠ 1 := by
        rw [List.length_cons] at all
        push_cast at all
        omega
      rw [collect]
      simp only [accept_first same front, if_neg more]
      rw [collect_back run (by omega) (by simp) (by omega)]
      simp

private theorem Label.collect_cut (run : l.Consecutive total 1 ds) (short : ds.length < total) :
    (l.collect held ds).2 = [] := by
  cases ds with
  | nil => rfl
  | cons d ds =>
    obtain ⟨same, front, run⟩ := run
    rw [one_add_one_eq_two] at run
    rw [List.length_cons] at short
    push_cast at short
    have more : total ≠ 1 := by omega
    simp only [collect, accept_first same front, if_neg more]
    rw [collect_front run (by omega) (by omega)]
    simp

theorem Label.Sends.collect {whole : Bool} {message : List β} (sends : l.Sends ds whole message)
    (held : Option (Assembly β)) :
    (l.collect held ds).2 = if whole then [message] else [] := by
  obtain ⟨total, run, length⟩ := sends.consecutive
  cases whole with
  | false => exact collect_cut run length
  | true =>
    rw [collect_whole run length.1 length.2, sends.loads rfl]
    rfl

/-- Of messages sent one after the other, some of them cut off, exactly the whole ones come
out, in their order. -/
theorem Label.collect_flatMap {ι : Type w} {xs : List ι} {parts : ι → List δ} {whole : ι → Bool}
    {message : ι → List β} (sends : ∀ x ∈ xs, l.Sends (parts x) (whole x) (message x))
    (held : Option (Assembly β)) :
    (l.collect held (xs.flatMap parts)).2 = (xs.filter whole).map message := by
  induction xs generalizing held with
  | nil => rfl
  | cons x xs ih =>
    have first := (sends x (by simp)).collect held
    have later := fun held => ih (fun y mem => sends y (by simp [mem])) held
    rw [List.flatMap_cons, collect_append, first, later, List.filter_cons]
    cases whole x <;> rfl

end Collect

end Tsender.Lib.Framing
