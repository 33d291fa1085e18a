/- Tsender/Lib/Links
   digest: Doubly linked lists in a memory known by what its cells hold: lists of cells whose
   two links agree, their two walks, and the rules for joining and framing them. -/

import Mathlib.Data.List.Basic
import Mathlib.Tactic.Common

set_option autoImplicit false
set_option relaxedAutoImplicit false

namespace Tsender.Lib.Links

universe u v

variable {A : Type u} {V : Type v}

section Ends

/-- The address in front of `e` that a list of cells starts at. -/
def firstOf : List (A × V) → Option A → Option A
  | [], e => e
  | x :: _, _ => some x.1

/-- The address behind `b` that a list of cells ends at. -/
def lastOf : List (A × V) → Option A → Option A
  | [], b => b
  | x :: l, _ => lastOf l (some x.1)

variable {l r : List (A × V)} {x : A × V} {b e : Option A}

@[simp] theorem firstOf_nil : firstOf ([] : List (A × V)) e = e := rfl

@[simp] theorem firstOf_cons : firstOf (x :: l) e = some x.1 := rfl

@[simp] theorem lastOf_nil : lastOf ([] : List (A × V)) b = b := rfl

@[simp] theorem lastOf_cons : lastOf (x :: l) b = lastOf l (some x.1) := rfl

@[simp] theorem firstOf_append : firstOf (l ++ r) e = firstOf l (firstOf r e) := by
  cases l <;> rfl

@[simp] theorem lastOf_append : lastOf (l ++ r) b = lastOf r (lastOf l b) := by
  induction l generalizing b with
  | nil => rfl
  | cons x l ih => exact ih

theorem firstOf_eq_none : firstOf l none = none ↔ l = [] := by
  cases l <;> simp

theorem lastOf_eq_none : lastOf l none = none ↔ l = [] := by
  rcases List.eq_nil_or_concat l with rfl | ⟨l, x, rfl⟩ <;> simp

theorem exists_lastOf (x : A × V) (l : List (A × V)) (b : Option A) :
    ∃ a, lastOf (x :: l) b = some a := by
  induction l generalizing x b with
  | nil => exact ⟨x.1, rfl⟩
  | cons y l ih => exact ih y (some x.1)

theorem firstOf_without (x : A × V) : firstOf (l ++ r) none =
    if lastOf l none = none then firstOf r none else firstOf (l ++ x :: r) none := by
  simp only [lastOf_eq_none]
  cases l <;> simp

theorem lastOf_without (x : A × V) : lastOf (l ++ r) none =
    if firstOf r none = none then lastOf l none else lastOf (l ++ x :: r) none := by
  simp only [firstOf_eq_none]
  cases r <;> simp

end Ends

section Walks

variable {link : A → Option A → Prop} {p m e : Option A} {l r : List A}

/-- Following the links from `p` visits `l` and then stands at `e`. -/
def Follows (link : A → Option A → Prop) : Option A → List A → Option A → Prop
  | p, [], e => p = e
  | p, a :: l, e => p = some a ∧ ∃ q, link a q ∧ Follows link q l e

private theorem follows_append :
    Follows link p (l ++ r) e ↔ ∃ m, Follows link p l m ∧ Follows link m r e := by
  induction l generalizing p with
  | nil => simp [Follows]
  | cons a l ih =>
    simp only [List.cons_append, Follows, ih]
    constructor
    · rintro ⟨rfl, q, step, m, front, back⟩
      exact ⟨m, ⟨rfl, q, step, front⟩, back⟩
    · rintro ⟨m, ⟨rfl, q, step, front⟩, back⟩
      exact ⟨rfl, q, step, m, front, back⟩

theorem Follows.unique (single : ∀ a q q', link a q → link a q' → q = q')
    (walk : Follows link p l none) (other : Follows link p r none) : l = r := by
  induction l generalizing p r with
  | nil =>
    cases r with
    | nil => rfl
    | cons a r => simp [Follows, show p = none from walk] at other
  | cons a l ih =>
    obtain ⟨rfl, q, step, rest⟩ := walk
    cases r with
    | nil => simp [Follows] at other
    | cons a' r =>
      obtain ⟨same, q', step', rest'⟩ := other
      obtain rfl := Option.some.inj same
      obtain rfl := single a q q' step step'
      rw [ih rest rest']

theorem Follows.nodup (single : ∀ a q q', link a q → link a q' → q = q')
    (walk : Follows link p l none) : l.Nodup := by
  induction l generalizing p with
  | nil => exact List.nodup_nil
  | cons a l ih =>
    obtain ⟨rfl, q, step, rest⟩ := walk
    refine List.nodup_cons.mpr ⟨fun again => ?_, ih rest⟩
    obtain ⟨front, back, rfl⟩ := List.append_of_mem again
    obtain ⟨m, -, later⟩ := follows_append.mp rest
    obtain rfl : m = some a := later.1
    have whole : Follows link (some a) (a :: (front ++ a :: back)) none := ⟨rfl, q, step, rest⟩
    have same := congrArg List.length (Follows.unique single later whole)
    simp only [List.length_cons, List.length_append] at same
    omega

theorem Follows.start_eq (walk : Follows link p l e) : p = l.head?.or e := by
  cases l with
  | nil => exact walk
  | cons a l => exact walk.1

end Walks

section Chains

variable {cell cell' : A → V → Option A → Option A → Prop} {b e : Option A}
  {l r : List (A × V)} {x : A × V}

/-- The cells `l` lie between `b` and `e`: each holds its item and the addresses on both sides.
`cell a v p n` says that the cell at `a` holds the item `v` and links to `p` and `n`. -/
def Chain (cell : A → V → Option A → Option A → Prop) :
    Option A → List (A × V) → Option A → Prop
  | _, [], _ => True
  | b, x :: l, e => cell x.1 x.2 b (firstOf l e) ∧ Chain cell (some x.1) l e

theorem chain_append : Chain cell b (l ++ r) e ↔
    Chain cell b l (firstOf r e) ∧ Chain cell (lastOf l b) r e := by
  induction l generalizing b with
  | nil => simp [Chain]
  | cons x l ih => simp only [List.cons_append, Chain, firstOf_append, lastOf_cons, ih, and_assoc]

/-- The frame rule: a chain is kept where its own cells are. -/
theorem Chain.frame (chain : Chain cell b l e)
    (kept : ∀ x ∈ l, ∀ p n, cell x.1 x.2 p n → cell' x.1 x.2 p n) : Chain cell' b l e := by
  induction l generalizing b with
  | nil => trivial
  | cons x l ih =>
    have later := ih chain.2 fun y mem => kept y (List.mem_cons_of_mem x mem)
    exact ⟨kept x List.mem_cons_self _ _ chain.1, later⟩

theorem Chain.exists_cell (chain : Chain cell b l e) (mem : x ∈ l) : ∃ p n, cell x.1 x.2 p n := by
  obtain ⟨front, back, rfl⟩ := List.append_of_mem mem
  exact ⟨_, _, (chain_append.mp chain).2.1⟩

section Links

variable {item : A → V → Prop} {prev next : A → Option A → Prop}

theorem Chain.follows_next (reads : ∀ a v p n, cell a v p n → next a n)
    (chain : Chain cell b l e) : Follows next (firstOf l e) (l.map Prod.fst) e := by
  induction l generalizing b with
  | nil => rfl
  | cons x l ih => exact ⟨rfl, _, reads _ _ _ _ chain.1, ih chain.2⟩

theorem Chain.follows_prev (reads : ∀ a v p n, cell a v p n → prev a p)
    (chain : Chain cell b l e) :
    Follows prev (lastOf l b) (l.map Prod.fst).reverse b := by
  induction l generalizing b with
  | nil => rfl
  | cons x l ih =>
    rw [List.map_cons, List.reverse_cons, follows_append]
    exact ⟨some x.1, ih chain.2, rfl, b, reads _ _ _ _ chain.1, rfl⟩

theorem Chain.of_follows (builds : ∀ a v p n, item a v → prev a p → next a n → cell a v p n)
    (items : ∀ x ∈ l, item x.1 x.2) {p q : Option A}
    (forward : Follows next p (l.map Prod.fst) e)
    (backward : Follows prev q (l.map Prod.fst).reverse b) : Chain cell b l e := by
  induction l generalizing b p with
  | nil => trivial
  | cons x l ih =>
    obtain ⟨-, n, step, rest⟩ := forward
    rw [List.map_cons, List.reverse_cons, follows_append] at backward
    obtain ⟨m, before, rfl, p', back, rfl⟩ := backward
    have start : n = firstOf l e := by
      rw [rest.start_eq]
      cases l <;> simp
    have later := ih (fun y mem => items y (List.mem_cons_of_mem x mem)) rest before
    exact ⟨builds _ _ _ _ (items x List.mem_cons_self) back (start ▸ step), later⟩

theorem Chain.nodup (single : ∀ a v v' p p' n n', cell a v p n → cell a v' p' n' → n = n')
    (chain : Chain cell b l none) : (l.map Prod.fst).Nodup := by
  have walk : Follows (fun a n => ∃ v p, cell a v p n) (firstOf l none) (l.map Prod.fst) none :=
    chain.follows_next fun a v p n held => ⟨v, p, held⟩
  exact walk.nodup fun a q q' ⟨v, p, held⟩ ⟨v', p', held'⟩ => single a v v' p p' q q' held held'

end Links

end Chains

end Tsender.Lib.Links
