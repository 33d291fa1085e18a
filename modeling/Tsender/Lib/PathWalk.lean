/- Tsender/Lib/PathWalk
   digest: Lexical walks through a tree of directories: where a path leads, how paths compose,
   and when one of them leads strictly below another. -/

import Mathlib.Data.List.Basic
import Mathlib.Tactic.Common

set_option autoImplicit false
set_option relaxedAutoImplicit false

namespace Tsender.Lib.PathWalk

universe u

/-- One move of a walk. -/
inductive Component (α : Type u) where
  | here
  | up
  | name (n : α)

/-- The place that is reached by going up `ups` times and then down through `names`. -/
structure Place (α : Type u) where
  ups : ℕ
  names : List α
  deriving DecidableEq

namespace Place

variable {α : Type u}

def origin : Place α := ⟨0, []⟩

def walk (p : Place α) : Component α → Place α
  | .here => p
  | .up => if p.names = [] then ⟨p.ups + 1, []⟩ else ⟨p.ups, p.names.dropLast⟩
  | .name n => ⟨p.ups, p.names ++ [n]⟩

def walks (p : Place α) (cs : List (Component α)) : Place α := cs.foldl walk p

/-- The place `q` as it is seen from `p`. -/
def append (p q : Place α) : Place α :=
  if q.ups ≤ p.names.length then ⟨p.ups, p.names.take (p.names.length - q.ups) ++ q.names⟩
  else ⟨p.ups + (q.ups - p.names.length), q.names⟩

/-- `q` is reached from `p` by going down at least once. -/
def StrictlyAbove (p q : Place α) : Prop :=
  q.ups = p.ups ∧ p.names <+: q.names ∧ p.names.length < q.names.length

instance [DecidableEq α] (p q : Place α) : Decidable (p.StrictlyAbove q) :=
  inferInstanceAs (Decidable (_ ∧ _ ∧ _))

@[simp]
theorem append_origin (p : Place α) : p.append origin = p := by
  simp [append, origin]

section Append

variable {p : Place α} {ups : ℕ} {names : List α}

private theorem append_inside (inside : ups ≤ p.names.length) :
    p.append ⟨ups, names⟩ = ⟨p.ups, p.names.take (p.names.length - ups) ++ names⟩ :=
  if_pos inside

private theorem append_outside (outside : p.names.length < ups) :
    p.append ⟨ups, names⟩ = ⟨p.ups + (ups - p.names.length), names⟩ :=
  if_neg (Nat.not_le.mpr outside)

end Append

private theorem walk_up_concat (ups : ℕ) (front : List α) (last : α) :
    (⟨ups, front ++ [last]⟩ : Place α).walk .up = ⟨ups, front⟩ := by
  simp [walk]

private theorem walk_append_ups (p : Place α) (ups : ℕ) :
    (p.append ⟨ups, []⟩).walk .up = p.append ⟨ups + 1, []⟩ := by
  by_cases below : ups < p.names.length
  · have kept : p.names.take (p.names.length - ups) ≠ [] := by
      intro empty
      have := congrArg List.length empty
      simp only [List.length_take, List.length_nil] at this
      omega
    have shorter : (p.names.take (p.names.length - ups)).dropLast =
        p.names.take (p.names.length - (ups + 1)) := by
      rw [List.dropLast_eq_take, List.take_take, List.length_take]
      congr 1
      omega
    rw [append_inside (Nat.le_of_lt below), append_inside (Nat.succ_le_of_lt below)]
    simp only [walk, List.append_nil, if_neg kept, shorter]
  · have above : p.names.length < ups + 1 := by omega
    rw [append_outside above]
    by_cases level : ups ≤ p.names.length
    · have none_left : p.names.length - ups = 0 := by omega
      rw [append_inside level]
      simp only [walk, none_left, List.take_zero, List.append_nil, if_true, Place.mk.injEq,
        and_true]
      omega
    · rw [append_outside (Nat.lt_of_not_le level)]
      simp only [walk, if_true, Place.mk.injEq, and_true]
      omega

private theorem walk_append_up (p q : Place α) : (p.append q).walk .up = p.append (q.walk .up) := by
  obtain ⟨ups, names⟩ := q
  rcases List.eq_nil_or_concat names with rfl | ⟨front, last, rfl⟩
  · exact walk_append_ups p ups
  · rw [List.concat_eq_append, walk_up_concat]
    by_cases inside : ups ≤ p.names.length
    · rw [append_inside inside, append_inside inside]
      simp only [← List.append_assoc, walk_up_concat]
    · rw [append_outside (Nat.lt_of_not_le inside), append_outside (Nat.lt_of_not_le inside)]
      simp only [walk_up_concat]

private theorem walk_append (p q : Place α) (c : Component α) :
    (p.append q).walk c = p.append (q.walk c) := by
  obtain ⟨ups, names⟩ := q
  cases c with
  | here => rfl
  | up => exact walk_append_up p ⟨ups, names⟩
  | name n =>
    by_cases inside : ups ≤ p.names.length
    · simp only [walk, append_inside inside, List.append_assoc]
    · simp only [walk, append_outside (Nat.lt_of_not_le inside)]

private theorem walks_eq_append (p : Place α) (cs : List (Component α)) :
    p.walks cs = p.append (origin.walks cs) := by
  have shifted : ∀ q : Place α, (p.append q).walks cs = p.append (q.walks cs) := by
    induction cs with
    | nil => exact fun _ => rfl
    | cons c cs ih =>
      intro q
      simp only [walks, List.foldl_cons] at ih ⊢
      rw [walk_append]
      exact ih (q.walk c)
  simpa using shifted origin

/-- Whether a path leads strictly below its start is decided by its own normal form: what it goes
up it must come down again on the same way, and further. -/
theorem strictlyAbove_append_iff (p q : Place α) : p.StrictlyAbove (p.append q) ↔
    q.ups ≤ p.names.length ∧ p.names.drop (p.names.length - q.ups) <+: q.names ∧
      q.ups < q.names.length := by
  obtain ⟨ups, names⟩ := q
  by_cases inside : ups ≤ p.names.length
  · have whole : p.names = p.names.take (p.names.length - ups) ++
        p.names.drop (p.names.length - ups) := (List.take_append_drop _ _).symm
    have same : p.names <+: p.names.take (p.names.length - ups) ++ names ↔
        p.names.drop (p.names.length - ups) <+: names := by
      nth_rewrite 1 [whole]
      exact List.prefix_append_right_inj _
    have longer : p.names.length < (p.names.take (p.names.length - ups) ++ names).length ↔
        ups < names.length := by
      simp only [List.length_append, List.length_take]
      omega
    simp only [StrictlyAbove, append_inside inside, true_and, same, longer, inside]
  · have apart : p.ups + (ups - p.names.length) ≠ p.ups := by omega
    simp only [StrictlyAbove, append_outside (Nat.lt_of_not_le inside), apart, inside, false_and]

end Place

/-! Paths as texts. -/

def component (name : List Char) : Component (List Char) :=
  if name = [] ∨ name = ['.'] then .here
  else if name = ['.', '.'] then .up
  else .name name

def components (path : List Char) : List (Component (List Char)) :=
  (path.splitOn '/').map component

/-- Where a relative path leads. -/
def place (path : List Char) : Place (List Char) := Place.origin.walks (components path)

private theorem components_append_slash (front back : List Char) :
    components (front ++ '/' :: back) = components front ++ components back := by
  simp only [components, List.splitOn_append_cons_self, List.map_append]

theorem place_append_slash (front back : List Char) :
    place (front ++ '/' :: back) = (place front).append (place back) := by
  have split : place (front ++ '/' :: back) = (place front).walks (components back) := by
    simp only [place, components_append_slash, Place.walks, List.foldl_append]
  rw [split, Place.walks_eq_append]
  rfl

end Tsender.Lib.PathWalk
