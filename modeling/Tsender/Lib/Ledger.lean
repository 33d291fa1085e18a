/- Tsender/Lib/Ledger
   digest: Machines that acquire and release resources: what has been acquired has been released,
   is held or was lost, and with nothing held the books are even when no step loses anything. -/

import Mathlib.Algebra.Order.Group.Multiset
import Mathlib.Tactic.Abel
import Tsender.Lib.Transition

set_option autoImplicit false
set_option relaxedAutoImplicit false

namespace Tsender.Lib.Ledger

open Transition

universe u v w

/-- What a step does to a resource. -/
inductive Entry (ρ : Type w) where
  | acquired (r : ρ)
  | released (r : ρ)
  deriving DecidableEq

variable {σ : Type u} {α : Type v} {ρ : Type w}

/-- The resources acquired, each as often as it was. -/
def acquired (es : List (Entry ρ)) : Multiset ρ :=
  es.filterMap fun
    | .acquired r => some r
    | .released _ => none

/-- The resources released, each as often as it was. -/
def released (es : List (Entry ρ)) : Multiset ρ :=
  es.filterMap fun
    | .acquired _ => none
    | .released r => some r

section Entries

variable {es fs : List (Entry ρ)} {r : ρ} {rs : List ρ}

@[simp] theorem acquired_nil : acquired ([] : List (Entry ρ)) = 0 := rfl

@[simp] theorem released_nil : released ([] : List (Entry ρ)) = 0 := rfl

@[simp] theorem acquired_cons_acquired : acquired (.acquired r :: es) = {r} + acquired es := rfl

@[simp] theorem released_cons_acquired : released (.acquired r :: es) = released es := rfl

@[simp] theorem acquired_cons_released : acquired (.released r :: es) = acquired es := rfl

@[simp] theorem released_cons_released : released (.released r :: es) = {r} + released es := rfl

@[simp] theorem acquired_append : acquired (es ++ fs) = acquired es + acquired fs := by
  simp [acquired]

@[simp] theorem released_append : released (es ++ fs) = released es + released fs := by
  simp [released]

@[simp] theorem acquired_map_acquired : acquired (rs.map .acquired) = rs := by
  simp [acquired, List.filterMap_map]

@[simp] theorem released_map_acquired : released (rs.map .acquired) = 0 := by
  simp [released, List.filterMap_map]

@[simp] theorem acquired_map_released : acquired (rs.map .released) = 0 := by
  simp [acquired, List.filterMap_map]

@[simp] theorem released_map_released : released (rs.map .released) = rs := by
  simp [released, List.filterMap_map]

end Entries

/-- Everything acquired has been released exactly once. -/
def Even (es : List (Entry ρ)) : Prop := acquired es = released es

instance [DecidableEq ρ] (es : List (Entry ρ)) : Decidable (Even es) :=
  inferInstanceAs (Decidable (acquired es = released es))

variable {step : Machine σ α (Entry ρ)} {Inv : σ → Prop} {held : σ → Multiset ρ}
  {lost : σ → α → Multiset ρ}

/-- The books of a machine: each step accounts for what was held and what it acquires. -/
def Accounts (step : Machine σ α (Entry ρ)) (Inv : σ → Prop) (held : σ → Multiset ρ)
    (lost : σ → α → Multiset ρ) : Prop :=
  ∀ s a t es, Inv s → step s a = some (t, es) →
    held s + acquired es = released es + held t + lost s a

theorem Accounts.append (accounts : Accounts step Inv held lost) {m n : σ} {a : α}
    {ds gs : List (Entry ρ)} {gone : Multiset ρ} (inv : Inv m)
    (before : acquired ds = released ds + held m + gone) (next : step m a = some (n, gs)) :
    acquired (ds ++ gs) = released (ds ++ gs) + held n + (gone + lost m a) := by
  have turn := accounts m a n gs inv next
  rw [acquired_append, released_append, before]
  calc released ds + held m + gone + acquired gs
      = released ds + gone + (held m + acquired gs) := by abel
    _ = released ds + released gs + held n + (gone + lost m a) := by rw [turn]; abel

/-- A run that ends with nothing held has even books exactly when none of its steps loses
anything. -/
theorem even_iff_meets {s t : σ} {as : List α} {es : List (Entry ρ)} (run : Run step s as es t)
    (start : Inv s) (nothing : held s = 0)
    (keep : ∀ s a t es, Inv s → step s a = some (t, es) → Inv t)
    (accounts : Accounts step Inv held lost) (all_gone : held t = 0) :
    Even es ↔ Meets step (fun _ s a => lost s a = 0) s as := by
  have books : acquired es = released es + held t ↔
      Meets step (fun _ s a => lost s a = 0) s as := by
    apply @Run.iff_meets _ _ _ step s t as es _
      (fun ds m => Inv m ∧ ∃ gone, acquired ds = released ds + held m + gone)
      (fun ds m => acquired ds = released ds + held m) run
    · exact ⟨start, 0, by simp [nothing]⟩
    · simp [nothing]
    · rintro ds m a n gs ⟨inv, gone, before⟩ next
      exact ⟨keep m a n gs inv next, _, accounts.append inv before next⟩
    · rintro ds m a n gs ⟨inv, gone, before⟩ next
      rw [accounts.append inv before next, before]
      simp only [add_eq_left]
      exact add_eq_zero_iff_of_nonneg (Multiset.zero_le gone) (Multiset.zero_le _)
  rwa [all_gone, add_zero] at books

end Tsender.Lib.Ledger
