/- Tsender/Lib/Bisimulation
   digest: States of a machine that no sequence of actions tells apart, and the rule that
   related states are such. -/

import Mathlib.Data.Option.Basic
import Tsender.Lib.Transition

set_option autoImplicit false
set_option relaxedAutoImplicit false

namespace Tsender.Lib.Transition

universe u v w

variable {σ : Type u} {α : Type v} {ε : Type w} {step : Machine σ α ε} {R : σ → σ → Prop}

/-- What a list of actions emits, where none of them is refused. -/
def results (step : Machine σ α ε) (s : σ) (as : List α) : Option (List ε) :=
  (exec step s as).map Prod.snd

/-- Every list of actions gives the same results from both states. -/
def Indistinguishable (step : Machine σ α ε) (s t : σ) : Prop :=
  ∀ as, results step s as = results step t as

/-- Both refuse, or both move on, emit the same and are related again. -/
inductive Matches (R : σ → σ → Prop) : Option (σ × List ε) → Option (σ × List ε) → Prop
  | refused : Matches R none none
  | taken {s t : σ} (es : List ε) : R s t → Matches R (some (s, es)) (some (t, es))

/-- Every action finds related states alike. -/
def Bisimulation (step : Machine σ α ε) (R : σ → σ → Prop) : Prop :=
  ∀ s t a, R s t → Matches R (step s a) (step t a)

private theorem results_cons (s : σ) (a : α) (as : List α) : results step s (a :: as) =
    (step s a).bind fun next => (results step next.1 as).map (next.2 ++ ·) := by
  unfold results
  rw [exec]
  cases step s a with
  | none => rfl
  | some next =>
    obtain ⟨t, es⟩ := next
    simp only [Option.bind_some]
    cases exec step t as <;> rfl

private theorem Bisimulation.results_eq (sim : Bisimulation step R) {s t : σ} (related : R s t)
    (as : List α) : results step s as = results step t as := by
  induction as generalizing s t with
  | nil => rfl
  | cons a as ih =>
    have matched := sim s t a related
    rw [results_cons, results_cons]
    generalize step s a = first at matched ⊢
    generalize step t a = second at matched ⊢
    cases matched with
    | refused => rfl
    | taken es next => simp only [Option.bind_some, ih next]

/-- States that a bisimulation relates cannot be told apart. -/
theorem Bisimulation.indistinguishable (sim : Bisimulation step R) {s t : σ} (related : R s t) :
    Indistinguishable step s t :=
  fun as => sim.results_eq related as

end Tsender.Lib.Transition
