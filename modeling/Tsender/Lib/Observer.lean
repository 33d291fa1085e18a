/- Tsender/Lib/Observer
   digest: A machine with an observer beside it, who keeps notes and reports but never
   interferes. -/

import Tsender.Lib.Transition

set_option autoImplicit false
set_option relaxedAutoImplicit false

namespace Tsender.Lib.Transition

universe u v w x y

variable {σ : Type u} {α : Type v} {ε : Type w} {γ : Type x} {δ : Type y}

/-- What an observer with notes `γ` makes of a step: new notes and reports. -/
abbrev Observer (σ : Type u) (α : Type v) (γ : Type x) (δ : Type y) :=
  γ → σ → α → σ → γ × List δ

/-- The machine with the observer beside it.  Only the observer's reports are seen. -/
def observe (step : Machine σ α ε) (note : Observer σ α γ δ) : Machine (σ × γ) α δ :=
  fun (s, g) a =>
    match step s a with
    | none => none
    | some (t, _) => some ((t, (note g s a t).1), (note g s a t).2)

variable {step : Machine σ α ε} {note : Observer σ α γ δ}

theorem observe_eq_some {s : σ × γ} {a : α} {t : σ × γ} {ds : List δ} :
    observe step note s a = some (t, ds) ↔
      ∃ es, step s.1 a = some (t.1, es) ∧ note s.2 s.1 a t.1 = (t.2, ds) := by
  obtain ⟨s, g⟩ := s
  obtain ⟨t, h⟩ := t
  simp only [observe]
  cases taken : step s a with
  | none => simp
  | some next =>
    obtain ⟨u, es⟩ := next
    simp only [Option.some.injEq, Prod.mk.injEq]
    constructor
    · rintro ⟨⟨rfl, rfl⟩, rfl⟩
      exact ⟨es, ⟨rfl, rfl⟩, rfl⟩
    · rintro ⟨fs, ⟨rfl, rfl⟩, noted⟩
      exact ⟨⟨rfl, congrArg Prod.fst noted⟩, congrArg Prod.snd noted⟩

private theorem Run.unobserved {s t : σ × γ} {as : List α} {ds : List δ}
    (run : Run (observe step note) s as ds t) : ∃ es, Run step s.1 as es t.1 := by
  induction run with
  | nil => exact ⟨[], .nil⟩
  | snoc _ last ih =>
    obtain ⟨es, run⟩ := ih
    obtain ⟨fs, next, -⟩ := observe_eq_some.mp last
    exact ⟨es ++ fs, run.snoc next⟩

private theorem Run.observed {s t : σ} {as : List α} {es : List ε} (run : Run step s as es t)
    (g : γ) : ∃ ds h, Run (observe step note) (s, g) as ds (t, h) := by
  induction run with
  | nil => exact ⟨[], g, .nil⟩
  | @snoc as es fs t u a _ last ih =>
    obtain ⟨ds, h, run⟩ := ih
    have next : observe step note (t, h) a = some ((u, (note h t a u).1), (note h t a u).2) :=
      observe_eq_some.mpr ⟨fs, last, rfl⟩
    exact ⟨_, _, run.snoc next⟩

/-- With or without the observer, the machine has the same runs. -/
theorem run_observe_iff {s t : σ} {as : List α} (g : γ) :
    (∃ ds h, Run (observe step note) (s, g) as ds (t, h)) ↔ ∃ es, Run step s as es t := by
  constructor
  · rintro ⟨ds, h, run⟩
    exact run.unobserved
  · rintro ⟨es, run⟩
    exact run.observed g

end Tsender.Lib.Transition
