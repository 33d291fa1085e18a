/- Tsender/Lib/Schedule
   digest: Endless schedules of a machine, and the rule that a rank which falls again and again
   is not kept from its goal for ever. -/

import Mathlib.Order.Monotone.Basic
import Tsender.Lib.Transition

set_option autoImplicit false
set_option relaxedAutoImplicit false

namespace Tsender.Lib.Transition

universe u v w

variable {σ : Type u} {α : Type v} {ε : Type w} {step : Machine σ α ε}

/-- An endless run: the action of each time leads from its state to the state of the next. -/
structure Schedule (step : Machine σ α ε) where
  state : ℕ → σ
  act : ℕ → α
  events : ℕ → List ε
  moves : ∀ n, step (state n) (act n) = some (state (n + 1), events n)

namespace Schedule

/-- The action is taken again and again. -/
def Recurs (run : Schedule step) (a : α) : Prop := ∀ n, ∃ m ≥ n, run.act m = a

/-- Whenever `p` holds, the action is taken then or later. -/
def Answers (run : Schedule step) (p : σ → Prop) (a : α) : Prop :=
  ∀ n, p (run.state n) → ∃ m ≥ n, run.act m = a

variable {run : Schedule step} {P goal : σ → Prop}

theorem always (start : P (run.state 0))
    (keep : ∀ n, P (run.state n) → P (run.state (n + 1))) (n : ℕ) : P (run.state n) := by
  induction n with
  | zero => exact start
  | succ n ih => exact keep n ih

theorem ends (P : σ → Prop) {n m : ℕ} (holds : P (run.state n)) (later : n ≤ m) (ended : ¬ P (run.state m)) :
    ∃ k ≥ n, P (run.state k) ∧ ¬ P (run.state (k + 1)) := by
  by_contra never
  have stays : ∀ m ≥ n, P (run.state m) := by
    intro m later
    induction later with
    | refl => exact holds
    | @step k after ih =>
      by_contra left
      exact never ⟨k, after, ih, left⟩
  exact ended (stays m later)

/-- A rank that would fall again and again without the goal leads to the goal. -/
theorem eventually (rank : σ → ℕ)
    (falls : (∀ n, ¬ goal (run.state n)) →
      ∀ n, ∃ m, rank (run.state m) < rank (run.state n)) : ∃ n, goal (run.state n) := by
  by_contra never
  rw [not_exists] at never
  have below : ∀ r n, rank (run.state n) = r → False := by
    intro r
    induction r using Nat.strongRecOn with
    | ind r ih =>
      rintro n rfl
      obtain ⟨m, less⟩ := falls never n
      exact ih _ less m rfl
  exact below _ 0 rfl

theorem eventually_of_rest (rank : σ → ℕ)
    (sinks : ∀ n, rank (run.state (n + 1)) ≤ rank (run.state n))
    (rest : ∀ n, (∀ m ≥ n, rank (run.state (m + 1)) = rank (run.state m)) →
      ∃ m, goal (run.state m)) : ∃ n, goal (run.state n) := by
  have falling : Antitone fun n => rank (run.state n) := antitone_nat_of_succ_le sinks
  refine eventually rank fun never n => ?_
  by_contra flat
  rw [not_exists] at flat
  obtain ⟨m, reached⟩ := rest n fun m later => by
    have lower := not_lt.mp (flat (m + 1))
    exact le_antisymm (sinks m) ((falling later).trans lower)
  exact never m reached

theorem passes {count : ℕ → ℕ} (keeps : Monotone count)
    (rises : ∀ n, ∃ m ≥ n, count m < count (m + 1)) (bound : ℕ) : ∃ n, bound ≤ count n := by
  induction bound with
  | zero => exact ⟨0, Nat.zero_le _⟩
  | succ bound ih =>
    obtain ⟨n, reached⟩ := ih
    obtain ⟨m, later, rise⟩ := rises n
    have kept := keeps later
    exact ⟨m + 1, by omega⟩

/-- The events before a time. -/
def past (run : Schedule step) : ℕ → List ε
  | 0 => []
  | n + 1 => run.past n ++ run.events n

/-- The actions before a time. -/
def acts (run : Schedule step) : ℕ → List α
  | 0 => []
  | n + 1 => run.acts n ++ [run.act n]

theorem run_past (run : Schedule step) (n : ℕ) :
    Run step (run.state 0) (run.acts n) (run.past n) (run.state n) := by
  induction n with
  | zero => exact .nil
  | succ n ih => exact ih.snoc (run.moves n)

theorem past_prefix {n m : ℕ} (later : n ≤ m) : run.past n <+: run.past m := by
  induction later with
  | refl => exact List.prefix_rfl
  | step _ ih => exact ih.trans (List.prefix_append _ _)

/-- One step before an endless run. -/
def cons (run : Schedule step) {s : σ} {a : α} {es : List ε}
    (first : step s a = some (run.state 0, es)) : Schedule step where
  state
    | 0 => s
    | n + 1 => run.state n
  act
    | 0 => a
    | n + 1 => run.act n
  events
    | 0 => es
    | n + 1 => run.events n
  moves
    | 0 => first
    | n + 1 => run.moves n

theorem exists_after {s : σ} {as : List α} {es : List ε} (tail : Schedule step)
    (stem : Run step s as es (tail.state 0)) :
    ∃ run : Schedule step, run.state 0 = s ∧ ∀ n,
      run.state (as.length + n) = tail.state n ∧ run.act (as.length + n) = tail.act n := by
  obtain ⟨t, last⟩ : ∃ t, tail.state 0 = t := ⟨_, rfl⟩
  rw [last] at stem
  induction stem generalizing tail with
  | nil => exact ⟨tail, last, fun n => by simp⟩
  | @snoc as es fs t u a _ next ih =>
    obtain ⟨run, start, same⟩ := ih (tail.cons (last ▸ next)) rfl
    refine ⟨run, start, fun n => ?_⟩
    have shift : (as ++ [a]).length + n = as.length + (n + 1) := by
      rw [List.length_append, List.length_singleton]
      omega
    rw [shift]
    exact same (n + 1)

end Schedule

end Tsender.Lib.Transition
