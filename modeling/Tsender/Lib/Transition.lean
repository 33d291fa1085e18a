/- Tsender/Lib/Transition
   digest: Machines that take or refuse an action and emit events, their runs,
   and the invariant rules for runs whose every step meets a side condition. -/

import Mathlib.Data.List.Induction
import Mathlib.Data.Option.Basic
import Mathlib.Tactic.Common

set_option autoImplicit false
set_option relaxedAutoImplicit false

namespace Tsender.Lib.Transition

universe u v w

variable {σ : Type u} {α : Type v} {ε : Type w}

/-- A machine either refuses an action or takes it, moves on and emits events. -/
abbrev Machine (σ : Type u) (α : Type v) (ε : Type w) := σ → α → Option (σ × List ε)

/-- `Run step s as es t`: the actions `as` are taken in order from `s`, emit `es`
and end in `t`.  Runs grow at their end, so that an induction sees the last step. -/
inductive Run (step : Machine σ α ε) (s : σ) : List α → List ε → σ → Prop
  | nil : Run step s [] [] s
  | snoc {as : List α} {es fs : List ε} {t u : σ} {a : α} :
      Run step s as es t → step t a = some (u, fs) → Run step s (as ++ [a]) (es ++ fs) u

/-- Every step taken along the actions `as` from `s` meets `C`, a condition on the events
so far, the state before the step and the action. -/
def Meets (step : Machine σ α ε) (C : List ε → σ → α → Prop) (s : σ) (as : List α) : Prop :=
  ∀ (pre suf : List α) (a : α) (es fs : List ε) (t u : σ), as = pre ++ a :: suf →
    Run step s pre es t → step t a = some (u, fs) → C es t a

/-- `P` holds of the events and the state at every point of the actions `as` from `s`. -/
def Throughout (step : Machine σ α ε) (P : List ε → σ → Prop) (s : σ) (as : List α) : Prop :=
  ∀ (pre suf : List α) (es : List ε) (t : σ), as = pre ++ suf → Run step s pre es t → P es t

/-- The machine that refuses all but the allowed actions. -/
def restrict (allowed : α → Bool) (step : Machine σ α ε) : Machine σ α ε := fun s a =>
  if allowed a then step s a else none

theorem restrict_eq_some {allowed : α → Bool} {step : Machine σ α ε} {s : σ} {a : α}
    {next : σ × List ε} : restrict allowed step s a = some next ↔
      allowed a = true ∧ step s a = some next := by
  simp [restrict]

/-- Run a whole list of actions; `none` as soon as one of them is refused. -/
def exec (step : Machine σ α ε) : σ → List α → Option (σ × List ε)
  | s, [] => some (s, [])
  | s, a :: as =>
      match step s a with
      | none => none
      | some (t, es) =>
          match exec step t as with
          | none => none
          | some (u, fs) => some (u, es ++ fs)

namespace Run

variable {step : Machine σ α ε} {s t u : σ} {as bs : List α} {es fs : List ε}

theorem cons {a : α} (head : step s a = some (t, es)) (tail : Run step t as fs u) :
    Run step s (a :: as) (es ++ fs) u := by
  induction tail with
  | nil => simpa using Run.snoc (.nil : Run step s [] [] s) head
  | @snoc as fs gs t' u' b _ last ih =>
    have whole := Run.snoc ih last
    simpa only [List.cons_append, List.append_assoc] using whole

theorem trans (first : Run step s as es t) (second : Run step t bs fs u) :
    Run step s (as ++ bs) (es ++ fs) u := by
  induction second with
  | nil => simpa using first
  | snoc _ last ih =>
    have whole := Run.snoc ih last
    simpa only [List.append_assoc] using whole

theorem invariant {Inv : List ε → σ → Prop} (run : Run step s as es t) (start : Inv [] s)
    (keep : ∀ (ds : List ε) (m : σ) (a : α) (n : σ) (gs : List ε),
      Inv ds m → step m a = some (n, gs) → Inv (ds ++ gs) n) : Inv es t := by
  induction run with
  | nil => exact start
  | snoc _ last ih => exact keep _ _ _ _ _ ih last

theorem length_add_le {Inv : σ → Prop} (rank : σ → ℕ) (run : Run step s as es t) (start : Inv s)
    (keep : ∀ (m : σ) (a : α) (n : σ) (gs : List ε), Inv m → step m a = some (n, gs) → Inv n)
    (falls : ∀ (m : σ) (a : α) (n : σ) (gs : List ε),
      Inv m → step m a = some (n, gs) → rank n < rank m) : as.length + rank t ≤ rank s := by
  suffices h : Inv t ∧ as.length + rank t ≤ rank s from h.2
  induction run with
  | nil => exact ⟨start, by simp⟩
  | snoc _ last ih =>
    obtain ⟨held, bound⟩ := ih
    have lower := falls _ _ _ _ held last
    refine ⟨keep _ _ _ _ held last, ?_⟩
    rw [List.length_append, List.length_singleton]
    omega

end Run

section Conditions

variable {step : Machine σ α ε} {C : List ε → σ → α → Prop} {P : List ε → σ → Prop}
  {s t : σ} {as bs : List α} {es : List ε}

theorem Meets.front (meets : Meets step C s (as ++ bs)) : Meets step C s as := by
  intro pre suf a ds fs m n whole run last
  exact meets pre (suf ++ bs) a ds fs m n (by simp [whole]) run last

/-- The rule for guarded invariants: the steps need to keep `Inv` only where they meet `C`. -/
theorem Run.guarded_invariant {Inv : List ε → σ → Prop} (run : Run step s as es t)
    (meets : Meets step C s as) (start : Inv [] s)
    (keep : ∀ (ds : List ε) (m : σ) (a : α) (n : σ) (gs : List ε),
      Inv ds m → C ds m a → step m a = some (n, gs) → Inv (ds ++ gs) n) : Inv es t := by
  induction run with
  | nil => exact start
  | @snoc as ds gs m n a run last ih =>
    exact keep _ _ _ _ _ (ih meets.front) (meets as [] a ds gs m n rfl run last) last

theorem Throughout.of_meets
    (ends : ∀ (bs : List α) (ds : List ε) (m : σ),
      Run step s bs ds m → Meets step C s bs → P ds m)
    (meets : Meets step C s as) : Throughout step P s as := by
  rintro pre suf ds m rfl run
  exact ends pre ds m run meets.front

/-- When a step outside `C` always breaks `P`, the runs on which `P` holds throughout
take only steps inside `C`. -/
theorem Meets.of_throughout
    (breaks : ∀ (ds : List ε) (m : σ) (a : α) (n : σ) (gs : List ε),
      P ds m → step m a = some (n, gs) → P (ds ++ gs) n → C ds m a)
    (all : Throughout step P s as) : Meets step C s as := by
  rintro pre suf a ds fs m n rfl run last
  have before : P ds m := all pre (a :: suf) ds m rfl run
  have after : P (ds ++ fs) n := all (pre ++ [a]) suf (ds ++ fs) n (by simp) (run.snoc last)
  exact breaks ds m a n fs before last after

/-- Where an invariant that every step keeps reduces `P` after a step to `C` before it,
`P` holds throughout a run exactly when all its steps meet `C`. -/
theorem throughout_iff_meets {Inv : List ε → σ → Prop} (start : Inv [] s) (first : P [] s)
    (keep : ∀ (ds : List ε) (m : σ) (a : α) (n : σ) (gs : List ε),
      Inv ds m → step m a = some (n, gs) → Inv (ds ++ gs) n)
    (sharp : ∀ (ds : List ε) (m : σ) (a : α) (n : σ) (gs : List ε),
      Inv ds m → P ds m → step m a = some (n, gs) → (P (ds ++ gs) n ↔ C ds m a)) :
    Throughout step P s as ↔ Meets step C s as := by
  constructor
  · intro all pre suf a ds gs m n whole run last
    have before : P ds m := all pre (a :: suf) ds m whole run
    have after : P (ds ++ gs) n :=
      all (pre ++ [a]) suf (ds ++ gs) n (by simp [whole]) (run.snoc last)
    exact (sharp ds m a n gs (run.invariant start keep) before last).mp after
  · refine Throughout.of_meets fun bs ds m run meets => ?_
    have both : Inv ds m ∧ P ds m := by
      apply run.guarded_invariant meets
      · exact ⟨start, first⟩
      · intro ds m a n gs held cond last
        exact ⟨keep ds m a n gs held.1 last, (sharp ds m a n gs held.1 held.2 last).mpr cond⟩
    exact both.2

theorem throughout_iff_meets_of_step (first : P [] s)
    (sharp : ∀ (ds : List ε) (m : σ) (a : α) (n : σ) (gs : List ε),
      P ds m → step m a = some (n, gs) → (P (ds ++ gs) n ↔ C ds m a)) :
    Throughout step P s as ↔ Meets step C s as :=
  @throughout_iff_meets _ _ _ step C P s as (fun _ _ => True) trivial first
    (fun _ _ _ _ _ _ _ => trivial) fun ds m a n gs _ => sharp ds m a n gs

end Conditions

section Check

variable {step : Machine σ α ε} {s u : σ} {as : List α} {es : List ε}

/-- Take the actions one after another and test every step that is taken. -/
def check (step : Machine σ α ε) (D : List ε → σ → α → Bool) : List ε → σ → List α → Bool
  | _, _, [] => true
  | ds, s, a :: as =>
      match step s a with
      | none => true
      | some (t, fs) => D ds s a && check step D (ds ++ fs) t as

private theorem Run.of_nil (run : Run step s [] es u) : es = [] ∧ u = s := by
  generalize none_left : ([] : List α) = bs at run
  cases run with
  | nil => exact ⟨rfl, rfl⟩
  | snoc _ _ => simp at none_left

private theorem Run.uncons {a : α} (run : Run step s (a :: as) es u) :
    ∃ t fs gs, step s a = some (t, fs) ∧ Run step t as gs u ∧ es = fs ++ gs := by
  generalize whole : a :: as = bs at run
  induction run generalizing as with
  | nil => cases whole
  | @snoc cs ds fs m n b run last ih =>
    cases cs with
    | nil =>
      obtain ⟨rfl, rfl⟩ := List.cons.inj whole
      obtain ⟨rfl, rfl⟩ := run.of_nil
      exact ⟨n, fs, [], last, .nil, by simp⟩
    | cons c cs =>
      obtain ⟨rfl, rfl⟩ := List.cons.inj whole
      obtain ⟨t, hs, gs, first, rest, rfl⟩ := ih rfl
      exact ⟨t, hs, gs ++ fs, first, rest.snoc last, by simp⟩

theorem Meets.of_check {C : List ε → σ → α → Prop} {D : List ε → σ → α → Bool}
    (sound : ∀ ds m a, D ds m a = true → C ds m a) (passed : check step D [] s as = true) :
    Meets step C s as := by
  have tested : ∀ (as : List α) (ds : List ε) (s : σ), check step D ds s as = true →
      ∀ (pre suf : List α) (a : α) (es fs : List ε) (t u : σ), as = pre ++ a :: suf →
        Run step s pre es t → step t a = some (u, fs) → D (ds ++ es) t a = true := by
    intro as
    induction as with
    | nil => simp
    | cons b as ih =>
      intro ds s passed pre suf a es fs t u whole run last
      cases pre with
      | nil =>
        obtain ⟨rfl, rfl⟩ := List.cons.inj whole
        obtain ⟨rfl, rfl⟩ := run.of_nil
        simp only [check, last, Bool.and_eq_true] at passed
        simpa using passed.1
      | cons c pre =>
        obtain ⟨rfl, rfl⟩ := List.cons.inj whole
        obtain ⟨m, gs, hs, first, rest, rfl⟩ := run.uncons
        simp only [check, first, Bool.and_eq_true] at passed
        have later := ih (ds ++ gs) m passed.2 pre suf a hs fs t u rfl rest last
        rwa [List.append_assoc] at later
  intro pre suf a es fs t u whole run last
  exact sound es t a (by simpa using tested as [] s passed pre suf a es fs t u whole run last)

end Check

section Exec

variable {step : Machine σ α ε} {s t : σ} {as : List α} {es : List ε}

private theorem exec_cons {a : α} {m : σ} {ds fs : List ε} (head : step s a = some (m, ds))
    (tail : exec step m as = some (t, fs)) : exec step s (a :: as) = some (t, ds ++ fs) := by
  simp only [exec, head, tail]

theorem exec_append {bs : List α} (first : exec step s as = some (t, es)) :
    exec step s (as ++ bs) = (exec step t bs).map fun next => (next.1, es ++ next.2) := by
  induction as generalizing s es with
  | nil =>
    obtain ⟨rfl, rfl⟩ := Prod.mk.inj (Option.some.inj first)
    simp
  | cons a as ih =>
    cases head : step s a with
    | none => simp [exec, head] at first
    | some next =>
      obtain ⟨m, ds⟩ := next
      cases tail : exec step m as with
      | none => simp [exec, head, tail] at first
      | some rest =>
        obtain ⟨u, fs⟩ := rest
        obtain ⟨rfl, rfl⟩ := Prod.mk.inj (Option.some.inj ((exec_cons head tail).symm.trans first))
        rw [List.cons_append, exec, head]
        simp only [ih tail]
        cases exec step u bs with
        | none => rfl
        | some last => simp only [Option.map_some, List.append_assoc]

theorem Run.of_exec (done : exec step s as = some (t, es)) : Run step s as es t := by
  induction as generalizing s es with
  | nil =>
    obtain ⟨rfl, rfl⟩ := Prod.mk.inj (Option.some.inj done)
    exact .nil
  | cons a as ih =>
    cases head : step s a with
    | none => simp [exec, head] at done
    | some first =>
      obtain ⟨m, ds⟩ := first
      cases tail : exec step m as with
      | none => simp [exec, head, tail] at done
      | some rest =>
        obtain ⟨u, fs⟩ := rest
        obtain ⟨rfl, rfl⟩ := Prod.mk.inj (Option.some.inj ((exec_cons head tail).symm.trans done))
        exact .cons head (ih tail)

private theorem Run.exec_eq (run : Run step s as es t) : exec step s as = some (t, es) := by
  induction run with
  | nil => rfl
  | @snoc as es fs t u a _ last ih =>
    rw [exec_append ih]
    simp [exec, last]

theorem Run.unique {u : σ} {fs : List ε} (run : Run step s as es t) (other : Run step s as fs u) :
    es = fs ∧ t = u := by
  have same := Option.some.inj (run.exec_eq.symm.trans other.exec_eq)
  exact ⟨congrArg Prod.snd same, congrArg Prod.fst same⟩

variable {C : List ε → σ → α → Prop}

private theorem Meets.snoc_iff {u : σ} {fs : List ε} {a : α} (run : Run step s as es t)
    (last : step t a = some (u, fs)) :
    Meets step C s (as ++ [a]) ↔ Meets step C s as ∧ C es t a := by
  constructor
  · exact fun meets => ⟨meets.front, meets as [] a es fs t u rfl run last⟩
  · rintro ⟨meets, cond⟩ pre suf b ds gs m n whole earlier next
    rcases List.eq_nil_or_concat suf with rfl | ⟨suf, c, rfl⟩
    · obtain ⟨rfl, same⟩ := List.append_inj' whole rfl
      obtain ⟨rfl, rfl⟩ := run.unique earlier
      rwa [← (List.cons.inj same).1]
    · rw [List.concat_eq_append, ← List.cons_append, ← List.append_assoc] at whole
      obtain ⟨rfl, -⟩ := List.append_inj' whole rfl
      exact meets pre suf b ds gs m n rfl earlier next

theorem Run.iff_meets {Inv P : List ε → σ → Prop} (run : Run step s as es t) (start : Inv [] s)
    (first : P [] s)
    (keep : ∀ (ds : List ε) (m : σ) (a : α) (n : σ) (gs : List ε),
      Inv ds m → step m a = some (n, gs) → Inv (ds ++ gs) n)
    (sharp : ∀ (ds : List ε) (m : σ) (a : α) (n : σ) (gs : List ε),
      Inv ds m → step m a = some (n, gs) → (P (ds ++ gs) n ↔ P ds m ∧ C ds m a)) :
    P es t ↔ Meets step C s as := by
  induction run with
  | nil => exact ⟨fun _ pre suf a _ _ _ _ whole => by simp at whole, fun _ => first⟩
  | snoc run last ih =>
    have held := run.invariant start keep
    rw [sharp _ _ _ _ _ held last, ih, Meets.snoc_iff run last]

theorem Run.exists_of_exec {p : σ × List ε → Bool}
    (found : (exec step s as).map p = some true) :
    ∃ (t : σ) (es : List ε), Run step s as es t ∧ p (t, es) = true := by
  obtain ⟨⟨t, es⟩, done, holds⟩ := Option.map_eq_some_iff.mp found
  exact ⟨t, es, .of_exec done, holds⟩

end Exec

end Tsender.Lib.Transition
