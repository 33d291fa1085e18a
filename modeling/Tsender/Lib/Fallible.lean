/- Tsender/Lib/Fallible
   digest: Weakest preconditions of computations that may fail: what a computation yields is
   decided step by step. -/

import Mathlib.Data.List.Basic
import Mathlib.Data.List.Induction
import Mathlib.Tactic.Common

set_option autoImplicit false
set_option relaxedAutoImplicit false

namespace Tsender.Lib.Fallible

universe u v w

variable {ε : Type u} {α β : Type v}

/-- The computation returns, and what it returns satisfies `P`. -/
def Yields (x : Except ε α) (P : α → Prop) : Prop := ∃ a, x = .ok a ∧ P a

@[simp]
theorem yields_ok {a : α} {P : α → Prop} : Yields (.ok a : Except ε α) P ↔ P a := by
  simp [Yields]

@[simp]
theorem yields_pure {a : α} {P : α → Prop} : Yields (pure a : Except ε α) P ↔ P a := yields_ok

@[simp]
theorem yields_error {e : ε} {P : α → Prop} : Yields (.error e : Except ε α) P ↔ False := by
  simp [Yields]

@[simp]
theorem yields_bind {x : Except ε α} {f : α → Except ε β} {P : β → Prop} :
    Yields (x >>= f) P ↔ Yields x fun a => Yields (f a) P := by
  cases x with
  | error e => simp [Yields, bind, Except.bind]
  | ok a => simp [Yields, bind, Except.bind]

theorem ok_bind {a : α} {f : α → Except ε β} : (.ok a : Except ε α) >>= f = f a := rfl

theorem bind_eq_ok {x : Except ε α} {f : α → Except ε β} {b : β} :
    x >>= f = .ok b ↔ ∃ a, x = .ok a ∧ f a = .ok b := by
  cases x with
  | error e => simp [bind, Except.bind]
  | ok a => simp [bind, Except.bind]

@[simp]
theorem yields_ite {c : Prop} [Decidable c] {x y : Except ε α} {P : α → Prop} :
    Yields (if c then x else y) P ↔ (c → Yields x P) ∧ (¬c → Yields y P) := by
  by_cases h : c <;> simp [h]

private theorem yields_and_const {x : Except ε α} {p : Prop} {P : α → Prop} :
    (Yields x fun a => p ∧ P a) ↔ p ∧ Yields x P := by
  constructor
  · rintro ⟨a, done, hp, holds⟩
    exact ⟨hp, a, done, holds⟩
  · rintro ⟨hp, a, done, holds⟩
    exact ⟨a, done, hp, holds⟩

theorem yields_const {x : Except ε α} {p : Prop} :
    (Yields x fun _ => p) ↔ p ∧ Yields x fun _ => True := by
  rw [← yields_and_const]
  simp only [and_true]

theorem yields_mapM {f : α → Except ε β} {Rel : α → β → Prop} {xs : List α} {P : List β → Prop}
    (each : ∀ x y, f x = .ok y → Rel x y) (any : ∀ ys, List.Forall₂ Rel xs ys → P ys) :
    Yields (xs.mapM f) P ↔ ∀ x ∈ xs, Yields (f x) fun _ => True := by
  induction xs generalizing P with
  | nil => simpa using any [] .nil
  | cons x xs ih =>
    have rest : ∀ y, f x = .ok y → (Yields (xs.mapM f) (fun ys => P (y :: ys)) ↔
        ∀ x ∈ xs, Yields (f x) fun _ => True) :=
      fun y done => ih fun ys related => any (y :: ys) (.cons (each x y done) related)
    simp only [List.mapM_cons, yields_bind, yields_pure, List.forall_mem_cons]
    constructor
    · rintro ⟨y, done, others⟩
      exact ⟨⟨y, done, trivial⟩, (rest y done).mp others⟩
    · rintro ⟨⟨y, done, -⟩, others⟩
      exact ⟨y, done, (rest y done).mpr others⟩

theorem inv_of_foldlM {σ : Type v} {step : σ → α → Except ε σ} {Inv : List α → σ → Prop}
    {s t : σ} {xs : List α} (start : Inv [] s)
    (keeps : ∀ pre x t u, Inv pre t → step t x = .ok u → Inv (pre ++ [x]) u)
    (done : xs.foldlM step s = .ok t) : Inv xs t := by
  induction xs using List.reverseRecOn generalizing t with
  | nil =>
    cases done
    exact start
  | append_singleton xs x ih =>
    rw [List.foldlM_append] at done
    obtain ⟨u, front, last⟩ := bind_eq_ok.mp done
    obtain ⟨v, last, done⟩ := bind_eq_ok.mp last
    cases done
    exact keeps xs x u t (ih front) last

/-- A loop whose rounds keep an invariant, and return exactly for the elements with `Legible`,
returns exactly if all elements have it. -/
theorem yields_foldlM {σ : Type v} {step : σ → α → Except ε σ} {Inv : List α → σ → Prop}
    {Legible : α → Prop} {s : σ} {xs : List α} (start : Inv [] s)
    (each : ∀ pre x t, Inv pre t → ((Yields (step t x) fun _ => True) ↔ Legible x))
    (keeps : ∀ pre x t u, Inv pre t → step t x = .ok u → Inv (pre ++ [x]) u) :
    (Yields (xs.foldlM step s) fun _ => True) ↔ ∀ x ∈ xs, Legible x := by
  induction xs using List.reverseRecOn with
  | nil => simp
  | append_singleton xs x ih =>
    simp only [List.foldlM_append, yields_bind, List.foldlM_cons, List.foldlM_nil, yields_pure,
      List.forall_mem_append, List.forall_mem_singleton, ← ih]
    constructor
    · rintro ⟨t, front, last⟩
      exact ⟨⟨t, front, trivial⟩, (each xs x t (inv_of_foldlM start keeps front)).mp last⟩
    · rintro ⟨⟨t, front, -⟩, last⟩
      exact ⟨t, front, (each xs x t (inv_of_foldlM start keeps front)).mpr last⟩

theorem mem_of_mapM {f : α → Except ε β} {xs : List α} {ys : List β} {y : β}
    (done : xs.mapM f = .ok ys) (mem : y ∈ ys) : ∃ x ∈ xs, f x = .ok y := by
  induction xs generalizing ys with
  | nil =>
    cases done
    cases mem
  | cons x xs ih =>
    simp only [List.mapM_cons, bind_eq_ok] at done
    obtain ⟨z, first, zs, others, done⟩ := done
    cases done
    rcases List.mem_cons.mp mem with rfl | mem
    · exact ⟨x, List.mem_cons_self, first⟩
    · obtain ⟨x', mem', rest⟩ := ih others mem
      exact ⟨x', List.mem_cons_of_mem x mem', rest⟩

section Avoids

/-- The computation does not fail with `e`. -/
def Avoids (e : ε) (x : Except ε α) : Prop := x ≠ .error e

variable {e : ε}

@[simp]
theorem avoids_ok {a : α} : Avoids e (.ok a : Except ε α) := nofun

@[simp]
theorem avoids_pure {a : α} : Avoids e (pure a : Except ε α) := avoids_ok

@[simp]
theorem avoids_error {f : ε} : Avoids e (.error f : Except ε α) ↔ f ≠ e := by
  simp [Avoids]

@[simp]
theorem avoids_bind {x : Except ε α} {f : α → Except ε β} :
    Avoids e (x >>= f) ↔ Avoids e x ∧ ∀ a, x = .ok a → Avoids e (f a) := by
  cases x with
  | error g => simp [Avoids, bind, Except.bind]
  | ok a => simp [Avoids, bind, Except.bind]

@[simp]
theorem avoids_map {x : Except ε α} {f : α → β} : Avoids e (f <$> x) ↔ Avoids e x := by
  cases x with
  | error g => simp [Avoids, Functor.map, Except.map]
  | ok a => simp [Avoids, Functor.map, Except.map]

@[simp]
theorem avoids_ite {c : Prop} [Decidable c] {x y : Except ε α} :
    Avoids e (if c then x else y) ↔ (c → Avoids e x) ∧ (¬c → Avoids e y) := by
  by_cases h : c <;> simp [h]

theorem avoids_foldlM {σ : Type v} {step : σ → α → Except ε σ} {xs : List α} {s : σ}
    (each : ∀ t x, Avoids e (step t x)) : Avoids e (xs.foldlM step s) := by
  induction xs generalizing s with
  | nil => exact avoids_pure
  | cons x xs ih =>
    rw [List.foldlM_cons, avoids_bind]
    exact ⟨each s x, fun t _ => ih⟩

theorem mapM_eq_error {f : α → Except ε β} {xs : List α}
    (all : ∀ x ∈ xs, Yields (f x) (fun _ => True) ∨ f x = .error e)
    (one : ∃ x ∈ xs, f x = .error e) : xs.mapM f = .error e := by
  induction xs with
  | nil => simp at one
  | cons x xs ih =>
    rw [List.forall_mem_cons] at all
    rw [List.mapM_cons]
    rcases all.1 with ⟨y, done, -⟩ | failed
    · obtain ⟨z, mem, failed⟩ := one
      rcases List.mem_cons.mp mem with rfl | mem
      · exact absurd (done.symm.trans failed) (by simp)
      · rw [done, ih all.2 ⟨z, mem, failed⟩]
        rfl
    · rw [failed]
      rfl

theorem mem_of_mapM_error {f : α → Except ε β} {xs : List α} (failed : xs.mapM f = .error e) :
    ∃ x ∈ xs, f x = .error e := by
  induction xs with
  | nil => cases failed
  | cons x xs ih =>
    rw [List.mapM_cons] at failed
    cases first : f x with
    | error g =>
      rw [first] at failed
      cases failed
      exact ⟨x, List.mem_cons_self, first⟩
    | ok y =>
      cases others : xs.mapM f with
      | error g =>
        rw [first, others] at failed
        cases failed
        obtain ⟨z, mem, failed⟩ := ih others
        exact ⟨z, List.mem_cons_of_mem x mem, failed⟩
      | ok ys =>
        rw [first, others] at failed
        cases failed

theorem forall₂_of_mapM {f : α → Except ε β} {xs : List α} {ys : List β}
    (done : xs.mapM f = .ok ys) : List.Forall₂ (fun x y => f x = .ok y) xs ys := by
  induction xs generalizing ys with
  | nil =>
    cases done
    exact .nil
  | cons x xs ih =>
    simp only [List.mapM_cons, bind_eq_ok] at done
    obtain ⟨y, first, zs, others, done⟩ := done
    cases done
    exact .cons first (ih others)

end Avoids

end Tsender.Lib.Fallible
