/- Tsender/Lifecycle/Shutdown
   source: main.cpp (main, sigfunc)
   digest: The end of the program: main tests its flag without the lock that pthread_cond_wait
   releases, so that a signal that comes between the two is not heard. -/

import Tsender.Lib.Schedule

set_option autoImplicit false
set_option relaxedAutoImplicit false

namespace Tsender.Lifecycle.Shutdown

open Lib.Transition

/-- The signals with `sigfunc` as their handler. -/
inductive Signal where
  | int | term | hup
  deriving DecidableEq

/-- Where `main` stands.  A name stands for the statement that is next. -/
inductive MainPc where
  /-- Behind the calls of `signal`, up to the loop. -/
  | create
  /-- `while (!exit_flag_main)`. -/
  | test
  | lock
  | wait
  /-- Inside `pthread_cond_wait`. -/
  | asleep
  | unlock
  /-- Behind the loop. -/
  | exiting
  deriving DecidableEq

structure State where
  main : MainPc
  exitFlagMain : Bool
  /-- Calls of `sigfunc` that have not come to their `pthread_cond_signal`. -/
  signalling : ℕ

inductive Act where
  /-- The next statement of `main`. -/
  | main
  /-- `sigfunc` up to `pthread_cond_signal`. -/
  | sigfunc (signum : Signal)
  | condSignal
  /-- `pthread_cond_wait` returns without a signal, as it may. -/
  | spurious
  /-- A step of another thread. -/
  | other
  deriving DecidableEq

/-- `sigfunc` sets the flag. -/
def Signal.terminates : Signal → Bool
  | .int | .term => true
  | .hup => false

/-- The loop of `main`.  Nobody else takes `sleepMutex`, so that `main` never waits for it. -/
def mainStep (s : State) : Option State :=
  match s.main with
  | .create => some { s with main := .test }
  | .test => some { s with main := if s.exitFlagMain then .exiting else .lock }
  | .lock => some { s with main := .wait }
  | .wait => some { s with main := .asleep }
  | .unlock => some { s with main := .test }
  | .asleep | .exiting => none

/-- What ends `pthread_cond_wait`, if `main` is inside it. -/
def State.wake (s : State) : State :=
  { s with main := if s.main = .asleep then .unlock else s.main }

def next (s : State) : Act → Option State
  | .main => mainStep s
  | .sigfunc signum =>
      some { s with
        exitFlagMain := s.exitFlagMain || signum.terminates
        signalling := s.signalling + 1 }
  | .condSignal =>
      if s.signalling = 0 then none
      else some { s.wake with signalling := s.signalling - 1 }
  | .spurious => if s.main = .asleep then some s.wake else none
  | .other => some s

/-- The signals that came are the events. -/
def step : Machine State Act Signal := fun s a =>
  match next s a with
  | none => none
  | some s => some (s, match a with
    | .sigfunc signum => [signum]
    | .main | .condSignal | .spurious | .other => [])

def State.start : State := ⟨.create, false, 0⟩

/-- `main` runs on wherever it can, and every handler comes to its end. -/
structure Fair (run : Schedule step) : Prop where
  main : run.Answers (fun s => s.main ≠ .asleep ∧ s.main ≠ .exiting) .main
  signals : run.Answers (fun s => 0 < s.signalling) .condSignal

/-- A terminating signal comes while `main` is not between its test and its sleep, or `main` is
woken from a sleep that it should not have begun. -/
def Heard (run : Schedule step) : Prop :=
  (∃ n signum, run.act n = .sigfunc signum ∧ signum.terminates = true ∧
    (run.state n).main ≠ .lock ∧ (run.state n).main ≠ .wait) ∨
  ∃ n, (run.act n = .condSignal ∨ run.act n = .spurious) ∧
    (run.state n).main = .asleep ∧ (run.state n).exitFlagMain = true

section Steps

/-- What a step does to `main` and its flag. -/
inductive Moves (s t : State) : Act → Prop
  | main (goes : mainStep s = some t) : Moves s t .main
  | sigfunc (signum : Signal) (stays : t.main = s.main)
      (flag : t.exitFlagMain = (s.exitFlagMain || signum.terminates))
      (calls : t.signalling = s.signalling + 1) : Moves s t (.sigfunc signum)
  | woken {a : Act} (wakes : a = .condSignal ∨ a = .spurious) (asleep : s.main = .asleep)
      (awake : t.main = .unlock) (flag : t.exitFlagMain = s.exitFlagMain) : Moves s t a
  | same {a : Act} (stays : t.main = s.main) (flag : t.exitFlagMain = s.exitFlagMain)
      (idle : a = .condSignal ∧ s.main ≠ .asleep ∨ a = .other) : Moves s t a

private theorem moves_of_next {s t : State} {a : Act} (go : next s a = some t) : Moves s t a := by
  cases a with
  | main => exact .main go
  | sigfunc signum =>
    cases go
    exact .sigfunc signum rfl rfl rfl
  | condSignal =>
    simp only [next] at go
    split at go
    · cases go
    · cases go
      by_cases asleep : s.main = .asleep
      · exact .woken (.inl rfl) asleep (by simp [State.wake, asleep]) rfl
      · exact .same (by simp [State.wake, asleep]) rfl (.inl ⟨rfl, asleep⟩)
  | spurious =>
    simp only [next] at go
    split at go
    · rename_i asleep
      cases go
      exact .woken (.inr rfl) asleep (by simp [State.wake, asleep]) rfl
    · cases go
  | other =>
    cases go
    exact .same rfl rfl (.inr rfl)

private theorem mainStep_flag {s t : State} (goes : mainStep s = some t) :
    t.exitFlagMain = s.exitFlagMain := by
  unfold mainStep at goes
  split at goes <;> cases goes <;> rfl

variable (run : Schedule step) {n m : ℕ}

theorem moves (n : ℕ) : Moves (run.state n) (run.state (n + 1)) (run.act n) := by
  apply moves_of_next
  have moved := run.moves n
  simp only [step] at moved
  split at moved
  · cases moved
  · rename_i found
    rw [found]
    exact congrArg some (congrArg Prod.fst (Option.some.inj moved))

variable {run}

private theorem flag_step (set : (run.state n).exitFlagMain = true) :
    (run.state (n + 1)).exitFlagMain = true := by
  have moved := moves run n
  generalize run.act n = a at moved
  cases moved with
  | main goes => rw [mainStep_flag goes, set]
  | sigfunc signum stays flag calls => rw [flag, set, Bool.true_or]
  | woken wakes asleep awake flag | same stays flag idle => rw [flag, set]

private theorem flag_stays (set : (run.state n).exitFlagMain = true) (later : n ≤ m) :
    (run.state m).exitFlagMain = true := by
  induction later with
  | refl => exact set
  | step _ ih => exact flag_step ih

private theorem main_moves {p : MainPc} (awake : p ≠ .asleep) (here : (run.state n).main = p)
    (left : (run.state (n + 1)).main ≠ p) : run.act n = .main := by
  have moved := moves run n
  generalize run.act n = a at moved ⊢
  cases moved with
  | main goes => rfl
  | sigfunc signum stays flag calls => exact absurd (stays.trans here) left
  | woken wakes asleep => exact absurd (here.symm.trans asleep) awake
  | same stays => exact absurd (stays.trans here) left

private theorem sleep_ends (asleep : (run.state n).main = .asleep)
    (awake : (run.state (n + 1)).main ≠ .asleep) :
    (run.act n = .condSignal ∨ run.act n = .spurious) := by
  have moved := moves run n
  generalize run.act n = a at moved ⊢
  cases moved with
  | main goes => simp [mainStep, asleep] at goes
  | sigfunc signum stays flag calls => exact absurd (stays.trans asleep) awake
  | woken wakes => exact wakes
  | same stays => exact absurd (stays.trans asleep) awake

private theorem wakes_up (asleep : (run.state n).main = .asleep)
    (wakes : run.act n = .condSignal ∨ run.act n = .spurious) :
    (run.state (n + 1)).main = .unlock := by
  have moved := moves run n
  generalize run.act n = a at moved wakes
  cases moved with
  | main | sigfunc => rcases wakes with h | h <;> cases h
  | woken _ _ awake => exact awake
  | same stays flag idle =>
    rcases idle with ⟨-, awake⟩ | rfl
    · exact absurd asleep awake
    · rcases wakes with h | h <;> cases h

private theorem main_goes (act : run.act n = .main) : mainStep (run.state n) = some
    (run.state (n + 1)) := by
  have moved := moves run n
  rw [act] at moved
  cases moved with
  | main goes => exact goes
  | woken wakes => rcases wakes with h | h <;> cases h
  | same stays flag idle => rcases idle with ⟨h, -⟩ | h <;> cases h

end Steps

section Fair

variable {run : Schedule step} {n : ℕ}

theorem Fair.goes_on (fair : Fair run) {p : MainPc} (awake : p ≠ .asleep) (inside : p ≠ .exiting)
    (here : (run.state n).main = p) :
    ∃ m ≥ n, (run.state m).main = p ∧ run.act m = .main := by
  obtain ⟨m, later, act⟩ := fair.main n ⟨here ▸ awake, here ▸ inside⟩
  by_cases still : (run.state m).main = p
  · exact ⟨m, later, still, act⟩
  · obtain ⟨k, later, stays, leaves⟩ :=
      Schedule.ends (fun s : State => s.main = p) here later still
    exact ⟨k, later, stays, main_moves awake stays leaves⟩

private theorem Fair.exits_of_test (fair : Fair run) (set : (run.state n).exitFlagMain = true)
    (here : (run.state n).main = .test) : ∃ m, (run.state m).main = .exiting := by
  obtain ⟨m, later, there, act⟩ := fair.goes_on (by decide) (by decide) here
  have goes := main_goes act
  simp only [mainStep, there, flag_stays set later, if_true] at goes
  exact ⟨m + 1, by rw [← Option.some.inj goes]⟩

private theorem Fair.exits_of_before (fair : Fair run) (set : (run.state n).exitFlagMain = true)
    (here : (run.state n).main = .create ∨ (run.state n).main = .unlock) :
    ∃ m, (run.state m).main = .exiting := by
  obtain ⟨m, later, there, act⟩ : ∃ m ≥ n,
      ((run.state m).main = .create ∨ (run.state m).main = .unlock) ∧ run.act m = .main := by
    rcases here with here | here
    · obtain ⟨m, later, there, act⟩ := fair.goes_on (by decide) (by decide) here
      exact ⟨m, later, .inl there, act⟩
    · obtain ⟨m, later, there, act⟩ := fair.goes_on (by decide) (by decide) here
      exact ⟨m, later, .inr there, act⟩
  have goes := main_goes act
  have arrived : (run.state (m + 1)).main = .test := by
    rcases there with there | there
    · simp only [mainStep, there] at goes
      rw [← Option.some.inj goes]
    · simp only [mainStep, there] at goes
      rw [← Option.some.inj goes]
  exact fair.exits_of_test (flag_step (flag_stays set later)) arrived

private theorem Fair.exits_of_woken (fair : Fair run) (set : (run.state n).exitFlagMain = true)
    (asleep : (run.state n).main = .asleep)
    (wakes : run.act n = .condSignal ∨ run.act n = .spurious) :
    ∃ m, (run.state m).main = .exiting :=
  fair.exits_of_before (flag_step set) (.inr (wakes_up asleep wakes))

private theorem Fair.exits_of_signalling (fair : Fair run) (set : (run.state n).exitFlagMain = true)
    (asleep : (run.state n).main = .asleep) (calls : 0 < (run.state n).signalling) :
    ∃ m, (run.state m).main = .exiting := by
  obtain ⟨m, later, act⟩ := fair.signals n calls
  by_cases still : (run.state m).main = .asleep
  · exact fair.exits_of_woken (flag_stays set later) still (.inl act)
  · obtain ⟨k, later, stays, ends⟩ :=
      Schedule.ends (fun s : State => s.main = .asleep) asleep later still
    exact fair.exits_of_woken (flag_stays set later) stays (sleep_ends stays ends)

private theorem Fair.exits_of_heard (fair : Fair run) (heard : Heard run) :
    ∃ m, (run.state m).main = .exiting := by
  rcases heard with ⟨n, signum, act, ends, unlocked, unwaiting⟩ | ⟨n, wakes, asleep, set⟩
  · obtain ⟨stays, set, calls⟩ : (run.state (n + 1)).main = (run.state n).main ∧
        (run.state (n + 1)).exitFlagMain = true ∧ 0 < (run.state (n + 1)).signalling := by
      have moved := moves run n
      rw [act] at moved
      cases moved with
      | sigfunc _ stays flag calls =>
        exact ⟨stays, by rw [flag, ends, Bool.or_true], by rw [calls]; exact Nat.succ_pos _⟩
      | woken wakes => rcases wakes with h | h <;> cases h
      | same stays flag idle => rcases idle with ⟨h, -⟩ | h <;> cases h
    cases here : (run.state n).main with
    | create => exact fair.exits_of_before set (.inl (stays.trans here))
    | unlock => exact fair.exits_of_before set (.inr (stays.trans here))
    | test => exact fair.exits_of_test set (stays.trans here)
    | lock => exact absurd here unlocked
    | wait => exact absurd here unwaiting
    | asleep => exact fair.exits_of_signalling set (stays.trans here) calls
    | exiting => exact ⟨n, here⟩
  · exact fair.exits_of_woken set asleep wakes

end Fair

/-- What is known of a run in which nothing was heard so far: a flag that is set was set behind
the test, and `main` has not come to its test since. -/
structure Deaf (s : State) : Prop where
  inside : s.main ≠ .exiting
  late : s.exitFlagMain = true → s.main = .lock ∨ s.main = .wait ∨ s.main = .asleep

private theorem deaf_main {s t : State} (h : Deaf s) (goes : mainStep s = some t) : Deaf t := by
  have flag := mainStep_flag goes
  cases here : s.main with
  | create | unlock =>
    have unset : t.exitFlagMain ≠ true := by
      rw [flag]
      exact fun set => by simpa [here] using h.late set
    simp only [mainStep, here] at goes
    cases goes
    exact ⟨by simp, fun set => absurd set unset⟩
  | test =>
    have unset : s.exitFlagMain ≠ true := fun set => by simpa [here] using h.late set
    have goes : some { s with main := .lock } = some t := by
      simpa only [mainStep, here, if_neg unset] using goes
    cases goes
    exact ⟨by simp, fun set => absurd set unset⟩
  | lock =>
    simp only [mainStep, here] at goes
    cases goes
    exact ⟨by simp, fun _ => .inr (.inl rfl)⟩
  | wait =>
    simp only [mainStep, here] at goes
    cases goes
    exact ⟨by simp, fun _ => .inr (.inr rfl)⟩
  | asleep | exiting => simp [mainStep, here] at goes

private theorem deaf_step {run : Schedule step} {n : ℕ} (unheard : ¬ Heard run)
    (h : Deaf (run.state n)) : Deaf (run.state (n + 1)) := by
  simp only [Heard, not_or, not_exists, not_and, not_not] at unheard
  obtain ⟨no_signal, no_wake⟩ := unheard
  have moved := moves run n
  cases act : run.act n with
  | main => exact deaf_main h (main_goes act)
  | sigfunc signum =>
    rw [act] at moved
    cases moved with
    | sigfunc _ stays flag =>
      refine ⟨by rw [stays]; exact h.inside, fun set => ?_⟩
      rw [stays]
      rw [flag, Bool.or_eq_true] at set
      rcases set with before | ends
      · exact h.late before
      · by_cases lock : (run.state n).main = .lock
        · exact .inl lock
        · exact .inr (.inl (no_signal n signum act ends lock))
    | woken wakes => rcases wakes with h | h <;> cases h
    | same stays flag idle => rcases idle with ⟨h, -⟩ | h <;> cases h
  | condSignal | spurious | other =>
    rw [act] at moved
    cases moved with
    | woken wakes asleep awake flag =>
      refine ⟨by simp [awake], fun set => ?_⟩
      rw [flag] at set
      exact absurd set (no_wake n (by rw [act]; exact wakes) asleep)
    | same stays flag =>
      exact ⟨by rw [stays]; exact h.inside, by rw [stays, flag]; exact h.late⟩

/-- Under every fair schedule of the program `main` comes out of its loop if and only if a
terminating signal is heard. -/
theorem main_exits_iff (run : Schedule step) (start : run.state 0 = .start) (fair : Fair run) :
    (∃ n, (run.state n).main = .exiting) ↔ Heard run := by
  refine ⟨fun ⟨n, exits⟩ => ?_, fair.exits_of_heard⟩
  by_contra unheard
  have first : Deaf (run.state 0) := by
    rw [start]
    exact ⟨by simp [State.start], fun set => by simp [State.start] at set⟩
  have deaf := Schedule.always first (fun _ => deaf_step unheard) n
  exact deaf.inside exits

section Lost

/-- A `SIGTERM` between the test of the flag and the sleep. -/
def lost : Schedule step where
  state
    | 0 => .start
    | 1 => ⟨.test, false, 0⟩
    | 2 => ⟨.lock, false, 0⟩
    | 3 => ⟨.lock, true, 1⟩
    | 4 => ⟨.lock, true, 0⟩
    | 5 => ⟨.wait, true, 0⟩
    | _ + 6 => ⟨.asleep, true, 0⟩
  act
    | 0 | 1 | 4 | 5 => .main
    | 2 => .sigfunc .term
    | 3 => .condSignal
    | _ + 6 => .other
  events
    | 2 => [.term]
    | _ => []
  moves
    | 0 | 1 | 2 | 3 | 4 | 5 => rfl
    | _ + 6 => rfl

private theorem fair_lost : Fair lost where
  main n awake := by
    rcases Nat.lt_or_ge n 6 with early | late
    · exact ⟨5, by omega, rfl⟩
    · obtain ⟨k, rfl⟩ := Nat.exists_eq_add_of_le' late
      exact absurd rfl awake.1
  signals n calls := by
    match n, calls with
    | 3, _ => exact ⟨3, le_rfl, rfl⟩
    | 0, calls | 1, calls | 2, calls | 4, calls | 5, calls | _ + 6, calls =>
      exact absurd calls (lt_irrefl 0)

private theorem lost_unheard : ¬ Heard lost := by
  rintro (⟨n, signum, act, -, unlocked, -⟩ | ⟨n, wakes, asleep, -⟩)
  · match n, act with
    | 2, _ => exact unlocked rfl
    | 0, act | 1, act | 3, act | 4, act | 5, act | _ + 6, act => cases act
  · match n, wakes with
    | 3, _ => cases asleep
    | 0, wakes | 1, wakes | 2, wakes | 4, wakes | 5, wakes | _ + 6, wakes =>
      rcases wakes with h | h <;> cases h

theorem main_exits_iff_lost :
    lost.act 2 = .sigfunc .term ∧ ¬ ∃ n, (lost.state n).main = .exiting :=
  ⟨rfl, fun exits => lost_unheard ((main_exits_iff lost rfl fair_lost).mp exits)⟩

end Lost

end Tsender.Lifecycle.Shutdown
