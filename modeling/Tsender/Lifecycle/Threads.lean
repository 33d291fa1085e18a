/- Tsender/Lifecycle/Threads
   source: misc.h, misc.cpp (PThread)
   digest: A joinable PThread: its calls decide by m_eState, which the created thread writes,
   and are right exactly when they come after that thread has first written it. -/

import Tsender.Lib.Transition

set_option autoImplicit false
set_option relaxedAutoImplicit false

namespace Tsender.Lifecycle.Threads

open Lib.Transition

inductive ThreadState where
  | ready | running | terminated | zombie | aborted
  deriving DecidableEq

/-- Where a created thread is in `StartPoint`.  A name stands for the statement that is next. -/
inductive StartPoint where
  | setRunning | run | setZombie | exit | finished
  deriving DecidableEq

structure Thread where
  pc : StartPoint
  joins : ℕ
  deriving DecidableEq

inductive Call where
  | terminate
  /-- `~PThread`. -/
  | destroy
  deriving DecidableEq

/-- Where a call is.  `~PThread` begins with the second test. -/
inductive CallPc where
  | testRunning | testZombie | join | setTerminated | leave
  deriving DecidableEq

/-- A call in progress.  It is made by the owner or, from inside `Run`, by a created thread. -/
structure Calling where
  call : Call
  pc : CallPc
  caller : Option ℕ
  deriving DecidableEq

/-- A `PThread` of type `eJOINABLE`, with the threads that `pthread_create` made for it in order.
`nID` is the last of them.  `Run` may return at any time, so `m_bExit` has no part here. -/
structure PThread where
  eState : ThreadState
  nID : Option ℕ
  threads : List Thread
  calling : Option Calling
  destroyed : Bool

def PThread.start : PThread := ⟨.ready, none, [], none, false⟩

inductive Act where
  /-- `Start`, of which `pthread_create` succeeds or fails. -/
  | start (created : Bool)
  | call (call : Call) (caller : Option ℕ)
  /-- The next statement of the call in progress. -/
  | proceed
  /-- The next statement of `StartPoint` in a created thread. -/
  | thread (i : ℕ)
  deriving DecidableEq

inductive Event where
  /-- A statement of `StartPoint` used the object. -/
  | touched (destroyed : Bool)
  /-- `Terminate` returned; `joined` says that every created thread had finished and been joined
  exactly once. -/
  | returned (joined : Bool)
  deriving DecidableEq

def Settled (th : Thread) : Prop := th.pc = .finished ∧ th.joins = 1

instance (th : Thread) : Decidable (Settled th) := inferInstanceAs (Decidable (_ ∧ _))

def AllSettled (s : PThread) : Prop := ∀ th ∈ s.threads, Settled th

instance (s : PThread) : Decidable (AllSettled s) := inferInstanceAs (Decidable (∀ _ ∈ _, _))

abbrev Step := Option (PThread × List Event)

/-- `Join`.  It waits for the end of the thread; a thread that joins itself and a thread that is
joined already are errors. -/
def join (s : PThread) (c : Calling) : Step :=
  let failed := some ({ s with calling := some { c with pc := .leave } }, [])
  match s.nID with
  | none => failed
  | some i =>
      match s.threads[i]? with
      | none => failed
      | some th =>
          if c.caller = some i then failed
          else if th.pc ≠ .finished then none
          else
            let pc := if th.joins = 0 then .setTerminated else .leave
            some ({ s with
              threads := s.threads.set i { th with joins := th.joins + 1 }
              calling := some { c with pc := pc } }, [])

def proceed (s : PThread) (c : Calling) : Step :=
  let goto := fun pc : CallPc => { s with calling := some { c with pc := pc } }
  match c.pc with
  | .testRunning => some (goto (if s.eState = .running then .join else .testZombie), [])
  | .testZombie => some (goto (if s.eState = .zombie then .join else .leave), [])
  | .join => join s c
  | .setTerminated => some ({ goto .leave with eState := .terminated }, [])
  | .leave =>
      match c.call with
      | .terminate => some ({ s with calling := none }, [.returned (AllSettled s)])
      | .destroy => some ({ s with calling := none, destroyed := true }, [])

/-- The next statement of `StartPoint`. -/
def startPoint (s : PThread) (i : ℕ) (th : Thread) : Step :=
  let moved := fun pc : StartPoint => s.threads.set i { th with pc := pc }
  match th.pc with
  | .setRunning =>
      some ({ s with eState := .running, threads := moved .run }, [.touched s.destroyed])
  | .run => some ({ s with threads := moved .setZombie }, [.touched s.destroyed])
  | .setZombie =>
      some ({ s with eState := .zombie, threads := moved .exit }, [.touched s.destroyed])
  | .exit => some ({ s with threads := moved .finished }, [])
  | .finished => none

/-- A thread can call what its `Run` calls. -/
def mayCall (s : PThread) : Option ℕ → Bool
  | none => true
  | some i => s.threads[i]?.any fun th => th.pc = .run

def step : Machine PThread Act Event
  | s, .start created =>
      if s.calling ≠ none ∨ s.destroyed = true then none
      else if created then
        some ({ s with
          nID := some s.threads.length
          threads := s.threads ++ [⟨.setRunning, 0⟩] }, [])
      else some ({ s with eState := .aborted }, [])
  | s, .call call caller =>
      if s.calling ≠ none ∨ s.destroyed = true ∨ mayCall s caller = false then none
      else
        let pc := if call = .terminate then .testRunning else .testZombie
        some ({ s with calling := some ⟨call, pc, caller⟩ }, [])
  | s, .proceed =>
      match s.calling with
      | none => none
      | some c => proceed s c
  | s, .thread i =>
      match s.threads[i]? with
      | none => none
      | some th =>
          if s.calling.any fun c => c.caller = some i then none else startPoint s i th

/-- What the owner relies on: at the return of `Terminate` the created threads are finished and
joined exactly once, and none uses the object after its end. -/
def Sound (es : List Event) (_ : PThread) : Prop :=
  ∀ e ∈ es, e ≠ .returned false ∧ e ≠ .touched true

/-- `Terminate` tests `m_eState` after each created thread has written it first, `~PThread` when
they are joined or it reads `eZOMBIE`, and it is the owner who calls. -/
def InOrder (s : PThread) (c : Calling) : Prop :=
  (c.pc = .testRunning → c.caller = none ∧ ∀ th ∈ s.threads, th.pc ≠ .setRunning) ∧
    (c.call = .destroy → c.pc = .testZombie →
      c.caller = none ∧ (AllSettled s ∨ s.eState = .zombie))

instance (s : PThread) (c : Calling) : Decidable (InOrder s c) :=
  inferInstanceAs (Decidable (_ ∧ _))

/-- The calls are in order, and `Start` comes when all created threads are joined. -/
def Orderly (_ : List Event) (s : PThread) : Act → Prop
  | .start _ => AllSettled s
  | .proceed => ∀ c ∈ s.calling, InOrder s c
  | .call _ _ | .thread _ => True

instance (es : List Event) (s : PThread) (a : Act) : Decidable (Orderly es s a) := by
  cases a <;> unfold Orderly <;> infer_instance

/-- No thread is left to join, and `m_eState` says so. -/
structure Quiet (s : PThread) : Prop where
  settled : AllSettled s
  notRunning : s.eState ≠ .running
  notZombie : s.eState ≠ .zombie

/-- What `m_eState` shows of the thread that writes it. -/
def Shows (eState : ThreadState) : StartPoint → Prop
  | .setRunning => eState ≠ .running ∧ eState ≠ .zombie
  | .run | .setZombie => eState = .running
  | .exit | .finished => eState = .zombie

structure Live (s : PThread) (old : List Thread) (th : Thread) : Prop where
  threads : s.threads = old ++ [th]
  last : s.nID = some old.length
  settled : ∀ o ∈ old, Settled o
  unjoined : th.joins = 0
  shows : Shows s.eState th.pc

def SomeLive (s : PThread) : Prop := ∃ old th, Live s old th

def Holds (s : PThread) : Option Calling → Prop
  | none => AllSettled s ∧ s.destroyed = true ∨ (Quiet s ∨ SomeLive s) ∧ s.destroyed = false
  | some c => s.destroyed = false ∧
      match c.call, c.pc with
      | _, .testRunning | .destroy, .testZombie => Quiet s ∨ SomeLive s
      | .terminate, .testZombie => Quiet s ∨ SomeLive s ∧ s.eState = .zombie ∧ c.caller = none
      | _, .join => SomeLive s ∧ c.caller = none
      | _, .setTerminated => AllSettled s
      | _, .leave => Quiet s

structure Safe (es : List Event) (s : PThread) : Prop where
  sound : Sound es s
  holds : Holds s s.calling

private theorem safe_start : Safe [] .start := by
  refine ⟨nofun, .inr ⟨.inl ⟨nofun, nofun, nofun⟩, rfl⟩⟩

section Steps

variable {es fs : List Event} {s t : PThread}

private theorem Quiet.goto (h : Quiet s) (c : Option Calling) : Quiet { s with calling := c } :=
  ⟨h.settled, h.notRunning, h.notZombie⟩

private theorem SomeLive.goto (h : SomeLive s) (c : Option Calling) : SomeLive
    { s with calling := c } := by
  obtain ⟨old, th, live⟩ := h
  exact ⟨old, th, live.threads, live.last, live.settled, live.unjoined, live.shows⟩

private theorem Live.not_settled {old : List Thread} {th : Thread} (h : Live s old th) :
    ¬ AllSettled s := by
  intro settled
  have joined := (settled th (by simp [h.threads])).2
  rw [h.unjoined] at joined
  cases joined

theorem Live.here {old : List Thread} {th here : Thread} {i : ℕ} (h : Live s old th)
    (found : s.threads[i]? = some here) (more : here.pc ≠ .finished) :
    i = old.length ∧ here = th := by
  rw [h.threads] at found
  rcases Nat.lt_trichotomy i old.length with before | rfl | behind
  · rw [List.getElem?_append_left before] at found
    exact absurd (h.settled here (List.mem_of_getElem? found)).1 more
  · exact ⟨rfl, by simpa using found.symm⟩
  · rw [List.getElem?_eq_none (by simp; omega)] at found
    cases found

theorem Live.set {old : List Thread} {th th' : Thread} (h : Live s old th) :
    s.threads.set old.length th' = old ++ [th'] := by
  simp [h.threads]

private theorem live_thread {old : List Thread} {th : Thread} {i : ℕ} {here : Thread}
    (h : Live s old th) (found : s.threads[i]? = some here)
    (step : startPoint s i here = some (t, fs)) :
    SomeLive t ∧ t.calling = s.calling ∧ t.destroyed = s.destroyed ∧
      (∀ e ∈ fs, e = .touched s.destroyed) ∧ (s.eState = .zombie → t.eState = .zombie) := by
  have more : here.pc ≠ .finished := by
    intro ended
    simp [startPoint, ended] at step
  obtain ⟨rfl, rfl⟩ := h.here found more
  have shows := h.shows
  simp only [startPoint] at step
  cases pc : here.pc <;> rw [pc] at step shows <;> dsimp only at step
  case setRunning =>
    cases step
    refine ⟨⟨old, _, h.set, h.last, h.settled, h.unjoined, rfl⟩, rfl, rfl, by simp, ?_⟩
    exact fun zombie => absurd zombie shows.2
  case run =>
    cases step
    exact ⟨⟨old, _, h.set, h.last, h.settled, h.unjoined, shows⟩, rfl, rfl, by simp, id⟩
  case setZombie =>
    cases step
    exact ⟨⟨old, _, h.set, h.last, h.settled, h.unjoined, rfl⟩, rfl, rfl, by simp, fun _ => rfl⟩
  case exit =>
    cases step
    exact ⟨⟨old, _, h.set, h.last, h.settled, h.unjoined, shows⟩, rfl, rfl, by simp, id⟩
  case finished => cases step

theorem Sound.append (h : Sound es s) (more : ∀ e ∈ fs, e ≠ .returned false ∧ e ≠ .touched true) :
    Sound (es ++ fs) t := by
  intro e here
  rcases List.mem_append.mp here with old | new
  · exact h e old
  · exact more e new

/-- While a thread is left to join, one is live, wherever a call may be. -/
theorem Holds.live {calling : Option Calling} (h : Holds s calling) (left : ¬ AllSettled s) :
    SomeLive s ∧ s.destroyed = false := by
  cases calling with
  | none =>
    rcases h with ⟨settled, -⟩ | ⟨quiet | live, alive⟩
    · exact absurd settled left
    · exact absurd quiet.settled left
    · exact ⟨live, alive⟩
  | some c =>
    obtain ⟨alive, here⟩ := h
    refine ⟨?_, alive⟩
    split at here
    · exact here.resolve_left fun quiet => left quiet.settled
    · exact here.resolve_left fun quiet => left quiet.settled
    · exact (here.resolve_left fun quiet => left quiet.settled).1
    · exact here.1
    · exact absurd here left
    · exact absurd here.settled left

theorem Holds.congr {calling : Option Calling} (h : Holds s calling) (left : ¬ AllSettled s)
    (live : SomeLive t) (alive : t.destroyed = s.destroyed)
    (zombie : s.eState = .zombie → t.eState = .zombie) : Holds t calling := by
  have kept := (h.live left).2
  cases calling with
  | none => exact .inr ⟨.inr live, alive.trans kept⟩
  | some c =>
    obtain ⟨-, here⟩ := h
    refine ⟨alive.trans kept, ?_⟩
    split at here
    · exact .inr live
    · exact .inr live
    · obtain ⟨-, seen, owner⟩ := here.resolve_left fun quiet => left quiet.settled
      exact .inr ⟨live, zombie seen, owner⟩
    · exact ⟨live, here.2⟩
    · exact absurd here left
    · exact absurd here.settled left

private theorem safe_thread {i : ℕ} (h : Safe es s) (next : step s (.thread i) = some (t, fs)) :
    Safe (es ++ fs) t := by
  simp only [step] at next
  split at next
  · cases next
  · rename_i here found
    split at next
    · cases next
    · have left : ¬ AllSettled s := by
        intro settled
        have ended := (settled here (List.mem_of_getElem? found)).1
        simp [startPoint, ended] at next
      obtain ⟨⟨old, th, live⟩, alive⟩ := h.holds.live left
      obtain ⟨still, calling, same, events, zombie⟩ := live_thread live found next
      refine ⟨h.sound.append fun e new => ?_, ?_⟩
      · rw [events e new, alive]
        exact ⟨nofun, nofun⟩
      · rw [calling]
        exact h.holds.congr left still same zombie

private theorem safe_start_call {created : Bool} (h : Safe es s) (settled : AllSettled s)
    (next : step s (.start created) = some (t, fs)) : Safe (es ++ fs) t := by
  simp only [step] at next
  split at next
  · cases next
  · rename_i free
    obtain ⟨idle, alive⟩ : s.calling = none ∧ s.destroyed = false := by
      simpa [not_or] using free
    have holds := h.holds
    rw [idle] at holds
    have quiet : Quiet s := by
      rcases holds with ⟨-, gone⟩ | ⟨quiet | ⟨old, th, live⟩, -⟩
      · rw [alive] at gone
        cases gone
      · exact quiet
      · exact absurd settled live.not_settled
    split at next
    · cases next
      refine ⟨h.sound.append nofun, ?_⟩
      rw [show (_ : PThread).calling = none from idle]
      refine .inr ⟨.inr ⟨s.threads, ⟨.setRunning, 0⟩, rfl, rfl, settled, rfl, ?_⟩, alive⟩
      exact ⟨quiet.notRunning, quiet.notZombie⟩
    · cases next
      refine ⟨h.sound.append nofun, ?_⟩
      rw [show (_ : PThread).calling = none from idle]
      exact .inr ⟨.inl ⟨settled, nofun, nofun⟩, alive⟩

private theorem safe_call {call : Call} {caller : Option ℕ} (h : Safe es s)
    (next : step s (.call call caller) = some (t, fs)) : Safe (es ++ fs) t := by
  simp only [step] at next
  split at next
  · cases next
  · rename_i free
    obtain ⟨idle, alive, -⟩ : s.calling = none ∧ s.destroyed = false ∧ mayCall s caller = true := by
      simpa [not_or] using free
    have holds := h.holds
    rw [idle] at holds
    have stage : Quiet s ∨ SomeLive s := by
      rcases holds with ⟨-, gone⟩ | ⟨stage, -⟩
      · rw [alive] at gone
        cases gone
      · exact stage
    cases next
    refine ⟨h.sound.append nofun, alive, ?_⟩
    cases call
    · exact stage.imp (Quiet.goto · _) (SomeLive.goto · _)
    · exact stage.imp (Quiet.goto · _) (SomeLive.goto · _)

private theorem Live.shows_written {old : List Thread} {th : Thread} (h : Live s old th)
    (written : ∀ o ∈ s.threads, o.pc ≠ .setRunning) : s.eState = .running ∨ s.eState = .zombie := by
  have shows := h.shows
  have begun := written th (by simp [h.threads])
  cases pc : th.pc <;> rw [pc] at shows
  case setRunning => exact absurd pc begun
  case run => exact .inl shows
  case setZombie => exact .inl shows
  case exit => exact .inr shows
  case finished => exact .inr shows

private theorem safe_testRunning {c : Calling} (alive : s.destroyed = false) (inOrder : InOrder s c)
    (pc : c.pc = .testRunning) (stage : Quiet s ∨ SomeLive s) :
    let calling := some { c with pc := if s.eState = .running then .join else .testZombie }
    Holds { s with calling := calling } calling := by
  obtain ⟨owner, written⟩ := inOrder.1 pc
  refine ⟨alive, ?_⟩
  by_cases running : s.eState = .running
  · have live : SomeLive s := stage.resolve_left fun quiet => quiet.notRunning running
    simp only [if_pos running]
    cases c.call
    · exact ⟨live.goto _, owner⟩
    · exact ⟨live.goto _, owner⟩
  · simp only [if_neg running]
    cases c.call
    · refine stage.imp (Quiet.goto · _) fun ⟨old, th, live⟩ => ?_
      have zombie := (live.shows_written written).resolve_left running
      exact ⟨SomeLive.goto ⟨old, th, live⟩ _, zombie, owner⟩
    · exact stage.imp (Quiet.goto · _) (SomeLive.goto · _)

private theorem safe_testZombie {c : Calling} (alive : s.destroyed = false) (inOrder : InOrder s c)
    (pc : c.pc = .testZombie) (holds : Holds s (some c)) :
    let calling := some { c with pc := if s.eState = .zombie then .join else .leave }
    Holds { s with calling := calling } calling := by
  refine ⟨alive, ?_⟩
  have stage := holds.2
  cases call : c.call with
  | terminate =>
    rw [call, pc] at stage
    by_cases zombie : s.eState = .zombie
    · obtain ⟨live, -, owner⟩ := stage.resolve_left fun quiet => quiet.notZombie zombie
      simp only [if_pos zombie]
      exact ⟨live.goto _, owner⟩
    · simp only [if_neg zombie]
      exact (stage.resolve_right fun live => zombie live.2.1).goto _
  | destroy =>
    rw [call, pc] at stage
    obtain ⟨owner, finished⟩ := inOrder.2 call pc
    by_cases zombie : s.eState = .zombie
    · have live : SomeLive s := stage.resolve_left fun quiet => quiet.notZombie zombie
      simp only [if_pos zombie]
      exact ⟨live.goto _, owner⟩
    · have settled := finished.resolve_right zombie
      simp only [if_neg zombie]
      exact (stage.resolve_right fun ⟨_, _, live⟩ => live.not_settled settled).goto _

private theorem safe_join {c : Calling} (alive : s.destroyed = false) (owner : c.caller = none)
    (live : SomeLive s) (next : join s c = some (t, fs)) : fs = [] ∧ Holds t t.calling := by
  obtain ⟨old, th, live⟩ := live
  have found : s.threads[old.length]? = some th := by simp [live.threads]
  simp only [join, live.last, found, owner, live.unjoined, reduceCtorEq, if_false] at next
  split at next
  · cases next
  · rename_i ended
    cases next
    refine ⟨rfl, alive, ?_⟩
    have settled : AllSettled { s with
        threads := s.threads.set old.length { th with joins := 0 + 1 } } := by
      intro o here
      rw [live.set] at here
      rcases List.mem_append.mp here with before | last
      · exact live.settled o before
      · rw [List.mem_singleton.mp last]
        exact ⟨not_not.mp ended, rfl⟩
    cases c.call
    · exact settled
    · exact settled

private theorem safe_proceed (h : Safe es s) (order : Orderly es s .proceed)
    (next : step s .proceed = some (t, fs)) : Safe (es ++ fs) t := by
  simp only [step] at next
  split at next
  · cases next
  · rename_i c calling
    have inOrder : InOrder s c := order c calling
    have holds := h.holds
    rw [calling] at holds
    obtain ⟨alive, stage⟩ := holds
    simp only [proceed] at next
    cases pc : c.pc <;> rw [pc] at next stage <;> dsimp only at next
    case testRunning =>
      cases next
      refine ⟨h.sound.append nofun, safe_testRunning alive inOrder pc ?_⟩
      cases call : c.call <;> rw [call] at stage <;> exact stage
    case testZombie =>
      cases next
      refine ⟨h.sound.append nofun, safe_testZombie alive inOrder pc ⟨alive, ?_⟩⟩
      rw [pc]
      exact stage
    case join =>
      have here : SomeLive s ∧ c.caller = none := by
        cases call : c.call <;> rw [call] at stage <;> exact stage
      obtain ⟨rfl, holds⟩ := safe_join alive here.2 here.1 next
      exact ⟨h.sound.append nofun, holds⟩
    case setTerminated =>
      have settled : AllSettled s := by
        cases call : c.call <;> rw [call] at stage <;> exact stage
      cases next
      refine ⟨h.sound.append nofun, alive, ?_⟩
      dsimp only
      cases c.call
      · exact ⟨settled, nofun, nofun⟩
      · exact ⟨settled, nofun, nofun⟩
    case leave =>
      have quiet : Quiet s := by
        cases call : c.call <;> rw [call] at stage <;> exact stage
      split at next
      · cases next
        refine ⟨h.sound.append fun e new => ?_, .inr ⟨.inl (quiet.goto _), alive⟩⟩
        rw [List.mem_singleton.mp new, decide_eq_true quiet.settled]
        exact ⟨nofun, nofun⟩
      · cases next
        exact ⟨h.sound.append nofun, .inl ⟨quiet.settled, rfl⟩⟩

private theorem safe_step {a : Act} (h : Safe es s) (order : Orderly es s a)
    (next : step s a = some (t, fs)) : Safe (es ++ fs) t := by
  cases a with
  | start created => exact safe_start_call h order next
  | call call caller => exact safe_call h next
  | proceed => exact safe_proceed h order next
  | thread i => exact safe_thread h next

end Steps

/-- At each return of `Terminate` the created threads are finished and joined exactly once, and
none touches the object after `~PThread`, in every run whose calls are in order. -/
theorem orderly_calls_sound (acts : List Act) (meets : Meets step Orderly .start acts) :
    Throughout step Sound .start acts := by
  refine Throughout.of_meets (fun bs ds m run meets => ?_) meets
  have safe : Safe ds m :=
    run.guarded_invariant meets safe_start fun _ _ _ _ _ h order next => safe_step h order next
  exact safe.sound

/-- The owner starts a thread, terminates it while it runs, starts and terminates another that is
at its end, and destroys the object. -/
def twoThreads : List Act :=
  [.start true, .thread 0, .call .terminate none, .proceed, .thread 0, .thread 0, .thread 0,
    .proceed, .proceed, .proceed, .start true, .thread 1, .thread 1, .thread 1, .thread 1,
    .call .terminate none, .proceed, .proceed, .proceed, .proceed, .proceed,
    .call .destroy none, .proceed, .proceed]

theorem orderly_calls_sound_twice : Throughout step Sound .start twoThreads :=
  orderly_calls_sound twoThreads
    (Meets.of_check (fun _ _ _ => of_decide_eq_true) (by decide +kernel))

/-- `Terminate` comes before the thread has set `eRUNNING`: it returns without joining. -/
theorem terminate_before_running :
    ¬ ∀ (acts : List Act) (es : List Event) (s : PThread),
      Run step .start acts es s → Sound es s := by
  intro claim
  have found : (exec step .start [.start true, .call .terminate none, .proceed, .proceed,
      .proceed]).map (fun r => decide (r.2 = [.returned false])) = some true := by decide +kernel
  obtain ⟨s, es, run, seen⟩ := Run.exists_of_exec found
  obtain rfl : es = [.returned false] := of_decide_eq_true seen
  exact (claim _ _ _ run _ (List.mem_singleton_self _)).1 rfl

end Tsender.Lifecycle.Threads
