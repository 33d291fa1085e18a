/- Tsender/Lifecycle/Teardown
   source: demuxer.cpp (~CDemuxer, Delete, Demux), sender.cpp (~CSender, Delete, Run),
   misc.cpp (PThread::StartPoint, Terminate)
   digest: The destructor chain of a channel against its two threads: the queue is used after its
   delete only by a thread that was already on its way into a queue call. -/

import Tsender.Lib.Transition

set_option autoImplicit false
set_option relaxedAutoImplicit false

namespace Tsender.Lifecycle.Teardown

open Lib.Transition

/-- `m_info["type"]` of the channel. -/
inductive Kind where
  | video
  | audio
  deriving DecidableEq

/-- Where the demux thread stands.  A queue call has two steps, into it and out of it. -/
inductive DemuxPc where
  /-- Before `SetState(eRUNNING)`. -/
  | created
  /-- `SetAttribute` of the sender. -/
  | setAttribute
  /-- The test of `m_bExit` at the head of the loop over the files. -/
  | fileTest
  /-- A file is opened, up to `SetAVFormatContext` of the sender. -/
  | openFile
  /-- The test of `m_bExit` at the head of the loop over the packets. -/
  | test
  | work
  /-- The test of `m_bExit` around `PutVideo`. -/
  | putTest
  | call
  | inside
  /-- Behind `SetState(eZOMBIE)`. -/
  | returned
  /-- It has used an object that was freed; nothing is known of it any more. -/
  | astray
  deriving DecidableEq

inductive SenderPc where
  | created
  /-- `while (!m_bExit)`. -/
  | test
  /-- The test of `m_queue` before `GetVideo` or `GetAudio`. -/
  | testGet
  | callGet
  | insideGet
  | send
  /-- The test of `m_queue` before `RetVideo` or `RetAudio`. -/
  | testRet
  | callRet
  | insideRet
  | returned
  /-- It has used an object that was freed. -/
  | astray
  deriving DecidableEq

/-- Where the thread in `~CDemuxer` stands; from `setExitSender` to `freeSender` it is in
`~CSender`. -/
inductive OwnerPc where
  | setExitDemuxer
  | setExitSender
  | deleteQueue
  | nullQueue
  | terminateSender
  | freeSender
  | terminateDemuxer
  | freeDemuxer
  | done
  deriving DecidableEq

structure State where
  kind : Kind
  demux : DemuxPc
  sender : SenderPc
  owner : OwnerPc
  /-- `CDemuxer::m_bExit`. -/
  demuxExit : Bool
  /-- `CSender::m_bExit`. -/
  senderExit : Bool
  /-- `CSender::m_queue` is not `NULL`.  `CDemuxer::m_queue` is never cleared. -/
  queueSet : Bool
  /-- The `CQueue` has not been deleted. -/
  queueAlive : Bool

/-- The `CSender` has been freed. -/
def State.senderFreed (s : State) : Bool :=
  s.owner = .terminateDemuxer ∨ s.owner = .freeDemuxer ∨ s.owner = .done

/-- The `CDemuxer` has been freed. -/
def State.demuxerFreed (s : State) : Bool := s.owner = .done

inductive Turn where
  /-- There is a packet or block, or time to ask for one. -/
  | data
  /-- There is none, or the queue is full. -/
  | nothing
  /-- `Demux` has no file left, or fails. -/
  | finish
  deriving DecidableEq

inductive Act where
  | owner
  | demux (turn : Turn)
  | sender (turn : Turn)
  deriving DecidableEq

inductive Event where
  | deleted
  /-- A step inside a queue call, and whether the queue was still there. -/
  | used (alive : Bool)
  deriving DecidableEq

abbrev Step := Option (State × List Event)

def State.start (kind : Kind) : State where
  kind := kind
  demux := .created
  sender := .created
  owner := .setExitDemuxer
  demuxExit := false
  senderExit := false
  queueSet := true
  queueAlive := true

/-- `~CDemuxer`.  `Terminate` joins a thread that has set its state to running; it does not
wait for one that has not come that far. -/
def ownerStep (s : State) : Step :=
  match s.owner with
  | .setExitDemuxer => some ({ s with demuxExit := true, owner := .setExitSender }, [])
  | .setExitSender => some ({ s with senderExit := true, owner := .deleteQueue }, [])
  | .deleteQueue => some ({ s with queueAlive := false, owner := .nullQueue }, [.deleted])
  | .nullQueue => some ({ s with queueSet := false, owner := .terminateSender }, [])
  | .terminateSender =>
      if s.sender = .created ∨ s.sender = .returned then
        some ({ s with owner := .freeSender }, [])
      else none
  | .freeSender => some ({ s with owner := .terminateDemuxer }, [])
  | .terminateDemuxer =>
      if s.demux = .created ∨ s.demux = .returned then
        some ({ s with owner := .freeDemuxer }, [])
      else none
  | .freeDemuxer => some ({ s with owner := .done }, [])
  | .done => none

/-- `Demux`.  The video branch tests `m_bExit` once more before every `PutVideo` and repeats a
refused one; the audio branch goes from its work straight into `PutAudio`. -/
def demuxGoes (s : State) (turn : Turn) : Step :=
  match s.demux, turn with
  | .created, _ => some ({ s with demux := .setAttribute }, [])
  | .setAttribute, _ => some ({ s with demux := if s.senderFreed then .astray else .fileTest }, [])
  | .fileTest, .finish => some ({ s with demux := .returned }, [])
  | .fileTest, _ => some ({ s with demux := if s.demuxExit then .returned else .openFile }, [])
  | .openFile, .finish => some ({ s with demux := .returned }, [])
  | .openFile, _ =>
      match s.kind with
      | .video => some ({ s with demux := if s.senderFreed then .astray else .test }, [])
      | .audio => some ({ s with demux := .test }, [])
  | .test, _ => some ({ s with demux := if s.demuxExit then .fileTest else .work }, [])
  | .work, .data =>
      match s.kind with
      | .video => some ({ s with demux := .putTest }, [])
      | .audio => some ({ s with demux := .call }, [])
  | .work, .nothing => some ({ s with demux := .test }, [])
  | .work, .finish => some ({ s with demux := .fileTest }, [])
  | .putTest, _ => some ({ s with demux := if s.demuxExit then .test else .call }, [])
  | .call, _ => some ({ s with demux := .inside }, [.used s.queueAlive])
  | .inside, .nothing =>
      match s.kind with
      | .video => some ({ s with demux := .putTest }, [.used s.queueAlive])
      | .audio => some ({ s with demux := .test }, [.used s.queueAlive])
  | .inside, _ => some ({ s with demux := .test }, [.used s.queueAlive])
  | .returned, _ | .astray, _ => none

/-- A thread that `Terminate` has not waited for may be left without its object. -/
def demuxStep (s : State) (turn : Turn) : Step :=
  if s.demuxerFreed ∧ s.demux ≠ .returned ∧ s.demux ≠ .astray then
    some ({ s with demux := .astray }, [])
  else demuxGoes s turn

/-- `Run` of the sender. -/
def senderGoes (s : State) (turn : Turn) : Step :=
  match s.sender, turn with
  | .created, _ => some ({ s with sender := .test }, [])
  | .test, .data => some ({ s with sender := if s.senderExit then .returned else .testGet }, [])
  | .test, _ => some ({ s with sender := if s.senderExit then .returned else .test }, [])
  | .testGet, _ => some ({ s with sender := if s.queueSet then .callGet else .test }, [])
  | .callGet, _ => some ({ s with sender := .insideGet }, [.used s.queueAlive])
  | .insideGet, .data => some ({ s with sender := .send }, [.used s.queueAlive])
  | .insideGet, _ => some ({ s with sender := .test }, [.used s.queueAlive])
  | .send, _ => some ({ s with sender := .testRet }, [])
  | .testRet, _ => some ({ s with sender := if s.queueSet then .callRet else .test }, [])
  | .callRet, _ => some ({ s with sender := .insideRet }, [.used s.queueAlive])
  | .insideRet, _ => some ({ s with sender := .test }, [.used s.queueAlive])
  | .returned, _ | .astray, _ => none

def senderStep (s : State) (turn : Turn) : Step :=
  if s.senderFreed ∧ s.sender ≠ .returned ∧ s.sender ≠ .astray then
    some ({ s with sender := .astray }, [])
  else senderGoes s turn

def step : Machine State Act Event
  | s, .owner => ownerStep s
  | s, .demux turn => demuxStep s turn
  | s, .sender turn => senderStep s turn

def NoUseAfterDelete (es : List Event) (_ : State) : Prop := .used false ∉ es

/-- A thread that has passed its last test before a queue call and has not come out of it. -/
def DemuxPc.calls : DemuxPc → Bool
  | .call | .inside => true
  | _ => false

def SenderPc.calls : SenderPc → Bool
  | .callGet | .insideGet | .callRet | .insideRet => true
  | _ => false

def SenderPc.tests : SenderPc → Bool
  | .testGet | .testRet => true
  | _ => false

/-- The queue is deleted while no thread is on its way through a queue call; the sender does not
test `m_queue` between the delete and the store of `NULL`; and the audio thread, past its test of
`m_bExit`, does not go on to `PutAudio` after the delete. -/
def Orderly (_ : List Event) (s : State) : Act → Prop
  | .owner => s.owner = .deleteQueue → s.demux.calls = false ∧ s.sender.calls = false
  | .sender _ => s.sender.tests = true → s.queueSet = true → s.queueAlive = true
  | .demux turn => turn = .data → s.kind = .audio → s.demux = .work → s.queueAlive = true

instance (es : List Event) (s : State) : (a : Act) → Decidable (Orderly es s a)
  | .owner => inferInstanceAs (Decidable (_ → _ ∧ _))
  | .sender _ => inferInstanceAs (Decidable (_ → _ → _))
  | .demux _ => inferInstanceAs (Decidable (_ → _ → _ → _))

/-- Once the queue is gone no thread is in a call, and the flag that keeps the video thread
out of one is set. -/
structure Quiesced (s : State) : Prop where
  told : s.owner ≠ .setExitDemuxer → s.demuxExit = true
  later : s.queueAlive = false → s.owner ≠ .setExitDemuxer
  demux : s.queueAlive = false → s.demux.calls = false
  sender : s.queueAlive = false → s.sender.calls = false

private theorem quiesced_start (kind : Kind) : Quiesced (.start kind) :=
  ⟨by simp [State.start], by simp [State.start], by simp [State.start], by simp [State.start]⟩

section Steps

variable {es fs : List Event} {s t : State} {turn : Turn}

private theorem owner_cases (go : ownerStep s = some (t, fs)) :
    t.demux = s.demux ∧ t.sender = s.sender ∧ t.owner ≠ .setExitDemuxer ∧
      (t.demuxExit = s.demuxExit ∨ t.demuxExit = true) ∧
      (s.owner = .setExitDemuxer → t.demuxExit = true) ∧
      (s.owner = .deleteQueue ∨ t.queueAlive = s.queueAlive) ∧ .used false ∉ fs := by
  simp only [ownerStep] at go
  split at go <;> grind

theorem demux_cases (go : demuxStep s turn = some (t, fs)) :
    t.owner = s.owner ∧ t.sender = s.sender ∧ t.demuxExit = s.demuxExit ∧
      t.queueAlive = s.queueAlive ∧
      (.used false ∈ fs → s.demux.calls = true ∧ s.queueAlive = false) ∧
      (t.demux.calls = true → s.demux.calls = true ∨
        s.demux = .putTest ∧ s.demuxExit = false ∨
        s.kind = .audio ∧ s.demux = .work ∧ turn = .data) := by
  simp only [demuxStep] at go
  split at go
  · cases go
    simp [DemuxPc.calls]
  · simp only [demuxGoes] at go
    split at go <;> grind [DemuxPc.calls]

private theorem sender_cases (go : senderStep s turn = some (t, fs)) :
    t.owner = s.owner ∧ t.demux = s.demux ∧ t.demuxExit = s.demuxExit ∧
      t.queueAlive = s.queueAlive ∧
      (.used false ∈ fs → s.sender.calls = true ∧ s.queueAlive = false) ∧
      (t.sender.calls = true → s.sender.calls = true ∨
        s.sender.tests = true ∧ s.queueSet = true) := by
  simp only [senderStep] at go
  split at go
  · cases go
    simp [SenderPc.calls]
  · simp only [senderGoes] at go
    split at go <;> grind [SenderPc.calls, SenderPc.tests]

private theorem demux_kept (go : demuxStep s turn = some (t, fs)) : t =
    { s with demux := t.demux } := by
  simp only [demuxStep] at go
  split at go
  · cases go
    rfl
  · simp only [demuxGoes] at go
    split at go <;> grind

private theorem sender_kept (go : senderStep s turn = some (t, fs)) :
    t = { s with sender := t.sender } := by
  simp only [senderStep] at go
  split at go
  · cases go
    rfl
  · simp only [senderGoes] at go
    split at go <;> grind

private theorem quiesced_owner (h : Quiesced s) (orderly : Orderly es s .owner)
    (go : ownerStep s = some (t, fs)) : Quiesced t ∧ .used false ∉ fs := by
  obtain ⟨demux, sender, owner, exit, first, queue, unused⟩ := owner_cases go
  have told : t.demuxExit = true := by
    by_cases start : s.owner = .setExitDemuxer
    · exact first start
    · exact exit.elim (fun same => same.trans (h.told start)) id
  refine ⟨⟨fun _ => told, fun _ => owner, fun gone => ?_, fun gone => ?_⟩, unused⟩
  · rw [demux]
    rcases queue with deletes | same
    · exact (orderly deletes).1
    · exact h.demux (same ▸ gone)
  · rw [sender]
    rcases queue with deletes | same
    · exact (orderly deletes).2
    · exact h.sender (same ▸ gone)

private theorem quiesced_demux (h : Quiesced s) (orderly : Orderly es s (.demux turn))
    (go : demuxStep s turn = some (t, fs)) : Quiesced t ∧ .used false ∉ fs := by
  obtain ⟨owner, sender, exit, queue, used, enters⟩ := demux_cases go
  refine ⟨⟨?_, ?_, fun gone => ?_, ?_⟩, fun late => ?_⟩
  · rw [owner, exit]; exact h.told
  · rw [owner, queue]; exact h.later
  · rw [queue] at gone
    by_contra calls
    rcases enters (by simpa using calls) with inside | ⟨-, unset⟩ | ⟨audio, work, rfl⟩
    · rw [h.demux gone] at inside
      cases inside
    · rw [h.told (h.later gone)] at unset
      cases unset
    · rw [orderly rfl audio work] at gone
      cases gone
  · rw [queue, sender]; exact h.sender
  · obtain ⟨calls, gone⟩ := used late
    rw [h.demux gone] at calls
    cases calls

private theorem quiesced_sender (h : Quiesced s) (orderly : Orderly es s (.sender turn))
    (go : senderStep s turn = some (t, fs)) : Quiesced t ∧ .used false ∉ fs := by
  obtain ⟨owner, demux, exit, queue, used, enters⟩ := sender_cases go
  refine ⟨⟨?_, ?_, ?_, fun gone => ?_⟩, fun late => ?_⟩
  · rw [owner, exit]; exact h.told
  · rw [owner, queue]; exact h.later
  · rw [queue, demux]; exact h.demux
  · rw [queue] at gone
    by_contra calls
    rcases enters (by simpa using calls) with inside | ⟨tests, set⟩
    · rw [h.sender gone] at inside
      cases inside
    · rw [orderly tests set] at gone
      cases gone
  · obtain ⟨calls, gone⟩ := used late
    rw [h.sender gone] at calls
    cases calls

private theorem quiesced_step {a : Act} (h : Quiesced s) (orderly : Orderly es s a)
    (go : step s a = some (t, fs)) : Quiesced t ∧ .used false ∉ fs := by
  cases a with
  | owner => exact quiesced_owner h orderly go
  | demux turn => exact quiesced_demux h orderly go
  | sender turn => exact quiesced_sender h orderly go

end Steps

structure Safe (es : List Event) (s : State) : Prop where
  quiesced : Quiesced s
  unused : NoUseAfterDelete es s

/-- In every run that is orderly the queue is not used after its delete, whatever else the
destructors and the two threads do in between. -/
theorem orderly_teardown_safe (kind : Kind) (acts : List Act)
    (orderly : Meets step Orderly (.start kind) acts) :
    Throughout step NoUseAfterDelete (.start kind) acts := by
  refine Throughout.of_meets (fun bs ds s run orderly => ?_) orderly
  have safe : Safe ds s := by
    apply run.guarded_invariant orderly
    · exact ⟨quiesced_start kind, List.not_mem_nil⟩
    · intro ds m a n gs h own go
      obtain ⟨quiesced, late⟩ := quiesced_step h.quiesced own go
      exact ⟨quiesced, fun used => (List.mem_append.mp used).elim h.unused late⟩
  exact safe.unused

/-- A channel that is closed while its video thread is at work and its sender is at the head of
its loop. -/
def closedBetweenCalls : List Act :=
  List.replicate 6 (.demux .data) ++ .sender .data :: List.replicate 4 .owner ++
    [.sender .data, .owner, .owner, .demux .data, .demux .data, .demux .data, .owner, .owner]

theorem orderly_teardown_safe_between_calls :
    Throughout step NoUseAfterDelete (.start .video) closedBetweenCalls :=
  orderly_teardown_safe .video closedBetweenCalls
    (Meets.of_check (fun _ _ _ => of_decide_eq_true) (by decide))

/-- The video thread has just found `m_bExit` unset when the destructor sets it and deletes the
queue; its `PutVideo` then works on the deleted queue. -/
theorem put_after_delete :
    ¬ ∀ (kind : Kind) (acts : List Act), Throughout step NoUseAfterDelete (.start kind) acts := by
  intro claim
  have found : (exec step (.start .video) (List.replicate 7 (.demux .data) ++
      List.replicate 3 .owner ++ [.demux .data])).map
      (fun r : State × List Event => decide (.used false ∈ r.2)) = some true := by decide
  obtain ⟨s, es, run, seen⟩ := Run.exists_of_exec found
  exact claim .video _ _ [] es s (List.append_nil _).symm run (of_decide_eq_true seen)

section Closing

def OwnerPc.left : OwnerPc → ℕ
  | .setExitDemuxer => 8
  | .setExitSender => 7
  | .deleteQueue => 6
  | .nullQueue => 5
  | .terminateSender => 4
  | .freeSender => 3
  | .terminateDemuxer => 2
  | .freeDemuxer => 1
  | .done => 0

def DemuxPc.left : DemuxPc → ℕ
  | .work => 6
  | .call => 5
  | .inside => 4
  | .putTest | .openFile | .created => 3
  | .test | .setAttribute => 2
  | .fileTest => 1
  | .returned | .astray => 0

def SenderPc.left : SenderPc → ℕ
  | .testGet => 8
  | .callGet => 7
  | .insideGet => 6
  | .send => 5
  | .testRet => 4
  | .callRet => 3
  | .insideRet | .created => 2
  | .test => 1
  | .returned | .astray => 0

def State.left (s : State) : ℕ := s.owner.left + s.demux.left + s.sender.left

structure Told (s : State) : Prop where
  demux : s.owner ≠ .setExitDemuxer → s.demuxExit = true
  sender : s.owner ≠ .setExitDemuxer → s.owner ≠ .setExitSender → s.senderExit = true

structure Exiting (s : State) : Prop where
  demux : s.demuxExit = true
  sender : s.senderExit = true

variable {s t : State} {a : Act} {es fs : List Event}

private theorem told_step (h : Told s) (go : step s a = some (t, fs)) : Told t := by
  cases a with
  | owner =>
    obtain ⟨demux, sender⟩ := h
    simp only [step, ownerStep] at go
    split at go <;> grind [Told]
  | demux turn =>
    rw [demux_kept go]
    exact ⟨h.demux, h.sender⟩
  | sender turn =>
    rw [sender_kept go]
    exact ⟨h.demux, h.sender⟩

private theorem exiting_step (h : Exiting s) (go : step s a = some (t, fs)) : Exiting t := by
  cases a with
  | owner =>
    obtain ⟨demux, sender⟩ := h
    simp only [step, ownerStep] at go
    split at go <;> grind [Exiting]
  | demux turn =>
    rw [demux_kept go]
    exact ⟨h.demux, h.sender⟩
  | sender turn =>
    rw [sender_kept go]
    exact ⟨h.demux, h.sender⟩

private theorem demux_left {turn : Turn} (exit : s.demuxExit = true)
    (go : demuxStep s turn = some (t, fs)) : t.demux.left < s.demux.left := by
  simp only [demuxStep] at go
  split at go
  · rename_i lost
    cases go
    cases at_pc : s.demux <;> simp [at_pc, DemuxPc.left] at lost ⊢
  · simp only [demuxGoes] at go
    split at go <;> grind [DemuxPc.left]

private theorem sender_left {turn : Turn} (exit : s.senderExit = true)
    (go : senderStep s turn = some (t, fs)) : t.sender.left < s.sender.left := by
  simp only [senderStep] at go
  split at go
  · rename_i lost
    cases go
    cases at_pc : s.sender <;> simp [at_pc, SenderPc.left] at lost ⊢
  · simp only [senderGoes] at go
    split at go <;> grind [SenderPc.left]

private theorem left_step (h : Exiting s) (go : step s a = some (t, fs)) : t.left < s.left := by
  cases a with
  | owner =>
    simp only [step, ownerStep] at go
    split at go <;> grind [State.left, OwnerPc.left]
  | demux turn =>
    have less := demux_left h.demux go
    rw [demux_kept go]
    simp only [State.left]
    omega
  | sender turn =>
    have less := sender_left h.sender go
    rw [sender_kept go]
    simp only [State.left]
    omega

private theorem demux_ended (stuck : step s (.demux .nothing) = none) :
    s.demux = .returned ∨ s.demux = .astray := by
  simp only [step, demuxStep, demuxGoes] at stuck
  split at stuck
  · cases stuck
  · split at stuck <;> grind

private theorem sender_ended (stuck : step s (.sender .nothing) = none) :
    s.sender = .returned ∨ s.sender = .astray := by
  simp only [step, senderStep, senderGoes] at stuck
  split at stuck
  · cases stuck
  · split at stuck <;> grind

private theorem done_of_stuck (stuck : ∀ a, step s a = none) :
    s.demux = .astray ∨ s.sender = .astray ∨
      s.owner = .done ∧ s.demux = .returned ∧ s.sender = .returned := by
  rcases demux_ended (stuck _) with demux | astray
  · rcases sender_ended (stuck _) with sender | astray
    · have waits := stuck .owner
      simp only [step, ownerStep, demux, sender] at waits
      refine .inr (.inr ⟨?_, demux, sender⟩)
      split at waits <;> grind
    · exact .inr (.inl astray)
  · exact .inl astray

/-- Both threads have begun, and `Demux` is not on its way to a call of the sender. -/
structure Begun (s : State) : Prop where
  demux : s.demux ∉ [DemuxPc.created, .setAttribute, .openFile, .astray]
  sender : s.sender ∉ [SenderPc.created, .astray]

instance (s : State) : Decidable (Begun s) := decidable_of_iff (_ ∧ _) ⟨fun h => ⟨h.1, h.2⟩,
  fun h => ⟨h.demux, h.sender⟩⟩

structure Joined (s : State) : Prop where
  exiting : Exiting s
  begun : Begun s
  demux : s.owner = .freeDemuxer ∨ s.demuxerFreed = true → s.demux = .returned
  sender : s.owner = .freeSender ∨ s.senderFreed = true → s.sender = .returned

/-- `Terminate` lets the destructors come to the free of an object only when its thread has
returned, if it has begun. -/
private theorem owner_waits (begun : Begun s) (go : ownerStep s = some (t, fs)) :
    (t.owner = .freeDemuxer → s.demux = .returned) ∧
      (t.owner = .freeSender → s.sender = .returned) ∧
      (t.demuxerFreed = true → s.owner = .freeDemuxer ∨ s.demuxerFreed = true) ∧
      (t.senderFreed = true → s.owner = .freeSender ∨ s.senderFreed = true) := by
  have demux : s.demux ≠ .created := fun same => begun.demux (by simp [same])
  have sender : s.sender ≠ .created := fun same => begun.sender (by simp [same])
  simp only [ownerStep] at go
  split at go <;> grind [State.demuxerFreed, State.senderFreed]

private theorem joined_owner (h : Joined s) (go : ownerStep s = some (t, fs)) : Joined t := by
  obtain ⟨demux, sender, -⟩ := owner_cases go
  obtain ⟨waitsDemux, waitsSender, freesDemuxer, freesSender⟩ := owner_waits h.begun go
  refine ⟨exiting_step h.exiting (show step s .owner = some (t, fs) from go),
    ⟨by rw [demux]; exact h.begun.demux, by rw [sender]; exact h.begun.sender⟩, ?_, ?_⟩
  · rw [demux]
    rintro (next | freed)
    · exact waitsDemux next
    · exact h.demux (freesDemuxer freed)
  · rw [sender]
    rintro (next | freed)
    · exact waitsSender next
    · exact h.sender (freesSender freed)

private theorem joined_demux {turn : Turn} (h : Joined s) (go : demuxStep s turn = some (t, fs)) :
    Joined t := by
  have exiting := exiting_step h.exiting (show step s (.demux turn) = some (t, fs) from go)
  have begun : t.demux ∉ [DemuxPc.created, .setAttribute, .openFile, .astray] ∧
      s.demux ≠ .returned := by
    obtain ⟨⟨exit, -⟩, ⟨begun, -⟩, joined, -⟩ := h
    simp only [List.mem_cons, List.not_mem_nil, or_false, not_or] at begun ⊢
    simp only [demuxStep] at go
    split at go
    · rename_i lost
      exact absurd (joined (.inr lost.1)) lost.2.1
    · simp only [demuxGoes] at go
      split at go <;> grind
  have here : ¬ (s.owner = .freeDemuxer ∨ s.demuxerFreed = true) := fun freed =>
    begun.2 (h.demux freed)
  rw [demux_kept go] at exiting ⊢
  exact ⟨exiting, ⟨begun.1, h.begun.sender⟩, fun freed => absurd freed here, h.sender⟩

private theorem joined_sender {turn : Turn} (h : Joined s) (go : senderStep s turn = some (t, fs)) :
    Joined t := by
  have exiting := exiting_step h.exiting (show step s (.sender turn) = some (t, fs) from go)
  have begun : t.sender ∉ [SenderPc.created, .astray] ∧ s.sender ≠ .returned := by
    obtain ⟨-, ⟨-, begun⟩, -, joined⟩ := h
    simp only [List.mem_cons, List.not_mem_nil, or_false, not_or] at begun ⊢
    simp only [senderStep] at go
    split at go
    · rename_i lost
      exact absurd (joined (.inr lost.1)) lost.2.1
    · simp only [senderGoes] at go
      split at go <;> grind
  have here : ¬ (s.owner = .freeSender ∨ s.senderFreed = true) := fun freed =>
    begun.2 (h.sender freed)
  rw [sender_kept go] at exiting ⊢
  exact ⟨exiting, ⟨h.begun.demux, begun.1⟩, h.demux, fun freed => absurd freed here⟩

def tellAtWork : List Act :=
  List.replicate 5 (.demux .data) ++ [.sender .data, .owner, .owner]

def restOfClose : List Act :=
  [.owner, .owner, .demux .nothing, .demux .nothing, .demux .nothing, .sender .nothing] ++
    List.replicate 4 .owner

end Closing

end Tsender.Lifecycle.Teardown
