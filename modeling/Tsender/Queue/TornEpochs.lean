/- Tsender/Queue/TornEpochs
   source: queue.cpp (PutVideo, GetVideo, RetVideo)
   digest: PutVideo and GetVideo cut where other steps can come between: a packet is returned
   with its own start_pts exactly when the value read before the lock is still the queue's. -/

import Tsender.Lib.Transition
import Tsender.Queue.VideoRing

set_option autoImplicit false
set_option relaxedAutoImplicit false

namespace Tsender.Queue

namespace CQueue

/-- The section of `PutVideo` under the mutex, for a packet with data. -/
def stash (q : CQueue) (pkt : AVPacket) : CQueue :=
  { q with
    pkt := Function.update q.pkt q.nWritePos pkt
    nWritePos := Lib.RingWindow.advance q.nWritePos
    nPacket := q.nPacket + 1 }

/-- What `PutVideo` does after unlocking. -/
def enableWritten (q : CQueue) : CQueue := if 0 < q.nWritePos.val then q.enable else q

theorem store_eq (q : CQueue) (pkt : AVPacket) : q.store pkt = (q.stash pkt).enableWritten := by
  simp only [store, enableWritten]
  split
  · rename_i moved
    simp [stash, enable] at moved ⊢
    omega
  · rename_i wrapped
    simp [stash] at wrapped ⊢
    omega

end CQueue

namespace TornEpochs

open Lib.Transition

/-- Where the producer is in `PutVideo`. -/
inductive PutPc where
  | idle
  | compare (pkt : AVPacket) (startPts : UInt64)
  | clear (pkt : AVPacket) (startPts : UInt64)
  | assign (pkt : AVPacket) (startPts : UInt64)
  | full (pkt : AVPacket) (startPts : UInt64)
  | store (pkt : AVPacket) (startPts : UInt64)
  | enable
  deriving DecidableEq

/-- Where the consumer is in `GetVideo`, with the `*start_pts` it has read. -/
inductive GetPc where
  | idle
  | enabled (startPts : UInt64)
  | take (startPts : UInt64)
  /-- Between `GetVideo` and `RetVideo`. -/
  | holding
  deriving DecidableEq

/-- The queue between its two threads.  `tag` remembers for each slot the `start_pts` that
the packet last stored there was put with. -/
structure Cut where
  q : CQueue
  tag : Fin maxNumQueue → UInt64
  put : PutPc
  get : GetPc

def Cut.start : Cut := ⟨.new, fun _ => 0, .idle, .idle⟩

inductive CutAct where
  | call (pkt : AVPacket) (startPts : UInt64)
  /-- The next step of `PutVideo`. -/
  | put
  /-- The next step of `GetVideo`, or the `RetVideo` after it. -/
  | get

/-- `GetVideo` returned a packet with `startPts`; it was put with `tag`. -/
structure Returned where
  pkt : AVPacket
  startPts : UInt64
  tag : UInt64
  deriving DecidableEq

/-- The section under the mutex is one step, and so is every read or write of a member
outside it. -/
def cutStep : Machine Cut CutAct Returned
  | s, .call pkt startPts =>
      if s.put = .idle then some ({ s with put := .compare pkt startPts }, []) else none
  | s, .put =>
      match s.put with
      | .idle => none
      | .compare pkt startPts =>
          let next := if s.q.startPts ≠ startPts then PutPc.clear else PutPc.assign
          some ({ s with put := next pkt startPts }, [])
      | .clear pkt startPts => some ({ s with q := s.q.clear, put := .assign pkt startPts }, [])
      | .assign pkt startPts =>
          some ({ s with q := { s.q with startPts := startPts }, put := .full pkt startPts }, [])
      | .full pkt startPts =>
          let next := if (maxNumQueue : ℤ) ≤ s.q.nPacket then PutPc.idle else .store pkt startPts
          some ({ s with put := next }, [])
      | .store pkt startPts =>
          if 0 < pkt.size then
            some ({ s with
              q := s.q.stash pkt
              tag := Function.update s.tag s.q.nWritePos startPts
              put := .enable }, [])
          else some ({ s with put := .idle }, [])
      | .enable => some ({ s with q := s.q.enableWritten, put := .idle }, [])
  | s, .get =>
      match s.get with
      | .idle => some ({ s with get := .enabled s.q.startPts }, [])
      | .enabled startPts =>
          some ({ s with get := if s.q.bEnable = false then .idle else .take startPts }, [])
      | .take startPts =>
          let pkt := s.q.pkt s.q.nReadPos
          if 0 < pkt.size then
            some ({ s with
              q := { s.q with pkt := Function.update s.q.pkt s.q.nReadPos .blank }
              get := .holding }, [⟨pkt, startPts, s.tag s.q.nReadPos⟩])
          else some ({ s with get := .idle }, [])
      | .holding => some ({ s with q := s.q.retVideo, get := .idle }, [])

/-- Every packet was returned together with the `start_pts` it was put with. -/
def Paired (es : List Returned) (_ : Cut) : Prop := ∀ e ∈ es, e.startPts = e.tag

/-- When the section of `GetVideo` under the mutex finds a packet, `m_start_pts` is what
`GetVideo` read before it. -/
def ReadsCurrent (_ : List Returned) (s : Cut) (a : CutAct) : Prop :=
  ∀ startPts, a = .get → s.get = .take startPts → 0 < (s.q.pkt s.q.nReadPos).size →
    s.q.startPts = startPts

/-- What the producer's place in `PutVideo` says about the queue. -/
def Prepared (q : CQueue) : PutPc → Prop
  | .assign _ startPts => q.startPts = startPts ∨ ∀ i, (q.pkt i).size = 0
  | .full _ startPts | .store _ startPts => q.startPts = startPts
  | .idle | .compare _ _ | .clear _ _ | .enable => True

/-- The packets in the queue were all put with the queue's `start_pts`, in whatever order the
steps of the two calls come. -/
structure Tagged (_ : List Returned) (s : Cut) : Prop where
  slots : ∀ i, 0 < (s.q.pkt i).size → s.tag i = s.q.startPts
  prepared : Prepared s.q s.put

private theorem tagged_start : Tagged [] .start :=
  ⟨fun _ data => absurd data (lt_irrefl 0), trivial⟩

section Steps

variable {es fs : List Returned} {s t : Cut}

private theorem size_clear (q : CQueue) (i : Fin maxNumQueue) : (q.clear.pkt i).size = 0 := rfl

private theorem tagged_put (h : Tagged es s) (step : cutStep s .put = some (t, fs)) :
    Tagged (es ++ fs) t := by
  simp only [cutStep] at step
  have prepared := h.prepared
  cases pc : s.put with
  | idle => simp [pc] at step
  | compare pkt startPts =>
    rw [pc] at step
    cases step
    refine ⟨h.slots, ?_⟩
    by_cases same : s.q.startPts = startPts
    · simp [same, Prepared]
    · simp [same, Prepared]
  | clear pkt startPts =>
    rw [pc] at step
    cases step
    exact ⟨fun i data => absurd data (lt_irrefl 0), .inr (size_clear s.q)⟩
  | assign pkt startPts =>
    rw [pc] at step prepared
    cases step
    refine ⟨fun i data => ?_, rfl⟩
    rcases prepared with same | empty
    · exact (h.slots i data).trans same
    · have none_here : (s.q.pkt i).size = 0 := empty i
      exact absurd data (by simp [none_here])
  | full pkt startPts =>
    rw [pc] at step prepared
    cases step
    refine ⟨h.slots, ?_⟩
    dsimp only
    split
    · trivial
    · exact prepared
  | store pkt startPts =>
    rw [pc] at step prepared
    dsimp only at step
    split at step
    · cases step
      refine ⟨fun i data => ?_, trivial⟩
      rcases eq_or_ne i s.q.nWritePos with rfl | other
      · exact (Function.update_self ..).trans (Eq.symm prepared)
      · simp only [CQueue.stash, Function.update_of_ne other] at data ⊢
        exact h.slots i data
    · cases step
      exact ⟨h.slots, trivial⟩
  | enable =>
    rw [pc] at step
    cases step
    refine ⟨?_, trivial⟩
    dsimp only [CQueue.enableWritten]
    split
    · exact h.slots
    · exact h.slots

theorem Tagged.fewer (h : Tagged es s) (put : t.put = s.put) (tag : t.tag = s.tag)
    (same : t.q.startPts = s.q.startPts)
    (fewer : ∀ i, 0 < (t.q.pkt i).size → 0 < (s.q.pkt i).size) : Tagged (es ++ fs) t := by
  refine ⟨fun i data => by rw [tag, same, h.slots i (fewer i data)], ?_⟩
  have prepared := h.prepared
  rw [put]
  cases pc : s.put with
  | assign pkt startPts =>
    rw [pc] at prepared
    refine prepared.imp (fun old => same.trans old) fun empty i => ?_
    by_contra data
    exact absurd (empty i) (fewer i (Nat.pos_of_ne_zero data)).ne'
  | full pkt startPts | store pkt startPts =>
    rw [pc] at prepared
    exact same.trans prepared
  | idle | compare _ _ | clear _ _ | enable => trivial

private theorem tagged_get (h : Tagged es s) (step : cutStep s .get = some (t, fs)) :
    Tagged (es ++ fs) t := by
  simp only [cutStep] at step
  split at step
  · cases step
    exact h.fewer rfl rfl rfl fun _ data => data
  · cases step
    exact h.fewer rfl rfl rfl fun _ data => data
  · split at step
    · cases step
      refine h.fewer rfl rfl rfl fun i data => ?_
      rcases eq_or_ne i s.q.nReadPos with rfl | other
      · simp at data
      · simpa only [Function.update_of_ne other] using data
    · cases step
      exact h.fewer rfl rfl rfl fun _ data => data
  · cases step
    exact h.fewer rfl rfl rfl fun _ data => data

private theorem tagged_step {a : CutAct} (h : Tagged es s) (step : cutStep s a = some (t, fs)) :
    Tagged (es ++ fs) t := by
  cases a with
  | call pkt startPts =>
    simp only [cutStep] at step
    split at step
    · cases step
      exact ⟨h.slots, trivial⟩
    · cases step
  | put => exact tagged_put h step
  | get => exact tagged_get h step

private theorem returned_cases {a : CutAct} (step : cutStep s a = some (t, fs)) :
    fs = [] ∧ (∀ startPts, a = .get → s.get = .take startPts →
        ¬ 0 < (s.q.pkt s.q.nReadPos).size) ∨
      ∃ startPts, a = .get ∧ s.get = .take startPts ∧ 0 < (s.q.pkt s.q.nReadPos).size ∧
        fs = [⟨s.q.pkt s.q.nReadPos, startPts, s.tag s.q.nReadPos⟩] := by
  cases a with
  | call pkt startPts =>
    simp only [cutStep] at step
    split at step <;> cases step
    exact .inl ⟨rfl, by simp⟩
  | put =>
    refine .inl ⟨?_, by simp⟩
    simp only [cutStep] at step
    cases pc : s.put with
    | idle => simp [pc] at step
    | store pkt startPts =>
      rw [pc] at step
      dsimp only at step
      split at step
      · cases step
        rfl
      · cases step
        rfl
    | compare _ _ | clear _ _ | assign _ _ | full _ _ | enable =>
      rw [pc] at step
      cases step
      rfl
  | get =>
    simp only [cutStep] at step
    cases pc : s.get with
    | take startPts =>
      rw [pc] at step
      dsimp only at step
      split at step
      · cases step
        exact .inr ⟨startPts, rfl, rfl, ‹_›, rfl⟩
      · cases step
        exact .inl ⟨rfl, fun _ _ _ => ‹_›⟩
    | idle | enabled _ | holding =>
      rw [pc] at step
      cases step
      exact .inl ⟨rfl, by simp⟩

/-- A packet taken out is paired right exactly when the value read before is current. -/
private theorem paired_step_iff {a : CutAct} (h : Tagged es s) (before : Paired es s)
    (step : cutStep s a = some (t, fs)) : Paired (es ++ fs) t ↔ ReadsCurrent es s a := by
  rcases returned_cases step with ⟨rfl, empty⟩ | ⟨startPts, rfl, pc, data, rfl⟩
  · refine iff_of_true (by simpa [Paired] using before) fun startPts get pc filled => ?_
    exact absurd filled (empty startPts get pc)
  · have tag := h.slots s.q.nReadPos data
    simp only [Paired, List.mem_append, List.mem_singleton, ReadsCurrent, pc]
    constructor
    · rintro all r - ⟨⟩ -
      rw [← tag]
      exact (all _ (.inr rfl)).symm
    · rintro current e (old | rfl)
      · exact before e old
      · rw [tag]
        exact (current startPts trivial rfl data).symm

end Steps

section Alone

variable {s : Cut} {pkt : AVPacket} {startPts : UInt64}

/-- The steps of `PutVideo` with none in between are the call. -/
private theorem putVideo_alone (idle : s.put = .idle) : ∃ n tag,
    exec cutStep s (.call pkt startPts :: List.replicate n .put) =
      some ({ s with q := (s.q.putVideo pkt startPts).1, tag := tag }, []) := by
  by_cases same : s.q.startPts = startPts
  · subst same
    by_cases full : (120 : ℤ) ≤ s.q.nPacket
    · exact ⟨3, s.tag, by
        simp [exec, cutStep, idle, full, CQueue.putVideo, CQueue.restart]⟩
    · by_cases data : 0 < pkt.size
      · exact ⟨5, Function.update s.tag s.q.nWritePos s.q.startPts, by
          simp [exec, cutStep, idle, full, data, CQueue.putVideo, CQueue.restart,
            CQueue.store_eq]⟩
      · exact ⟨4, s.tag, by
          simp [exec, cutStep, idle, full, data, CQueue.putVideo, CQueue.restart]⟩
  · by_cases data : 0 < pkt.size
    · exact ⟨6, Function.update s.tag 0 startPts, by
        simp [exec, cutStep, idle, same, data, CQueue.putVideo, CQueue.restart, CQueue.clear,
          CQueue.store_eq]⟩
    · exact ⟨5, s.tag, by
        simp [exec, cutStep, idle, same, data, CQueue.putVideo, CQueue.restart, CQueue.clear]⟩

/-- The steps of `GetVideo` with none in between are the call. -/
private theorem getVideo_alone (idle : s.get = .idle) : ∃ n es,
    exec cutStep s (List.replicate n .get) = some ({ s with
      q := s.q.getVideo.1
      get := if s.q.getVideo.2.2 = none then .idle else .holding }, es) ∧
    es.map (fun e => (e.startPts, e.pkt)) =
      s.q.getVideo.2.2.toList.map fun pkt => (s.q.getVideo.2.1, pkt) := by
  by_cases on : s.q.bEnable = true
  · by_cases data : 0 < (s.q.pkt s.q.nReadPos).size
    · exact ⟨3, _, by simp [exec, cutStep, idle, on, data, CQueue.getVideo]; rfl, by
        simp [CQueue.getVideo, on, data]⟩
    · exact ⟨3, [], by simp [exec, cutStep, idle, on, data, CQueue.getVideo], by
        simp [CQueue.getVideo, on, data]⟩
  · exact ⟨2, [], by simp [exec, cutStep, idle, on, CQueue.getVideo], by
      simp [CQueue.getVideo, on]⟩

end Alone

/-- At every point of a run each packet has been returned with its own `start_pts` if and only
if no other value was stored between the read of `m_start_pts` and a section under the mutex
that finds a packet. -/
theorem epochs_paired_iff (acts : List CutAct) :
    Throughout cutStep Paired .start acts ↔ Meets cutStep ReadsCurrent .start acts :=
  throughout_iff_meets tagged_start (fun _ none_yet => nomatch none_yet)
    (fun _ _ _ _ _ h step => tagged_step h step)
    (fun _ _ _ _ _ h before step => paired_step_iff h before step)

def oneByte (n : ℕ) : AVPacket := ⟨some n, [0], n⟩

def putWhole (pkt : AVPacket) (startPts : UInt64) : List CutAct :=
  .call pkt startPts :: List.replicate 6 .put

/-- A seek between the read of `m_start_pts` and the lock: the first packet of the new position
is returned with the old `start_pts`. -/
def seekBeforeLock : List CutAct :=
  putWhole (oneByte 0) 1 ++ [.get, .get] ++ putWhole (oneByte 1) 2 ++ [.get]

theorem seek_before_lock_tears_pair :
    ¬ ∀ (acts : List CutAct) (es : List Returned) (s : Cut),
      Run cutStep .start acts es s → Paired es s := by
  intro claim
  have found : (exec cutStep .start seekBeforeLock).map (fun r =>
      decide (r.2 = [⟨oneByte 1, 1, 2⟩])) = some true := by decide
  obtain ⟨s, es, run, seen⟩ := Run.exists_of_exec found
  obtain rfl : es = [⟨oneByte 1, 1, 2⟩] := of_decide_eq_true seen
  have pair := claim _ _ _ run ⟨oneByte 1, 1, 2⟩ (List.mem_singleton_self _)
  exact absurd pair (by decide)

end TornEpochs

end Tsender.Queue
