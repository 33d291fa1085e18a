/- Tsender/Queue/SeekEpochs
   source: queue.cpp (PutVideo, GetVideo, RetVideo, Clear)
   digest: One producer and one consumer of the video queue across changes of start_pts:
   each epoch stays in order exactly when no packet is returned into a later epoch. -/

import Tsender.Lib.Transition
import Tsender.Queue.VideoRing

set_option autoImplicit false
set_option relaxedAutoImplicit false

namespace Tsender.Queue.SeekEpochs

open Lib.Transition

/-- The queue between a producer that retries one packet until it is accepted and a consumer
that holds at most one packet between `GetVideo` and `RetVideo`. -/
structure Feed where
  q : CQueue
  offer : Option (AVPacket × UInt64)
  out : Option AVPacket

def Feed.start : Feed := ⟨.new, none, none⟩

inductive FeedAct where
  /-- The producer turns to its next packet. -/
  | next (pkt : AVPacket) (startPts : UInt64)
  | put
  | get
  | ret

inductive FeedEvent where
  /-- A call of `PutVideo` changed `m_start_pts`. -/
  | changed
  | accepted (pkt : AVPacket)
  | refused
  | got (pkt : AVPacket)
  | nothing
  | released (pkt : AVPacket)
  deriving DecidableEq

/-- Every queue call is one atomic step.  The producer offers packets with data only and
repeats a call that returned 0; the consumer returns what it got before it gets again. -/
def feedStep : Machine Feed FeedAct FeedEvent
  | s, .next pkt startPts =>
      if s.offer = none ∧ 0 < pkt.size then some ({ s with offer := some (pkt, startPts) }, [])
      else none
  | s, .put =>
      match s.offer with
      | none => none
      | some (pkt, startPts) =>
          let change := if s.q.startPts ≠ startPts then [FeedEvent.changed] else []
          let (q, size) := s.q.putVideo pkt startPts
          if 0 < size then some ({ s with q := q, offer := none }, change ++ [.accepted pkt])
          else some ({ s with q := q }, change ++ [.refused])
  | s, .get =>
      match s.out with
      | some _ => none
      | none =>
          match s.q.getVideo with
          | (q, _, some pkt) => some ({ s with q := q, out := some pkt }, [.got pkt])
          | (q, _, none) => some ({ s with q := q }, [.nothing])
  | s, .ret =>
      match s.out with
      | none => none
      | some pkt => some ({ s with q := s.q.retVideo, out := none }, [.released pkt])

/-- The account of the current epoch, that is, of the events since the last change of
`start_pts`.  `own` says that the packet last handed out was handed out in this epoch. -/
structure Epoch where
  accepted : List AVPacket
  returned : List AVPacket
  released : ℕ
  own : Bool

def Epoch.first : Epoch := ⟨[], [], 0, false⟩

def Epoch.observe (e : Epoch) : FeedEvent → Epoch
  | .changed => .first
  | .accepted pkt => { e with accepted := e.accepted ++ [pkt] }
  | .got pkt => { e with returned := e.returned ++ [pkt], own := true }
  | .released _ => { e with released := e.released + e.own.toNat }
  | .refused | .nothing => e

def epochOf (es : List FeedEvent) : Epoch := es.foldl Epoch.observe .first

@[simp] theorem epochOf_append (es fs : List FeedEvent) :
    epochOf (es ++ fs) = fs.foldl Epoch.observe (epochOf es) := List.foldl_append

/-- What the queue owes its epoch: the packets returned are the first packets accepted, in
order, and the counter is the number accepted and not yet released. -/
def InOrder (es : List FeedEvent) (s : Feed) : Prop :=
  (epochOf es).returned <+: (epochOf es).accepted ∧
    0 ≤ s.q.nPacket ∧ s.q.nPacket ≤ maxNumQueue ∧
    s.q.nPacket = ((epochOf es).accepted.length : ℤ) - (epochOf es).released

def ReturnsOwnEpoch (es : List FeedEvent) (_ : Feed) (a : FeedAct) : Prop :=
  a = .ret → (epochOf es).own = true

/-- The queue holds the packets of the epoch that are accepted and not yet returned; a packet
handed out in the epoch still counts, one handed out before it does not. -/
structure Accounted (es : List FeedEvent) (s : Feed) (waiting : List AVPacket) : Prop where
  holds : Holds s.q (s.out.isSome && (epochOf es).own) waiting
  accepted : (epochOf es).accepted = (epochOf es).returned ++ waiting
  released : (epochOf es).released + (s.out.isSome && (epochOf es).own).toNat =
    (epochOf es).returned.length
  offered : ∀ pkt startPts, s.offer = some (pkt, startPts) → 0 < pkt.size

private theorem accounted_start : Accounted [] .start [] :=
  ⟨holds_new, rfl, rfl, by simp [Feed.start]⟩

theorem Accounted.inOrder {es : List FeedEvent} {s : Feed} {waiting : List AVPacket}
    (h : Accounted es s waiting) : InOrder es s := by
  refine ⟨⟨waiting, h.accepted.symm⟩, h.holds.count_nonneg, h.holds.count_le, ?_⟩
  rw [h.holds.count, h.accepted, List.length_append, ← h.released]
  push_cast
  omega

section Steps

variable {es fs : List FeedEvent} {s t : Feed} {waiting : List AVPacket}

private theorem accounted_next {pkt : AVPacket} {startPts : UInt64} (h : Accounted es s waiting)
    (step : feedStep s (.next pkt startPts) = some (t, fs)) : Accounted (es ++ fs) t waiting := by
  simp only [feedStep] at step
  split at step
  · rename_i free
    cases step
    refine ⟨by simpa using h.holds, by simpa using h.accepted, by simpa using h.released, ?_⟩
    rintro p pts same
    obtain ⟨rfl, -⟩ := Prod.mk.inj (Option.some.inj same)
    exact free.2
  · cases step

theorem accounted_put (h : Accounted es s waiting)
    (step : feedStep s .put = some (t, fs)) : ∃ rest, Accounted (es ++ fs) t rest := by
  simp only [feedStep] at step
  split at step
  · cases step
  · rename_i pkt startPts offer
    have data : 0 < pkt.size := h.offered pkt startPts offer
    have positive : 0 < (pkt.size : ℤ) := by exact_mod_cast data
    by_cases same : s.q.startPts = startPts
    · rcases h.holds.bound.lt_or_eq with room | full
      · -- The packet joins its epoch.
        obtain ⟨put, held⟩ := putVideo_room h.holds same room data
        simp only [put, same, if_pos positive, ne_eq, not_true_eq_false, if_false,
          List.nil_append] at step
        cases step
        refine ⟨waiting ++ [pkt], by simpa [Epoch.observe] using held, ?_,
          by simpa [Epoch.observe] using h.released, by simp⟩
        simp [Epoch.observe, h.accepted]
      · -- The producer will try again.
        simp only [putVideo_full h.holds same full, same, ne_eq, not_true_eq_false, if_false,
          List.nil_append, lt_irrefl] at step
        cases step
        exact ⟨waiting, by simpa [Epoch.observe] using h.holds,
          by simpa [Epoch.observe] using h.accepted,
          by simpa [Epoch.observe] using h.released, h.offered⟩
    · -- A new epoch opens with the packet; what is out belongs to an earlier one.
      obtain ⟨put, held⟩ := putVideo_changed same data
      simp only [put, if_pos positive, ne_eq, same, not_false_eq_true, if_true,
        List.cons_append, List.nil_append] at step
      cases step
      refine ⟨[pkt], ?_, ?_, ?_, by simp⟩
      · simpa [Epoch.observe, Epoch.first] using held
      · simp [Epoch.observe, Epoch.first]
      · simp [Epoch.observe, Epoch.first]

theorem accounted_get (h : Accounted es s waiting)
    (step : feedStep s .get = some (t, fs)) : ∃ rest, Accounted (es ++ fs) t rest := by
  simp only [feedStep] at step
  split at step
  · cases step
  · rename_i out
    have idle : Holds s.q false waiting := by simpa [out] using h.holds
    have settled : (epochOf es).released = (epochOf es).returned.length := by
      simpa [out] using h.released
    cases waiting with
    | nil =>
      rw [getVideo_empty idle] at step
      cases step
      exact ⟨[], by simpa [Epoch.observe] using h.holds,
        by simpa [Epoch.observe] using h.accepted,
        by simpa [Epoch.observe] using h.released, h.offered⟩
    | cons pkt rest =>
      obtain ⟨got, held⟩ := getVideo_head idle
      rw [got] at step
      cases step
      refine ⟨rest, by simpa [Epoch.observe] using held, ?_, ?_, h.offered⟩
      · simp [Epoch.observe, h.accepted]
      · simp [Epoch.observe, settled]

theorem accounted_ret (h : Accounted es s waiting) (own : (epochOf es).own = true)
    (step : feedStep s .ret = some (t, fs)) : Accounted (es ++ fs) t waiting := by
  simp only [feedStep] at step
  split at step
  · cases step
  · rename_i pkt out
    cases step
    have held : Holds s.q true waiting := by simpa [out, own] using h.holds
    have counted := h.released
    simp only [out, own, Option.isSome_some, Bool.and_self, Bool.toNat_true] at counted
    exact ⟨by simpa [Epoch.observe] using holds_retVideo held,
      by simpa [Epoch.observe] using h.accepted,
      by simpa [Epoch.observe, own] using counted, h.offered⟩

private theorem accounted_step {a : FeedAct} (h : ∃ waiting, Accounted es s waiting)
    (own : ReturnsOwnEpoch es s a) (step : feedStep s a = some (t, fs)) :
    ∃ waiting, Accounted (es ++ fs) t waiting := by
  obtain ⟨waiting, h⟩ := h
  cases a with
  | next pkt startPts => exact ⟨waiting, accounted_next h step⟩
  | put => exact accounted_put h step
  | get => exact accounted_get h step
  | ret => exact ⟨waiting, accounted_ret h (own rfl) step⟩

/-- Returning a packet into a later epoch takes it off that epoch's counter. -/
private theorem returnsOwnEpoch_of_inOrder {a : FeedAct} (before : InOrder es s)
    (step : feedStep s a = some (t, fs)) (after : InOrder (es ++ fs) t) :
    ReturnsOwnEpoch es s a := by
  rintro rfl
  by_contra other
  simp only [feedStep] at step
  split at step
  · cases step
  · cases step
    have counted := before.2.2.2
    have recounted := after.2.2.2
    simp only [epochOf_append, List.foldl_cons, List.foldl_nil, Epoch.observe, CQueue.retVideo,
      Bool.eq_false_iff.mpr other, Bool.toNat_false, Nat.add_zero] at recounted
    omega

end Steps

/-- Every epoch is delivered in order and counted exactly, at every point of a run, if and only
if the run never returns a packet into a later epoch. -/
theorem video_epochs_in_order_iff (acts : List FeedAct) :
    Throughout feedStep InOrder .start acts ↔ Meets feedStep ReturnsOwnEpoch .start acts := by
  constructor
  · exact Meets.of_throughout fun _ _ _ _ _ before step after =>
      returnsOwnEpoch_of_inOrder before step after
  · refine Throughout.of_meets fun bs ds m run meets => ?_
    have account : ∃ waiting, Accounted ds m waiting :=
      run.guarded_invariant meets ⟨[], accounted_start⟩
        fun _ _ _ _ _ h own step => accounted_step h own step
    exact account.elim fun _ h => h.inOrder

def onePacket (n : ℕ) : AVPacket := ⟨some n, [0], n⟩

/-- A seek between `GetVideo` and `RetVideo`: the late return moves the read position past the
first packet of the new epoch, which is then skipped. -/
def lateReturn : List FeedAct :=
  [.next (onePacket 0) 1, .put, .get, .next (onePacket 1) 2, .put, .ret,
    .next (onePacket 2) 2, .put, .get]

theorem late_return_breaks_order :
    ¬ ∀ (acts : List FeedAct) (es : List FeedEvent) (s : Feed),
      Run feedStep .start acts es s → InOrder es s := by
  intro claim
  have found : (exec feedStep .start lateReturn).map (fun r =>
      decide ((epochOf r.2).accepted = [onePacket 1, onePacket 2] ∧
        (epochOf r.2).returned = [onePacket 2])) = some true := by decide
  obtain ⟨s, es, run, seen⟩ := Run.exists_of_exec found
  obtain ⟨accepted, returned⟩ := of_decide_eq_true seen
  have order := (claim _ _ _ run).1
  rw [accepted, returned] at order
  exact absurd order (by decide)

end Tsender.Queue.SeekEpochs
