/- Tsender/Queue/AudioDelivery
   source: queue.cpp (PutAudio, GetAudio, RetAudio, Enable, Disable), sender.cpp (Run)
   digest: One producer and one consumer of an audio queue: blocks are delivered in order
   exactly as long as the queue is enabled, and none of the calls involved enables it. -/

import Tsender.Lib.Transition
import Tsender.Queue.AudioRing

set_option autoImplicit false
set_option relaxedAutoImplicit false

namespace Tsender.Queue.AudioDelivery

open Lib.Transition

/-- The queue and the element that the consumer holds between `GetAudio` and `RetAudio`. -/
structure Feed where
  q : CQueue
  out : Option (Fin maxNumAudioQueue)

def Feed.start : Feed := ⟨.new, none⟩

inductive FeedAct where
  | put (b : Block) (startPts : UInt64)
  | get
  | ret
  | enable
  | disable

inductive FeedEvent where
  | accepted (b : Block)
  | refused
  | got (pe : Elem)
  | nothing
  deriving DecidableEq

/-- Every queue call is one atomic step.  `PutAudio` returns 0 in any case, but only the path
that stores the block counts it.  The consumer returns what it got before it gets again. -/
def feedStep : Machine Feed FeedAct FeedEvent
  | s, .put b startPts =>
      let q := (s.q.putAudio b.1 startPts).1
      some ({ s with q := q }, [if s.q.nAudio < q.nAudio then .accepted b else .refused])
  | s, .get =>
      match s.out, s.q.getAudio with
      | some _, _ => none
      | none, none => some (s, [.nothing])
      | none, some p => some ({ s with out := some p }, [.got (s.q.e p)])
  | s, .ret =>
      match s.out with
      | none => none
      | some p => some ({ q := s.q.retAudio p, out := none }, [])
  | s, .enable => some ({ s with q := s.q.enable }, [])
  | s, .disable => some ({ s with q := s.q.disable }, [])

def FeedEvent.stored : FeedEvent → Option Block
  | .accepted b => some b
  | .refused | .got _ | .nothing => none

/-- The element that an event tells was handed out, as `GetAudio` left it. -/
def FeedEvent.handed : FeedEvent → Option Elem
  | .got pe => some pe
  | .accepted _ | .refused | .nothing => none

def accepted (es : List FeedEvent) : List Block := es.filterMap FeedEvent.stored

def returned (es : List FeedEvent) : List Elem := es.filterMap FeedEvent.handed

@[simp] theorem accepted_append (es fs : List FeedEvent) :
    accepted (es ++ fs) = accepted es ++ accepted fs := List.filterMap_append

@[simp] theorem returned_append (es fs : List FeedEvent) :
    returned (es ++ fs) = returned es ++ returned fs := List.filterMap_append

@[simp] theorem accepted_nil : accepted [] = [] := rfl

@[simp] theorem returned_nil : returned [] = [] := rfl

@[simp] theorem accepted_single (e : FeedEvent) : accepted [e] = e.stored.toList := by
  cases e <;> rfl

@[simp] theorem returned_single (e : FeedEvent) : returned [e] = e.handed.toList := by
  cases e <;> rfl

/-- What an audio queue owes its two threads: the elements handed out are the first blocks
accepted, with their bytes, in order; the one still out is not overwritten; and with none out,
the next `GetAudio` hands out the oldest block not handed out before. -/
structure Delivers (es : List FeedEvent) (s : Feed) : Prop where
  order : returned es <+: (accepted es).map .of
  kept : ∀ p, s.out = some p → (returned es).getLast? = some (s.q.e p)
  ready : s.out = none → ∀ b, (accepted es)[(returned es).length]? = some b →
    s.q.getAudio.map s.q.e = some (.of b)

/-- The queue is enabled whenever a block is left in it with none handed out. -/
def EnabledWhileHolding (es : List FeedEvent) (s : Feed) : FeedAct → Prop
  | .put _ _ => s.out = none → s.q.bEnable = true
  | .ret => s.q.bEnable = true ∨ (accepted es).length = (returned es).length
  | .disable => s.out = none → (accepted es).length = (returned es).length
  | .get | .enable => True

/-- The blocks accepted are those given back, the one handed out and those waiting. -/
structure Accounted (es : List FeedEvent) (s : Feed) (back : List Block) (taken : Option Block)
    (waiting : List Block) : Prop where
  holds : HoldsAudio s.q (taken.toList ++ waiting)
  out : s.out = taken.map fun _ => s.q.nReadAudioPos
  accepted : accepted es = back ++ taken.toList ++ waiting
  returned : returned es = (back ++ taken.toList).map .of

def Accountable (es : List FeedEvent) (s : Feed) : Prop :=
  ∃ back taken waiting, Accounted es s back taken waiting

private theorem accountable_start : Accountable [] .start :=
  ⟨[], none, [], holdsAudio_new, rfl, rfl, rfl⟩

section Account

variable {es fs : List FeedEvent} {s t : Feed} {back waiting : List Block} {taken : Option Block}

theorem Accounted.left (h : Accounted es s back taken waiting) :
    (AudioDelivery.accepted es).length = (AudioDelivery.returned es).length ↔ waiting = [] := by
  rw [h.accepted, h.returned, List.length_map, List.length_append,
    Nat.add_eq_left, List.length_eq_zero_iff]

theorem Accounted.next (h : Accounted es s back taken waiting) :
    (AudioDelivery.accepted es)[(AudioDelivery.returned es).length]? = waiting.head? := by
  rw [h.accepted, h.returned, List.length_map, List.getElem?_append_right le_rfl, Nat.sub_self,
    List.head?_eq_getElem?]

theorem Accounted.idle (h : Accounted es s back taken waiting) : s.out = none ↔ taken = none := by
  simp [h.out]

private theorem Accounted.delivers_iff (h : Accounted es s back taken waiting) :
    Delivers es s ↔ (taken = none → waiting ≠ [] → s.q.bEnable = true) := by
  constructor
  · rintro d rfl some_left
    obtain ⟨b, rest, rfl⟩ := List.exists_cons_of_ne_nil some_left
    by_contra off
    have ready := d.ready h.out b (by rw [h.next]; rfl)
    rw [getAudio_disabled (Bool.eq_false_iff.mpr off)] at ready
    cases ready
  · intro enabled
    refine ⟨?_, ?_, ?_⟩
    · rw [h.returned, h.accepted]
      exact (List.prefix_append _ waiting).map _
    · intro p out
      cases taken with
      | none =>
        rw [h.out] at out
        cases out
      | some b =>
        rw [h.out] at out
        cases out
        have first : s.q.e s.q.nReadAudioPos = .of b := h.holds.head
        simp [h.returned, first]
    · intro idle b due
      obtain rfl := h.idle.mp idle
      rw [h.next] at due
      cases waiting with
      | nil => cases due
      | cons c rest =>
        cases due
        have here : HoldsAudio s.q (b :: rest) := h.holds
        simp [getAudio_head here (enabled rfl (by simp)), here.head]

end Account

section Steps

variable {es fs : List FeedEvent} {s t : Feed} {back waiting : List Block} {taken : Option Block}

theorem accounted_put {b : Block} {startPts : UInt64} (h : Accounted es s back taken waiting)
    (step : feedStep s (.put b startPts) = some (t, fs)) :
    t.out = s.out ∧ t.q.bEnable = s.q.bEnable ∧
      (Accounted (es ++ fs) t back taken (waiting ++ [b]) ∨
        Accounted (es ++ fs) t back taken waiting ∧
          (taken.toList ++ waiting).length = maxNumAudioQueue) := by
  cases step
  refine ⟨rfl, by simp, ?_⟩
  have out := h.out
  rw [← nReadAudioPos_putAudio s.q b.1 startPts] at out
  rcases h.holds.bound.lt_or_eq with room | full
  · obtain ⟨held, counted⟩ := putAudio_room b startPts h.holds room
    refine .inl ⟨by simpa using held, out, ?_, ?_⟩
    · simp [h.accepted, counted, FeedEvent.stored]
    · simp [h.returned, counted, FeedEvent.handed]
  · obtain ⟨held, counted⟩ := putAudio_full b startPts h.holds full
    refine .inr ⟨⟨held, out, ?_, ?_⟩, full⟩
    · simp [h.accepted, counted, FeedEvent.stored]
    · simp [h.returned, counted, FeedEvent.handed]

theorem accounted_get (h : Accounted es s back taken waiting)
    (step : feedStep s .get = some (t, fs)) :
    taken = none ∧ ((∃ b rest, waiting = b :: rest ∧ Accounted (es ++ fs) t back (some b) rest) ∨
      t = s ∧ Accounted (es ++ fs) t back none waiting) := by
  cases taken with
  | some b => simp [feedStep, h.out] at step
  | none =>
    refine ⟨rfl, ?_⟩
    have idle : s.out = none := h.out
    cases found : s.q.getAudio with
    | none =>
      simp only [feedStep, idle, found] at step
      cases step
      refine .inr ⟨rfl, h.holds, h.out, ?_, ?_⟩
      · simpa [FeedEvent.stored] using h.accepted
      · simpa [FeedEvent.handed] using h.returned
    | some p =>
      simp only [feedStep, idle, found] at step
      cases step
      have on : s.q.bEnable = true := by
        by_contra off
        simp [getAudio_disabled (Bool.eq_false_iff.mpr off)] at found
      cases waiting with
      | nil => simp [getAudio_empty h.holds] at found
      | cons b rest =>
        have here : HoldsAudio s.q (b :: rest) := h.holds
        obtain rfl : s.q.nReadAudioPos = p :=
          Option.some.inj ((getAudio_head here on).symm.trans found)
        refine .inl ⟨b, rest, rfl, here, rfl, ?_, ?_⟩
        · simp [h.accepted, FeedEvent.stored]
        · simp [h.returned, FeedEvent.handed, here.head]

theorem accounted_ret (h : Accounted es s back taken waiting)
    (step : feedStep s .ret = some (t, fs)) :
    ∃ b, taken = some b ∧ t.q.bEnable = s.q.bEnable ∧
      Accounted (es ++ fs) t (back ++ [b]) none waiting := by
  cases taken with
  | none => simp [feedStep, h.out] at step
  | some b =>
    simp only [feedStep, h.out, Option.map_some] at step
    cases step
    have held : HoldsAudio s.q (b :: waiting) := h.holds
    refine ⟨b, rfl, rfl, by simpa using holdsAudio_retAudio held, rfl, ?_, ?_⟩
    · simp [h.accepted]
    · simp [h.returned]

private theorem accounted_switch {a : FeedAct} (on : Bool)
    (switch : a = if on then .enable else .disable) (h : Accounted es s back taken waiting)
    (step : feedStep s a = some (t, fs)) :
    t.q.bEnable = on ∧ Accounted (es ++ fs) t back taken waiting := by
  subst switch
  cases on
  all_goals
    cases step
    exact ⟨rfl, h.holds.of_same rfl rfl rfl rfl, h.out, by simpa using h.accepted,
      by simpa using h.returned⟩

private theorem accountable_step {a : FeedAct} (h : Accountable es s)
    (step : feedStep s a = some (t, fs)) : Accountable (es ++ fs) t := by
  obtain ⟨back, taken, waiting, h⟩ := h
  cases a with
  | put b startPts =>
    obtain ⟨-, -, stored | ⟨same, -⟩⟩ := accounted_put h step
    · exact ⟨_, _, _, stored⟩
    · exact ⟨_, _, _, same⟩
  | get =>
    obtain ⟨-, ⟨b, rest, -, got⟩ | ⟨-, same⟩⟩ := accounted_get h step
    · exact ⟨_, _, _, got⟩
    · exact ⟨_, _, _, same⟩
  | ret =>
    obtain ⟨b, -, -, gave⟩ := accounted_ret h step
    exact ⟨_, _, _, gave⟩
  | enable => exact ⟨_, _, _, (accounted_switch true rfl h step).2⟩
  | disable => exact ⟨_, _, _, (accounted_switch false rfl h step).2⟩

private theorem delivers_step_iff {a : FeedAct} (h : Accountable es s) (before : Delivers es s)
    (step : feedStep s a = some (t, fs)) :
    Delivers (es ++ fs) t ↔ EnabledWhileHolding es s a := by
  obtain ⟨back, taken, waiting, h⟩ := h
  have enabled := h.delivers_iff.mp before
  cases a with
  | put b startPts =>
    obtain ⟨out, on, stored | ⟨same, full⟩⟩ := accounted_put h step
    · rw [stored.delivers_iff, on]
      simp [EnabledWhileHolding, h.idle]
    · rw [same.delivers_iff, on]
      refine iff_of_true enabled fun idle => ?_
      obtain rfl := h.idle.mp idle
      refine enabled rfl ?_
      rintro rfl
      cases full
  | get =>
    refine iff_of_true ?_ trivial
    obtain ⟨rfl, ⟨b, rest, -, got⟩ | ⟨rfl, same⟩⟩ := accounted_get h step
    · exact got.delivers_iff.mpr fun free => by cases free
    · exact same.delivers_iff.mpr enabled
  | ret =>
    obtain ⟨b, rfl, on, gave⟩ := accounted_ret h step
    rw [gave.delivers_iff, on]
    simp only [EnabledWhileHolding, h.left, true_imp_iff, ne_eq]
    tauto
  | enable =>
    obtain ⟨on, same⟩ := accounted_switch true rfl h step
    exact iff_of_true (same.delivers_iff.mpr fun _ _ => on) trivial
  | disable =>
    obtain ⟨off, same⟩ := accounted_switch false rfl h step
    rw [same.delivers_iff, off]
    simp [EnabledWhileHolding, h.idle, h.left]

end Steps

private theorem delivers_start : Delivers [] .start := by
  refine ⟨by simp, ?_, ?_⟩
  · intro p out
    cases out
  · intro _ b due
    cases due

/-- At every point of a run of calls the audio queue delivers if and only if no call leaves it
not enabled with a block in it that has not been handed out. -/
theorem audio_delivered_iff (acts : List FeedAct) :
    Throughout feedStep Delivers .start acts ↔ Meets feedStep EnabledWhileHolding .start acts :=
  throughout_iff_meets accountable_start delivers_start
    (fun _ _ _ _ _ h step => accountable_step h step)
    (fun _ _ _ _ _ h before step => delivers_step_iff h before step)

def FeedAct.called : FeedAct → Bool
  | .put _ _ | .get | .ret => true
  | .enable | .disable => false

def silence : Block := ⟨List.replicate audioBlockSize 0, rfl⟩

/-- One block put on a new queue: `GetAudio` returns nothing. -/
theorem first_block_stays :
    ¬ ∀ (acts : List FeedAct) (es : List FeedEvent) (s : Feed),
      Run (restrict FeedAct.called feedStep) .start acts es s → Delivers es s := by
  intro claim
  have found : (exec (restrict FeedAct.called feedStep) .start [.put silence 0]).map (fun r =>
      decide (accepted r.2 = [silence] ∧ returned r.2 = [] ∧ r.1.out = none ∧
        r.1.q.getAudio = none)) = some true := by decide
  obtain ⟨s, es, run, seen⟩ := Run.exists_of_exec found
  obtain ⟨stored, handed, idle, none_found⟩ := of_decide_eq_true seen
  have ready := (claim _ _ _ run).ready idle silence (by rw [stored, handed]; rfl)
  rw [none_found] at ready
  cases ready

end Tsender.Queue.AudioDelivery
