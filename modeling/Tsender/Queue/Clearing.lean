/- Tsender/Queue/Clearing
   source: queue.cpp (Clear and all calls), queue.h (GetVideoPacketSize, GetAudioPacketSize)
   digest: A queue that is cleared cannot be told from a new one exactly when no audio was
   counted in it: Clear resets all the state that a call can see but m_nAudio. -/

import Tsender.Lib.Bisimulation
import Tsender.Queue.Model

set_option autoImplicit false
set_option relaxedAutoImplicit false

namespace Tsender.Queue

open Lib.Transition
open Lib.RingWindow (advance)

section Calls

/-- The calls of `CQueue` that its users make. -/
inductive Call where
  | putVideo (pkt : AVPacket) (startPts : UInt64)
  | getVideo
  | retVideo
  | putAudio (pData : List UInt8) (startPts : UInt64)
  | getAudio
  | retAudio
  | enable
  | disable
  | getVideoPacketSize
  | getAudioPacketSize

/-- What a call returns: a number, a packet with the `start_pts`, or the slot of an element. -/
inductive Result where
  | size (n : ℤ)
  | video (startPts : UInt64) (pkt : Option AVPacket)
  | audio (pe : Option Elem)
  deriving DecidableEq

structure Session where
  q : CQueue
  video : Bool
  audio : Option (Fin maxNumAudioQueue)

def Session.idle (q : CQueue) : Session := ⟨q, false, none⟩

/-- `GetVideo`, and whether it hands a packet out. -/
def Session.getVideo (s : Session) : Session × List Result :=
  let (q, startPts, pkt) := s.q.getVideo
  ({ s with q := q, video := pkt.isSome }, [.video startPts pkt])

/-- `GetAudio`, and the slot that it hands out. -/
def Session.getAudio (s : Session) : Session × List Result :=
  let slot := s.q.getAudio
  ({ s with audio := slot }, [.audio (slot.map s.q.e)])

/-- One call.  A get waits for the return of the one before it, and a return for a get. -/
def call : Machine Session Call Result := fun s c =>
  match c with
  | .putVideo pkt startPts =>
      let (q, n) := s.q.putVideo pkt startPts
      some ({ s with q := q }, [.size n])
  | .getVideo => if s.video then none else some s.getVideo
  | .retVideo =>
      if s.video then some ({ s with q := s.q.retVideo, video := false }, []) else none
  | .putAudio pData startPts =>
      let (q, n) := s.q.putAudio pData startPts
      some ({ s with q := q }, [.size n])
  | .getAudio => if s.audio.isSome then none else some s.getAudio
  | .retAudio =>
      match s.audio with
      | none => none
      | some slot => some ({ s with q := s.q.retAudio slot, audio := none }, [])
  | .enable => some ({ s with q := s.q.enable }, [])
  | .disable => some ({ s with q := s.q.disable }, [])
  | .getVideoPacketSize => some (s, [.size s.q.nPacket])
  | .getAudioPacketSize => some (s, [.size s.q.nAudio])

/-- A new queue that has been told a `start_pts`. -/
def CQueue.newAt (startPts : UInt64) : CQueue := { CQueue.new with startPts := startPts }

end Calls

section Slots

def Elem.Owned (pe : Elem) : Prop := 0 < pe.len → pe.p ≠ .null

/-- Two slots that no call tells apart: what an empty slot still points to is never read. -/
def Elem.Alike (pe other : Elem) : Prop := pe.len = other.len ∧ (0 < pe.len → pe = other)

theorem Elem.Alike.refl (pe : Elem) : pe.Alike pe := ⟨rfl, fun _ => rfl⟩

private theorem Elem.Alike.of_empty {pe other : Elem} (none : pe.len = 0) (same : other.len = 0) :
    pe.Alike other :=
  ⟨none.trans same.symm, fun filled => absurd none filled.ne'⟩

private theorem len_clearElem {pe : Elem} (owned : pe.Owned) : (CQueue.clearElem pe).len = 0 := by
  unfold CQueue.clearElem
  split
  · rfl
  · rename_i kept
    by_contra filled
    have some : 0 < pe.len := Nat.pos_of_ne_zero filled
    exact kept ⟨some, owned some⟩

theorem Elem.Alike.clearElem {pe other : Elem} (alike : pe.Alike other) :
    (CQueue.clearElem pe).Alike (CQueue.clearElem other) := by
  by_cases filled : 0 < pe.len
  · rw [alike.2 filled]
    exact .refl _
  · have first : CQueue.clearElem pe = pe := if_neg fun both => filled both.1
    have second : CQueue.clearElem other = other :=
      if_neg fun both => filled (alike.1 ▸ both.1)
    rwa [first, second]

private theorem owned_clearElem {pe : Elem} (owned : pe.Owned) : (CQueue.clearElem pe).Owned := by
  intro filled
  rw [len_clearElem owned] at filled
  exact absurd filled (Nat.lt_irrefl 0)

end Slots

section Alike

/-- Two queues that no call tells apart differ at most in what their empty slots point to. -/
def CQueue.Alike (q r : CQueue) : Prop :=
  ∃ e, r = { q with e := e } ∧ ∀ i, (q.e i).Alike (e i)

namespace CQueue.Alike

variable {q r : CQueue}

private theorem startPts_eq (alike : q.Alike r) : r.startPts = q.startPts := by
  obtain ⟨e, rfl, -⟩ := alike
  rfl

private theorem nPacket_eq (alike : q.Alike r) : r.nPacket = q.nPacket := by
  obtain ⟨e, rfl, -⟩ := alike
  rfl

private theorem nAudio_eq (alike : q.Alike r) : r.nAudio = q.nAudio := by
  obtain ⟨e, rfl, -⟩ := alike
  rfl

theorem update {e f : Fin maxNumAudioQueue → Elem} (slots : ∀ i, (e i).Alike (f i))
    {pe other : Elem} (same : pe.Alike other) (slot i : Fin maxNumAudioQueue) :
    (Function.update e slot pe i).Alike (Function.update f slot other i) := by
  by_cases here : i = slot
  · subst here
    simpa using same
  · simpa [here] using slots i

theorem clear (alike : q.Alike r) : q.clear.Alike r.clear := by
  obtain ⟨e, rfl, slots⟩ := alike
  exact ⟨fun i => clearElem (e i), rfl, fun i => (slots i).clearElem⟩

private theorem setStartPts (alike : q.Alike r) (startPts : UInt64) :
    Alike { q with startPts := startPts } { r with startPts := startPts } := by
  obtain ⟨e, rfl, slots⟩ := alike
  exact ⟨e, rfl, slots⟩

theorem restart (alike : q.Alike r) (startPts : UInt64) :
    (q.restart startPts).Alike (r.restart startPts) := by
  unfold CQueue.restart
  rw [alike.startPts_eq]
  by_cases same : q.startPts = startPts
  · simpa only [same, ne_eq, not_true, if_false] using alike.setStartPts startPts
  · simpa only [same, ne_eq, not_false_iff, if_true] using alike.clear.setStartPts startPts

theorem store (alike : q.Alike r) (pkt : AVPacket) : (q.store pkt).Alike (r.store pkt) := by
  obtain ⟨e, rfl, slots⟩ := alike
  exact ⟨e, rfl, slots⟩

theorem putVideo (alike : q.Alike r) (pkt : AVPacket) (startPts : UInt64) :
    (q.putVideo pkt startPts).1.Alike (r.putVideo pkt startPts).1 ∧
      (r.putVideo pkt startPts).2 = (q.putVideo pkt startPts).2 := by
  have before := alike.restart startPts
  simp only [CQueue.putVideo, before.nPacket_eq]
  split
  · exact ⟨before, rfl⟩
  · split
    · exact ⟨before.store pkt, rfl⟩
    · exact ⟨before, rfl⟩

theorem putAudio (alike : q.Alike r) (pData : List UInt8) (startPts : UInt64) :
    (q.putAudio pData startPts).1.Alike (r.putAudio pData startPts).1 ∧
      (r.putAudio pData startPts).2 = (q.putAudio pData startPts).2 := by
  obtain ⟨e, rfl, slots⟩ := alike
  have len := (slots q.nWriteAudioPos).1
  simp only [CQueue.putAudio, ← len]
  split
  · exact ⟨⟨e, rfl, slots⟩, rfl⟩
  · split
    · have opened := update slots (.refl ⟨.fresh pData.length, (q.e q.nWriteAudioPos).len⟩)
        q.nWriteAudioPos
      exact ⟨⟨_, rfl, update opened (.refl _) _⟩, rfl⟩
    · exact ⟨⟨_, rfl, update slots (.refl _) _⟩, rfl⟩

theorem getVideo (alike : q.Alike r) :
    q.getVideo.1.Alike r.getVideo.1 ∧ r.getVideo.2 = q.getVideo.2 := by
  obtain ⟨e, rfl, slots⟩ := alike
  simp only [CQueue.getVideo]
  split
  · exact ⟨⟨e, rfl, slots⟩, rfl⟩
  · split
    · exact ⟨⟨e, rfl, slots⟩, rfl⟩
    · exact ⟨⟨e, rfl, slots⟩, rfl⟩

theorem getAudio (alike : q.Alike r) :
    r.getAudio = q.getAudio ∧ q.getAudio.map r.e = q.getAudio.map q.e := by
  obtain ⟨e, rfl, slots⟩ := alike
  have here := slots q.nReadAudioPos
  unfold CQueue.getAudio
  rw [← here.1]
  refine ⟨rfl, ?_⟩
  split
  · rfl
  · split
    · rename_i filled
      rw [Option.map_some, Option.map_some, here.2 filled]
    · rfl

theorem retVideo (alike : q.Alike r) : q.retVideo.Alike r.retVideo := by
  obtain ⟨e, rfl, slots⟩ := alike
  exact ⟨e, rfl, slots⟩

theorem retAudio (alike : q.Alike r) (slot : Fin maxNumAudioQueue) :
    (q.retAudio slot).Alike (r.retAudio slot) := by
  obtain ⟨e, rfl, slots⟩ := alike
  exact ⟨_, rfl, update slots (.of_empty rfl rfl) slot⟩

theorem enable (alike : q.Alike r) : q.enable.Alike r.enable := by
  obtain ⟨e, rfl, slots⟩ := alike
  exact ⟨e, rfl, slots⟩

theorem disable (alike : q.Alike r) : q.disable.Alike r.disable := by
  obtain ⟨e, rfl, slots⟩ := alike
  exact ⟨e, rfl, slots⟩

end CQueue.Alike

def Session.Alike (s t : Session) : Prop := ∃ r, t = { s with q := r } ∧ s.q.Alike r

private theorem bisimulation_call : Bisimulation call Session.Alike := by
  rintro s _ c ⟨r, rfl, alike⟩
  cases c with
  | putVideo pkt startPts =>
    obtain ⟨next, size⟩ := alike.putVideo pkt startPts
    simp only [call, size]
    exact .taken _ ⟨_, rfl, next⟩
  | getVideo =>
    obtain ⟨next, got⟩ := alike.getVideo
    simp only [call, Session.getVideo, got]
    split
    · exact .refused
    · exact .taken _ ⟨_, rfl, next⟩
  | retVideo =>
    simp only [call]
    split
    · exact .taken _ ⟨_, rfl, alike.retVideo⟩
    · exact .refused
  | putAudio pData startPts =>
    obtain ⟨next, size⟩ := alike.putAudio pData startPts
    simp only [call, size]
    exact .taken _ ⟨_, rfl, next⟩
  | getAudio =>
    obtain ⟨slot, got⟩ := alike.getAudio
    simp only [call, Session.getAudio, slot, got]
    split
    · exact .refused
    · exact .taken _ ⟨r, rfl, alike⟩
  | retAudio =>
    simp only [call]
    cases s.audio with
    | none => exact .refused
    | some slot => exact .taken _ ⟨_, rfl, alike.retAudio slot⟩
  | enable => exact .taken _ ⟨_, rfl, alike.enable⟩
  | disable => exact .taken _ ⟨_, rfl, alike.disable⟩
  | getVideoPacketSize =>
    simp only [call, alike.nPacket_eq]
    exact .taken _ ⟨_, rfl, alike⟩
  | getAudioPacketSize =>
    simp only [call, alike.nAudio_eq]
    exact .taken _ ⟨_, rfl, alike⟩

end Alike

section Owned

def CQueue.Owned (q : CQueue) : Prop := ∀ i, (q.e i).Owned

namespace CQueue.Owned

variable {q : CQueue}

theorem update {e : Fin maxNumAudioQueue → Elem} (slots : ∀ i, (e i).Owned) {pe : Elem}
    (owned : pe.Owned) (slot i : Fin maxNumAudioQueue) : (Function.update e slot pe i).Owned := by
  by_cases here : i = slot
  · subst here
    simpa using owned
  · simpa [here] using slots i

theorem new : CQueue.new.Owned := fun _ filled => absurd filled (Nat.lt_irrefl 0)

theorem clear (owned : q.Owned) : q.clear.Owned := fun i => owned_clearElem (owned i)

theorem restart (owned : q.Owned) (startPts : UInt64) : (q.restart startPts).Owned := by
  unfold CQueue.restart
  split
  · exact owned.clear
  · exact owned

theorem putVideo (owned : q.Owned) (pkt : AVPacket) (startPts : UInt64) :
    (q.putVideo pkt startPts).1.Owned := by
  have before := owned.restart startPts
  simp only [CQueue.putVideo]
  split
  · exact before
  · split
    · exact before
    · exact before

theorem putAudio (owned : q.Owned) (pData : List UInt8) (startPts : UInt64) :
    (q.putAudio pData startPts).1.Owned := by
  simp only [CQueue.putAudio]
  split
  · exact owned
  · have fresh : Elem.Owned ⟨.fresh pData.length, (q.e q.nWriteAudioPos).len⟩ :=
      fun _ => CharPtr.noConfusion
    have opened := update owned fresh q.nWriteAudioPos
    split
    · have filled : Elem.Owned ⟨.holds pData, pData.length⟩ := fun _ => CharPtr.noConfusion
      exact update opened filled q.nWriteAudioPos
    · exact opened

theorem getVideo (owned : q.Owned) : q.getVideo.1.Owned := by
  unfold CQueue.getVideo
  split
  · exact owned
  · split
    · exact owned
    · exact owned

theorem retAudio (owned : q.Owned) (slot : Fin maxNumAudioQueue) : (q.retAudio slot).Owned :=
  update owned (fun filled => absurd filled (Nat.lt_irrefl 0)) slot

end CQueue.Owned

private theorem owned_call {s t : Session} {c : Call} {rs : List Result} (owned : s.q.Owned)
    (next : call s c = some (t, rs)) : t.q.Owned := by
  cases c with
  | putVideo pkt startPts =>
    obtain ⟨rfl, -⟩ := Prod.mk.inj (Option.some.inj next)
    exact owned.putVideo pkt startPts
  | getVideo =>
    obtain ⟨-, next⟩ := Option.ite_none_left_eq_some.mp next
    obtain ⟨rfl, -⟩ := Prod.mk.inj (Option.some.inj next)
    exact owned.getVideo
  | retVideo =>
    obtain ⟨-, next⟩ := Option.ite_none_right_eq_some.mp next
    obtain ⟨rfl, -⟩ := Prod.mk.inj (Option.some.inj next)
    exact owned
  | putAudio pData startPts =>
    obtain ⟨rfl, -⟩ := Prod.mk.inj (Option.some.inj next)
    exact owned.putAudio pData startPts
  | getAudio =>
    obtain ⟨-, next⟩ := Option.ite_none_left_eq_some.mp next
    obtain ⟨rfl, -⟩ := Prod.mk.inj (Option.some.inj next)
    exact owned
  | retAudio =>
    simp only [call] at next
    cases out : s.audio with
    | none => simp [out] at next
    | some slot =>
      simp only [out] at next
      obtain ⟨rfl, -⟩ := Prod.mk.inj (Option.some.inj next)
      exact owned.retAudio slot
  | enable | disable | getVideoPacketSize | getAudioPacketSize =>
    obtain ⟨rfl, -⟩ := Prod.mk.inj (Option.some.inj next)
    exact owned

private theorem owned_of_run {q : CQueue} {calls : List Call} {rs : List Result}
    (history : Run call (.idle .new) calls rs (.idle q)) : q.Owned :=
  @Run.invariant _ _ _ call (.idle .new) (.idle q) calls rs (fun _ s => s.q.Owned) history
    CQueue.Owned.new fun _ _ _ _ _ owned next => owned_call owned next

end Owned

section Clear

variable {q : CQueue} {calls : List Call} {rs : List Result}

private theorem alike_clear (owned : q.Owned) (uncounted : q.nAudio = 0) :
    q.clear.Alike (.newAt q.startPts) := by
  refine ⟨CQueue.new.e, ?_, fun i => .of_empty (len_clearElem (owned i)) rfl⟩
  simp only [CQueue.newAt, CQueue.clear, CQueue.new, uncounted]

/-- After every history of calls whose gets were all completed, `Clear` leaves a queue that no
calls tell from a new one with the same `start_pts`, exactly when `m_nAudio` was zero. -/
theorem clear_indistinguishable_iff (history : Run call (.idle .new) calls rs (.idle q)) :
    Indistinguishable call (.idle q.clear) (.idle (.newAt q.startPts)) ↔ q.nAudio = 0 := by
  constructor
  · intro same
    have sizes : some [Result.size q.nAudio] = some [Result.size 0] :=
      same [.getAudioPacketSize]
    simpa using sizes
  · intro uncounted
    have alike := alike_clear (owned_of_run history) uncounted
    exact bisimulation_call.indistinguishable ⟨_, rfl, alike⟩

theorem clear_indistinguishable_iff_video :
    ∃ q rs, Run call (.idle .new) [.putVideo ⟨some 0, [1], 0⟩ 7, .enable] rs (.idle q) ∧
      (Indistinguishable call (.idle q.clear) (.idle (.newAt q.startPts)) ↔ q.nAudio = 0) := by
  have history := @Run.of_exec _ _ _ call (.idle .new) _
    [.putVideo ⟨some 0, [1], 0⟩ 7, .enable] _ rfl
  exact ⟨_, _, history, clear_indistinguishable_iff history⟩

/-- One block of audio is put; after `Clear` it is still counted. -/
theorem clear_keeps_audio_count :
    ∃ q rs, Run call (.idle .new) [.putAudio (.replicate 24 0) 7] rs (.idle q) ∧
      results call (.idle q.clear) [.getAudioPacketSize] = some [.size 1] ∧
      results call (.idle (.newAt q.startPts)) [.getAudioPacketSize] = some [.size 0] ∧
      ¬Indistinguishable call (.idle q.clear) (.idle (.newAt q.startPts)) := by
  have history := @Run.of_exec _ _ _ call (.idle .new) _ [.putAudio (.replicate 24 0) 7] _ rfl
  refine ⟨_, _, history, rfl, rfl, fun same => ?_⟩
  have sizes : some [Result.size 1] = some [Result.size 0] := same [.getAudioPacketSize]
  simp at sizes

end Clear

end Tsender.Queue
