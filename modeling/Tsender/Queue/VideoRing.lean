/- Tsender/Queue/VideoRing
   digest: The video half of the queue refines a bounded list with at most one packet
   handed out and not yet given back. -/

import Tsender.Queue.Model

set_option autoImplicit false
set_option relaxedAutoImplicit false

namespace Tsender.Queue

open Lib.RingWindow

/-- The purpose of the video half: packets wait in arrival order, and `taken` says that the
one before them has been handed out but still counts. -/
structure Holds (q : CQueue) (taken : Bool) (waiting : List AVPacket) : Prop where
  window : Window .blank q.pkt (if taken then advance q.nReadPos else q.nReadPos) waiting
  count : q.nPacket = waiting.length + taken.toNat
  bound : waiting.length + taken.toNat ≤ maxNumQueue
  write : q.nWritePos = place q.nReadPos (waiting.length + taken.toNat)
  nonempty : ∀ pkt ∈ waiting, 0 < pkt.size
  enabled : q.bEnable = true ∨ q.nWritePos.val = 0 ∧ waiting = []

section Blank

private theorem Holds.of_blank {q : CQueue} (slots : q.pkt = fun _ => .blank)
    (count : q.nPacket = 0)
    (read : q.nReadPos = 0) (write : q.nWritePos = 0) : Holds q false [] where
  window := by
    have blanks : Window AVPacket.blank (fun _ => .blank) q.nReadPos [] := .blanks q.nReadPos
    simpa [slots] using blanks
  count := by simp [count]
  bound := by simp
  write := by simp [read, write]
  nonempty := by simp
  enabled := .inr (by simp [write])

theorem holds_new : Holds .new false [] := .of_blank rfl rfl rfl rfl

end Blank

section Restart

variable {q : CQueue} {startPts : UInt64}

theorem restart_same (same : q.startPts = startPts) : q.restart startPts = q := by
  subst same
  simp [CQueue.restart]

theorem holds_restart_changed (changed : q.startPts ≠ startPts) :
    Holds (q.restart startPts) false [] := by
  have cleared : q.restart startPts = { q.clear with startPts := startPts } := by
    simp [CQueue.restart, changed]
  rw [cleared]
  exact .of_blank rfl rfl rfl rfl

theorem slots_restart_changed (changed : q.startPts ≠ startPts) (i : Fin maxNumQueue) :
    (q.restart startPts).pkt i = .blank := by
  simp [CQueue.restart, changed, CQueue.clear]

theorem slots_store_empty {pkt : AVPacket} (empty : ∀ i, (q.pkt i).size = 0)
    {i : Fin maxNumQueue} (filled : 0 < ((q.store pkt).pkt i).size) :
    (q.store pkt).pkt i = pkt := by
  simp only [CQueue.store] at filled ⊢
  rcases eq_or_ne i q.nWritePos with rfl | other
  · exact Function.update_self ..
  · rw [Function.update_of_ne other, empty i] at filled
    exact absurd filled (lt_irrefl 0)

end Restart

namespace Holds

variable {q : CQueue} {taken : Bool} {waiting rest : List AVPacket} {pkt : AVPacket}
  {startPts : UInt64}

theorem count_nonneg (h : Holds q taken waiting) : 0 ≤ q.nPacket := by
  rw [h.count]
  omega

theorem count_le (h : Holds q taken waiting) : q.nPacket ≤ maxNumQueue := by
  rw [h.count]
  exact_mod_cast h.bound

theorem write_val (h : Holds q taken waiting) :
    (q.nWritePos.val : ℤ) = ((q.nReadPos.val : ℤ) + q.nPacket) % maxNumQueue := by
  rw [h.write, h.count, place_val]
  push_cast
  rfl

private theorem write_slot (h : Holds q taken waiting) :
    q.nWritePos = place (if taken then advance q.nReadPos else q.nReadPos) waiting.length := by
  rw [h.write]
  cases taken
  · rfl
  · exact (place_advance q.nReadPos waiting.length).symm

theorem store (h : Holds q taken waiting) (room : waiting.length + taken.toNat < maxNumQueue)
    (data : 0 < pkt.size) : Holds (q.store pkt) taken (waiting ++ [pkt]) where
  window := by
    have pushed := h.window.push (by omega) pkt
    rw [← h.write_slot] at pushed
    exact pushed
  count := by
    change q.nPacket + 1 = _
    rw [h.count]
    simp only [List.length_append, List.length_singleton]
    push_cast
    omega
  bound := by
    simp only [List.length_append, List.length_singleton]
    omega
  write := by
    change advance q.nWritePos = _
    rw [h.write, advance_place]
    simp only [List.length_append, List.length_singleton]
    congr 1
    omega
  nonempty := by
    intro p hp
    rcases List.mem_append.mp hp with old | new
    · exact h.nonempty p old
    · rwa [List.mem_singleton.mp new]
  enabled := by
    refine .inl ?_
    change (if 0 < (advance q.nWritePos).val then true else q.bEnable) = true
    rcases h.enabled with on | ⟨first, -⟩
    · simp [on]
    · -- A queue that is not enabled has its write position at 0, so it moves to 1.
      simp [advance_val, first]

end Holds

section PutVideo

variable {q : CQueue} {taken : Bool} {waiting : List AVPacket} {pkt : AVPacket}
  {startPts : UInt64}

@[simp] theorem startPts_putVideo (q : CQueue) (pkt : AVPacket) (startPts : UInt64) :
    (q.putVideo pkt startPts).1.startPts = startPts := by
  unfold CQueue.putVideo
  dsimp only
  split
  · rfl
  · split <;> rfl

theorem putVideo_full (h : Holds q taken waiting) (same : q.startPts = startPts)
    (full : waiting.length + taken.toNat = maxNumQueue) : q.putVideo pkt startPts = (q, 0) := by
  have reached : (maxNumQueue : ℤ) ≤ q.nPacket := by
    rw [h.count]
    exact_mod_cast full.ge
  simp only [CQueue.putVideo, restart_same same, if_pos reached]

theorem putVideo_room (h : Holds q taken waiting) (same : q.startPts = startPts)
    (room : waiting.length + taken.toNat < maxNumQueue) (data : 0 < pkt.size) :
    q.putVideo pkt startPts = (q.store pkt, (pkt.size : ℤ)) ∧
      Holds (q.store pkt) taken (waiting ++ [pkt]) := by
  have below : ¬ (maxNumQueue : ℤ) ≤ q.nPacket := by
    rw [h.count, not_le]
    exact_mod_cast room
  refine ⟨?_, h.store room data⟩
  simp only [CQueue.putVideo, restart_same same, if_neg below, if_pos data]

theorem putVideo_same (same : q.startPts = startPts) (data : 0 < pkt.size) :
    q.putVideo pkt startPts = (q, 0) ∨ q.putVideo pkt startPts = (q.store pkt, (pkt.size : ℤ)) := by
  simp only [CQueue.putVideo, restart_same same, if_pos data]
  split
  · exact .inl rfl
  · exact .inr rfl

/-- A packet of another epoch is always taken, and is alone in the queue afterwards. -/
theorem putVideo_changed (changed : q.startPts ≠ startPts) (data : 0 < pkt.size) :
    q.putVideo pkt startPts = ((q.restart startPts).store pkt, (pkt.size : ℤ)) ∧
      Holds ((q.restart startPts).store pkt) false [pkt] := by
  have empty := holds_restart_changed changed
  have below : ¬ (maxNumQueue : ℤ) ≤ (q.restart startPts).nPacket := by
    rw [empty.count]
    decide
  refine ⟨?_, by simpa using empty.store (by decide) data⟩
  simp only [CQueue.putVideo, if_neg below, if_pos data]

end PutVideo

section GetVideo

variable {q : CQueue} {taken : Bool} {waiting : List AVPacket} {pkt : AVPacket}

@[simp] theorem startPts_getVideo (q : CQueue) : q.getVideo.1.startPts = q.startPts := by
  unfold CQueue.getVideo
  split
  · rfl
  · split <;> rfl

@[simp] theorem reported_getVideo (q : CQueue) : q.getVideo.2.1 = q.startPts := by
  unfold CQueue.getVideo
  split
  · rfl
  · split <;> rfl

theorem getVideo_slot (got : q.getVideo.2.2 = some pkt) :
    0 < (q.pkt q.nReadPos).size ∧ q.pkt q.nReadPos = pkt := by
  unfold CQueue.getVideo at got
  split at got
  · cases got
  · split at got
    · exact ⟨‹_›, Option.some.inj got⟩
    · cases got

theorem slots_getVideo (q : CQueue) (i : Fin maxNumQueue) :
    q.getVideo.1.pkt i = q.pkt i ∨ q.getVideo.1.pkt i = .blank := by
  unfold CQueue.getVideo
  split
  · exact .inl rfl
  · split
    · rcases eq_or_ne i q.nReadPos with rfl | other
      · exact .inr (Function.update_self ..)
      · exact .inl (Function.update_of_ne other ..)
    · exact .inl rfl

theorem getVideo_empty (h : Holds q false []) : q.getVideo = (q, q.startPts, none) := by
  have blank : q.pkt q.nReadPos = .blank := h.window.head_blank
  unfold CQueue.getVideo
  split
  · rfl
  · simp [blank]

theorem getVideo_head (h : Holds q false (pkt :: waiting)) :
    q.getVideo = ({ q with pkt := Function.update q.pkt q.nReadPos .blank }, q.startPts, some pkt) ∧
      Holds { q with pkt := Function.update q.pkt q.nReadPos .blank } true waiting := by
  have first : q.pkt q.nReadPos = pkt := h.window.head
  have data : 0 < pkt.size := h.nonempty pkt List.mem_cons_self
  have on : q.bEnable = true := h.enabled.resolve_right (by simp)
  refine ⟨by simp [CQueue.getVideo, on, first, data], ?_⟩
  refine ⟨h.window.pop, ?_, ?_, ?_, ?_, .inl on⟩
  · simpa using h.count
  · simpa using h.bound
  · simpa using h.write
  · exact fun p hp => h.nonempty p (List.mem_cons_of_mem pkt hp)

theorem holds_retVideo (h : Holds q true waiting) : Holds q.retVideo false waiting := by
  refine ⟨h.window, ?_, ?_, ?_, h.nonempty, h.enabled⟩
  · have count := h.count
    simp only [Bool.toNat_true] at count
    simp [CQueue.retVideo, count]
  · have := h.bound
    simp only [Bool.toNat_true] at this
    simp only [Bool.toNat_false]
    omega
  · have write := h.write
    simp only [Bool.toNat_true] at write
    simp [CQueue.retVideo, write, place_advance]

end GetVideo

end Tsender.Queue
