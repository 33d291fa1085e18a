/- Tsender/Queue/AudioRing
   source: queue.cpp (PutAudio, GetAudio, RetAudio), demuxer.cpp (audio_buf)
   digest: The audio half of the queue refines a bounded list of blocks, whether or not
   the queue is enabled. -/

import Tsender.Queue.Model

set_option autoImplicit false
set_option relaxedAutoImplicit false

namespace Tsender.Queue

open Lib.RingWindow

/-- The size of `audio_buf`. -/
abbrev audioBlockSize : ℕ := 24

/-- What one call of `PutAudio` is given: 24 bytes. -/
abbrev Block := {bytes : List UInt8 // bytes.length = audioBlockSize}

/-- A slot that `PutAudio` has filled. -/
def Elem.of (b : Block) : Elem := ⟨.holds b.1, b.1.length⟩

/-- What `GetAudio` finds in a slot: the slot itself where its length is positive. -/
def Elem.filled (pe : Elem) : Option Elem := if 0 < pe.len then some pe else none

@[simp] theorem Elem.len_of (b : Block) : (Elem.of b).len = audioBlockSize := b.2

@[simp] theorem Elem.filled_of (b : Block) : (Elem.of b).filled = some (.of b) := by
  simp [Elem.filled]

private theorem Elem.filled_eq_none {pe : Elem} : pe.filled = none ↔ pe.len = 0 := by
  simp [Elem.filled]

private theorem Elem.filled_eq_some {pe e : Elem} : pe.filled = some e ↔ 0 < pe.len ∧ pe = e := by
  simp [Elem.filled]

/-- The purpose of the audio half: the blocks that were put and not yet returned, in order.
An element handed out stays in its slot, so it is the first of them. -/
structure HoldsAudio (q : CQueue) (blocks : List Block) : Prop where
  window : Window none (Elem.filled ∘ q.e) q.nReadAudioPos (blocks.map (some ∘ Elem.of))
  count : q.nAudio = blocks.length
  write : q.nWriteAudioPos = place q.nReadAudioPos blocks.length

theorem holdsAudio_new : HoldsAudio .new [] where
  window := by
    have blanks : Window none (fun _ => (none : Option Elem)) CQueue.new.nReadAudioPos [] :=
      .blanks _
    exact blanks
  count := rfl
  write := rfl

namespace HoldsAudio

variable {q : CQueue} {blocks : List Block} {b : Block}

theorem bound (h : HoldsAudio q blocks) : blocks.length ≤ maxNumAudioQueue := by
  simpa using h.window.fits

private theorem write_empty (h : HoldsAudio q blocks) (room : blocks.length < maxNumAudioQueue) :
    (q.e q.nWriteAudioPos).len = 0 := by
  have free := h.window.outside blocks.length (by simp) room
  rw [← h.write] at free
  exact Elem.filled_eq_none.mp free

theorem head (h : HoldsAudio q (b :: blocks)) : q.e q.nReadAudioPos = .of b := by
  have first : (q.e q.nReadAudioPos).filled = some (.of b) := h.window.head
  exact (Elem.filled_eq_some.mp first).2

theorem nothing (h : HoldsAudio q []) : (q.e q.nReadAudioPos).len = 0 :=
  Elem.filled_eq_none.mp h.window.head_blank

theorem of_same {p : CQueue} (h : HoldsAudio q blocks) (slots : p.e = q.e)
    (read : p.nReadAudioPos = q.nReadAudioPos) (write : p.nWriteAudioPos = q.nWriteAudioPos)
    (count : p.nAudio = q.nAudio) : HoldsAudio p blocks := by
  refine ⟨?_, by rw [count, h.count], by rw [write, read, h.write]⟩
  rw [slots, read]
  exact h.window

end HoldsAudio

section PutAudio

variable {q : CQueue} {blocks : List Block} (b : Block) (startPts : UInt64)

@[simp] theorem bEnable_putAudio (q : CQueue) (bytes : List UInt8) (startPts : UInt64) :
    (q.putAudio bytes startPts).1.bEnable = q.bEnable := by
  simp only [CQueue.putAudio]
  split
  · rfl
  · split <;> rfl

@[simp] theorem nReadAudioPos_putAudio (q : CQueue) (bytes : List UInt8) (startPts : UInt64) :
    (q.putAudio bytes startPts).1.nReadAudioPos = q.nReadAudioPos := by
  simp only [CQueue.putAudio]
  split
  · rfl
  · split <;> rfl

@[simp] theorem returned_putAudio (q : CQueue) (bytes : List UInt8) (startPts : UInt64) :
    (q.putAudio bytes startPts).2 = 0 := by
  simp only [CQueue.putAudio]
  split
  · rfl
  · split <;> rfl

theorem putAudio_full (h : HoldsAudio q blocks) (full : blocks.length = maxNumAudioQueue) :
    HoldsAudio (q.putAudio b.1 startPts).1 blocks ∧
      (q.putAudio b.1 startPts).1.nAudio = q.nAudio := by
  have reached : (maxNumAudioQueue : ℤ) ≤ q.nAudio := by
    rw [h.count]
    exact_mod_cast full.ge
  simp only [CQueue.putAudio, if_pos reached]
  exact ⟨h.of_same rfl rfl rfl rfl, trivial⟩

theorem putAudio_room (h : HoldsAudio q blocks) (room : blocks.length < maxNumAudioQueue) :
    HoldsAudio (q.putAudio b.1 startPts).1 (blocks ++ [b]) ∧
      (q.putAudio b.1 startPts).1.nAudio = q.nAudio + 1 := by
  have below : ¬ (maxNumAudioQueue : ℤ) ≤ q.nAudio := by
    rw [h.count, not_le]
    exact_mod_cast room
  simp only [CQueue.putAudio, if_neg below, if_pos (h.write_empty room), Function.update_idem]
  refine ⟨⟨?_, ?_, ?_⟩, trivial⟩
  · have pushed := h.window.push (by simpa using room) (some (.of b))
    rw [List.length_map, ← h.write] at pushed
    have slot : Elem.filled ⟨.holds b.1, b.1.length⟩ = some (.of b) := Elem.filled_of b
    simp only [Function.comp_update, slot, List.map_append]
    exact pushed
  · simp [h.count]
  · change advance q.nWriteAudioPos = _
    rw [h.write, advance_place]
    simp

end PutAudio

section GetAudio

variable {q : CQueue} {blocks : List Block} {b : Block}

theorem getAudio_disabled (off : q.bEnable = false) : q.getAudio = none := by
  simp [CQueue.getAudio, off]

theorem getAudio_empty (h : HoldsAudio q []) : q.getAudio = none := by
  simp [CQueue.getAudio, h.nothing]

theorem getAudio_head (h : HoldsAudio q (b :: blocks)) (on : q.bEnable = true) :
    q.getAudio = some q.nReadAudioPos := by
  simp [CQueue.getAudio, on, h.head]

theorem holdsAudio_retAudio (h : HoldsAudio q (b :: blocks)) :
    HoldsAudio (q.retAudio q.nReadAudioPos) blocks := by
  refine ⟨?_, ?_, ?_⟩
  · simp only [CQueue.retAudio, Function.comp_update]
    exact h.window.pop
  · simp [CQueue.retAudio, h.count]
  · change q.nWriteAudioPos = place (advance q.nReadAudioPos) blocks.length
    rw [h.write, place_advance]
    simp

end GetAudio

end Tsender.Queue
