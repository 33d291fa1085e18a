/- Tsender/Queue/Model
   source: queue.h, queue.cpp
   digest: The packet queue of one channel, with each of its calls as a function. -/

import Tsender.Lib.RingWindow

set_option autoImplicit false
set_option relaxedAutoImplicit false

namespace Tsender.Queue

open Lib.RingWindow (advance)

/-- `MAX_NUM_QUEUE` video slots. -/
abbrev maxNumQueue : ℕ := 120

/-- `MAX_NUM_AUDIO_QUEUE` audio slots. -/
abbrev maxNumAudioQueue : ℕ := 33

instance : NeZero maxNumQueue := ⟨by decide⟩

instance : NeZero maxNumAudioQueue := ⟨by decide⟩

/-- `AV_NOPTS_VALUE`, the timestamp of a packet without one. -/
def avNoptsValue : ℤ := -2 ^ 63

/-- The part of libav's `AVPacket` the program looks at.  `buf` names the reference-counted
buffer the data lives in: a reference made by `av_packet_ref` keeps it, and every read from a
file has a new one. -/
structure AVPacket where
  buf : Option ℕ
  data : List UInt8
  pts : ℤ
  deriving DecidableEq

/-- `pkt.size`, the number of data bytes. -/
def AVPacket.size (pkt : AVPacket) : ℕ := pkt.data.length

/-- What `av_packet_unref` leaves behind: no buffer, no data, no timestamp. -/
def AVPacket.blank : AVPacket := ⟨none, [], avNoptsValue⟩

@[simp] theorem AVPacket.size_blank : AVPacket.blank.size = 0 := rfl

/-- The `char *` of an audio slot. -/
inductive CharPtr where
  | null
  /-- `new char[n]`, not yet written. -/
  | fresh (n : ℕ)
  | holds (bytes : List UInt8)
  /-- Deleted, with the pointer left in place. -/
  | dangling
  deriving DecidableEq

/-- `ELEM`, one audio slot. -/
structure Elem where
  p : CharPtr
  len : ℕ
  deriving DecidableEq

/-- `CQueue`.  The positions are only ever set to zero or moved on by one with wrap-around,
so their type keeps them inside the rings; the counters are plain `int`s. -/
structure CQueue where
  bEnable : Bool
  nPacket : ℤ
  nAudio : ℤ
  nReadPos : Fin maxNumQueue
  nWritePos : Fin maxNumQueue
  nReadAudioPos : Fin maxNumAudioQueue
  nWriteAudioPos : Fin maxNumAudioQueue
  startPts : UInt64
  pkt : Fin maxNumQueue → AVPacket
  e : Fin maxNumAudioQueue → Elem

namespace CQueue

/-- `CQueue::CQueue`. -/
def new : CQueue where
  bEnable := false
  nPacket := 0
  nAudio := 0
  nReadPos := 0
  nWritePos := 0
  nReadAudioPos := 0
  nWriteAudioPos := 0
  startPts := 0
  pkt := fun _ => .blank
  e := fun _ => ⟨.null, 0⟩

/-- The audio half of `Clear`: a filled slot with a buffer is freed and emptied. -/
def clearElem (pe : Elem) : Elem :=
  if 0 < pe.len ∧ pe.p ≠ .null then ⟨.null, 0⟩ else pe

/-- `CQueue::Clear`.  Neither `m_nAudio` nor `m_start_pts` is reset. -/
def clear (q : CQueue) : CQueue :=
  { q with
    pkt := fun _ => .blank
    e := fun i => clearElem (q.e i)
    nReadPos := 0
    nWritePos := 0
    nWriteAudioPos := 0
    nReadAudioPos := 0
    bEnable := false
    nPacket := 0 }

def enable (q : CQueue) : CQueue := { q with bEnable := true }

def disable (q : CQueue) : CQueue := { q with bEnable := false }

/-- The unlocked prefix of `PutVideo`: another `start_pts` empties the queue. -/
def restart (q : CQueue) (startPts : UInt64) : CQueue :=
  { (if q.startPts ≠ startPts then q.clear else q) with startPts := startPts }

/-- The part of `PutVideo` under the lock, for a packet with data. -/
def store (q : CQueue) (pkt : AVPacket) : CQueue :=
  let nWritePos := advance q.nWritePos
  { q with
    pkt := Function.update q.pkt q.nWritePos pkt
    nWritePos := nWritePos
    nPacket := q.nPacket + 1
    bEnable := if 0 < nWritePos.val then true else q.bEnable }

def putVideo (q : CQueue) (pkt : AVPacket) (startPts : UInt64) : CQueue × ℤ :=
  let q := q.restart startPts
  if (maxNumQueue : ℤ) ≤ q.nPacket then (q, 0)
  else if 0 < pkt.size then (q.store pkt, pkt.size)
  else (q, 0)

/-- `CQueue::PutAudio`, with its return value: 0 on every path. -/
def putAudio (q : CQueue) (pData : List UInt8) (startPts : UInt64) : CQueue × ℤ :=
  let q := { q with startPts := startPts }
  if (maxNumAudioQueue : ℤ) ≤ q.nAudio then (q, 0)
  else
    let pe := q.e q.nWriteAudioPos
    let filled := { pe with p := .fresh pData.length }
    let q := { q with e := Function.update q.e q.nWriteAudioPos filled }
    if pe.len = 0 then
      ({ q with
         e := Function.update q.e q.nWriteAudioPos ⟨.holds pData, pData.length⟩
         nWriteAudioPos := advance q.nWriteAudioPos
         nAudio := q.nAudio + 1 }, 0)
    else (q, 0)

/-- `CQueue::GetVideo`: the queue, the value stored through `start_pts`, and the packet handed
over when the return value, its size, is positive. -/
def getVideo (q : CQueue) : CQueue × UInt64 × Option AVPacket :=
  if q.bEnable = false then (q, q.startPts, none)
  else if 0 < (q.pkt q.nReadPos).size then
    ({ q with pkt := Function.update q.pkt q.nReadPos .blank }, q.startPts, some (q.pkt q.nReadPos))
  else (q, q.startPts, none)

/-- `CQueue::GetAudio`: the slot it points to.  The assignment to the parameter `start_pts`
reaches no caller. -/
def getAudio (q : CQueue) : Option (Fin maxNumAudioQueue) :=
  if q.bEnable = false then none
  else if 0 < (q.e q.nReadAudioPos).len then some q.nReadAudioPos
  else none

/-- `CQueue::RetAudio` of a slot handed out by `GetAudio`. -/
def retAudio (q : CQueue) (p : Fin maxNumAudioQueue) : CQueue :=
  { q with
    e := Function.update q.e p
      ⟨if (q.e p).p = .null then .null else .dangling, 0⟩
    nReadAudioPos := advance q.nReadAudioPos
    nAudio := q.nAudio - 1 }

/-- `CQueue::RetVideo`.  The packet given back is unreferenced; the queue only counts. -/
def retVideo (q : CQueue) : CQueue :=
  { q with
    nReadPos := advance q.nReadPos
    nPacket := q.nPacket - 1 }

end CQueue

end Tsender.Queue
