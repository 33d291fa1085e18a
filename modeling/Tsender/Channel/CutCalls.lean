/- Tsender/Channel/CutCalls
   source: demuxer.cpp (the local packet of Demux, ~CDemuxer), queue.cpp (PutVideo, GetVideo,
   RetVideo, Clear, ~CQueue), sender.cpp (Run, ~CSender)
   digest: A video channel from its first file to its end, with the calls of the queue cut where
   the threads can come between, and the references to packet buffers it takes and gives back. -/

import Tsender.Channel.Steps
import Tsender.Lib.Ledger

set_option autoImplicit false
set_option relaxedAutoImplicit false

namespace Tsender.Channel.CutCalls

open Lib.Transition Lib.Ledger Queue

inductive Holder where
  | demux
  | slot
  | sender
  deriving DecidableEq

/-- The buffer of a read, or one that `av_packet_ref` allocates for a packet without. -/
inductive Buf where
  | read (n : ℕ)
  | allocated
  deriving DecidableEq

structure Ref where
  holder : Holder
  buf : Buf
  deriving DecidableEq

/-- Where `Clear` stands. -/
inductive ClearPc where
  | unref (i : Fin maxNumQueue)
  | audio
  | rewindRead
  | rewindWrite
  | disable
  | recount
  deriving DecidableEq

/-- Where `Demux` stands in `PutVideo`; it holds the mutex at `advance` and `count`. -/
inductive PutPc where
  | idle
  | clear (pc : ClearPc)
  | assign
  | full
  | store
  | advance
  | count
  | enabled
  | enable
  deriving DecidableEq

/-- Where `Run` stands in `GetVideo` or `RetVideo`; it holds the mutex from `ref` on. -/
inductive GetPc where
  | idle
  | enabled
  | test
  | ref
  /-- With the packet that `av_packet_ref` has filled. -/
  | unref (pkt : AVPacket)
  | advance
  | count
  deriving DecidableEq

def PutPc.locked : PutPc → Bool
  | .advance | .count => true
  | _ => false

def GetPc.locked : GetPc → Bool
  | .ref | .unref _ | .advance | .count => true
  | _ => false

/-- `m_queue` of the sender. -/
inductive QueuePtr where
  | set
  /-- `~CQueue` is in its `Clear`, or behind it. -/
  | clearing (pc : Option ClearPc)
  | deleted
  | null
  deriving DecidableEq

def QueuePtr.alive : QueuePtr → Bool
  | .set | .clearing _ => true
  | .deleted | .null => false

structure Holding where
  c : State
  put : PutPc
  get : GetPc
  queue : QueuePtr
  /-- `m_bExit` of the sender. -/
  senderExit : Bool
  /-- `Run` has returned. -/
  senderDone : Bool
  /-- The demuxer, the sender and the queue are gone. -/
  destroyed : Bool

inductive HoldAct where
  | run (a : Act)
  /-- `~CSender` sets `m_bExit`. -/
  | senderExit
  /-- `delete m_queue`, up to the `Clear` of `~CQueue`. -/
  | deleteQueue
  /-- The next step of this `Clear`. -/
  | clearQueue
  | freeQueue
  | nullQueue
  /-- The loop of `Run` finds `m_bExit`. -/
  | senderReturn
  /-- The threads are joined and the objects freed. -/
  | destroy

section Entries

def refs (holder : Holder) (pkt : AVPacket) : List Ref :=
  pkt.buf.toList.map fun n => ⟨holder, .read n⟩

/-- `av_packet_ref`, into a packet of this holder. -/
def packetRef (holder : Holder) (pkt : AVPacket) : List (Entry Ref) :=
  [.acquired ⟨holder, pkt.buf.elim .allocated .read⟩]

/-- `av_packet_unref` of a packet of this holder. -/
def packetUnref (holder : Holder) (pkt : AVPacket) : List (Entry Ref) :=
  (refs holder pkt).map .released

def slotRefs (slots : Fin maxNumQueue → AVPacket) : List Ref :=
  (List.finRange maxNumQueue).flatMap fun i => refs .slot (slots i)

/-- The local packet of `Demux` is unreferenced and read into again.  What the filter keeps to
itself it releases. -/
def readEntries (cfg : Config) (d : CDemuxer) : List (Entry Ref) :=
  packetUnref .demux d.pkt ++
    match d.fmtCtx.map AVFormatContext.rest with
    | none | some [] => []
    | some (payload :: _) =>
        .acquired ⟨.demux, .read d.reads⟩ ::
          if cfg.filter payload = none then [.released ⟨.demux, .read d.reads⟩] else []

/-- What a step outside the queue does to the references. -/
def entries (cfg : Config) (c : State) : Act → List (Entry Ref)
  | .demux => if c.d.pc = .readFrame then readEntries cfg c.d else []
  | _ => []

end Entries

section Calls

/-- Without video packets the audio half of `Clear` finds nothing; it stands as one step. -/
def clearStep (q : CQueue) : ClearPc → CQueue
  | .unref i => { q with pkt := Function.update q.pkt i .blank }
  | .audio =>
      { q with e := fun i => CQueue.clearElem (q.e i), nReadAudioPos := 0, nWriteAudioPos := 0 }
  | .rewindRead => { q with nReadPos := 0 }
  | .rewindWrite => { q with nWritePos := 0 }
  | .disable => q.disable
  | .recount => { q with nPacket := 0 }

def clearEntries (q : CQueue) : ClearPc → List (Entry Ref)
  | .unref i => packetUnref .slot (q.pkt i)
  | _ => []

/-- The next statement of `Clear`, if this was not the last one. -/
def ClearPc.next : ClearPc → Option ClearPc
  | .unref i => if more : i.val + 1 < maxNumQueue then some (.unref ⟨i + 1, more⟩) else some .audio
  | .audio => some .rewindRead
  | .rewindRead => some .rewindWrite
  | .rewindWrite => some .disable
  | .disable => some .recount
  | .recount => none

/-- The next step of the loop around `PutVideo`, the call itself included. -/
def putStep (s : Holding) : Option (Holding × List (Entry Ref)) :=
  let leave := { s with put := .idle, c := { s.c with d := { s.c.d with pc := .testMove } } }
  let onQueue (q : CQueue) (put : PutPc) : Holding :=
    { s with put := put, c := { s.c with q := q } }
  let q := s.c.q
  let pkt := s.c.d.pkt
  if s.put = .idle ∧ s.c.d.bExit then some (leave, [])
  else if s.put = .idle ∧ ¬ -1 < pkt.pts then some (s, [])
  else if s.queue.alive = false then none
  else
    match s.put with
    | .idle =>
        let next := if q.startPts ≠ s.c.d.seekPts then .clear (.unref 0) else PutPc.assign
        some (onQueue q next, [])
    | .clear pc =>
        some (onQueue (clearStep q pc) (pc.next.elim .assign .clear), clearEntries q pc)
    | .assign => some (onQueue { q with startPts := s.c.d.seekPts } .full, [])
    | .full => some (onQueue q (if (maxNumQueue : ℤ) ≤ q.nPacket then .idle else .store), [])
    | .store =>
        if s.get.locked then none
        else if 0 < pkt.size then
          some (onQueue { q with pkt := Function.update q.pkt q.nWritePos pkt } .advance,
            packetRef .slot pkt)
        else some (onQueue q .idle, [])
    | .advance =>
        some (onQueue { q with nWritePos := Lib.RingWindow.advance q.nWritePos } .count, [])
    | .count => some (onQueue { q with nPacket := q.nPacket + 1 } .enabled, [])
    | .enabled => some (if 0 < q.nWritePos.val then onQueue q .enable else leave, [])
    | .enable => some ({ leave with c := { leave.c with q := q.enable } }, [])

/-- The next step of the call of `GetVideo`, with the test of `m_queue` and `m_fmt_ctx` before it
and the first read of the time base behind it. -/
def getStep (cfg : Config) (s : Holding) (garbage : AVRational) :
    Option (Holding × List (Entry Ref)) :=
  let onSender (sender : CSender) (get : GetPc) : Holding :=
    { s with get := get, c := { s.c with s := sender } }
  let back := onSender { s.c.s with pc := .head } .idle
  let q := s.c.q
  let slot := q.pkt q.nReadPos
  if s.get = .idle ∧ (s.queue = .null ∨ s.c.s.fmtCtx = .null) then some (back, [])
  else if s.queue.alive = false then none
  else
    match s.get with
    | .idle => some (onSender { s.c.s with seekPts := q.startPts } .enabled, [])
    | .enabled => some (if q.bEnable = false then back else { s with get := .test }, [])
    | .test =>
        if s.put.locked then none
        else some (if 0 < slot.size then { s with get := .ref } else back, [])
    | .ref => some ({ s with get := .unref slot }, packetRef .sender slot)
    | .unref pkt =>
        let sender := if 0 < pkt.size then { s.c.s with
            timeBase := if s.c.s.pStream then s.c.s.timeBase else derefTimeBase cfg s.c garbage
            pStream := true
            pc := .send pkt }
          else { s.c.s with pc := .head }
        some ({ s with
          get := .idle
          c := { s.c with
            s := sender
            q := { q with pkt := Function.update q.pkt q.nReadPos .blank } } },
          packetUnref .slot slot)
    | .advance | .count => none

/-- The next step of the call of `RetVideo`, with the test of `m_queue` before it. -/
def retStep (s : Holding) (pkt : AVPacket) : Option (Holding × List (Entry Ref)) :=
  let onSender (pc : SenderPc) (q : CQueue) (get : GetPc) : Holding :=
    { s with get := get, c := { s.c with q := q, s := { s.c.s with pc := pc } } }
  let q := s.c.q
  if s.get = .idle ∧ s.queue = .null then some (onSender .head q .idle, [])
  else if s.queue.alive = false then none
  else
    match s.get with
    | .idle =>
        if s.put.locked then none
        else some (onSender (.ret .blank) q .advance, packetUnref .sender pkt)
    | .advance =>
        let q := { q with nReadPos := Lib.RingWindow.advance q.nReadPos }
        some (onSender s.c.s.pc q .count, [])
    | .count => some (onSender .head { q with nPacket := q.nPacket - 1 } .idle, [])
    | _ => none

end Calls

section Machine

def runStep (cfg : Config) (s : Holding) (a : Act) : Option (Holding × List (Entry Ref)) :=
  match step cfg s.c a with
  | none => none
  | some (c, _) => some ({ s with c := c }, entries cfg s.c a)

/-- One step of a channel that may be on its way down: `~CDemuxer` sets `m_bExit` and deletes the
sender, which sets its own, deletes the queue and waits for `Run`.  A call on the deleted queue
has no defined effect. -/
def holding (cfg : Config) : Machine Holding HoldAct (Entry Ref) := fun s a =>
  if s.destroyed then none
  else
    match a with
    | .run .demux => if s.c.d.pc = .put then putStep s else runStep cfg s .demux
    | .run (.clock now₁ now₂) => if s.senderExit then none else runStep cfg s (.clock now₁ now₂)
    | .run (.get garbage) => if s.c.s.pc = .get then getStep cfg s garbage else none
    | .run .ret =>
        match s.c.s.pc with
        | .ret pkt => retStep s pkt
        | _ => none
    | .run a => runStep cfg s a
    | .senderExit => if s.c.d.bExit then some ({ s with senderExit := true }, []) else none
    | .deleteQueue =>
        if s.senderExit ∧ s.queue = .set then
          some ({ s with queue := .clearing (some (.unref 0)) }, [])
        else none
    | .clearQueue =>
        match s.queue with
        | .clearing (some pc) =>
            some ({ s with queue := .clearing pc.next, c := { s.c with q := clearStep s.c.q pc } },
              clearEntries s.c.q pc)
        | _ => none
    | .freeQueue =>
        if s.queue = .clearing none then
          some ({ s with
            queue := .deleted
            c := { s.c with q := { s.c.q with pkt := fun _ => .blank } } }, [])
        else none
    | .nullQueue => if s.queue = .deleted then some ({ s with queue := .null }, []) else none
    | .senderReturn =>
        if s.senderExit ∧ s.c.s.pc = .head then some ({ s with senderDone := true }, []) else none
    | .destroy =>
        if s.queue = .null ∧ s.senderDone ∧ s.c.d.pc = .done then
          some ({ s with destroyed := true }, [])
        else none

def Holding.start (cfg : Config) : Holding :=
  ⟨.start cfg, .idle, .idle, .set, false, false, false⟩

end Machine

section Held

/-- The local packet of `Demux` is in scope. -/
def inScope : DemuxPc → Bool
  | .fileTop | .done => false
  | _ => true

/-- The reference of the local packet of `Demux`. -/
def localRefs (d : CDemuxer) : List Ref := if inScope d.pc then refs .demux d.pkt else []

/-- The reference of the local packet of `Run`, from `GetVideo` to `RetVideo`. -/
def senderRefs (s : Holding) : List Ref :=
  match s.c.s.pc, s.get with
  | .get, .unref pkt | .send pkt, _ | .ret pkt, .idle => refs .sender pkt
  | _, _ => []

def held (s : Holding) : Multiset Ref :=
  localRefs s.c.d + slotRefs s.c.q.pkt + senderRefs s

/-- What `Demux` forgets: the reference of the local packet where it leaves a file with it, and
that in a slot which is overwritten. -/
def lostDemux (s : Holding) : Multiset Ref :=
  match s.c.d.pc with
  | .fileEnd => refs .demux s.c.d.pkt
  | .put =>
      if s.put = .store ∧ 0 < s.c.d.pkt.size then refs .slot (s.c.q.pkt s.c.q.nWritePos) else 0
  | _ => 0

/-- The references that a step forgets: `Demux`'s, the buffer that `GetVideo` allocates for a slot
which has been emptied behind its test, the packet that `Run` does not give back, and what is in
the slots of a queue that is freed. -/
def lost (s : Holding) : HoldAct → Multiset Ref
  | .run .demux => lostDemux s
  | .run (.get _) =>
      if s.get = .ref ∧ (s.c.q.pkt s.c.q.nReadPos).buf = none then {⟨.sender, .allocated⟩} else 0
  | .run .ret => if s.get = .idle ∧ s.queue = .null then senderRefs s else 0
  | .freeQueue => slotRefs s.c.q.pkt
  | _ => 0

end Held

section Inversion

variable {cfg : Config} {s t : Holding} {a : HoldAct} {es : List (Entry Ref)}

structure Quiet (s t : Holding) : Prop where
  rest : t = { s with c := t.c, put := t.put, get := t.get, queue := t.queue }
  queue : t.queue = s.queue ∨ s.queue ≠ .set ∧ s.queue.alive = true ∧ t.queue.alive = true ∧
    t.queue ≠ .set
  d : t.c.d = { s.c.d with pc := t.c.d.pc }
  turn : t.c.d.pc = s.c.d.pc ∨ s.c.d.pc = .put ∧ t.c.d.pc = .testMove
  slots : t.c.q.pkt = s.c.q.pkt
  sender : senderRefs t = senderRefs s
  head : s.c.s.pc = .head → t.c.s.pc = .head
  get : t.get = s.get ∧ t.c.s = s.c.s ∨
    (∀ pkt, t.get ≠ .unref pkt) ∧ ∀ pkt, t.c.s.pc ≠ .send pkt

theorem Quiet.bExit (quiet : Quiet s t) : t.c.d.bExit = s.c.d.bExit := by rw [quiet.d]

inductive Turned (cfg : Config) (s : Holding) : HoldAct → Holding → List (Entry Ref) → Prop
  | ran (a : Act) (c : State) (events : List Event) (next : step cfg s.c a = some (c, events))
      (put : a = .demux → s.c.d.pc ≠ .put)
      (clock : ∀ now₁ now₂, a = .clock now₁ now₂ → s.senderExit = false)
      (get : ∀ garbage, a ≠ .get garbage) (ret : a ≠ .ret) :
      Turned cfg s (.run a) { s with c := c } (entries cfg s.c a)
  | called (a : HoldAct) (t : Holding) (quiet : Quiet s t) (kept : lost s a = 0) :
      Turned cfg s a t []
  /-- `Clear` in `PutVideo` or in `~CQueue` gives up a slot. -/
  | cleared (a : HoldAct) (i : Fin maxNumQueue) (put : PutPc) (queue : QueuePtr)
      (alive : s.queue.alive = true)
      (down : queue = s.queue ∨ s.queue ≠ .set ∧ queue.alive = true ∧ queue ≠ .set)
      (kept : lost s a = 0) :
      Turned cfg s a { s with
        put := put
        queue := queue
        c := { s.c with q := { s.c.q with pkt := Function.update s.c.q.pkt i .blank } } }
        (packetUnref .slot (s.c.q.pkt i))
  | stored (pc : s.c.d.pc = .put) (put : s.put = .store) (alive : s.queue.alive = true)
      (data : 0 < s.c.d.pkt.size) :
      Turned cfg s (.run .demux) { s with
        put := .advance
        c := { s.c with q := { s.c.q with
          pkt := Function.update s.c.q.pkt s.c.q.nWritePos s.c.d.pkt } } }
        (packetRef .slot s.c.d.pkt)
  | referred (garbage : AVRational) (pc : s.c.s.pc = .get) (get : s.get = .ref)
      (alive : s.queue.alive = true) :
      Turned cfg s (.run (.get garbage)) { s with get := .unref (s.c.q.pkt s.c.q.nReadPos) }
        (packetRef .sender (s.c.q.pkt s.c.q.nReadPos))
  | handed (garbage : AVRational) (pkt : AVPacket) (sender : CSender) (pc : s.c.s.pc = .get)
      (get : s.get = .unref pkt) (alive : s.queue.alive = true)
      (returned : 0 < pkt.size ∧ sender.pc = .send pkt ∨ pkt.size = 0 ∧ sender.pc = .head) :
      Turned cfg s (.run (.get garbage)) { s with
        get := .idle
        c := { s.c with
          s := sender
          q := { s.c.q with pkt := Function.update s.c.q.pkt s.c.q.nReadPos .blank } } }
        (packetUnref .slot (s.c.q.pkt s.c.q.nReadPos))
  | gaveBack (pkt : AVPacket) (pc : s.c.s.pc = .ret pkt) (get : s.get = .idle)
      (alive : s.queue.alive = true) :
      Turned cfg s (.run .ret) { s with
        get := .advance
        c := { s.c with s := { s.c.s with pc := .ret .blank } } } (packetUnref .sender pkt)
  | noRet (pkt : AVPacket) (pc : s.c.s.pc = .ret pkt) (get : s.get = .idle)
      (null : s.queue = .null) :
      Turned cfg s (.run .ret) { s with c := { s.c with s := { s.c.s with pc := .head } } } []
  | senderExit (exit : s.c.d.bExit = true) :
      Turned cfg s .senderExit { s with senderExit := true } []
  | deleteQueue (exit : s.senderExit = true) (set : s.queue = .set) :
      Turned cfg s .deleteQueue { s with queue := .clearing (some (.unref 0)) } []
  | freeQueue (behind : s.queue = .clearing none) :
      Turned cfg s .freeQueue { s with
        queue := .deleted
        c := { s.c with q := { s.c.q with pkt := fun _ => .blank } } } []
  | nullQueue (deleted : s.queue = .deleted) : Turned cfg s .nullQueue { s with queue := .null } []
  | senderReturn (exit : s.senderExit = true) (pc : s.c.s.pc = .head) :
      Turned cfg s .senderReturn { s with senderDone := true } []
  | destroy (null : s.queue = .null) (done : s.senderDone = true) (pc : s.c.d.pc = .done) :
      Turned cfg s .destroy { s with destroyed := true } []

private theorem runStep_cases {a : Act} (next : runStep cfg s a = some (t, es)) :
    ∃ c events, step cfg s.c a = some (c, events) ∧ t = { s with c := c } ∧
      es = entries cfg s.c a := by
  simp only [runStep] at next
  split at next
  · cases next
  · rename_i c events taken
    cases next
    exact ⟨c, events, taken, rfl, rfl⟩

private theorem clearStep_cases (q : CQueue) (pc : ClearPc) :
    (∃ i, clearStep q pc = { q with pkt := Function.update q.pkt i .blank } ∧
      clearEntries q pc = packetUnref .slot (q.pkt i)) ∨
    (clearStep q pc).pkt = q.pkt ∧ clearEntries q pc = [] := by
  cases pc with
  | unref i => exact .inl ⟨i, rfl, rfl⟩
  | _ => exact .inr ⟨rfl, rfl⟩

private theorem Quiet.onQueue {q : CQueue} {put : PutPc} (slots : q.pkt = s.c.q.pkt) :
    Quiet s { s with put := put, c := { s.c with q := q } } :=
  ⟨rfl, .inl rfl, rfl, .inl rfl, slots, rfl, id, .inl ⟨rfl, rfl⟩⟩

theorem Quiet.leave {q : CQueue} (pc : s.c.d.pc = .put) (slots : q.pkt = s.c.q.pkt) :
    Quiet s { s with
      put := .idle, c := { s.c with q := q, d := { s.c.d with pc := .testMove } } } :=
  ⟨rfl, .inl rfl, rfl, .inr ⟨pc, rfl⟩, slots, rfl, id, .inl ⟨rfl, rfl⟩⟩

private theorem putStep_cases (pc : s.c.d.pc = .put) (next : putStep s = some (t, es)) :
    Turned cfg s (.run .demux) t es := by
  have kept : s.put ≠ .store ∨ ¬ 0 < s.c.d.pkt.size → lost s (.run .demux) = 0 := by
    intro not_store
    simp only [lost, lostDemux, pc]
    apply if_neg
    rintro ⟨store, data⟩
    exact not_store.elim (fun other => other store) fun none_left => none_left data
  simp only [putStep] at next
  split at next
  · rename_i leave
    cases next
    exact .called _ _ (.leave pc rfl) (kept (.inl (by simp [leave.1])))
  · split at next
    · rename_i untimed
      cases next
      exact .called _ _ (.onQueue rfl) (kept (.inl (by simp [untimed.1])))
    · split at next
      · cases next
      · rename_i alive
        rw [Bool.not_eq_false] at alive
        split at next
        · rename_i at_call
          cases next
          exact .called _ _ (.onQueue rfl) (kept (.inl (by simp [at_call])))
        · rename_i clearPc at_clear
          have other := kept (.inl (by simp [at_clear]))
          rcases clearStep_cases s.c.q clearPc with ⟨i, emptied, gave⟩ | ⟨same, gave⟩
          · rw [emptied, gave] at next
            cases next
            exact .cleared _ i _ _ alive (.inl rfl) other
          · rw [gave] at next
            cases next
            exact .called _ _ (.onQueue same) other
        · rename_i at_assign
          cases next
          exact .called _ _ (.onQueue rfl) (kept (.inl (by simp [at_assign])))
        · rename_i at_full
          cases next
          exact .called _ _ (.onQueue rfl) (kept (.inl (by simp [at_full])))
        · rename_i at_store
          split at next
          · cases next
          · split at next
            · rename_i data
              cases next
              exact .stored pc at_store alive data
            · rename_i none_left
              cases next
              exact .called _ _ (.onQueue rfl) (kept (.inr none_left))
        · rename_i at_advance
          cases next
          exact .called _ _ (.onQueue rfl) (kept (.inl (by simp [at_advance])))
        · rename_i at_count
          cases next
          exact .called _ _ (.onQueue rfl) (kept (.inl (by simp [at_count])))
        · rename_i at_enabled
          cases next
          refine .called _ _ ?_ (kept (.inl (by simp [at_enabled])))
          split
          · exact .onQueue rfl
          · exact .leave pc rfl
        · rename_i at_enable
          cases next
          exact .called _ _ (.leave pc rfl) (kept (.inl (by simp [at_enable])))

private theorem getStep_cases {garbage : AVRational} (pc : s.c.s.pc = .get)
    (next : getStep cfg s garbage = some (t, es)) : Turned cfg s (.run (.get garbage)) t es := by
  have before : (∀ pkt, s.get ≠ .unref pkt) → senderRefs s = [] := fun outside => by
    cases get : s.get with
    | unref pkt => exact absurd get (outside pkt)
    | _ => simp [senderRefs, pc, get]
  have kept : s.get ≠ .ref → lost s (.run (.get garbage)) = 0 := fun other => by
    simp [lost, other]
  -- The places of `GetVideo` at which `Run` has no packet yet.
  have goes : ∀ {sender : CSender} {get : GetPc}, (∀ pkt, s.get ≠ .unref pkt) →
      (∀ pkt, get ≠ .unref pkt) → (sender.pc = .head ∨ sender.pc = .get) →
      Quiet s { s with get := get, c := { s.c with s := sender } } := by
    intro sender get outside stays at_pc
    refine ⟨rfl, .inl rfl, rfl, .inl rfl, rfl, ?_, fun head => ?_, .inr ⟨stays, ?_⟩⟩
    · rw [before outside]
      rcases at_pc with head | asking
      · simp [senderRefs, head]
      · cases get with
        | unref pkt => exact absurd rfl (stays pkt)
        | _ => simp [senderRefs, asking]
    · exact absurd (pc.symm.trans head) SenderPc.noConfusion
    · rintro pkt sending
      rcases at_pc with head | asking
      · exact absurd (head.symm.trans sending) SenderPc.noConfusion
      · exact absurd (asking.symm.trans sending) SenderPc.noConfusion
  simp only [getStep] at next
  split at next
  · rename_i back
    cases next
    exact .called _ _ (goes (by simp [back.1]) (by simp) (.inl rfl)) (kept (by simp [back.1]))
  · split at next
    · cases next
    · rename_i alive
      rw [Bool.not_eq_false] at alive
      split at next
      · rename_i at_call
        cases next
        exact .called _ _ (goes (by simp [at_call]) (by simp) (.inr pc)) (kept (by simp [at_call]))
      · rename_i at_enabled
        cases next
        refine .called _ _ ?_ (kept (by simp [at_enabled]))
        split
        · exact goes (by simp [at_enabled]) (by simp) (.inl rfl)
        · exact goes (by simp [at_enabled]) (by simp) (.inr pc)
      · rename_i at_test
        split at next
        · cases next
        · cases next
          refine .called _ _ ?_ (kept (by simp [at_test]))
          split
          · exact goes (by simp [at_test]) (by simp) (.inr pc)
          · exact goes (by simp [at_test]) (by simp) (.inl rfl)
      · rename_i at_ref
        cases next
        exact .referred garbage pc at_ref alive
      · rename_i pkt at_unref
        cases next
        refine .handed garbage pkt _ pc at_unref alive ?_
        split
        · exact .inl ⟨‹_›, rfl⟩
        · exact .inr ⟨by omega, rfl⟩
      · cases next
      · cases next

private theorem retStep_cases {pkt : AVPacket} (pc : s.c.s.pc = .ret pkt)
    (next : retStep s pkt = some (t, es)) : Turned cfg s (.run .ret) t es := by
  have kept : s.get ≠ .idle → lost s (.run .ret) = 0 := fun inside => by simp [lost, inside]
  have other : ¬ s.c.s.pc = .head := by
    rw [pc]
    exact SenderPc.noConfusion
  simp only [retStep] at next
  split at next
  · rename_i back
    cases next
    have same : s.get = .idle := back.1
    rw [← same]
    exact .noRet pkt pc back.1 back.2
  · split at next
    · cases next
    · rename_i alive
      rw [Bool.not_eq_false] at alive
      split at next
      · rename_i at_call
        split at next
        · cases next
        · cases next
          exact .gaveBack pkt pc at_call alive
      · rename_i at_advance
        cases next
        refine .called _ _ ?_ (kept (by simp [at_advance]))
        refine ⟨rfl, .inl rfl, rfl, .inl rfl, rfl, ?_, fun head => absurd head other,
          .inr ⟨nofun, by simp [pc]⟩⟩
        simp [senderRefs, pc, at_advance]
      · rename_i at_count
        cases next
        refine .called _ _ ?_ (kept (by simp [at_count]))
        refine ⟨rfl, .inl rfl, rfl, .inl rfl, rfl, ?_, fun head => absurd head other,
          .inr ⟨nofun, nofun⟩⟩
        simp [senderRefs, pc, at_count]
      · cases next

theorem holding_cases (next : holding cfg s a = some (t, es)) :
    s.destroyed = false ∧ Turned cfg s a t es := by
  simp only [holding] at next
  split at next
  · cases next
  · rename_i here
    refine ⟨Bool.eq_false_iff.mpr here, ?_⟩
    cases a with
    | run a =>
      cases a with
      | demux =>
        simp only at next
        split at next
        · exact putStep_cases ‹_› next
        · rename_i outside
          obtain ⟨c, events, taken, rfl, rfl⟩ := runStep_cases next
          exact .ran _ c events taken (fun _ => outside) (fun _ _ => Act.noConfusion)
            (fun _ => Act.noConfusion) Act.noConfusion
      | clock now₁ now₂ =>
        simp only at next
        split at next
        · cases next
        · rename_i running
          obtain ⟨c, events, taken, rfl, rfl⟩ := runStep_cases next
          exact .ran _ c events taken Act.noConfusion (fun _ _ _ => Bool.eq_false_iff.mpr running)
            (fun _ => Act.noConfusion) Act.noConfusion
      | get garbage =>
        simp only at next
        split at next
        · exact getStep_cases ‹_› next
        · cases next
      | ret =>
        simp only at next
        split at next
        · exact retStep_cases ‹_› next
        · cases next
      | _ =>
        obtain ⟨c, events, taken, rfl, rfl⟩ := runStep_cases next
        exact .ran _ c events taken Act.noConfusion (fun _ _ => Act.noConfusion)
          (fun _ => Act.noConfusion) Act.noConfusion
    | senderExit =>
      simp only at next
      split at next
      · cases next
        exact .senderExit ‹_›
      · cases next
    | deleteQueue =>
      simp only at next
      split at next
      · rename_i ready
        cases next
        exact .deleteQueue ready.1 ready.2
      · cases next
    | clearQueue =>
      simp only at next
      split at next
      · rename_i pc clearing
        have alive : s.queue.alive = true := by rw [clearing]; rfl
        have down : s.queue ≠ .set ∧ (QueuePtr.clearing pc.next).alive = true ∧
            QueuePtr.clearing pc.next ≠ .set := by simp [clearing, QueuePtr.alive]
        rcases clearStep_cases s.c.q pc with ⟨i, emptied, gave⟩ | ⟨same, gave⟩
        · rw [emptied, gave] at next
          cases next
          exact .cleared _ i _ _ alive (.inr down) rfl
        · rw [gave] at next
          cases next
          exact .called _ _
            ⟨rfl, .inr ⟨down.1, alive, down.2⟩, rfl, .inl rfl, same, rfl, id, .inl ⟨rfl, rfl⟩⟩ rfl
      · cases next
    | freeQueue =>
      simp only at next
      split at next
      · cases next
        exact .freeQueue ‹_›
      · cases next
    | nullQueue =>
      simp only at next
      split at next
      · cases next
        exact .nullQueue ‹_›
      · cases next
    | senderReturn =>
      simp only at next
      split at next
      · rename_i ready
        cases next
        exact .senderReturn ready.1 ready.2
      · cases next
    | destroy =>
      simp only at next
      split at next
      · rename_i ready
        cases next
        exact .destroy ready.1 ready.2.1 ready.2.2
      · cases next

end Inversion

section Uncut

variable {cfg : Config} {s t u : Holding} {a : HoldAct}

/-- The thread of `a` gets from one state to the other with no step of another in between. -/
def Uncut (cfg : Config) (a : HoldAct) (s t : Holding) : Prop :=
  ∃ n es, Run (holding cfg) s (List.replicate n a) es t

theorem Uncut.refl (cfg : Config) (a : HoldAct) (s : Holding) : Uncut cfg a s s := ⟨0, [], .nil⟩

theorem Uncut.head (next : (holding cfg s a).map Prod.fst = some t) (rest : Uncut cfg a t u) :
    Uncut cfg a s u := by
  obtain ⟨⟨m, es⟩, step, rfl⟩ := Option.map_eq_some_iff.mp next
  obtain ⟨n, fs, run⟩ := rest
  exact ⟨n + 1, es ++ fs, Run.cons step run⟩

theorem Uncut.last (next : (holding cfg s a).map Prod.fst = some t) : Uncut cfg a s t :=
  .head next (.refl cfg a t)

theorem Uncut.trans (first : Uncut cfg a s t) (second : Uncut cfg a t u) : Uncut cfg a s u := by
  obtain ⟨m, es, before⟩ := first
  obtain ⟨n, fs, behind⟩ := second
  refine ⟨m + n, es ++ fs, ?_⟩
  rw [List.replicate_add]
  exact before.trans behind

/-- `Demux` is in `PutVideo`, of a queue that is there. -/
structure Putting (s : Holding) : Prop where
  here : s.destroyed = false
  pc : s.c.d.pc = .put
  alive : s.queue.alive = true

theorem Putting.step (h : Putting s) (step : (putStep s).map Prod.fst = some t) :
    (holding cfg s (.run .demux)).map Prod.fst = some t := by
  simp only [holding, h.here, h.pc, if_true, Bool.false_eq_true, if_false]
  exact step

def emptiedBelow (q : CQueue) (n : ℕ) : CQueue :=
  { q with pkt := fun i => if i.val < n then .blank else q.pkt i }

private theorem clearStep_unref (q : CQueue) (i : Fin maxNumQueue) :
    clearStep (emptiedBelow q i.val) (.unref i) = emptiedBelow q (i.val + 1) := by
  simp only [clearStep, emptiedBelow, CQueue.mk.injEq, and_true, true_and]
  funext j
  by_cases here : j = i
  · subst here
    simp
  · have other : j.val ≠ i.val := fun same => here (Fin.ext same)
    have same : j.val < i.val + 1 ↔ j.val < i.val := by omega
    simp only [Function.update_of_ne here, same]

/-- `Demux` in `PutVideo`, with this queue. -/
def inPut (s : Holding) (put : PutPc) (q : CQueue) : Holding :=
  { s with put := put, c := { s.c with q := q } }

private theorem inPut_clear (h : Putting s) (pc : ClearPc) (q : CQueue) :
    Uncut cfg (.run .demux) (inPut s (.clear pc) q)
      (inPut s (pc.next.elim .assign .clear) (clearStep q pc)) := by
  have there : Putting (inPut s (.clear pc) q) := ⟨h.here, h.pc, h.alive⟩
  exact .last (there.step (by simp [putStep, inPut, h.alive]))

private theorem inPut_unref (h : Putting s) (q : CQueue) (n : ℕ) (bound : n < maxNumQueue) :
    Uncut cfg (.run .demux) (inPut s (.clear (.unref 0)) q)
      (inPut s (.clear (.unref ⟨n, bound⟩)) (emptiedBelow q n)) := by
  induction n with
  | zero => exact .refl ..
  | succ n ih =>
    have before : n < maxNumQueue := by omega
    have turn := @inPut_clear cfg s h (.unref ⟨n, before⟩) (emptiedBelow q n)
    have goes : (ClearPc.unref ⟨n, before⟩).next = some (.unref ⟨n + 1, bound⟩) := dif_pos bound
    rw [goes, clearStep_unref q ⟨n, before⟩] at turn
    exact (ih before).trans turn

private theorem clear_uncut (h : Putting s) (q : CQueue) :
    Uncut cfg (.run .demux) (inPut s (.clear (.unref 0)) q) (inPut s .assign q.clear) := by
  have last : 119 < maxNumQueue := by decide
  have slots := (inPut_unref h q 119 last).trans (@inPut_clear cfg s h (.unref ⟨119, last⟩) _)
  rw [clearStep_unref q ⟨119, last⟩] at slots
  have empty : emptiedBelow q 120 = { q with pkt := fun _ => .blank } := by
    simp [emptiedBelow]
  rw [empty] at slots
  have audio := (slots.trans (inPut_clear h .audio _)).trans (inPut_clear h .rewindRead _)
  exact ((audio.trans (inPut_clear h .rewindWrite _)).trans (inPut_clear h .disable _)).trans
    (inPut_clear h .recount _)

private theorem restart_uncut (h : Putting s) (q : CQueue) (bExit : s.c.d.bExit = false)
    (pts : -1 < s.c.d.pkt.pts) :
    Uncut cfg (.run .demux) (inPut s .idle q) (inPut s .full (q.restart s.c.d.seekPts)) := by
  have assign : ∀ q : CQueue, Uncut cfg (.run .demux) (inPut s .assign q)
      (inPut s .full { q with startPts := s.c.d.seekPts }) := by
    intro q
    have there : Putting (inPut s .assign q) := ⟨h.here, h.pc, h.alive⟩
    exact .last (there.step (by simp [putStep, inPut, h.alive]))
  have there : Putting (inPut s .idle q) := ⟨h.here, h.pc, h.alive⟩
  by_cases same : q.startPts = s.c.d.seekPts
  · refine .head (t := inPut s .assign q) (there.step ?_) ?_
    · simp [putStep, inPut, h.alive, bExit, pts, same]
    · simpa [CQueue.restart, same] using assign q
  · refine .head (t := inPut s (.clear (.unref 0)) q) (there.step ?_) ?_
    · simp [putStep, inPut, h.alive, bExit, pts, same]
    · simpa [CQueue.restart, same] using (clear_uncut h q).trans (assign q.clear)

/-- The loop around `PutVideo` is left. -/
def outOfPut (s : Holding) (q : CQueue) : Holding :=
  { s with put := .idle, c := { s.c with q := q, d := { s.c.d with pc := .testMove } } }

private theorem store_uncut (h : Putting s) (q : CQueue) (free : s.get.locked = false)
    (data : 0 < s.c.d.pkt.size) :
    Uncut cfg (.run .demux) (inPut s .store q) (outOfPut s (q.store s.c.d.pkt)) := by
  have there : ∀ put q, Putting (inPut s put q) := fun put q => ⟨h.here, h.pc, h.alive⟩
  let written := { q with pkt := Function.update q.pkt q.nWritePos s.c.d.pkt }
  let advanced := { written with nWritePos := Lib.RingWindow.advance q.nWritePos }
  let counted := { advanced with nPacket := q.nPacket + 1 }
  have store : (putStep (inPut s .store q)).map Prod.fst = some (inPut s .advance written) := by
    simp [putStep, inPut, h.alive, free, data, written]
  have advance : (putStep (inPut s .advance written)).map Prod.fst =
      some (inPut s .count advanced) := by simp [putStep, inPut, h.alive, advanced, written]
  have count : (putStep (inPut s .count advanced)).map Prod.fst =
      some (inPut s .enabled counted) := by
    simp [putStep, inPut, h.alive, counted, advanced, written]
  refine .head ((there _ _).step store) (.head ((there _ _).step advance)
    (.head ((there _ _).step count) ?_))
  by_cases moved : 0 < (Lib.RingWindow.advance q.nWritePos).val
  · have enabled : (putStep (inPut s .enabled counted)).map Prod.fst =
        some (inPut s .enable counted) := by
      simp [putStep, inPut, h.alive, counted, advanced, moved]
    refine .head ((there _ _).step enabled) (.last ((there _ _).step ?_))
    simp [putStep, inPut, h.alive, outOfPut, counted, advanced, written, CQueue.store,
      CQueue.enable, moved]
  · refine .last ((there _ _).step ?_)
    simp [putStep, inPut, h.alive, outOfPut, counted, advanced, written, CQueue.store, moved]

/-- With nothing in between, the loop around `PutVideo` takes the turn of the channel. -/
private theorem put_uncut {c : State} {es : List Event} (h : Putting s) (idle : s.put = .idle)
    (free : s.get.locked = false) (turn : Channel.put s.c = some (c, es)) :
    Uncut cfg (.run .demux) s { s with c := c } := by
  have here : s = inPut s .idle s.c.q := by rw [← idle]; rfl
  simp only [Channel.put] at turn
  split at turn
  · rename_i exit
    cases turn
    exact .last (h.step (by simp [putStep, idle, exit]))
  · rename_i running
    rw [Bool.not_eq_true] at running
    split at turn
    · rename_i pts
      have restarted := @restart_uncut cfg s h s.c.q running pts
      rw [← here] at restarted
      refine restarted.trans ?_
      have there : ∀ put q, Putting (inPut s put q) := fun put q => ⟨h.here, h.pc, h.alive⟩
      have same : ∀ q, inPut s .idle q = { s with c := { s.c with q := q } } := fun q => by
        rw [← idle]
        rfl
      simp only [CQueue.putVideo] at turn
      by_cases full : (maxNumQueue : ℤ) ≤ (s.c.q.restart s.c.d.seekPts).nPacket
      · simp only [full, if_true, lt_irrefl, if_false] at turn
        cases turn
        rw [← same]
        have reached : (120 : ℤ) ≤ (s.c.q.restart s.c.d.seekPts).nPacket := full
        exact .last ((there _ _).step (by simp [putStep, inPut, h.alive, reached]))
      · refine .head (t := inPut s .store (s.c.q.restart s.c.d.seekPts)) ((there _ _).step ?_) ?_
        · have room : ¬ (120 : ℤ) ≤ (s.c.q.restart s.c.d.seekPts).nPacket := full
          simp [putStep, inPut, h.alive, room]
        · by_cases data : 0 < s.c.d.pkt.size
          · simp only [full, if_false, data, if_true, Int.natCast_pos] at turn
            cases turn
            have stored := @store_uncut cfg s h (s.c.q.restart s.c.d.seekPts) free data
            simpa only [outOfPut, ← idle] using stored
          · simp only [full, data, if_false, lt_irrefl] at turn
            cases turn
            rw [← same]
            exact .last ((there _ _).step (by simp [putStep, inPut, h.alive, free, data]))
    · rename_i untimed
      cases turn
      exact .refl ..

/-- With nothing in between, `Run` takes its turn with `GetVideo`. -/
private theorem get_uncut {c : State} {es : List Event} {garbage : AVRational}
    (here : s.destroyed = false)
    (set : s.queue = .set) (idle : s.get = .idle) (free : s.put.locked = false)
    (turn : runGet cfg s.c garbage = some (c, es)) :
    Uncut cfg (.run (.get garbage)) s { s with c := c } := by
  have step : ∀ {s t : Holding}, s.destroyed = false → s.c.s.pc = .get →
      (getStep cfg s garbage).map Prod.fst = some t →
      (holding cfg s (.run (.get garbage))).map Prod.fst = some t := fun here pc step => by
    simp only [holding, here, pc, if_true, Bool.false_eq_true, if_false]
    exact step
  have alive : s.queue.alive = true := by
    rw [set]
    rfl
  simp only [runGet] at turn
  split at turn
  · rename_i pc
    split at turn
    · rename_i null
      cases turn
      exact .last (step here pc (by simp [getStep, idle, null]))
    · rename_i open_context
      let asked := { s with get := .enabled, c := { s.c with
        s := { s.c.s with seekPts := s.c.q.startPts } } }
      have call : (getStep cfg s garbage).map Prod.fst = some asked := by
        simp [getStep, idle, set, open_context, QueuePtr.alive, asked]
      refine .head (step here pc call) ?_
      simp only [CQueue.getVideo] at turn
      by_cases enabled : s.c.q.bEnable = false
      · rw [if_pos enabled] at turn
        cases turn
        refine .last (step here pc ?_)
        simp [getStep, asked, alive, enabled, idle]
      · rw [if_neg enabled] at turn
        refine .head (t := { asked with get := .test }) (step here pc ?_) ?_
        · simp [getStep, asked, alive, enabled]
        · by_cases data : 0 < (s.c.q.pkt s.c.q.nReadPos).size
          · rw [if_pos data] at turn
            cases turn
            refine .head (t := { asked with get := .ref }) (step here pc ?_) ?_
            · simp [getStep, asked, alive, free, data]
            · refine .head (t := { asked with get := .unref (s.c.q.pkt s.c.q.nReadPos) })
                (step here pc ?_) (.last (step here pc ?_))
              · simp [getStep, asked, alive]
              · simp [getStep, asked, alive, data, idle, derefTimeBase]
          · rw [if_neg data] at turn
            cases turn
            refine .last (step here pc ?_)
            simp [getStep, asked, alive, free, data, idle]
  · cases turn

/-- With nothing in between, `Run` takes its turn with `RetVideo`. -/
private theorem ret_uncut {c : State} {es : List Event} (here : s.destroyed = false)
    (set : s.queue = .set)
    (idle : s.get = .idle) (free : s.put.locked = false) (turn : runRet s.c = some (c, es)) :
    Uncut cfg (.run .ret) s { s with c := c } := by
  obtain ⟨pkt, pc, -, rfl⟩ := ret_cases turn
  have step : ∀ {s t : Holding} {pkt : AVPacket}, s.destroyed = false → s.c.s.pc = .ret pkt →
      (retStep s pkt).map Prod.fst = some t →
      (holding cfg s (.run .ret)).map Prod.fst = some t := fun here pc step => by
    simp only [holding, here, pc, Bool.false_eq_true, if_false]
    exact step
  have alive : s.queue.alive = true := by
    rw [set]
    rfl
  let released := { s with
    get := .advance
    c := { s.c with s := { s.c.s with pc := .ret .blank } } }
  let advanced := { released with get := .count, c := { released.c with q := { s.c.q with
    nReadPos := Lib.RingWindow.advance s.c.q.nReadPos } } }
  refine .head (t := released) (step here pc ?_) (.head (t := advanced) (step here rfl ?_)
    (.last (step here rfl ?_)))
  · simp [retStep, idle, set, free, QueuePtr.alive, released]
  · simp [retStep, alive, released, advanced]
  · simp [retStep, alive, released, advanced, CQueue.retVideo, idle]

end Uncut

end Tsender.Channel.CutCalls
