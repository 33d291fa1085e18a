/- Tsender/Channel/Playback
   digest: Without a command, what the sender hands to the network is a prefix of the recording:
   demux thread, ring and sender thread together refine one bounded list. -/

import Tsender.Channel.Steps

set_option autoImplicit false
set_option relaxedAutoImplicit false

namespace Tsender.Channel.Playback

open Lib.Transition Queue

/-- What is in a packet, whatever buffer it is in. -/
def contents (pkt : AVPacket) : Payload := ⟨pkt.data, pkt.pts⟩

/-- The packets of a file that come out of the filter with data in them. -/
def delivered (cfg : Config) (packets : List Payload) : List Payload :=
  (packets.filterMap cfg.filter).filter fun p => 0 < p.data.length

/-- The packets of the files from the `n`-th on, up to the first file with frame count 0. -/
def following (cfg : Config) (n : ℕ) : List Payload :=
  ((cfg.files.drop n).takeWhile fun file => file.frame ≠ 0).flatMap fun file =>
    delivered cfg file.packets

def recording (cfg : Config) : List Payload := following cfg 0

/-- The packets handed to `send_bitstream`, in order. -/
def sentPackets (es : List Event) : List AVPacket :=
  es.filterMap fun
    | .sent pkt => some pkt
    | _ => none

/-- The packet between `GetVideo` and `RetVideo`. -/
def out : SenderPc → Option AVPacket
  | .send pkt | .ret pkt => some pkt
  | .head | .get => none

/-- A bounded FIFO between the recording and the network. -/
structure IsFifo (cfg : Config) (es : List Event) (c : State) : Prop where
  sent : (sentPackets es).map contents <+: recording cfg
  refused : ∀ (c' : State) (fs : List Event),
    step cfg c .demux = some (c', fs) → .refused ∈ fs → c'.q = c.q
  count : 0 ≤ c.q.nPacket ∧ c.q.nPacket ≤ maxNumQueue
  write : (c.q.nWritePos.val : ℤ) = ((c.q.nReadPos.val : ℤ) + c.q.nPacket) % maxNumQueue
  next : out c.s.pc = none → 0 < c.q.nPacket → ∃ pkt, c.q.getVideo.2.2 = some pkt

section Files

variable {cfg : Config} {n : ℕ} {file : File} {payload p : Payload} {rest : List Payload}

private theorem delivered_dropped (filtered : cfg.filter payload = none) :
    delivered cfg (payload :: rest) = delivered cfg rest := by
  simp [delivered, filtered]

private theorem delivered_empty (filtered : cfg.filter payload = some p)
    (empty : ¬0 < p.data.length) : delivered cfg (payload :: rest) = delivered cfg rest := by
  simp only [delivered, List.filterMap_cons, filtered]
  exact List.filter_cons_of_neg (by simpa using empty)

private theorem delivered_data (filtered : cfg.filter payload = some p) (data : 0 < p.data.length) :
    delivered cfg (payload :: rest) = p :: delivered cfg rest := by
  simp only [delivered, List.filterMap_cons, filtered]
  exact List.filter_cons_of_pos (by simpa using data)

private theorem following_open (found : fileAt cfg n = some file) (frames : file.frame ≠ 0) :
    following cfg n = delivered cfg file.packets ++ following cfg (n + 1) := by
  have found : cfg.files[n]? = some file := by simpa [fileAt] using found
  obtain ⟨bound, rfl⟩ := List.getElem?_eq_some_iff.mp found
  unfold following
  rw [List.drop_eq_getElem_cons bound, List.takeWhile_cons_of_pos (by simpa using frames),
    List.flatMap_cons]

end Files

/-- What `Demux` has still to read, as far as it goes on at all. -/
def Later (cfg : Config) (d : CDemuxer) (later : List Payload) : Prop :=
  match d.pc with
  | .done => True
  | .fileTop => ∃ n : ℕ, d.i = n ∧ later = following cfg n
  | .fileEnd => ∃ n : ℕ, d.i = n ∧ later = following cfg (n + 1)
  | .clearMove | .readMove | .doSeek | .clearSeek => False
  | .testMove | .testSeek | .reverse | .readFrame | .put =>
      ∃ (n : ℕ) (ctx : AVFormatContext), d.i = n ∧ d.fmtCtx = some ctx ∧
        later = delivered cfg ctx.rest ++ following cfg (n + 1)

/-- The packet in the loop around `PutVideo`. -/
def offered (d : CDemuxer) : List AVPacket := if d.pc = .put then [d.pkt] else []

/-- The packet handed out and not yet handed to `send_bitstream`. -/
def unsent : SenderPc → List AVPacket
  | .send pkt => [pkt]
  | .head | .get | .ret _ => []

structure Undisturbed (c : State) : Prop where
  playing : c.d.bExit = false
  move : c.d.isMove = false
  seek : c.d.nSeekFrame = 0
  ahead : c.d.bIsRerverse = false
  queueEpoch : c.q.startPts = 0
  demuxEpoch : c.d.seekPts = 0
  senderEpoch : c.s.seekPts = 0
  senderOldEpoch : c.s.seekOldPts = 0
  skip : c.s.skipCnt = 0

/-- Every packet of the recording is sent, handed out, waiting, offered, or still to be read,
in this order. -/
structure Feeding (cfg : Config) (es : List Event) (c : State) (waiting : List AVPacket)
    (later : List Payload) : Prop where
  undisturbed : Undisturbed c
  holds : Holds c.q (out c.s.pc).isSome waiting
  fifo : (sentPackets es ++ unsent c.s.pc ++ waiting ++ offered c.d).map contents ++ later =
    recording cfg
  later : Later cfg c.d later
  data : c.d.pc = .put → 0 < c.d.pkt.size

def Fed (cfg : Config) (es : List Event) (c : State) : Prop :=
  ∃ waiting later, Feeding cfg es c waiting later

theorem feeding_start (cfg : Config) :
    Feeding cfg [] (.start cfg) [] (recording cfg) where
  undisturbed := ⟨rfl, rfl, rfl, rfl, rfl, rfl, rfl, rfl, rfl⟩
  holds := holds_new
  fifo := rfl
  later := ⟨0, rfl, rfl⟩
  data := by simp [State.start]

section Steps

variable {cfg : Config} {es fs : List Event} {c c' : State} {waiting : List AVPacket}
  {later later' : List Payload}

private theorem sentPackets_append (es fs : List Event) :
    sentPackets (es ++ fs) = sentPackets es ++ sentPackets fs := List.filterMap_append

/-- A step of `Demux` that leaves the queue alone. -/
private theorem Feeding.goOn {d : CDemuxer} {ptr : CtxPtr} (h : Feeding cfg es c waiting later)
    (silent : sentPackets fs = [])
    (same : d.bExit = c.d.bExit ∧ d.isMove = c.d.isMove ∧ d.nSeekFrame = c.d.nSeekFrame ∧
      d.bIsRerverse = c.d.bIsRerverse ∧ d.seekPts = c.d.seekPts)
    (fifo : (offered d).map contents ++ later' = (offered c.d).map contents ++ later)
    (next : Later cfg d later') (data : d.pc = .put → 0 < d.pkt.size) :
    Feeding cfg (es ++ fs) { c with d := d, s := { c.s with fmtCtx := ptr } } waiting later' where
  undisturbed := {
    playing := same.1.trans h.undisturbed.playing
    move := same.2.1.trans h.undisturbed.move
    seek := same.2.2.1.trans h.undisturbed.seek
    ahead := same.2.2.2.1.trans h.undisturbed.ahead
    queueEpoch := h.undisturbed.queueEpoch
    demuxEpoch := same.2.2.2.2.trans h.undisturbed.demuxEpoch
    senderEpoch := h.undisturbed.senderEpoch
    senderOldEpoch := h.undisturbed.senderOldEpoch
    skip := h.undisturbed.skip }
  holds := h.holds
  fifo := by
    have before := h.fifo
    rw [List.map_append, List.append_assoc] at before ⊢
    rw [fifo, sentPackets_append, silent, List.append_nil]
    exact before
  later := next
  data := data

private theorem Feeding.putVideo_cases (h : Feeding cfg es c waiting later) (pc : c.d.pc = .put) :
    c.q.putVideo c.d.pkt c.d.seekPts = (c.q, 0) ∨
      0 < (c.q.putVideo c.d.pkt c.d.seekPts).2 ∧
        Holds (c.q.putVideo c.d.pkt c.d.seekPts).1 (out c.s.pc).isSome
          (waiting ++ [c.d.pkt]) := by
  have same : c.q.startPts = c.d.seekPts := by
    rw [h.undisturbed.queueEpoch, h.undisturbed.demuxEpoch]
  rcases h.holds.bound.lt_or_eq with room | full
  · obtain ⟨put, held⟩ := putVideo_room h.holds same room (h.data pc)
    have positive : (0 : ℤ) < c.d.pkt.size := by exact_mod_cast h.data pc
    rw [put]
    exact .inr ⟨positive, held⟩
  · exact .inl (putVideo_full h.holds same full)

private theorem feeding_accepted (h : Feeding cfg es c waiting later) (pc : c.d.pc = .put)
    (size : 0 < (c.q.putVideo c.d.pkt c.d.seekPts).2) :
    Feeding cfg (es ++ [.accepted c.d.pkt])
      { c with
        d := { c.d with pc := .testMove }
        q := (c.q.putVideo c.d.pkt c.d.seekPts).1 } (waiting ++ [c.d.pkt]) later := by
  rcases h.putVideo_cases pc with full | ⟨-, held⟩
  · rw [full] at size
    exact absurd size (lt_irrefl 0)
  · have epoch : (c.q.putVideo c.d.pkt c.d.seekPts).1.startPts = 0 := by
      rw [startPts_putVideo, h.undisturbed.demuxEpoch]
    have fifo := h.fifo
    simp only [offered, pc, if_true] at fifo
    exact {
      undisturbed := { h.undisturbed with queueEpoch := epoch }
      holds := held
      fifo := by simpa [sentPackets, offered] using fifo
      later := by simpa only [Later, pc] using h.later
      data := by simp }

theorem feeding_demux (h : Feeding cfg es c waiting later) (go : Demuxed cfg c c' fs) :
    Fed cfg (es ++ fs) c' := by
  have next := h.later
  cases go with
  | stopped pc =>
    exact ⟨waiting, later, h.goOn rfl ⟨rfl, rfl, rfl, rfl, rfl⟩ (by simp [offered, pc])
      trivial (by simp)⟩
  | unfiltered pc file found first =>
    exact ⟨waiting, later, h.goOn rfl ⟨rfl, rfl, rfl, rfl, rfl⟩ (by simp [offered, pc])
      trivial (by simp)⟩
  | opened pc file found frames =>
    simp only [Later, pc] at next
    obtain ⟨n, index, rfl⟩ := next
    refine ⟨waiting, delivered cfg file.packets ++ following cfg (n + 1), h.goOn rfl
      ⟨rfl, rfl, rfl, rfl, rfl⟩ ?_ ⟨n, _, index, rfl, rfl⟩ (by simp)⟩
    simp [offered, pc, following_open (index ▸ found) frames]
  | left pc exit => exact absurd exit (by simp [h.undisturbed.playing])
  | foundMove pc move => exact absurd move (by simp [h.undisturbed.move])
  | noMove pc stay =>
    exact ⟨waiting, later, h.goOn rfl ⟨rfl, rfl, rfl, rfl, rfl⟩ (by simp [offered, pc])
      (by simpa only [Later, pc] using next) (by simp)⟩
  | clearedMove pc => simp [Later, pc] at next
  | moved pc i index => simp [Later, pc] at next
  | foundSeek pc seek => exact absurd seek (by simp [h.undisturbed.seek])
  | passed pc no_seek =>
    exact ⟨waiting, later, h.goOn rfl ⟨rfl, rfl, rfl, rfl, rfl⟩ (by simp [offered, pc])
      (by simpa only [Later, pc] using next) (by simp)⟩
  | sought pc => simp [Later, pc] at next
  | soughtFar pc => simp [Later, pc] at next
  | clearedSeek pc => simp [Later, pc] at next
  | turned pc back => exact absurd back (by simp [h.undisturbed.ahead])
  | forward pc ahead =>
    exact ⟨waiting, later, h.goOn rfl ⟨rfl, rfl, rfl, rfl, rfl⟩ (by simp [offered, pc])
      (by simpa only [Later, pc] using next) (by simp)⟩
  | ended pc ctx context rest =>
    simp only [Later, pc] at next
    obtain ⟨n, _, index, same, rfl⟩ := next
    obtain rfl := Option.some.inj (context.symm.trans same)
    exact ⟨waiting, following cfg (n + 1), h.goOn rfl ⟨rfl, rfl, rfl, rfl, rfl⟩
      (by simp [offered, pc, rest, delivered]) ⟨n, index, rfl⟩ (by simp)⟩
  | dropped pc ctx payload rest first context front filtered =>
    simp only [Later, pc] at next
    obtain ⟨n, _, index, same, rfl⟩ := next
    obtain rfl := Option.some.inj (context.symm.trans same)
    refine ⟨waiting, delivered cfg rest ++ following cfg (n + 1), h.goOn rfl
      ⟨rfl, rfl, rfl, rfl, rfl⟩ ?_ ⟨n, _, index, rfl, rfl⟩ (by simp)⟩
    simp [offered, pc, front, delivered_dropped filtered]
  | read pc ctx payload p rest first context front filtered =>
    simp only [Later, pc] at next
    obtain ⟨n, _, index, same, rfl⟩ := next
    obtain rfl := Option.some.inj (context.symm.trans same)
    refine ⟨waiting, delivered cfg rest ++ following cfg (n + 1), ?_⟩
    by_cases data : 0 < p.data.length
    · simp only [if_pos data]
      refine h.goOn rfl ⟨rfl, rfl, rfl, rfl, rfl⟩ ?_ ⟨n, _, index, rfl, rfl⟩ fun _ => data
      simp [offered, pc, front, delivered_data filtered data, contents]
    · simp only [if_neg data]
      refine h.goOn rfl ⟨rfl, rfl, rfl, rfl, rfl⟩ ?_ ⟨n, _, index, rfl, rfl⟩ (by simp)
      simp [offered, pc, front, delivered_empty filtered data]
  | putExit pc exit => exact absurd exit (by simp [h.undisturbed.playing])
  | accepted pc size => exact ⟨_, _, feeding_accepted h pc size⟩
  | refused pc size =>
    rcases h.putVideo_cases pc with full | ⟨room, -⟩
    · rw [full]
      exact ⟨waiting, later, h.undisturbed, h.holds, by simpa [sentPackets] using h.fifo, next,
        h.data⟩
    · exact absurd room size
  | stuck pc => exact ⟨waiting, later, by simpa using h⟩
  | closed pc =>
    simp only [Later, pc] at next
    obtain ⟨n, index, rfl⟩ := next
    exact ⟨waiting, _, h.goOn rfl ⟨rfl, rfl, rfl, rfl, rfl⟩ (by simp [offered, pc])
      ⟨n + 1, by push_cast; rw [index], rfl⟩ (by simp)⟩

private theorem Feeding.serve {q : CQueue} {s : CSender} {waiting' : List AVPacket}
    (h : Feeding cfg es c waiting later) (holds : Holds q (out s.pc).isSome waiting')
    (epoch : q.startPts = 0 ∧ s.seekPts = 0 ∧ s.seekOldPts = 0 ∧ s.skipCnt = 0)
    (fifo : sentPackets fs ++ unsent s.pc ++ waiting' = unsent c.s.pc ++ waiting) :
    Feeding cfg (es ++ fs) { c with q := q, s := s } waiting' later where
  undisturbed := { h.undisturbed with
    queueEpoch := epoch.1
    senderEpoch := epoch.2.1
    senderOldEpoch := epoch.2.2.1
    skip := epoch.2.2.2 }
  holds := holds
  fifo := by
    have before := h.fifo
    rw [sentPackets_append, List.append_assoc (sentPackets es), List.append_assoc (sentPackets es),
      fifo]
    simpa only [List.append_assoc] using before
  later := h.later
  data := h.data

theorem feeding_clock {now₁ now₂ : ℤ} (h : Feeding cfg es c waiting later)
    (go : runHead cfg c now₁ now₂ = some (c', fs)) : Feeding cfg (es ++ fs) c' waiting later := by
  obtain ⟨pc, rfl, s, rfl, at_rest, seekPts, seekOldPts, skip⟩ := clock_cases go
  have old := h.undisturbed.senderOldEpoch
  have now := h.undisturbed.senderEpoch
  have idle : out s.pc = none ∧ unsent s.pc = [] := by
    rcases at_rest with get | head
    · simp [out, unsent, get]
    · simp [out, unsent, head]
  refine h.serve ?_ ⟨h.undisturbed.queueEpoch, seekPts.trans now, seekOldPts.trans now,
    (skip (now.trans old.symm)).trans h.undisturbed.skip⟩ ?_
  · rw [idle.1]
    simpa [pc, out] using h.holds
  · rw [idle.2]
    simp [pc, unsent, sentPackets]

theorem feeding_get {garbage : AVRational} (h : Feeding cfg es c waiting later)
    (go : runGet cfg c garbage = some (c', fs)) :
    ∃ waiting', Feeding cfg (es ++ fs) c' waiting' later := by
  obtain ⟨pc, cases⟩ := get_cases go
  have idle : Holds c.q false waiting := by simpa [pc, out] using h.holds
  have epoch := h.undisturbed.queueEpoch
  have old := h.undisturbed.senderOldEpoch
  have skip := h.undisturbed.skip
  cases waiting with
  | nil =>
    have got := getVideo_empty idle
    rcases cases with ⟨rfl, rfl⟩ | ⟨rfl, -, rfl⟩ | ⟨pkt, timeBase, -, some_got, -⟩
    · exact ⟨[], h.serve idle ⟨epoch, h.undisturbed.senderEpoch, old, skip⟩ (by simp [pc, unsent,
        sentPackets])⟩
    · rw [got]
      exact ⟨[], h.serve idle ⟨epoch, epoch, old, skip⟩ (by simp [pc, unsent, sentPackets])⟩
    · rw [got] at some_got
      cases some_got
  | cons pkt rest =>
    obtain ⟨got, held⟩ := getVideo_head idle
    rcases cases with ⟨rfl, rfl⟩ | ⟨-, none_got, -⟩ | ⟨pkt', timeBase, rfl, some_got, rfl⟩
    · exact ⟨_, h.serve idle ⟨epoch, h.undisturbed.senderEpoch, old, skip⟩ (by simp [pc, unsent,
        sentPackets])⟩
    · rw [got] at none_got
      cases none_got
    · rw [got] at some_got ⊢
      obtain rfl := Option.some.inj some_got
      exact ⟨rest, h.serve held ⟨epoch, epoch, old, skip⟩ (by simp [pc, unsent, sentPackets])⟩

theorem feeding_send (h : Feeding cfg es c waiting later) (go : runSend c = some (c', fs)) :
    Feeding cfg (es ++ fs) c' waiting later := by
  obtain ⟨pkt, s, pc, rfl, pc', seekPts, seekOldPts, cases⟩ := send_cases go
  rcases cases with ⟨-, rfl, skip⟩ | ⟨skips, -, -⟩
  · refine h.serve ?_ ⟨h.undisturbed.queueEpoch, seekPts.trans h.undisturbed.senderEpoch,
      seekOldPts.trans h.undisturbed.senderOldEpoch, skip.trans h.undisturbed.skip⟩ ?_
    · simpa [pc, pc', out] using h.holds
    · simp [pc, pc', unsent, sentPackets]
  · rw [h.undisturbed.skip] at skips
    exact absurd skips (lt_irrefl 0)

theorem feeding_ret (h : Feeding cfg es c waiting later) (go : runRet c = some (c', fs)) :
    Feeding cfg (es ++ fs) c' waiting later := by
  obtain ⟨pkt, pc, rfl, rfl⟩ := ret_cases go
  have taken : Holds c.q true waiting := by simpa [pc, out] using h.holds
  refine h.serve (holds_retVideo taken) ⟨h.undisturbed.queueEpoch, h.undisturbed.senderEpoch,
    h.undisturbed.senderOldEpoch, h.undisturbed.skip⟩ ?_
  simp [pc, unsent, sentPackets]

/-- Every step of the two threads keeps the recording in its order. -/
theorem fed_step {a : Act} (plays : a.plays = true) (h : Fed cfg es c)
    (go : step cfg c a = some (c', fs)) : Fed cfg (es ++ fs) c' := by
  obtain ⟨waiting, later, h⟩ := h
  cases a with
  | demux => exact feeding_demux h (demux_cases go)
  | clock now₁ now₂ => exact ⟨waiting, later, feeding_clock h go⟩
  | get garbage =>
    obtain ⟨waiting', kept⟩ := feeding_get h go
    exact ⟨waiting', later, kept⟩
  | send => exact ⟨waiting, later, feeding_send h go⟩
  | ret => exact ⟨waiting, later, feeding_ret h go⟩
  | setMoveSec | storeSeekFrame | storeIsMove | setReverse | exit => simp [Act.plays] at plays

end Steps

section Playback

variable {cfg : Config} {es : List Event} {c : State} {waiting : List AVPacket}
  {later : List Payload}

private theorem Feeding.refused_same (h : Feeding cfg es c waiting later) {c' : State}
    {fs : List Event}
    (go : step cfg c .demux = some (c', fs)) (refused : .refused ∈ fs) : c'.q = c.q := by
  cases demux_cases go with
  | refused pc size =>
    rcases h.putVideo_cases pc with full | ⟨room, -⟩
    · rw [full]
    · exact absurd room size
  | _ => simp at refused

theorem Feeding.next_video (h : Feeding cfg es c waiting later) (free : out c.s.pc = none)
    (some_left : 0 < c.q.nPacket) : ∃ pkt, c.q.getVideo.2.2 = some pkt := by
  have idle : Holds c.q false waiting := by simpa [free] using h.holds
  cases waiting with
  | nil =>
    rw [idle.count] at some_left
    exact absurd some_left (by simp)
  | cons pkt rest =>
    refine ⟨pkt, ?_⟩
    rw [(getVideo_head idle).1]

theorem Feeding.isFifo (h : Feeding cfg es c waiting later) : IsFifo cfg es c where
  sent := by
    refine ⟨(unsent c.s.pc ++ waiting ++ offered c.d).map contents ++ later, ?_⟩
    rw [← h.fifo]
    simp only [List.map_append, List.append_assoc]
  refused _ _ go refused := h.refused_same go refused
  count := ⟨h.holds.count_nonneg, h.holds.count_le⟩
  write := h.holds.write_val
  next := h.next_video

/-- Whatever the interleaving of the two threads, the channel is a bounded FIFO from the
recording to the network at every point of its run. -/
theorem playback_refines_fifo (cfg : Config) (acts : List Act) :
    Throughout (restrict Act.plays (step cfg)) (IsFifo cfg) (.start cfg) acts := by
  rintro pre suf es c - run
  have fed : Fed cfg es c := by
    apply run.invariant
    · exact ⟨[], _, feeding_start cfg⟩
    · intro ds m a n gs h go
      obtain ⟨plays, taken⟩ := restrict_eq_some.mp go
      exact fed_step plays h taken
  obtain ⟨waiting, later, h⟩ := fed
  exact h.isFifo

end Playback

end Tsender.Channel.Playback
