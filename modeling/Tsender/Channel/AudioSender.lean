/- Tsender/Channel/AudioSender
   source: sender.cpp (Run audio branch, send_audiostream), demuxer.cpp (Demux audio loop),
   queue.cpp (PutAudio, GetAudio, RetAudio)
   digest: An audio channel with both its threads under any commands: it reads one block of its
   files, fills its queue with what the buffer holds, and sends nothing. -/

import Tsender.Channel.Audio

set_option autoImplicit false
set_option relaxedAutoImplicit false

namespace Tsender.Channel.AudioSender

open Lib.Transition Queue Queue.AudioDelivery

/-- Where `Run` stands.  `send` and `ret` hold the element that `GetAudio` gave. -/
inductive SenderPc where
  | head
  | getAudio
  | send (pe : Fin maxNumAudioQueue)
  | ret (pe : Fin maxNumAudioQueue)
  deriving DecidableEq

/-- The fields of `CSender` that the audio branch uses. -/
structure CSender where
  pc : SenderPc
  nowPts : UInt64
  seekPts : UInt64
  seekOldPts : UInt64
  outPts : UInt64
  nAudioCount : UInt64
  /-- `m_begin`, in microseconds. -/
  beginAt : ℤ

structure State where
  ch : Audio.State
  s : CSender

inductive Act where
  /-- A statement of `Demux`, or a store of the command thread. -/
  | channel (a : Audio.Act)
  /-- The head of `Run`, with its first two readings of the clock. -/
  | clock (now₁ now₂ : ℤ)
  | getAudio
  /-- `send_audiostream`, with what `sendto` returned. -/
  | send (nSendto : ℤ)
  | ret

inductive Event where
  | feed (e : FeedEvent)
  /-- A block was read of the open file. -/
  | read
  /-- An element was handed to `sendto`. -/
  | sent (pe : Elem) (ok : Bool)

abbrev Step := Option (State × List Event)

/-- The consumer's calls are made by `Run` alone, and nobody enables the queue. -/
def aside : Audio.Act → Bool
  | .queue _ => false
  | .demux _ | .storeMoveIdx _ | .storeSeekFrame _ | .storeIsMove | .setPause _ | .setReverse _
    | .setSpeed _ | .exit => true

def readsOf (c : Audio.State) : Audio.Act → List Event
  | .demux _ => if c.d.pc = .read then [.read] else []
  | _ => []

def channel (cfg : Audio.Config) (c : State) (a : Audio.Act) : Step :=
  match restrict aside (Audio.step cfg) c.ch a with
  | none => none
  | some (ch, es) => some ({ c with ch := ch }, readsOf c.ch a ++ es.map .feed)

/-- The head of the loop of `Run`, up to the computation of `m_out_pts`.  A zero `den` divides by
zero. -/
def runHead (cfg : Audio.Config) (c : State) (now₁ now₂ : ℤ) : Step :=
  match c.s.pc with
  | .head =>
      let nowPts := c.s.seekPts + UInt64.ofInt (now₁ - c.s.beginAt)
      let s := { c.s with
        beginAt := if c.s.seekPts ≠ c.s.seekOldPts then now₂ else c.s.beginAt
        nowPts := nowPts
        seekOldPts := c.s.seekPts }
      if c.s.outPts ≤ nowPts then
        if cfg.den = 0 then none
        else some ({ c with s := { s with
          outPts := c.s.nAudioCount * UInt64.ofInt avTimeBase * cfg.num / cfg.den
          pc := .getAudio } }, [])
      else some ({ c with s := s }, [])
  | _ => none

/-- `GetAudio` gives an element with a length only, which `Run` tests once more. -/
def runGetAudio (c : State) : Step :=
  match c.s.pc with
  | .getAudio =>
      match feedStep c.ch.feed .get with
      | none => none
      | some (feed, es) =>
          let pc : SenderPc := match feed.out with
            | none => .head
            | some pe => .send pe
          some (⟨{ c.ch with feed := feed }, { c.s with pc := pc }⟩, es.map .feed)
  | _ => none

def runSend (c : State) (nSendto : ℤ) : Step :=
  match c.s.pc with
  | .send pe =>
      some ({ c with s := { c.s with nAudioCount := c.s.nAudioCount + 1, pc := .ret pe } },
        [.sent (c.ch.feed.q.e pe) (0 < nSendto)])
  | _ => none

def runRetAudio (c : State) : Step :=
  match c.s.pc with
  | .ret _ =>
      match feedStep c.ch.feed .ret with
      | none => none
      | some (feed, es) =>
          some (⟨{ c.ch with feed := feed }, { c.s with pc := .head }⟩, es.map .feed)
  | _ => none

def step (cfg : Audio.Config) : Machine State Act Event
  | c, .channel a => channel cfg c a
  | c, .clock now₁ now₂ => runHead cfg c now₁ now₂
  | c, .getAudio => runGetAudio c
  | c, .send nSendto => runSend c nSendto
  | c, .ret => runRetAudio c

/-- A sender that `Create` has set up, at the head of its loop. -/
def CSender.start : CSender where
  pc := .head
  nowPts := 0
  seekPts := 0
  seekOldPts := 0
  outPts := 0
  nAudioCount := 0
  beginAt := 0

def State.start : State := ⟨.start, .start⟩

section Events

def Event.call : Event → Option FeedEvent
  | .feed e => some e
  | .read | .sent _ _ => none

def calls (es : List Event) : List FeedEvent := es.filterMap Event.call

def Event.element : Event → Option Elem
  | .sent pe _ => some pe
  | .feed _ | .read => none

/-- The elements handed to `sendto`. -/
def sent (es : List Event) : List Elem := es.filterMap Event.element

def Event.isRead : Event → Bool
  | .read => true
  | .feed _ | .sent _ _ => false

def reads (es : List Event) : ℕ := es.countP Event.isRead

variable (es fs : List Event) (gs : List FeedEvent)

@[simp] theorem calls_append : calls (es ++ fs) = calls es ++ calls fs := List.filterMap_append

@[simp] theorem sent_append : sent (es ++ fs) = sent es ++ sent fs := List.filterMap_append

@[simp] theorem reads_append : reads (es ++ fs) = reads es + reads fs := List.countP_append

@[simp] theorem calls_feed : calls (gs.map .feed) = gs := by
  induction gs with
  | nil => rfl
  | cons g gs ih => simpa [calls, Event.call] using ih

@[simp] theorem sent_feed : sent (gs.map .feed) = [] := by
  induction gs with
  | nil => rfl
  | cons g gs ih => simp [sent, Event.element]

@[simp] theorem reads_feed : reads (gs.map .feed) = 0 := by
  induction gs with
  | nil => rfl
  | cons g gs ih => simp [reads, Event.isRead]

variable (c : Audio.State) (a : Audio.Act)

@[simp] theorem calls_readsOf : calls (readsOf c a) = [] := by
  unfold readsOf
  split
  · split_ifs <;> rfl
  · rfl

@[simp] theorem sent_readsOf : sent (readsOf c a) = [] := by
  unfold readsOf
  split
  · split_ifs <;> rfl
  · rfl

private theorem reads_readsOf (garbage : Block) :
    reads (readsOf c (.demux garbage)) = if c.d.pc = .read then 1 else 0 := by
  unfold readsOf
  split_ifs <;> rfl

end Events

section Demux

variable {cfg : Audio.Config} {c c' : Audio.State} {garbage : Block} {es : List FeedEvent}

/-- What a statement of `Demux` does to the flag of the block read and to the queue.  The flag is
set by a read and, since `PutAudio` never returns more than 0, cleared by nothing. -/
structure Reading (c c' : Audio.State) (es : List FeedEvent) : Prop where
  set : c.d.pc = .read → c'.d.isAudioRead = true
  kept : c.d.pc ≠ .read → c'.d.isAudioRead = c.d.isAudioRead
  tested : c'.d.pc = .read → c'.d.isAudioRead = false
  call : c'.feed = c.feed ∧ es = [] ∨
    ∃ b startPts, feedStep c.feed (.put b startPts) = some (c'.feed, es)

private theorem Reading.aside (here : c.d.pc ≠ .read) (next : c'.d.pc ≠ .read)
    (flag : c'.d.isAudioRead = c.d.isAudioRead) (feed : c'.feed = c.feed) : Reading c c' [] where
  set reads := absurd reads here
  kept _ := flag
  tested reads := absurd reads next
  call := .inl ⟨feed, rfl⟩

private theorem reading_openFile (pc : c.d.pc = .fileTop)
    (step : Audio.openFile cfg c = some (c', es)) : Reading c c' es := by
  simp only [Audio.openFile] at step
  split at step
  · cases step
    exact .aside (by simp [pc]) nofun rfl rfl
  · split at step
    all_goals
      cases step
      exact .aside (by simp [pc]) nofun rfl rfl

private theorem reading_put (pc : c.d.pc = .put) (step : Audio.put c = some (c', es)) :
    Reading c c' es := by
  simp only [Audio.put, returned_putAudio, lt_irrefl, if_false] at step
  split at step
  · cases step
  · rename_i feed gs call
    cases step
    exact ⟨fun reads => by simp [pc] at reads, fun _ => rfl, nofun, .inr ⟨_, _, call⟩⟩

private theorem reading_demux (step : Audio.demux cfg c garbage = some (c', es)) :
    Reading c c' es := by
  simp only [Audio.demux] at step
  cases pc : c.d.pc <;> rw [pc] at step <;> dsimp only at step
  case fileTop => exact reading_openFile pc step
  case put => exact reading_put pc step
  case done => cases step
  case read =>
    cases step
    exact ⟨fun _ => rfl, fun other => absurd pc other, nofun, .inl ⟨rfl, rfl⟩⟩
  case testRead =>
    cases step
    refine ⟨fun reads => by simp [pc] at reads, fun _ => rfl, fun goes => ?_, .inl ⟨rfl, rfl⟩⟩
    by_contra flag
    simp [flag] at goes
  case clearSeek =>
    split at step
    · cases step
    · cases step
      exact .aside (by simp [pc]) nofun rfl rfl
  case testMove =>
    cases step
    refine .aside (by simp [pc]) ?_ rfl rfl
    dsimp only
    split_ifs <;> simp
  case testSeek | testEof | testPause | testForward =>
    cases step
    refine .aside (by simp [pc]) ?_ rfl rfl
    dsimp only
    split_ifs <;> simp
  case clearMove | readMove | countSeek | offsetSeek | seekg | fileEnd =>
    cases step
    exact .aside (by simp [pc]) nofun rfl rfl

end Demux

/-- Nothing has been sent or handed out, and at most one block was read.  All that the queue has
taken is still in it. -/
structure Mute (es : List Event) (c : State) : Prop where
  off : c.ch.feed.q.bEnable = false
  account : ∃ waiting, Accounted (calls es) c.ch.feed [] none waiting
  asks : c.s.pc = .head ∨ c.s.pc = .getAudio
  unsent : sent es = []
  once : reads es = if c.ch.d.isAudioRead then 1 else 0
  unread : c.ch.d.pc = .read → c.ch.d.isAudioRead = false

section Run

variable {cfg : Audio.Config} {c c' : State} {es fs : List Event}

private theorem mute_start : Mute [] .start where
  off := rfl
  account := ⟨[], holdsAudio_new, rfl, rfl, rfl⟩
  asks := .inl rfl
  unsent := rfl
  once := rfl
  unread := nofun

theorem Mute.idle (h : Mute es c) : c.ch.feed.out = none := by
  obtain ⟨waiting, account⟩ := h.account
  exact account.out

theorem Mute.store (h : Mute es c) {ch : Audio.State} (feed : ch.feed = c.ch.feed)
    (flag : ch.d.isAudioRead = c.ch.d.isAudioRead) (pc : ch.d.pc = c.ch.d.pc) :
    Mute (es ++ []) { c with ch := ch } where
  off := by simpa [feed] using h.off
  account := by simpa [feed] using h.account
  asks := h.asks
  unsent := by simpa using h.unsent
  once := by simpa [flag] using h.once
  unread := by simpa [flag, pc] using h.unread

theorem Mute.called (h : Mute es c) {ch : Audio.State} {gs : List FeedEvent}
    (call : ch.feed = c.ch.feed ∧ gs = [] ∨
      ∃ b startPts, feedStep c.ch.feed (.put b startPts) = some (ch.feed, gs)) :
    ch.feed.q.bEnable = false ∧ ∃ waiting, Accounted (calls es ++ gs) ch.feed [] none waiting := by
  obtain ⟨waiting, account⟩ := h.account
  rcases call with ⟨same, rfl⟩ | ⟨b, startPts, put⟩
  · rw [same, List.append_nil]
    exact ⟨h.off, waiting, account⟩
  · obtain ⟨-, on, stored | ⟨refused, -⟩⟩ := accounted_put account put
    · exact ⟨on.trans h.off, _, stored⟩
    · exact ⟨on.trans h.off, _, refused⟩

private theorem mute_demux (h : Mute es c) {ch : Audio.State} {garbage : Block}
    {gs : List FeedEvent} (step : Audio.demux cfg c.ch garbage = some (ch, gs)) :
    Mute (es ++ (readsOf c.ch (.demux garbage) ++ gs.map .feed)) { c with ch := ch } := by
  have reading := reading_demux step
  obtain ⟨off, waiting, account⟩ := h.called reading.call
  refine ⟨off, ⟨waiting, by simpa using account⟩, h.asks, by simpa using h.unsent, ?_,
    reading.tested⟩
  rw [reads_append, reads_append, reads_feed, reads_readsOf, h.once]
  by_cases now : c.ch.d.pc = .read
  · simp [now, h.unread now, reading.set now]
  · simp [now, reading.kept now]

private theorem mute_channel {a : Audio.Act} (h : Mute es c)
    (step : channel cfg c a = some (c', fs)) : Mute (es ++ fs) c' := by
  simp only [channel] at step
  split at step
  · cases step
  · rename_i ch gs next
    cases step
    obtain ⟨call, next⟩ := restrict_eq_some.mp next
    cases a with
    | demux garbage => exact mute_demux h next
    | queue b => cases call
    | storeMoveIdx _ | storeSeekFrame _ | storeIsMove | setPause _ | setReverse _ | setSpeed _
      | exit =>
      cases next
      exact h.store rfl rfl rfl

private theorem mute_runHead {now₁ now₂ : ℤ} (h : Mute es c)
    (step : runHead cfg c now₁ now₂ = some (c', fs)) : Mute (es ++ fs) c' := by
  have unsent : sent (es ++ []) = [] := by simpa using h.unsent
  have once : reads (es ++ []) = if c.ch.d.isAudioRead then 1 else 0 := by simpa using h.once
  have account : ∃ waiting, Accounted (calls (es ++ [])) c.ch.feed [] none waiting := by
    simpa using h.account
  simp only [runHead] at step
  split at step
  · rename_i head
    by_cases due : c.s.outPts ≤ c.s.seekPts + UInt64.ofInt (now₁ - c.s.beginAt)
    · rw [if_pos due] at step
      split at step
      · cases step
      · cases step
        exact ⟨h.off, account, .inr rfl, unsent, once, h.unread⟩
    · rw [if_neg due] at step
      cases step
      exact ⟨h.off, account, .inl head, unsent, once, h.unread⟩
  · cases step

private theorem mute_runGetAudio (h : Mute es c) (step : runGetAudio c = some (c', fs)) :
    Mute (es ++ fs) c' := by
  have nothing : feedStep c.ch.feed .get = some (c.ch.feed, [.nothing]) := by
    simp only [feedStep, h.idle, getAudio_disabled h.off]
  obtain ⟨waiting, account⟩ := h.account
  simp only [runGetAudio, nothing, h.idle] at step
  split at step
  · cases step
    obtain ⟨-, ⟨b, rest, -, got⟩ | ⟨-, same⟩⟩ := accounted_get account nothing
    · exact absurd got.out (by simp [h.idle])
    · exact ⟨h.off, ⟨waiting, by simpa [calls, Event.call] using same⟩, .inl rfl,
        by simpa [sent, Event.element] using h.unsent,
        by simpa [reads, Event.isRead] using h.once, h.unread⟩
  · cases step

private theorem mute_step {a : Act} (h : Mute es c) (next : step cfg c a = some (c', fs)) :
    Mute (es ++ fs) c' := by
  cases a with
  | channel a => exact mute_channel h next
  | clock now₁ now₂ => exact mute_runHead h next
  | getAudio => exact mute_runGetAudio h next
  | send nSendto =>
    rcases h.asks with pc | pc
    · simp [step, runSend, pc] at next
    · simp [step, runSend, pc] at next
  | ret =>
    rcases h.asks with pc | pc
    · simp [step, runRetAudio, pc] at next
    · simp [step, runRetAudio, pc] at next

/-- In every run of an audio channel, whatever the commands, no block is handed to `sendto`, at
most one block is read of the files, and the queue takes no more blocks than it has places. -/
theorem audio_channel_mute (cfg : Audio.Config) {acts : List Act} {es : List Event} {c : State}
    (run : Run (step cfg) .start acts es c) :
    sent es = [] ∧ reads es ≤ 1 ∧ (accepted (calls es)).length ≤ maxNumAudioQueue := by
  have mute : Mute es c := run.invariant mute_start fun _ _ _ _ _ h next => mute_step h next
  obtain ⟨waiting, account⟩ := mute.account
  refine ⟨mute.unsent, ?_, ?_⟩
  · rw [mute.once]
    split_ifs <;> omega
  · rw [account.accepted]
    simpa using account.holds.bound

end Run

def twoFrames : Audio.Config where
  files := [⟨2, true, List.replicate 48 0⟩]
  num := 1
  den := 1

/-- Two turns of `Demux`, and one of `Run`. -/
def twoTurns : List Act :=
  List.replicate 16 (.channel (.demux Audio.noBlock)) ++ [.clock 0 0, .getAudio]

theorem audio_channel_mute_twoFrames : ∃ (es : List Event) (c : State),
    Run (step twoFrames) .start twoTurns es c ∧
      sent es = [] ∧ reads es ≤ 1 ∧ (accepted (calls es)).length ≤ maxNumAudioQueue := by
  have found : (exec (step twoFrames) .start twoTurns).map (fun r =>
      decide (reads r.2 = 1 ∧ (accepted (calls r.2)).length = 2)) = some true := by decide +kernel
  obtain ⟨c, es, run, -⟩ := Run.exists_of_exec found
  exact ⟨es, c, run, audio_channel_mute twoFrames run⟩

end Tsender.Channel.AudioSender
