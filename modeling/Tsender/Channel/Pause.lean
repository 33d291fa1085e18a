/- Tsender/Channel/Pause
   source: demuxer.cpp (Demux, SetPause), comm.cpp (RX: play_pause, play_start)
   digest: What a channel of either type stores while it is paused: the audio branch tests
   m_IsPause before it stores a block, the video branch never does. -/

import Tsender.Channel.AudioOnce
import Tsender.Channel.Steps

set_option autoImplicit false
set_option relaxedAutoImplicit false

namespace Tsender.Channel.Pause

open Lib.Transition Queue Queue.AudioDelivery

inductive Kind where
  | video (cfg : Channel.Config)
  | audio (cfg : Audio.Config)

/-- A running channel.  The video branch has an `m_IsPause` too. -/
inductive Playing where
  | video (c : Channel.State) (isPause : Bool)
  | audio (c : Audio.State)

def Kind.start : Kind → Playing
  | .video cfg => .video (.start cfg) false
  | .audio _ => .audio .start

def Playing.isPause : Playing → Bool
  | .video _ isPause => isPause
  | .audio c => c.d.isPause

/-- `SetPause(state)`. -/
def Playing.setPause (state : Bool) : Playing → Playing
  | .video c _ => .video c state
  | .audio c => .audio { c with d := { c.d with isPause := state } }

/-- `Demux` has a packet in hand that it is about to store. -/
def Playing.inProgress : Playing → Bool
  | .video c _ => c.d.pc = .put
  | .audio c => c.d.pc = .testForward ∨ c.d.pc = .put

inductive PauseAct where
  | video (a : Channel.Act)
  | audio (a : Audio.Act)
  /-- `SetPause()`, for `play_pause`. -/
  | togglePause
  /-- `SetPause(state)`, for `play_start`. -/
  | setPause (state : Bool)

inductive PauseEvent where
  /-- `m_IsPause` became true; `inProgress` says whether `Demux` had a packet in hand. -/
  | paused (inProgress : Bool)
  | resumed
  | stored
  /-- `Demux` gave up the packet that it had in hand. -/
  | dropped
  deriving DecidableEq

def advanced (s t : Playing) (stored : Bool) : Playing × List PauseEvent :=
  (t, if stored then [.stored] else if s.inProgress ∧ ¬ t.inProgress then [.dropped] else [])

/-- A store of `m_IsPause`. -/
def switched (s : Playing) (state : Bool) : Playing × List PauseEvent :=
  (s.setPause state, [if state then .paused s.inProgress else .resumed])

def Accepts : Event → Bool
  | .accepted _ => true
  | _ => false

/-- This store goes through `SetPause` below. -/
def storesPause : Audio.Act → Bool
  | .setPause _ => true
  | _ => false

/-- A step of the channel of either type, or one of the two forms of `SetPause`. -/
def pauseStep (kind : Kind) : Machine Playing PauseAct PauseEvent
  | s, .video a =>
      match kind, s with
      | .video cfg, .video c isPause =>
          match Channel.step cfg c a with
          | none => none
          | some (c', es) => some (advanced s (.video c' isPause) (es.any Accepts))
      | _, _ => none
  | s, .audio a =>
      match kind, s with
      | .audio cfg, .audio c =>
          if storesPause a then none
          else
            match Audio.step cfg c a with
            | none => none
            | some (c', es) => some (advanced s (.audio c') (accepted es ≠ []))
      | _, _ => none
  | s, .togglePause => some (switched s (!s.isPause))
  | s, .setPause state => some (switched s state)

/-- What an observer of the events knows: whether the channel is paused, whether the packet that
was in hand then is still to come, and whether nothing else was stored. -/
structure Watch where
  paused : Bool
  pending : Bool
  stops : Bool

def Watch.observe (w : Watch) : PauseEvent → Watch
  | .paused inProgress => { w with paused := true, pending := inProgress }
  | .resumed => { w with paused := false, pending := false }
  | .stored => { w with pending := false, stops := w.stops && (!w.paused || w.pending) }
  | .dropped => { w with pending := false }

def watch (es : List PauseEvent) : Watch := es.foldl Watch.observe ⟨false, false, true⟩

@[simp] theorem watch_append (es fs : List PauseEvent) :
    watch (es ++ fs) = fs.foldl Watch.observe (watch es) := List.foldl_append

/-- While the channel was paused, at most the packet already in hand was stored. -/
def Stops (es : List PauseEvent) (_ : Playing) : Prop := (watch es).stops = true

/-- `Demux` is about to read a packet of which the filter leaves data. -/
def readsPacket (cfg : Channel.Config) (c : Channel.State) : Bool :=
  match c.d.pc, c.d.fmtCtx with
  | .readFrame, some ctx =>
      match ctx.rest.head?.bind cfg.filter with
      | none => false
      | some out => 0 < out.data.length
  | _, _ => false

def readsWhilePaused (kind : Kind) (s : Playing) (a : PauseAct) : Bool :=
  match kind, s, a with
  | .video cfg, .video c true, .video .demux => readsPacket cfg c
  | _, _, _ => false

def ReadsUnpaused (kind : Kind) (_ : List PauseEvent) (s : Playing) (a : PauseAct) : Prop :=
  readsWhilePaused kind s a = false

instance (kind : Kind) (es : List PauseEvent) (s : Playing) (a : PauseAct) :
    Decidable (ReadsUnpaused kind es s a) := inferInstanceAs (Decidable (_ = _))

/-- What the observer knows is right, and a packet in hand while paused is still to come. -/
structure Watching (es : List PauseEvent) (s : Playing) : Prop where
  stops : (watch es).stops = true
  paused : (watch es).paused = s.isPause
  pending : s.isPause = true → s.inProgress = true → (watch es).pending = true

private theorem watching_start (kind : Kind) : Watching [] kind.start := by
  cases kind with
  | video cfg => exact ⟨rfl, rfl, nofun⟩
  | audio cfg => exact ⟨rfl, rfl, nofun⟩

section Watching

variable {es : List PauseEvent} {s t : Playing}

theorem Watching.advanced {stored : Bool} (h : Watching es s) (same : t.isPause = s.isPause)
    (held : stored = true → s.inProgress = true ∧ t.inProgress = false)
    (enters : t.isPause = true → t.inProgress = true → s.inProgress = true) :
    Watching (es ++ (advanced s t stored).2) t := by
  cases stored with
  | true =>
    obtain ⟨had, gone⟩ := held rfl
    refine ⟨?_, ?_, fun _ here => absurd here (by simp [gone])⟩
    · cases off : s.isPause with
      | false => simp [Pause.advanced, Watch.observe, h.stops, h.paused, off]
      | true => simp [Pause.advanced, Watch.observe, h.stops, h.pending off had]
    · simp [Pause.advanced, Watch.observe, h.paused, same]
  | false =>
    by_cases dropped : s.inProgress = true ∧ ¬ t.inProgress = true
    · refine ⟨?_, ?_, fun _ here => absurd here dropped.2⟩
      · simp [Pause.advanced, dropped, Watch.observe, h.stops]
      · simp [Pause.advanced, dropped, Watch.observe, h.paused, same]
    · have silent : (Pause.advanced s t false).2 = [] := by
        simp only [Pause.advanced, dropped, if_false, Bool.false_eq_true]
      rw [silent, List.append_nil]
      refine ⟨h.stops, h.paused.trans same.symm, fun paused here => ?_⟩
      exact h.pending (same.symm.trans paused) (enters paused here)

@[simp] theorem isPause_setPause (s : Playing) (state : Bool) :
    (s.setPause state).isPause = state := by
  cases s <;> rfl

@[simp] theorem inProgress_setPause (s : Playing) (state : Bool) :
    (s.setPause state).inProgress = s.inProgress := by
  cases s <;> rfl

private theorem Watching.switched (h : Watching es s) (state : Bool) :
    Watching (es ++ (switched s state).2) (switched s state).1 := by
  cases state with
  | true =>
    refine ⟨?_, ?_, fun _ here => ?_⟩
    · simpa [Pause.switched, Watch.observe] using h.stops
    · simp [Pause.switched, Watch.observe]
    · simpa [Pause.switched, Watch.observe] using here
  | false =>
    refine ⟨?_, ?_, fun paused => ?_⟩
    · simpa [Pause.switched, Watch.observe] using h.stops
    · simp [Pause.switched, Watch.observe]
    · simp [Pause.switched] at paused

end Watching

section Video

variable {cfg : Channel.Config} {c c' : Channel.State} {es : List Event}

private theorem video_demux (step : Channel.demux cfg c = some (c', es)) :
    (es.any Accepts = true → c.d.pc = .put ∧ c'.d.pc ≠ .put) ∧
      (c'.d.pc = .put → c.d.pc = .put ∨ readsPacket cfg c = true) := by
  cases demux_cases step with
  | read pc ctx payload out rest first context next filtered =>
    refine ⟨by simp [Accepts], fun here => .inr ?_⟩
    have data : 0 < out.data.length := by
      by_contra empty
      simp [empty] at here
    simp [readsPacket, pc, context, next, filtered, data]
  | turned pc back d kept =>
    obtain ⟨-, -, -, -, -, -, -, -, read | ended⟩ := kept
    · simp [read]
    · simp [ended]
  | accepted pc size => simp [pc]
  | refused pc size => simp [pc, Accepts]
  | stuck pc => simp [pc]
  | _ => simp_all [Accepts]

private theorem video_others {a : Channel.Act} (other : a ≠ .demux)
    (step : Channel.step cfg c a = some (c', es)) :
    es.any Accepts = false ∧ c'.d.pc = c.d.pc := by
  cases a with
  | demux => exact absurd rfl other
  | clock now₁ now₂ =>
    obtain ⟨-, rfl, s, rfl, -⟩ := clock_cases step
    exact ⟨rfl, rfl⟩
  | get garbage =>
    obtain ⟨-, ⟨rfl, rfl⟩ | ⟨rfl, -, rfl⟩ | ⟨pkt, timeBase, rfl, -, rfl⟩⟩ := get_cases step
    · exact ⟨rfl, rfl⟩
    · exact ⟨rfl, rfl⟩
    · exact ⟨rfl, rfl⟩
  | send =>
    obtain ⟨pkt, s, -, rfl, -, -, -, ⟨-, rfl, -⟩ | ⟨-, rfl, -⟩⟩ := send_cases step
    · exact ⟨rfl, rfl⟩
    · exact ⟨rfl, rfl⟩
  | ret =>
    obtain ⟨pkt, -, rfl, rfl⟩ := ret_cases step
    exact ⟨rfl, rfl⟩
  | _ =>
    obtain ⟨-, -, rfl | ⟨nFrame, rfl⟩⟩ := command_kept rfl step
    · exact ⟨rfl, by rw [other_locals other step]⟩
    · exact ⟨rfl, by rw [other_locals other step]⟩

end Video

section Audio

variable {cfg : Audio.Config} {c c' : Audio.State} {es : List FeedEvent}

private theorem audio_demux {garbage : Block} (step : Audio.demux cfg c garbage = some (c', es)) :
    c'.d.isPause = c.d.isPause ∧
      (accepted es ≠ [] → c.d.pc = .put ∧ c'.d.pc = .testMove) ∧
      (c'.d.pc = .testForward ∨ c'.d.pc = .put →
        c.d.isPause = false ∨ c.d.pc = .testForward ∨ c.d.pc = .put) := by
  simp only [Audio.demux] at step
  cases pc : c.d.pc <;> rw [pc] at step <;> dsimp only at step
  case fileTop =>
    simp only [Audio.openFile] at step
    split at step
    · cases step
      simp
    · split at step <;> cases step <;> simp
  case testMove =>
    cases step
    cases c.d.bExit <;> cases c.d.isMove <;> simp
  case testSeek =>
    cases step
    dsimp only
    split <;> simp
  case testRead =>
    cases step
    dsimp only
    split <;> simp
  case testEof =>
    cases step
    dsimp only
    split <;> simp
  case clearSeek =>
    split at step
    · cases step
    · cases step
      simp
  case testPause =>
    cases step
    cases paused : c.d.isPause <;> simp
  case testForward =>
    cases step
    dsimp only
    split <;> simp
  case put =>
    simp only [Audio.put] at step
    split at step
    · cases step
    · cases step
      simp
  case done => cases step
  all_goals
    cases step
    simp

private theorem audio_others {a : Audio.Act} (other : ∀ garbage, a ≠ .demux garbage)
    (unpaused : ¬ storesPause a = true) (step : Audio.step cfg c a = some (c', es)) :
    accepted es = [] ∧ c'.d.isPause = c.d.isPause ∧ c'.d.pc = c.d.pc := by
  cases a with
  | demux garbage => exact absurd rfl (other garbage)
  | setPause state => exact absurd rfl unpaused
  | queue b =>
    simp only [Audio.step] at step
    split at step
    · cases step
    · rename_i feed gs call
      cases step
      exact ⟨Audio.consumes_stores_nothing call, rfl, rfl⟩
  | storeMoveIdx _ | storeSeekFrame _ | storeIsMove | setReverse _ | setSpeed _ | exit =>
    cases step
    exact ⟨rfl, rfl, rfl⟩

end Audio

section Run

variable {kind : Kind} {es fs : List PauseEvent} {s t : Playing}

private theorem watching_video {a : Channel.Act} (h : Watching es s)
    (unpaused : ReadsUnpaused kind es s (.video a))
    (step : pauseStep kind s (.video a) = some (t, fs)) : Watching (es ++ fs) t := by
  simp only [pauseStep] at step
  split at step
  · rename_i cfg c isPause
    split at step
    · cases step
    · rename_i c' gs next
      cases step
      by_cases demux : a = .demux
      · subst demux
        obtain ⟨held, enters⟩ := video_demux next
        refine h.advanced rfl (fun stored => by simpa [Playing.inProgress] using held stored) ?_
        intro paused here
        obtain rfl : isPause = true := paused
        have in_hand := enters (by simpa [Playing.inProgress] using here)
        have none_read : readsPacket cfg c = false := unpaused
        have had := in_hand.resolve_right (by simp [none_read])
        simpa [Playing.inProgress] using had
      · obtain ⟨none_stored, same⟩ := video_others demux next
        refine h.advanced rfl (fun stored => ?_) fun _ here => ?_
        · rw [none_stored] at stored
          cases stored
        · simpa [Playing.inProgress, same] using here
  · cases step

private theorem watching_audio {a : Audio.Act} (h : Watching es s)
    (step : pauseStep kind s (.audio a) = some (t, fs)) : Watching (es ++ fs) t := by
  simp only [pauseStep] at step
  split at step
  · rename_i cfg c
    split at step
    · cases step
    · rename_i other
      split at step
      · cases step
      · rename_i c' gs next
        cases step
        by_cases demux : ∃ garbage, a = .demux garbage
        · obtain ⟨garbage, rfl⟩ := demux
          obtain ⟨same, held, enters⟩ := audio_demux next
          refine h.advanced same (fun stored => ?_) fun paused here => ?_
          · obtain ⟨pc, pc'⟩ := held (of_decide_eq_true stored)
            simp [Playing.inProgress, pc, pc']
          · have still : ¬ c.d.isPause = false := by simpa using same.symm.trans paused
            have in_hand := enters (by simpa [Playing.inProgress] using here)
            simpa [Playing.inProgress] using in_hand.resolve_left still
        · obtain ⟨none_stored, same, pc⟩ :=
            audio_others (fun garbage is_demux => demux ⟨garbage, is_demux⟩) other next
          refine h.advanced same (fun stored => ?_) fun _ here => ?_
          · exact absurd none_stored (of_decide_eq_true stored)
          · simpa [Playing.inProgress, pc] using here
  · cases step

/-- One step keeps what the observer knows, as long as no video channel reads while paused. -/
private theorem watching_step {a : PauseAct} (h : Watching es s)
    (unpaused : ReadsUnpaused kind es s a)
    (step : pauseStep kind s a = some (t, fs)) : Watching (es ++ fs) t := by
  cases a with
  | video a => exact watching_video h unpaused step
  | audio a => exact watching_audio h step
  | togglePause =>
    cases step
    exact h.switched _
  | setPause state =>
    cases step
    exact h.switched _

private theorem watching_run {acts : List PauseAct}
    (run : Run (pauseStep kind) kind.start acts es s)
    (meets : Meets (pauseStep kind) (ReadsUnpaused kind) kind.start acts) : Watching es s :=
  run.guarded_invariant meets (watching_start kind)
    fun _ _ _ _ _ h unpaused step => watching_step h unpaused step

end Run

/-- While it is paused a channel of either type stores at most the packet it had in hand, in
every run in which no video channel reads a packet while it is paused. -/
theorem pause_stops_feed (kind : Kind) (acts : List PauseAct)
    (meets : Meets (pauseStep kind) (ReadsUnpaused kind) kind.start acts) :
    Throughout (pauseStep kind) Stops kind.start acts :=
  Throughout.of_meets (fun _ _ _ run meets => (watching_run run meets).stops) meets

def twoPackets : Channel.Config where
  files := [{
    frame := 2
    opens := true
    hasVideo := true
    initsFilter := true
    startTime := 0
    timeBase := ⟨1, 1000000⟩
    packets := [⟨[0], 0⟩, ⟨[1], 1000000⟩]
    seekTm := fun _ => 0
    seekFile := fun _ => none }]
  filter := some
  nChannel := 0
  num := 1
  den := 1
  gop := 1
  stray := false

/-- The channel is paused with its first packet in hand and goes on after the pause. -/
def pausedInHand : List PauseAct :=
  List.replicate 5 (.video .demux) ++ [.togglePause, .video .demux, .setPause false] ++
    List.replicate 5 (.video .demux)

theorem pause_stops_feed_in_hand :
    Throughout (pauseStep (.video twoPackets)) Stops (Kind.video twoPackets).start pausedInHand :=
  pause_stops_feed (.video twoPackets) pausedInHand
    (Meets.of_check (fun _ _ _ => of_decide_eq_true) (by decide +kernel))

/-- A video channel that is paused before its first read reads and stores the packet. -/
theorem paused_video_stores :
    ¬ ∀ (kind : Kind) (acts : List PauseAct),
      Throughout (pauseStep kind) Stops kind.start acts := by
  intro claim
  have found : (exec (pauseStep (.video twoPackets)) (Kind.video twoPackets).start
      (.togglePause :: List.replicate 6 (.video .demux))).map (fun r =>
        decide ((watch r.2).stops = false)) = some true := by decide +kernel
  obtain ⟨s, es, run, seen⟩ := Run.exists_of_exec found
  have stops : (watch es).stops = true := claim _ _ _ [] es s (List.append_nil _).symm run
  have broken : (watch es).stops = false := of_decide_eq_true seen
  rw [broken] at stops
  cases stops

end Tsender.Channel.Pause
