/- Tsender/Comm/Player
   source: comm.cpp (Open, RX), demuxer.cpp (Create, SetPause, SetReverse, SetSpeed)
   digest: What the commands come to: at any time all channels of a manager are in the state of
   one player that was told what the datagrams say, whatever else they were and did. -/

import Tsender.Comm.Agreement

set_option autoImplicit false
set_option relaxedAutoImplicit false

namespace Tsender.Comm.Player

open Json Lib.Fallible Lib.Transition

section Players

structure Playback (α : Type) where
  recording : α
  isPause : Bool
  bIsRerverse : Bool
  nSpeed : ℤ

inductive Order (α : Type) where
  | start (recording : α)
  | reverse
  | close
  | speed (nSpeed : ℤ)
  | pause

variable {α : Type}

def Playback.of (recording : α) : Playback α := ⟨recording, false, false, 1⟩

/-- A player may play nothing.  One that plays goes on with its recording when it is told to start
another. -/
def perform : Option (Playback α) → Order α → Option (Playback α)
  | none, .start recording => some (.of recording)
  | some p, .start _ => some (.of p.recording)
  | some p, .reverse => some { p with bIsRerverse := !p.bIsRerverse }
  | some p, .speed nSpeed => some { p with nSpeed := nSpeed }
  | some p, .pause => some { p with isPause := !p.isPause }
  | _, .close => none
  | none, .reverse | none, .speed _ | none, .pause => none

end Players

section Orders

variable {R : Type} [Doubles R]

structure Recording (R : Type) where
  target : Value R
  bitState : Value R

/-- What a command tells a player.  A seek goes to the threads of the channels, and the other
commands are not about playing. -/
def orderOf (root : Value R) : Command → Option (Order (Recording R))
  | .playStart =>
      let info := root.get "info".toList
      some (.start ⟨.string (info.get "target".toList).toStr, info.get "bit_state".toList⟩)
  | .playReverse => some .reverse
  | .playClose => some .close
  | .playSpeedUp => some (.speed ((root.get "info".toList).get "speed".toList).toInteger)
  | .playPause => some .pause
  | .playSeek | .getThumbnail | .getPlayList | .playDelete => none

def orders (R : Type) [Doubles R] (d : Datagram) : List (Order (Recording R)) :=
  match stringAt d.buff with
  | .error _ => []
  | .ok text =>
      match (parse text : Except Fault (Option (Value R))) with
      | .ok (some root) =>
          match commandOf root with
          | .ok (some cmd) => (orderOf root cmd).toList
          | _ => []
      | _ => []

/-- A round of `RX` or a step of a thread, or a channel that does not find its recording and deletes
itself. -/
inductive Act (R : Type) where
  | act (a : Agreement.Act R)
  | deleteThis (i : ℕ)

def untold (r : Option (CCommMgr R × List Unit)) :
    Option (CCommMgr R × List (Order (Recording R))) :=
  r.map fun p => (p.1, [])

/-- Rounds of `RX` with any datagrams, and the steps of the threads.  A round that calls a channel
that has deleted itself leads to no state. -/
def step : Machine (CCommMgr R) (Act R) (Order (Recording R))
  | s, .act (.command w d) =>
      match rx w s d with
      | .ok (t, _) => some (t, orders R d)
      | .error _ => none
  | s, .act (.play i) => untold (Agreement.threadStep s i Agreement.play)
  | s, .act (.demux i files) => untold (Agreement.threadStep s i (Agreement.demux files))
  | s, .act (.move i nSeekFrame) => untold (Agreement.threadStep s i (Agreement.move nSeekFrame))
  | s, .deleteThis i => untold (Agreement.threadStep s i fun d => { d with freed := true })

end Orders

section Shows

variable {R : Type}

structure PlaysAs (p : Playback (Recording R)) (d : CDemuxer R) : Prop where
  isPause : d.isPause = p.isPause
  bIsRerverse : d.bIsRerverse = p.bIsRerverse
  nSpeed : d.nSpeed = p.nSpeed
  target : getMember d.attr "target".toList = p.recording.target
  bitState : getMember d.attr "bit_state".toList = p.recording.bitState

/-- All channels of a running manager that are still there do what the player does; one that does
not run has none. -/
def Shows (s : CCommMgr R) : Option (Playback (Recording R)) → Prop
  | none => s.bIsRunning = false ∧ s.demuxers = []
  | some p => s.bIsRunning = true ∧ ∀ d ∈ s.demuxers, d.freed = false → PlaysAs p d

variable {s t : CCommMgr R} {p q : Playback (Recording R)} {player : Option (Playback (Recording R))}

theorem PlaysAs.alike {d e : CDemuxer R} (h : PlaysAs p d) (same : Agreement.Alike d e) :
    PlaysAs p e where
  isPause := same.isPause.trans h.isPause
  bIsRerverse := same.bIsRerverse.trans h.bIsRerverse
  nSpeed := same.nSpeed.trans h.nSpeed
  target := same.target.trans h.target
  bitState := same.bitState.trans h.bitState

private theorem playsAs_of_reset {d : CDemuxer R} {recording : Recording R}
    (h : Agreement.Reset recording.target recording.bitState d) : PlaysAs (.of recording) d :=
  ⟨h.isPause, h.bIsRerverse, h.nSpeed, h.target, h.bitState⟩

theorem Shows.of_same (h : Shows s player) (running : t.bIsRunning = s.bIsRunning)
    (same : ∀ e ∈ t.demuxers, ∃ d ∈ s.demuxers, Agreement.Alike d e) : Shows t player := by
  cases player with
  | none =>
    refine ⟨running.trans h.1, List.eq_nil_iff_forall_not_mem.mpr fun e mem => ?_⟩
    obtain ⟨d, was, -⟩ := same e mem
    simp [h.2] at was
  | some p =>
    refine ⟨running.trans h.1, fun e mem there => ?_⟩
    obtain ⟨d, was, alike⟩ := same e mem
    exact (h.2 d was (alike.freed there)).alike alike

theorem Shows.map (h : Shows s (some p)) {f : CDemuxer R → CDemuxer R} (live : Live s)
    (running : t.bIsRunning = true) (demuxers : t.demuxers = s.demuxers.map f)
    (each : ∀ d, PlaysAs p d → PlaysAs q (f d)) : Shows t (some q) := by
  refine ⟨running, fun e mem _ => ?_⟩
  rw [demuxers] at mem
  obtain ⟨d, was, rfl⟩ := List.mem_map.mp mem
  exact each d (h.2 d was (live d was))

theorem Shows.running (h : Shows s (some p)) : s.bIsRunning = true := h.1

theorem Shows.stopped (h : Shows s none) : s.bIsRunning = false := h.1

end Shows

section Commands

variable {R : Type} {w : World} {s t : CCommMgr R} {root : Value R} {es : List (Effect R)}
  {player : Option (Playback (Recording R))}

private theorem shows_playReverse (h : Shows s player) (done : playReverse s = .ok (t, es)) :
    Shows t (perform player .reverse) := by
  cases player with
  | none =>
    rw [(playReverse_did done).stopped h.stopped]
    exact h
  | some p =>
    obtain ⟨live, rfl⟩ := (playReverse_did done).running h.running
    exact h.map live h.running rfl fun d plays =>
      ⟨plays.isPause, congrArg not plays.bIsRerverse, plays.nSpeed, plays.target, plays.bitState⟩

private theorem shows_playPause (h : Shows s player) (done : playPause s = .ok (t, es)) :
    Shows t (perform player .pause) := by
  cases player with
  | none =>
    rw [(playPause_did done).stopped h.stopped]
    exact h
  | some p =>
    obtain ⟨live, rfl⟩ := (playPause_did done).running h.running
    exact h.map live h.running rfl fun d plays =>
      ⟨congrArg not plays.isPause, plays.bIsRerverse, plays.nSpeed, plays.target, plays.bitState⟩

private theorem shows_playClose (h : Shows s player) (done : playClose s = .ok (t, es)) :
    Shows t (perform player .close) := by
  cases player with
  | none =>
    rw [(playClose_did done).stopped h.stopped]
    exact h
  | some p =>
    obtain ⟨-, rfl⟩ := (playClose_did done).running h.running
    exact ⟨rfl, rfl⟩

variable [Doubles R]

private theorem shows_playSpeedUp (h : Shows s player) (done : playSpeedUp s root = .ok (t, es)) :
    Shows t (perform player
      (.speed ((root.get "info".toList).get "speed".toList).toInteger)) := by
  cases player with
  | none =>
    rw [(playSpeedUp_did done).stopped h.stopped]
    exact h
  | some p =>
    obtain ⟨live, rfl⟩ := (playSpeedUp_did done).running h.running
    exact h.map live h.running rfl fun d plays =>
      ⟨plays.isPause, plays.bIsRerverse, rfl, plays.target, plays.bitState⟩

private theorem shows_playSeek (h : Shows s player) (done : playSeek s root = .ok (t, es)) :
    Shows t player := by
  cases player with
  | none =>
    rw [playSeek_stopped h.stopped done]
    exact h
  | some p =>
    have same := (Agreement.same_playSeek h.running done).demuxers
    obtain ⟨nMoveSec, moved, -, rfl⟩ := playSeek_running h.running done
    exact h.of_same rfl same

private theorem shows_playStart (h : Shows s player) (done : playStart w s root = .ok (t, es)) :
    Shows t (perform player (.start
      ⟨.string ((root.get "info".toList).get "target".toList).toStr,
        (root.get "info".toList).get "bit_state".toList⟩)) := by
  rcases Agreement.playStart_cases done with ⟨running, live, rfl⟩ |
    ⟨stopped, infos, ds, -, created, rfl⟩
  · cases player with
    | none => exact absurd running (by simp [h.stopped])
    | some p =>
      exact h.map live running rfl fun d plays => ⟨rfl, rfl, rfl, plays.target, plays.bitState⟩
  · cases player with
    | none =>
      obtain ⟨-, reset⟩ := Agreement.reset_createAll created
      refine ⟨rfl, fun d mem _ => playsAs_of_reset ?_⟩
      have fresh := reset d mem
      rw [getMember_touchMember, getMember_touchMember, startAttr] at fresh
      rwa [getMember_setMember_other (by decide), getMember_setMember_same,
        getMember_setMember_same] at fresh
    | some p => exact absurd h.running (by simp [stopped])

private theorem shows_run {cmd : Command} (h : Shows s player)
    (done : run w s root cmd = .ok (t, es)) :
    Shows t ((orderOf root cmd).toList.foldl perform player) := by
  cases cmd with
  | playStart => exact shows_playStart h done
  | playReverse => exact shows_playReverse h done
  | playClose => exact shows_playClose h done
  | playSpeedUp => exact shows_playSpeedUp h done
  | playPause => exact shows_playPause h done
  | playSeek => exact shows_playSeek h done
  | getThumbnail =>
    rw [(getThumbnail_cases done).1]
    exact h
  | getPlayList =>
    obtain ⟨running, same⟩ := Agreement.same_getPlayList done
    exact h.of_same running same.demuxers
  | playDelete =>
    obtain ⟨running, same⟩ := Agreement.same_playDelete done
    exact h.of_same running same.demuxers

end Commands

section Runs

variable {R : Type} [Doubles R] {w : World} {s t : CCommMgr R} {d : Datagram}
  {player : Option (Playback (Recording R))}

private theorem shows_rx {effects : List (Effect R)} (h : Shows s player)
    (done : rx w s d = .ok (t, effects)) : Shows t ((orders R d).foldl perform player) := by
  obtain ⟨strbuf, text, done⟩ := bind_eq_ok.mp done
  obtain ⟨parsed, parses, done⟩ := bind_eq_ok.mp done
  cases parsed with
  | none =>
    cases done
    simpa only [orders, text, parses, List.foldl_nil] using h
  | some root =>
    obtain ⟨cmd, found, done⟩ := bind_eq_ok.mp done
    cases cmd with
    | none =>
      cases done
      simpa only [orders, text, parses, found, List.foldl_nil] using h
    | some cmd =>
      obtain ⟨⟨u, more⟩, ran, done⟩ := bind_eq_ok.mp done
      cases done
      simpa only [orders, text, parses, found] using shows_run h ran

omit [Doubles R] in
private theorem shows_untold {i : ℕ} {f : CDemuxer R → CDemuxer R} {es : List (Order (Recording R))}
    (h : Shows s player) (alike : ∀ d, Agreement.Alike d (f d))
    (go : untold (Agreement.threadStep s i f) = some (t, es)) :
    Shows t (es.foldl perform player) := by
  obtain ⟨⟨u, us⟩, stepped, same⟩ := Option.map_eq_some_iff.mp go
  cases same
  obtain ⟨running, same⟩ := Agreement.same_threadStep alike stepped
  exact h.of_same running same.demuxers

omit [Doubles R] in
private theorem alike_deleted (d : CDemuxer R) : Agreement.Alike d { d with freed := true } :=
  ⟨rfl, rfl, rfl, rfl, rfl, nofun⟩

private theorem shows_step {a : Act R} {es : List (Order (Recording R))} (h : Shows s player)
    (go : step s a = some (t, es)) : Shows t (es.foldl perform player) := by
  cases a with
  | deleteThis i => exact shows_untold h alike_deleted go
  | act a =>
    cases a with
    | command w d =>
      simp only [step] at go
      split at go
      · rename_i effects done
        cases go
        exact shows_rx h done
      · cases go
    | play i => exact shows_untold h Agreement.alike_play go
    | demux i files => exact shows_untold h (Agreement.alike_demux files) go
    | move i nSeekFrame => exact shows_untold h (Agreement.alike_move nSeekFrame) go

def ShowsTold (es : List (Order (Recording R))) (s : CCommMgr R) : Prop :=
  Shows s (es.foldl perform none)

/-- Through every run, whatever datagrams come and whatever the threads of the channels do, the
channels that have not deleted themselves are at any time in the one state of a player that is told
what the datagrams say, and there are channels only while it plays. -/
theorem channels_refine_player (attr : List (Str × Value R)) {acts : List (Act R)}
    {es : List (Order (Recording R))} (run : Run step (opened attr) acts es s) :
    Shows s (es.foldl perform none) := by
  have told : ShowsTold es s := by
    refine run.invariant ⟨rfl, rfl⟩ fun ds m a n gs h go => ?_
    rw [ShowsTold, List.foldl_append]
    exact shows_step h go
  exact told

def faster : List (Act Empty) :=
  [.act (.command Agreement.recorded Agreement.start), .act (.play 0),
    .act (.command Agreement.recorded Agreement.speedUp)]

theorem channels_refine_player_faster : ∃ es s,
    Run step (opened Agreement.oneChannel) faster es s ∧ s.demuxers.length = 1 ∧
      Shows s (es.foldl perform none) := by
  have found : (exec step (opened Agreement.oneChannel) faster).map
      (fun r => decide (r.1.demuxers.length = 1 ∧ r.2.length = 2)) = some true := by decide +kernel
  obtain ⟨s, es, run, seen⟩ := Run.exists_of_exec found
  exact ⟨es, s, run, (of_decide_eq_true seen).1, channels_refine_player Agreement.oneChannel run⟩

end Runs

end Tsender.Comm.Player
