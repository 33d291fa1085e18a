/- Tsender/Comm/Agreement
   source: comm.cpp (Open, RX), demuxer.cpp (Create, Play, Demux, SetSpeed, SetPause, SetReverse)
   digest: The channels and the manager keep the same direction, speed and settings exactly as
   long as every play_start finds in the manager what it gives the channels. -/

import Tsender.Comm.Survival
import Tsender.Lib.Transition

set_option autoImplicit false
set_option relaxedAutoImplicit false

namespace Tsender.Comm.Agreement

open Json Lib.Fallible Lib.Transition

inductive Act (R : Type) where
  /-- A round of `RX`. -/
  | command (w : World) (d : Datagram)
  /-- `Play` of a channel reads the settings for the name of its directory. -/
  | play (i : ℕ)
  /-- `Demux` of a channel keeps the list of its files and reads the settings for the codec. -/
  | demux (i : ℕ) (files : Value R)
  /-- `Demux` of a channel takes up a seek. -/
  | move (i : ℕ) (nSeekFrame : ℤ)

section Steps

variable {R : Type}

/-- A step of the thread of a channel, where `Create` came to `Start` and the object is still
there. -/
def threadStep (s : CCommMgr R) (i : ℕ) (f : CDemuxer R → CDemuxer R) :
    Option (CCommMgr R × List Unit) :=
  match s.demuxers[i]? with
  | none => none
  | some d =>
      if d.started && !d.freed then some ({ s with demuxers := s.demuxers.set i (f d) }, []) else none

def play (d : CDemuxer R) : CDemuxer R :=
  { d with attr := touchMember (touchMember d.attr "file_dst".toList) "target".toList }

def demux (files : Value R) (d : CDemuxer R) : CDemuxer R :=
  { d with files := files, attr := touchMember d.attr "codec".toList }

def move (nSeekFrame : ℤ) (d : CDemuxer R) : CDemuxer R :=
  { d with isMove := false, nSeekFrame := nSeekFrame }

variable [Doubles R]

def wellFormed (R : Type) [Doubles R] (d : Datagram) : Bool :=
  match (parse (Delete.cStr d.buff) : Except Fault (Option (Value R))) with
  | .ok (some root) =>
      match commandOf root with
      | .ok (some cmd) => Typed (root.get "info".toList) cmd
      | _ => false
  | _ => false

def step : Machine (CCommMgr R) (Act R) Unit
  | s, .command w d =>
      if wellFormed R d then
        match rx w s d with
        | .ok (t, _) => some (t, [])
        | .error _ => none
      else none
  | s, .play i => threadStep s i play
  | s, .demux i files => threadStep s i (demux files)
  | s, .move i nSeekFrame => threadStep s i (move nSeekFrame)

end Steps

section Statements

variable {R : Type}

structure Agree (s : CCommMgr R) : Prop where
  isPause : ∀ d ∈ s.demuxers, ∀ e ∈ s.demuxers, d.isPause = e.isPause
  bIsRerverse : ∀ d ∈ s.demuxers, d.bIsRerverse = s.bIsRerverse
  nSpeed : ∀ d ∈ s.demuxers, d.nSpeed = s.nSpeed
  target : ∀ d ∈ s.demuxers, getMember d.attr "target".toList = getMember s.attr "target".toList
  bitState : ∀ d ∈ s.demuxers,
    getMember d.attr "bit_state".toList = getMember s.attr "bit_state".toList

def Agrees (_ : List Unit) (s : CCommMgr R) : Prop := s.bIsRunning = true → Agree s

def NoChannels (s : CCommMgr R) : Prop :=
  if s.bIsRunning then s.demuxers = []
  else elements (getMember s.attr "output_channels".toList) = .ok []

/-- What the manager has recorded is what `play_start` gives the channels: the speed and the
direction of a start and, if there are channels already, the recording that they play. -/
def AsStarted (s : CCommMgr R) (info : Value R) : Prop :=
  s.nSpeed = 1 ∧ s.bIsRerverse = false ∧
    (s.bIsRunning = true →
      getMember s.attr "target".toList = info.get "target".toList ∧
      getMember s.attr "bit_state".toList = info.get "bit_state".toList)

variable [Doubles R]

/-- Every `play_start` finds no channels or what it gives them. -/
def StartsAgreed (_ : List Unit) (s : CCommMgr R) : Act R → Prop
  | .command _ d => ∀ root : Value R, parse (Delete.cStr d.buff) = .ok (some root) →
      commandOf root = .ok (some .playStart) →
        NoChannels s ∨ AsStarted s (root.get "info".toList)
  | _ => True

end Statements

section Channels

variable {R : Type} {s t : CCommMgr R}

structure Alike (d e : CDemuxer R) : Prop where
  isPause : e.isPause = d.isPause
  bIsRerverse : e.bIsRerverse = d.bIsRerverse
  nSpeed : e.nSpeed = d.nSpeed
  target : getMember e.attr "target".toList = getMember d.attr "target".toList
  bitState : getMember e.attr "bit_state".toList = getMember d.attr "bit_state".toList
  freed : e.freed = false → d.freed = false

theorem Alike.refl (d : CDemuxer R) : Alike d d := ⟨rfl, rfl, rfl, rfl, rfl, id⟩

theorem alike_play (d : CDemuxer R) : Alike d (play d) :=
  ⟨rfl, rfl, rfl, by simp [play], by simp [play], id⟩

theorem alike_demux (files : Value R) (d : CDemuxer R) : Alike d (demux files d) :=
  ⟨rfl, rfl, rfl, by simp [demux], by simp [demux], id⟩

theorem alike_move (nSeekFrame : ℤ) (d : CDemuxer R) : Alike d (move nSeekFrame d) :=
  ⟨rfl, rfl, rfl, rfl, rfl, id⟩

/-- The manager has recorded the same, and its channels are states of channels of before. -/
structure Same (s t : CCommMgr R) : Prop where
  bIsRerverse : t.bIsRerverse = s.bIsRerverse
  nSpeed : t.nSpeed = s.nSpeed
  target : getMember t.attr "target".toList = getMember s.attr "target".toList
  bitState : getMember t.attr "bit_state".toList = getMember s.attr "bit_state".toList
  demuxers : ∀ e ∈ t.demuxers, ∃ d ∈ s.demuxers, Alike d e

theorem Agree.of_same (h : Agree s) (same : Same s t) : Agree t where
  isPause := by
    intro d mem e mem'
    obtain ⟨d₀, was, alike⟩ := same.demuxers d mem
    obtain ⟨e₀, was', alike'⟩ := same.demuxers e mem'
    rw [alike.isPause, alike'.isPause]
    exact h.isPause d₀ was e₀ was'
  bIsRerverse := by
    intro d mem
    obtain ⟨d₀, was, alike⟩ := same.demuxers d mem
    rw [alike.bIsRerverse, same.bIsRerverse]
    exact h.bIsRerverse d₀ was
  nSpeed := by
    intro d mem
    obtain ⟨d₀, was, alike⟩ := same.demuxers d mem
    rw [alike.nSpeed, same.nSpeed]
    exact h.nSpeed d₀ was
  target := by
    intro d mem
    obtain ⟨d₀, was, alike⟩ := same.demuxers d mem
    rw [alike.target, same.target]
    exact h.target d₀ was
  bitState := by
    intro d mem
    obtain ⟨d₀, was, alike⟩ := same.demuxers d mem
    rw [alike.bitState, same.bitState]
    exact h.bitState d₀ was

theorem same_threadStep {i : ℕ} {f : CDemuxer R → CDemuxer R} {es : List Unit}
    (alike : ∀ d, Alike d (f d)) (go : threadStep s i f = some (t, es)) :
    t.bIsRunning = s.bIsRunning ∧ Same s t := by
  unfold threadStep at go
  split at go
  · cases go
  · rename_i d found
    split at go
    · cases go
      refine ⟨rfl, rfl, rfl, rfl, rfl, fun e mem => ?_⟩
      rcases List.mem_or_eq_of_mem_set mem with mem | rfl
      · exact ⟨e, mem, .refl e⟩
      · exact ⟨d, List.mem_of_getElem? found, alike d⟩
    · cases go

structure Reset (target bitState : Value R) (d : CDemuxer R) : Prop where
  isPause : d.isPause = false
  bIsRerverse : d.bIsRerverse = false
  nSpeed : d.nSpeed = 1
  target : getMember d.attr "target".toList = target
  bitState : getMember d.attr "bit_state".toList = bitState

private theorem agree_reset_iff {target bitState : Value R}
    (reset : ∀ d ∈ t.demuxers, Reset target bitState d) :
    Agree t ↔ t.demuxers = [] ∨ t.nSpeed = 1 ∧ t.bIsRerverse = false ∧
      target = getMember t.attr "target".toList ∧
      bitState = getMember t.attr "bit_state".toList := by
  constructor
  · intro h
    rcases List.eq_nil_or_concat t.demuxers with none | ⟨ds, d, some⟩
    · exact .inl none
    · have mem : d ∈ t.demuxers := by simp [some]
      have fresh := reset d mem
      refine .inr ⟨?_, ?_, ?_, ?_⟩
      · rw [← h.nSpeed d mem, fresh.nSpeed]
      · rw [← h.bIsRerverse d mem, fresh.bIsRerverse]
      · rw [← h.target d mem, fresh.target]
      · rw [← h.bitState d mem, fresh.bitState]
  · rintro (none | ⟨nSpeed, bIsRerverse, rfl, rfl⟩)
    · constructor <;> simp [none]
    · exact {
        isPause := fun d mem e mem' => by rw [(reset d mem).isPause, (reset e mem').isPause]
        bIsRerverse := fun d mem => by rw [(reset d mem).bIsRerverse, bIsRerverse]
        nSpeed := fun d mem => by rw [(reset d mem).nSpeed, nSpeed]
        target := fun d mem => (reset d mem).target
        bitState := fun d mem => (reset d mem).bitState }

end Channels

section Created

variable {R : Type} [Doubles R] {w : World} {attr : List (Str × Value R)}

private theorem reset_create {info : Value R} {id nChannel : ℕ} {d : CDemuxer R}
    (done : create w id info attr nChannel = .ok d) :
    Reset (getMember attr "target".toList) (getMember attr "bit_state".toList) d := by
  simp only [create, bind_eq_ok] at done
  obtain ⟨_, -, _, -, _, -, _, -, _, -, done⟩ := done
  split at done
  · cases done
    exact ⟨rfl, rfl, rfl, rfl, rfl⟩
  · simp only [bind_eq_ok] at done
    obtain ⟨_, -, _, -, _, -, done⟩ := done
    cases done
    exact ⟨rfl, rfl, rfl, rfl, rfl⟩

theorem reset_createAll {built nChannel : ℕ} {infos : List (Value R)} {ds : List (CDemuxer R)}
    (done : createAll w attr built nChannel infos = .ok ds) : ds.length = infos.length ∧
      ∀ d ∈ ds, Reset (getMember attr "target".toList) (getMember attr "bit_state".toList) d := by
  obtain ⟨length, created⟩ := createAll_spec done
  refine ⟨length, fun d mem => ?_⟩
  obtain ⟨n, inside, rfl⟩ := List.mem_iff_getElem.mp mem
  obtain ⟨info, -, made⟩ := created n inside
  exact reset_create made

end Created

section Commands

variable {R : Type} {w : World} {s t : CCommMgr R} {root : Value R} {es : List (Effect R)}

theorem Agree.map {f : CDemuxer R → CDemuxer R} (h : Agree s)
    (demuxers : t.demuxers = s.demuxers.map f) (settings : t.attr = s.attr)
    (attr : ∀ d, (f d).attr = d.attr)
    (isPause : ∀ d e, d.isPause = e.isPause → (f d).isPause = (f e).isPause)
    (bIsRerverse : ∀ d ∈ s.demuxers, (f d).bIsRerverse = t.bIsRerverse)
    (nSpeed : ∀ d ∈ s.demuxers, (f d).nSpeed = t.nSpeed) : Agree t := by
  constructor <;> simp only [demuxers, List.forall_mem_map, attr, settings]
  · intro d mem e mem'
    exact isPause d e (h.isPause d mem e mem')
  · exact bIsRerverse
  · exact nSpeed
  · exact h.target
  · exact h.bitState

private theorem agree_playReverse (running : s.bIsRunning = true) (h : Agree s)
    (done : playReverse s = .ok (t, es)) : Agree t := by
  -- The manager records the direction of the last channel, which all of them have.
  have last : ∀ d ∈ s.demuxers, (!d.bIsRerverse) =
      ((s.demuxers.map fun d : CDemuxer R =>
        { d with bIsRerverse := !d.bIsRerverse }).getLast?.map CDemuxer.bIsRerverse).getD
          s.bIsRerverse := by
    intro d mem
    rcases List.eq_nil_or_concat s.demuxers with none | ⟨ds, e, some⟩
    · simp [none] at mem
    · have mem' : e ∈ s.demuxers := by simp [some]
      rw [h.bIsRerverse d mem, ← h.bIsRerverse e mem', some]
      simp
  obtain ⟨-, rfl⟩ := (playReverse_did done).running running
  exact h.map rfl rfl (fun _ => rfl) (fun _ _ same => same) last h.nSpeed

private theorem agree_playPause (running : s.bIsRunning = true) (h : Agree s)
    (done : playPause s = .ok (t, es)) : Agree t := by
  obtain ⟨-, rfl⟩ := (playPause_did done).running running
  exact h.map rfl rfl (fun _ => rfl) (fun _ _ same => congrArg not same) h.bIsRerverse h.nSpeed

private theorem same_of_attr {key : Str} (attr : t.attr = touchMember s.attr key)
    (bIsRerverse : t.bIsRerverse = s.bIsRerverse) (nSpeed : t.nSpeed = s.nSpeed)
    (demuxers : t.demuxers = s.demuxers) : Same s t where
  bIsRerverse := bIsRerverse
  nSpeed := nSpeed
  target := by rw [attr, getMember_touchMember]
  bitState := by rw [attr, getMember_touchMember]
  demuxers := by
    intro e mem
    exact ⟨e, demuxers ▸ mem, .refl e⟩

variable [Doubles R]

private theorem agree_playSpeedUp (running : s.bIsRunning = true) (h : Agree s)
    (done : playSpeedUp s root = .ok (t, es)) : Agree t := by
  obtain ⟨-, rfl⟩ := (playSpeedUp_did done).running running
  exact h.map rfl rfl (fun _ => rfl) (fun _ _ same => same) h.bIsRerverse fun _ _ => rfl

private theorem alike_setMoveSec {nSec : ℤ} {d e : CDemuxer R} (done : setMoveSec nSec d = .ok e) :
    Alike d e := by
  simp only [setMoveSec, bind_eq_ok] at done
  obtain ⟨_, -, _, -, _, -, _, -, done⟩ := done
  split at done
  · cases done
  · simp only [bind_eq_ok] at done
    obtain ⟨_, -, _, -, done⟩ := done
    cases done
    exact ⟨rfl, rfl, rfl, rfl, rfl, id⟩

theorem same_playSeek (running : s.bIsRunning = true) (done : playSeek s root = .ok (t, es)) :
    Same s t := by
  obtain ⟨nMoveSec, moved, all, rfl⟩ := playSeek_running running done
  refine ⟨rfl, rfl, rfl, rfl, fun e mem => ?_⟩
  obtain ⟨d, was, seek⟩ := mem_of_mapM all mem
  exact ⟨d, was, alike_setMoveSec (onEntry_eq_ok.mp seek).2⟩

theorem same_getPlayList (done : getPlayList w s = .ok (t, es)) :
    t.bIsRunning = s.bIsRunning ∧ Same s t := by
  simp only [getPlayList, bind_eq_ok] at done
  obtain ⟨_, -, _, -, done⟩ := done
  cases done
  exact ⟨rfl, same_of_attr rfl rfl rfl rfl⟩

theorem same_playDelete (done : playDelete w s root = .ok (t, es)) :
    t.bIsRunning = s.bIsRunning ∧ Same s t := by
  simp only [playDelete, bind_eq_ok] at done
  obtain ⟨_, -, _, -, _, -, _, -, _, -, done⟩ := done
  cases done
  exact ⟨rfl, same_of_attr rfl rfl rfl rfl⟩

private theorem run_stopped {cmd : Command} (other : cmd ≠ .playStart)
    (stopped : s.bIsRunning = false)
    (done : run w s root cmd = .ok (t, es)) : t.bIsRunning = false := by
  cases cmd with
  | playStart => exact absurd rfl other
  | playReverse => rw [(playReverse_did done).stopped stopped, stopped]
  | playClose => rw [(playClose_did done).stopped stopped, stopped]
  | playPause => rw [(playPause_did done).stopped stopped, stopped]
  | playSpeedUp => rw [(playSpeedUp_did done).stopped stopped, stopped]
  | playSeek => rw [playSeek_stopped stopped done, stopped]
  | getThumbnail => rw [(getThumbnail_cases done).1, stopped]
  | getPlayList => rw [(same_getPlayList done).1, stopped]
  | playDelete => rw [(same_playDelete done).1, stopped]

private theorem agrees_run {cmd : Command} (other : cmd ≠ .playStart)
    (h : s.bIsRunning = true → Agree s)
    (done : run w s root cmd = .ok (t, es)) : t.bIsRunning = true → Agree t := by
  intro still
  cases running : s.bIsRunning with
  | true =>
    have agree := h running
    cases cmd with
    | playStart => exact absurd rfl other
    | playReverse => exact agree_playReverse running agree done
    | playClose =>
      obtain ⟨-, rfl⟩ := (playClose_did done).running running
      cases still
    | playSpeedUp => exact agree_playSpeedUp running agree done
    | playPause => exact agree_playPause running agree done
    | playSeek => exact agree.of_same (same_playSeek running done)
    | getThumbnail => exact (getThumbnail_cases done).1 ▸ agree
    | getPlayList => exact agree.of_same (same_getPlayList done).2
    | playDelete => exact agree.of_same (same_playDelete done).2
  | false =>
    -- Only `play_start` makes the manager run.
    rw [run_stopped other running done] at still
    cases still

private theorem getMember_startAttr_target {info : Value R} (typed : Typed info .playStart = true) :
    getMember (startAttr s info) "target".toList = info.get "target".toList := by
  simp only [Typed, Bool.and_eq_true] at typed
  have text : (info.get "target".toList).isString = true := typed.1.2
  rw [startAttr, getMember_setMember_other (by decide), getMember_setMember_same]
  exact Value.string_toStr text

theorem playStart_cases (done : playStart w s root = .ok (t, es)) :
    (s.bIsRunning = true ∧ Live s ∧ t = { s with
      attr := startAttr s (root.get "info".toList)
      demuxers := s.demuxers.map fun d =>
        { d with isPause := false, bIsRerverse := false, nSpeed := 1 } }) ∨
    (s.bIsRunning = false ∧ ∃ infos ds,
      elements (getMember s.attr "output_channels".toList) = .ok infos ∧
      createAll w (touchMember (startAttr s (root.get "info".toList)) "output_channels".toList)
        s.built 0 infos = .ok ds ∧
      t = { s with
        attr := touchMember (startAttr s (root.get "info".toList)) "output_channels".toList
        bIsRunning := true, demuxers := ds, built := s.built + ds.length }) := by
  have yields : Yields (playStart w s root) fun p => p = (t, es) := ⟨_, done, rfl⟩
  simp only [playStart, yields_bind, yields_member, yields_asString, yields_ite,
    yields_onEntries, yields_pure] at yields
  obtain ⟨-, -, -, -, resumes, starts⟩ := yields
  by_cases running : s.bIsRunning = true
  · obtain ⟨live, same⟩ := resumes running
    exact .inl ⟨running, live, (Prod.mk.inj same).1.symm⟩
  · obtain ⟨infos, read, ds, created, same⟩ := starts running
    rw [getMember_touchMember] at read
    have channels : getMember (startAttr s (root.get "info".toList)) "output_channels".toList =
        getMember s.attr "output_channels".toList :=
      getMember_startAttr_other (by decide) (by decide)
    refine .inr ⟨by simpa using running, infos, ds, ?_, created, (Prod.mk.inj same).1.symm⟩
    rw [← channels]
    exact read

private theorem running_playStart (done : playStart w s root = .ok (t, es)) :
    t.bIsRunning = true := by
  rcases playStart_cases done with ⟨running, -, rfl⟩ | ⟨-, _, _, -, -, rfl⟩
  · exact running
  · rfl

/-- After `play_start` the channels and the manager agree exactly if there are no channels or the
manager has recorded what the channels are given. -/
private theorem agree_playStart_iff (typed : Typed (root.get "info".toList) .playStart = true)
    (h : s.bIsRunning = true → Agree s) (done : playStart w s root = .ok (t, es)) :
    Agree t ↔ NoChannels s ∨ AsStarted s (root.get "info".toList) := by
  rcases playStart_cases done with ⟨running, -, rfl⟩ | ⟨stopped, infos, ds, read, created, rfl⟩
  · have agree := h running
    have reset : ∀ e ∈ s.demuxers.map fun d : CDemuxer R =>
        { d with isPause := false, bIsRerverse := false, nSpeed := 1 },
        Reset (getMember s.attr "target".toList) (getMember s.attr "bit_state".toList) e := by
      intro e mem
      obtain ⟨d, was, rfl⟩ := List.mem_map.mp mem
      exact ⟨rfl, rfl, rfl, agree.target d was, agree.bitState d was⟩
    rw [agree_reset_iff reset]
    simp only [NoChannels, AsStarted, running, if_true, forall_const, List.map_eq_nil_iff,
      getMember_startAttr_bit_state, getMember_startAttr_target typed]
  · obtain ⟨length, reset⟩ := reset_createAll created
    have empty : ds = [] ↔ infos = [] := by
      rw [← List.length_eq_zero_iff, length, List.length_eq_zero_iff]
    rw [agree_reset_iff reset]
    simp only [NoChannels, AsStarted, stopped, read, empty, Bool.false_eq_true, if_false,
      Except.ok.injEq, false_implies, and_true]

end Commands

section Rounds

variable {R : Type} [Doubles R] {w : World} {s t : CCommMgr R} {d : Datagram}

private theorem wellFormed_iff : wellFormed R d = true ↔
    ∃ root : Value R, parse (Delete.cStr d.buff) = .ok (some root) ∧ IsCommand root := by
  unfold wellFormed
  constructor
  · intro well
    split at well
    · rename_i root parses
      split at well
      · rename_i cmd found
        exact ⟨root, parses, (isCommand_iff found).mpr well⟩
      · cases well
    · cases well
  · rintro ⟨root, parses, -, cmd, found, typed⟩
    simp only [parses, found, typed]

private theorem rx_command {p : CCommMgr R × List (Effect R)} (well : wellFormed R d = true)
    (done : rx w s d = .ok p) : ∃ root cmd es,
      (parse (Delete.cStr d.buff) : Except Fault (Option (Value R))) = .ok (some root) ∧
      commandOf root = .ok (some cmd) ∧ Typed (root.get "info".toList) cmd = true ∧
      run w s root cmd = .ok (p.1, es) := by
  obtain ⟨root, parses, -, cmd, found, typed⟩ := wellFormed_iff.mp well
  obtain ⟨strbuf, read, done⟩ := bind_eq_ok.mp done
  have text : strbuf = Delete.cStr d.buff := by
    unfold stringAt at read
    split at read
    · exact (Except.ok.inj read).symm
    · cases read
  subst text
  simp only [bind_eq_ok, parses, Except.ok.injEq, exists_eq_left', found] at done
  obtain ⟨⟨t, es⟩, ran, same⟩ := done
  cases same
  exact ⟨root, cmd, es, parses, found, typed, ran⟩

private theorem agrees_command_iff {p : CCommMgr R × List (Effect R)} (well : wellFormed R d = true)
    (h : Agrees [] s) (done : rx w s d = .ok p) :
    Agrees [] p.1 ↔ StartsAgreed [] s (.command w d) := by
  obtain ⟨root, cmd, es, parses, found, typed, ran⟩ := rx_command well done
  have condition : StartsAgreed [] s (.command w d) ↔
      (cmd = .playStart → NoChannels s ∨ AsStarted s (root.get "info".toList)) := by
    constructor
    · rintro starts rfl
      exact starts root parses found
    · intro starts root' parses' found'
      obtain rfl : root = root' := Option.some.inj (Except.ok.inj (parses.symm.trans parses'))
      exact starts (Option.some.inj (Except.ok.inj (found.symm.trans found')))
  rw [condition]
  by_cases start : cmd = .playStart
  · subst start
    rw [← agree_playStart_iff typed h ran]
    simp only [Agrees, running_playStart ran, forall_const]
  · constructor
    · exact fun _ same => absurd same start
    · exact fun _ => agrees_run start h ran

private theorem agrees_step_iff {a : Act R} {ds es : List Unit} (h : Agrees ds s)
    (go : step s a = some (t, es)) : Agrees (ds ++ es) t ↔ StartsAgreed ds s a := by
  have thread : ∀ {i f}, (∀ d : CDemuxer R, Alike d (f d)) → threadStep s i f = some (t, es) →
      (Agrees (ds ++ es) t ↔ True) := by
    intro i f alike go
    obtain ⟨running, same⟩ := same_threadStep alike go
    refine iff_true_intro fun still => ?_
    rw [running] at still
    exact (h still).of_same same
  cases a with
  | command w d =>
    simp only [step] at go
    split at go
    · rename_i well
      split at go
      · rename_i done
        cases go
        exact agrees_command_iff well h done
      · cases go
    · cases go
  | play i => exact thread alike_play go
  | demux i files => exact thread (alike_demux files) go
  | move i nSeekFrame => exact thread (alike_move nSeekFrame) go

/-- Whenever the manager is running it agrees with its channels, exactly as long as every
`play_start` finds no channels or has the manager record what the channels are given. -/
theorem channels_agree_iff (attr : List (Str × Value R)) (acts : List (Act R)) :
    Throughout step Agrees (opened attr) acts ↔ Meets step StartsAgreed (opened attr) acts :=
  throughout_iff_meets_of_step nofun fun _ _ _ _ _ h go => agrees_step_iff h go

end Rounds

section Faster

/-- A directory with the recording `a`, which has one channel. -/
def recorded : World where
  readdir path := if path = "d".toList then some [⟨"a".toList, true⟩]
    else if path = "d/a/".toList then some [⟨"0".toList, true⟩] else none
  content path := if path = "d/a/0/meta.json".toList then
      "\x7b\x22files\x22:[\x7b\x22frame\x22:5,\x22name\x22:\x22f\x22\x7d]\x7d".toList
    else []
  binds _ := true
  joins _ := true

def oneChannel : List (Str × Value Empty) :=
  [("file_dst".toList, .string "d".toList), ("codec".toList, .int 0),
    ("udp_sender_ttl".toList, .int 64), ("output_channels".toList, .array [.object [
    ("type".toList, .string "video".toList), ("ip".toList, .string "239.0.0.1".toList),
    ("port".toList, .int 5000), ("num".toList, .int 30), ("den".toList, .int 1)]])]

def start : Datagram where
  bytes := ("\x7b\x22cmd\x22:\x22play_start\x22,\x22info\x22:\x7b" ++
    "\x22target\x22:\x22a\x22,\x22bit_state\x22:1\x7d\x7d").toList
  nonempty := by decide
  fits := by decide

def speedUp : Datagram where
  bytes := ("\x7b\x22cmd\x22:\x22play_speed_up\x22,\x22info\x22:\x7b" ++
    "\x22speed\x22:4\x7d\x7d").toList
  nonempty := by decide
  fits := by decide

/-- The second start sets the channel back to its normal speed, but not the manager. -/
theorem second_start_disagrees : ¬∀ (attr : List (Str × Value Empty)) (acts : List (Act Empty)),
    Throughout step Agrees (opened attr) acts := by
  intro claim
  have found : (exec step (opened oneChannel) [.command recorded start,
      .command recorded speedUp, .command recorded start]).map
        (fun r : CCommMgr Empty × List Unit => r.1.bIsRunning &&
          r.1.demuxers.any fun d => d.nSpeed ≠ r.1.nSpeed) = some true := by
    decide +kernel
  obtain ⟨t, es, run, seen⟩ := Run.exists_of_exec found
  obtain ⟨running, apart⟩ := Bool.and_eq_true_iff.mp seen
  obtain ⟨d, mem, differs⟩ := List.any_eq_true.mp apart
  have agree : Agree t := claim oneChannel _ _ [] es t (List.append_nil _).symm run running
  exact of_decide_eq_true differs (agree.nSpeed d mem)

end Faster

end Tsender.Comm.Agreement
