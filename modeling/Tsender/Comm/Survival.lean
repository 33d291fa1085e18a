/- Tsender/Comm/Survival
   source: comm.cpp (RX), demuxer.cpp (Create), jsoncpp.cpp (Reader::parse, Value accessors)
   digest: Exactly which datagrams the receiving thread survives in which state, and without a
   change of state where they are no well-formed commands. -/

import Tsender.Comm.Commands
import Tsender.Comm.PlayList

set_option autoImplicit false
set_option relaxedAutoImplicit false

namespace Tsender.Comm

open Json Lib.Fallible

section Statements

variable {R : Type} [Doubles R]

def Typed (info : Value R) : Command → Bool
  | .playStart => info.isObject && (info.get "target".toList).isString &&
      (info.get "bit_state".toList).isInt
  | .playSpeedUp => info.isObject && (info.get "speed".toList).isInt
  | .playSeek => info.isObject && (info.get "move_sec".toList).isInt
  | .getThumbnail => info.isObject && (info.get "channel".toList).isInt &&
      (info.get "sec".toList).isInt
  | .playDelete => info.isObject && (info.get "target".toList).isString
  | .playReverse | .playClose | .playPause | .getPlayList => true

/-- The root is an object with a known `cmd` whose fields have the expected types. -/
def IsCommand (root : Value R) : Prop :=
  root.isObject = true ∧ ∃ cmd, commandOf root = .ok (some cmd) ∧
    Typed (root.get "info".toList) cmd = true

/-- The flag, the number of channels, the attributes and the set of demuxers are the same. -/
structure Unchanged (s t : CCommMgr R) : Prop where
  bIsRunning : t.bIsRunning = s.bIsRunning
  nChannel : t.nChannel = s.nChannel
  attr : t.attr = s.attr
  demuxers : t.demuxers.map CDemuxer.id = s.demuxers.map CDemuxer.id

/-- The round ends without a fault, and without a change unless the datagram is a well-formed
command. -/
def Survives (w : World) (s : CCommMgr R) (d : Datagram) : Prop :=
  Yields (rx w s d) fun p =>
    (¬∃ root : Value R, parse (Delete.cStr d.buff) = .ok (some root) ∧ IsCommand root) →
      Unchanged s p.1

end Statements

section Conditions

variable {R : Type} [Doubles R]

/-- A channel of the settings can be created with `bitState`. -/
def Creatable (w : World) (ttl : Value R) (bitState : ℤ) (nChannel : ℕ) (info : Value R) : Prop :=
  info.hasMembers = true ∧ (info.get "num".toList).inRange 0 maxUInt64 = true ∧
    (info.get "den".toList).inRange 0 maxUInt64 = true ∧
    (¬(0 < bitState ∧ bitState.toNat &&& (1 <<< nChannel) < 1) →
      (info.get "type".toList).isPlain = true ∧
      (info.get "port".toList).inRange minInt maxInt = true ∧
      (info.get "ip".toList).isPlain = true ∧
      (w.binds nChannel = true → ttl.inRange 0 maxUInt = true))

/-- There are at most as many channels in the settings as entries in the table, and each can be
created. -/
def Startable (w : World) (s : CCommMgr R) (bitState : ℤ) : Prop :=
  match getMember s.attr "output_channels".toList with
  | .array infos => infos.length ≤ maxNumChannel ∧ ∀ n info, infos[n]? = some info →
      Creatable w (getMember s.attr "udp_sender_ttl".toList) bitState n info
  | .object ms => ms = []
  | _ => True

def Indexable : List (Value R) → UInt64 → Prop
  | [], _ => True
  | file :: files, nFrame =>
      let frame := file.get "frame".toList
      file.hasMembers = true ∧ frame.inRange minInt maxInt = true ∧
        (¬nFrame < UInt64.ofInt frame.toInteger →
          Indexable files (nFrame - UInt64.ofInt frame.toInteger))

/-- A channel can be moved to a second: its rate is a fraction and its files can be searched. -/
def Seekable (nSec : ℤ) (d : CDemuxer R) : Prop :=
  let num := d.info.get "num".toList
  let den := d.info.get "den".toList
  d.info.hasMembers = true ∧ num.inRange 0 maxUInt64 = true ∧ den.inRange 0 maxUInt64 = true ∧
    num.toInteger ≠ 0 ∧
    match d.files with
    | .array files => Indexable files
        (UInt64.ofInt nSec * UInt64.ofInt den.toInteger / UInt64.ofInt num.toInteger)
    | .object ms => ms = []
    | _ => True

def Listable (w : World) (s : CCommMgr R) : Prop :=
  let fileDst := getMember s.attr "file_dst".toList
  fileDst.isPlain = true ∧ ∃ ents, w.readdir fileDst.toStr = some ents ∧
    ∀ ent ∈ ents, notDots ent = true → ent.isDir = true → Recorded (R := R) w fileDst.toStr ent

def Runs (w : World) (s : CCommMgr R) (info : Value R) : Command → Prop
  | .playStart =>
      info.hasMembers = true ∧ (info.get "target".toList).isPlain = true ∧
        if s.bIsRunning then
          Live s ∧ (Typed info .playStart = true ∨
            s.attr.lookup "target".toList = some (.string (info.get "target".toList).toStr) ∧
            s.attr.lookup "bit_state".toList = some (info.get "bit_state".toList))
        else
          Typed info .playStart = true ∧ Startable w s (info.get "bit_state".toList).toInteger
  | .playReverse | .playClose | .playPause => s.bIsRunning = true → Live s
  | .playSpeedUp => s.bIsRunning = true →
      info.hasMembers = true ∧ (info.get "speed".toList).inRange minInt maxInt = true ∧ Live s
  | .playSeek => s.bIsRunning = true →
      info.hasMembers = true ∧ (info.get "move_sec".toList).inRange minInt maxInt = true ∧
        ∀ d ∈ s.demuxers, d.freed = false ∧ Seekable (info.get "move_sec".toList).toInteger d
  | .getThumbnail => s.bIsRunning = true →
      info.hasMembers = true ∧ (info.get "channel".toList).inRange minInt maxInt = true ∧
        (info.get "sec".toList).inRange minInt maxInt = true
  | .getPlayList => Listable w s
  | .playDelete =>
      Listable w s ∧ info.hasMembers = true ∧ (info.get "target".toList).isPlain = true ∧
        (Typed info .playDelete = true ∨ (s.attr.lookup "file_dst".toList).isSome = true)

/-- The buffer holds a NUL, the reader does not come to its limit of nested values, and if it reads
a value then this is `null` or an object, and one whose command, if any, can run. -/
def Survivable (w : World) (s : CCommMgr R) (d : Datagram) : Prop :=
  '\x00' ∈ d.buff ∧ Readable (Delete.cStr d.buff) fun root : Value R =>
    root.hasMembers = true ∧
      ∀ cmd, commandOf root = .ok (some cmd) → Runs w s (root.get "info".toList) cmd

end Conditions

section Lists

variable {R : Type} [Doubles R] {w : World}

private theorem yields_outputFileList {basepath : Str} :
    (Yields (outputFileList (R := R) w basepath) fun _ => True) ↔ ∃ ents,
      w.readdir basepath = some ents ∧ ∀ ent ∈ ents, notDots ent = true → ent.isDir = true →
        Recorded (R := R) w basepath ent := by
  simp only [outputFileList, yields_bind, yields_pure, yields_getOutputFileList]

end Lists

section Channels

variable {R : Type} [Doubles R] {w : World} {s : CCommMgr R}

private theorem yields_createSender {info : Value R} {attr : List (Str × Value R)} {nChannel : ℕ} :
    (Yields (createSender w info attr nChannel) fun _ => True) ↔ info.hasMembers = true ∧
      (info.get "type".toList).isPlain = true ∧
      (info.get "port".toList).inRange minInt maxInt = true ∧
      (info.get "ip".toList).isPlain = true ∧ (w.binds nChannel = true →
        (getMember attr "udp_sender_ttl".toList).inRange 0 maxUInt = true) := by
  simp only [createSender, setSocket, yields_bind, yields_member, yields_asString, yields_asInt,
    yields_asUInt, yields_ite, yields_pure, and_true, implies_true]
  tauto

theorem yields_create {info : Value R} {attr : List (Str × Value R)} {id nChannel : ℕ}
    (bitState : (getMember attr "bit_state".toList).inRange minInt maxInt = true) :
    (Yields (create w id info attr nChannel) fun _ => True) ↔
      Creatable w (getMember attr "udp_sender_ttl".toList)
        (getMember attr "bit_state".toList).toInteger nChannel info := by
  have sender : (Yields (createSender w info attr nChannel) fun _ => True) ↔ _ :=
    yields_createSender
  simp only [create, Creatable, yields_bind, yields_member,
    yields_asString, yields_asInt, yields_asUInt64, yields_ite, yields_pure, implies_true,
    true_and, bitState, sender]
  by_cases members : info.hasMembers = true
  · simp only [members, true_and, and_self_left]
  · simp [members]

theorem yields_createAll {attr : List (Str × Value R)} {built nChannel : ℕ}
    {infos : List (Value R)}
    (bitState : (getMember attr "bit_state".toList).inRange minInt maxInt = true) :
    (Yields (createAll w attr built nChannel infos) fun _ => True) ↔
      (infos = [] ∨ nChannel + infos.length ≤ maxNumChannel) ∧
        ∀ n info, infos[n]? = some info → Creatable w (getMember attr "udp_sender_ttl".toList)
          (getMember attr "bit_state".toList).toInteger (nChannel + n) info := by
  induction infos generalizing built nChannel with
  | nil => simp [createAll]
  | cons info infos ih =>
    have first : (Yields (create w built info attr nChannel) fun _ => True) ↔ _ :=
      yields_create bitState
    have step : (Yields (createAll w attr built nChannel (info :: infos)) fun _ => True) ↔
        nChannel < maxNumChannel ∧
          (Yields (createAll w attr (built + 1) (nChannel + 1) infos) fun _ => True) ∧
          Yields (create w built info attr nChannel) fun _ => True := by
      simp only [createAll, yields_ite, yields_bind, yields_pure, yields_error, imp_false, not_not]
      rw [yields_const]
      tauto
    rw [step, first, ih]
    constructor
    · rintro ⟨room, ⟨size, others⟩, creatable⟩
      refine ⟨.inr ?_, fun n other found => ?_⟩
      · rcases size with rfl | size
        · exact room
        · simp only [List.length_cons]
          omega
      · cases n with
        | zero => simpa using (Option.some.inj found) ▸ creatable
        | succ n =>
          have later := others n other (by simpa using found)
          rwa [Nat.add_assoc, Nat.add_comm 1 n] at later
    · rintro ⟨size, all⟩
      have room : nChannel + (infos.length + 1) ≤ maxNumChannel := by simpa using size
      refine ⟨by omega, ⟨.inr (by omega), fun n other found => ?_⟩, ?_⟩
      · have later := all (n + 1) other (by simpa using found)
        rwa [Nat.add_comm n 1, ← Nat.add_assoc] at later
      · exact all 0 info rfl

theorem createAll_spec {attr : List (Str × Value R)} {built nChannel : ℕ}
    {infos : List (Value R)} {ds : List (CDemuxer R)}
    (done : createAll w attr built nChannel infos = .ok ds) : ds.length = infos.length ∧
      ∀ (n : ℕ) (h : n < ds.length), ∃ info, infos[n]? = some info ∧
        create w (built + n) info attr (nChannel + n) = .ok ds[n] := by
  induction infos generalizing built nChannel ds with
  | nil =>
    cases done
    simp
  | cons info infos ih =>
    unfold createAll at done
    split at done
    · obtain ⟨d, first, done⟩ := bind_eq_ok.mp done
      obtain ⟨rest, others, done⟩ := bind_eq_ok.mp done
      cases done
      obtain ⟨length, created⟩ := ih others
      refine ⟨by simp [length], fun n inside => ?_⟩
      cases n with
      | zero => exact ⟨info, rfl, first⟩
      | succ n =>
        obtain ⟨other, found, made⟩ := created n (by simpa using inside)
        refine ⟨other, by simpa using found, ?_⟩
        rwa [Nat.add_assoc, Nat.add_assoc, Nat.add_comm 1 n] at made
    · cases done

theorem yields_fileIndex {files : List (Value R)} {nFrame : UInt64} :
    (Yields (fileIndex files nFrame) fun _ => True) ↔ Indexable files nFrame := by
  induction files generalizing nFrame with
  | nil => simp [fileIndex, Indexable]
  | cons file files ih =>
    simp only [fileIndex, Indexable, yields_bind, yields_member, yields_asInt, yields_ite,
      yields_pure, implies_true, true_and, ih]

theorem yields_setMoveSec {nSec : ℤ} {d : CDemuxer R} :
    (Yields (setMoveSec nSec d) fun _ => True) ↔ Seekable nSec d := by
  simp only [setMoveSec, Seekable, yields_bind, yields_member, yields_asUInt64, yields_ite,
    yields_pure, yields_error, imp_false, yields_elements, yields_fileIndex]
  generalize d.files = files
  cases files <;> simp only [Indexable, and_true, implies_true] <;> tauto

private theorem id_setMoveSec {nSec : ℤ} {d e : CDemuxer R} (done : setMoveSec nSec d = .ok e) :
    e.id = d.id := by
  simp only [setMoveSec, bind_eq_ok] at done
  obtain ⟨_, -, _, -, _, -, _, -, done⟩ := done
  split at done
  · cases done
  · obtain ⟨_, -, done⟩ := bind_eq_ok.mp done
    obtain ⟨_, -, done⟩ := bind_eq_ok.mp done
    cases done
    rfl

end Channels

section Kept

variable {R : Type} {s t : CCommMgr R} {typed : Bool} {es : List (Effect R)}

def Kept (s : CCommMgr R) (typed : Bool) (p : CCommMgr R × List (Effect R)) : Prop :=
  typed = false → Unchanged s p.1

private theorem kept_self : Kept s typed (s, es) := fun _ => ⟨rfl, rfl, rfl, rfl⟩

private theorem kept_of_ids (bIsRunning : t.bIsRunning = s.bIsRunning) (attr : t.attr = s.attr)
    (ids : t.demuxers.map CDemuxer.id = s.demuxers.map CDemuxer.id) : Kept s typed (t, es) :=
  fun _ => ⟨bIsRunning, by simpa [CCommMgr.nChannel] using congrArg List.length ids, attr, ids⟩

private theorem kept_iff_attr (bIsRunning : t.bIsRunning = s.bIsRunning)
    (ids : t.demuxers.map CDemuxer.id = s.demuxers.map CDemuxer.id) :
    Kept s typed (t, es) ↔ typed = true ∨ t.attr = s.attr := by
  constructor
  · intro kept
    cases typed with
    | true => exact .inl rfl
    | false => exact .inr (kept rfl).attr
  · rintro (rfl | attr)
    · exact nofun
    · exact kept_of_ids bIsRunning attr ids

private theorem map_id_eq {ds es : List (CDemuxer R)}
    (same : List.Forall₂ (fun d e => e.id = d.id) ds es) :
    es.map CDemuxer.id = ds.map CDemuxer.id := by
  induction same with
  | nil => rfl
  | cons first _ ih => rw [List.map_cons, List.map_cons, first, ih]

end Kept

section Commands

variable {R : Type} [Doubles R] {w : World} {s : CCommMgr R} {root : Value R} {typed : Bool}

private theorem yields_playSpeedUp (object : root.hasMembers = true) :
    Yields (playSpeedUp s root) (Kept s typed) ↔
      Runs w s (root.get "info".toList) .playSpeedUp := by
  have kept : ∀ nSpeed : ℤ, Kept s typed ({ s with
      nSpeed := nSpeed, demuxers := s.demuxers.map fun d => { d with nSpeed := nSpeed } }, []) :=
    fun nSpeed => kept_of_ids rfl rfl (by simp [Function.comp_def])
  simp only [playSpeedUp, Runs, yields_ite, yields_bind, yields_member, yields_asInt, yields_pure,
    yields_ok, yields_onEntries, object, true_and, kept, kept_self, and_true, implies_true]

private theorem yields_playSeek (object : root.hasMembers = true) :
    Yields (playSeek s root) (Kept s typed) ↔ Runs w s (root.get "info".toList) .playSeek := by
  have kept : ∀ nMoveSec : ℤ, Yields (s.demuxers.mapM (onEntry (setMoveSec nMoveSec))) (fun moved =>
      Kept s typed ({ s with nMoveSec := nMoveSec, demuxers := moved }, [])) ↔
        ∀ d ∈ s.demuxers, d.freed = false ∧ Seekable nMoveSec d := by
    intro nMoveSec
    rw [yields_mapM (fun d e done => id_setMoveSec (onEntry_eq_ok.mp done).2)]
    · simp only [yields_onEntry, yields_setMoveSec]
    · intro moved same
      exact kept_of_ids rfl rfl (map_id_eq same)
  simp only [playSeek, Runs, yields_ite, yields_bind, yields_member, yields_asInt, yields_pure,
    yields_ok, object, true_and, kept, kept_self, and_true, implies_true]

private theorem yields_getThumbnail (object : root.hasMembers = true) :
    Yields (getThumbnail s root) (Kept s typed) ↔
      Runs w s (root.get "info".toList) .getThumbnail := by
  simp only [getThumbnail, Runs, yields_ite, yields_bind, yields_member, yields_asInt, yields_pure,
    object, true_and, kept_self, and_true, implies_true]
  tauto

private theorem yields_getPlayList : Yields (getPlayList w s) (Kept s true) ↔ Listable w s := by
  have kept : ∀ p : CCommMgr R × List (Effect R), Kept s true p := fun _ => nofun
  simp only [getPlayList, Listable, yields_bind, yields_asString, yields_pure, kept,
    getMember_touchMember, yields_outputFileList]

private theorem yields_playDelete (object : root.hasMembers = true) :
    Yields (playDelete w s root) (Kept s (Typed (root.get "info".toList) .playDelete)) ↔
      Runs w s (root.get "info".toList) .playDelete := by
  have kept : ∀ es, Kept s (Typed (root.get "info".toList) .playDelete)
      ({ s with attr := touchMember s.attr "file_dst".toList }, es) ↔
        Typed (root.get "info".toList) .playDelete = true ∨
          (s.attr.lookup "file_dst".toList).isSome = true := by
    intro es
    rw [← touchMember_eq_self_iff]
    exact kept_iff_attr rfl rfl
  simp only [playDelete, Runs, Listable, yields_bind, yields_member, yields_asString, yields_pure,
    getMember_touchMember, object, true_and, kept]
  rw [yields_const, yields_outputFileList]
  tauto

private theorem yields_start {attr : List (Str × Value R)}
    (bitState : (getMember attr "bit_state".toList).inRange minInt maxInt = true)
    (channels : getMember attr "output_channels".toList =
      getMember s.attr "output_channels".toList)
    (ttl : getMember attr "udp_sender_ttl".toList = getMember s.attr "udp_sender_ttl".toList) :
    (Yields (elements (getMember attr "output_channels".toList)) fun infos =>
      Yields (createAll w attr s.built 0 infos) fun _ => True) ↔
        Startable w s (getMember attr "bit_state".toList).toInteger := by
  simp only [yields_elements, yields_createAll bitState, Startable, channels, ttl, Nat.zero_add]
  generalize getMember s.attr "output_channels".toList = list
  cases list with
  | array infos =>
    constructor
    · rintro ⟨size, all⟩
      refine ⟨?_, all⟩
      rcases size with rfl | size
      · exact Nat.zero_le _
      · exact size
    · rintro ⟨size, all⟩
      exact ⟨.inr size, all⟩
  | _ => simp

/-- The attributes that `play_start` leaves behind. -/
def startAttr (s : CCommMgr R) (info : Value R) : List (Str × Value R) :=
  setMember (setMember s.attr "target".toList (.string (info.get "target".toList).toStr))
    "bit_state".toList (info.get "bit_state".toList)

private theorem startAttr_eq_self_iff {info : Value R} : startAttr s info = s.attr ↔
    s.attr.lookup "target".toList = some (.string (info.get "target".toList).toStr) ∧
      s.attr.lookup "bit_state".toList = some (info.get "bit_state".toList) :=
  setMember_setMember_eq_self_iff (by decide)

theorem getMember_startAttr_bit_state (info : Value R) :
    getMember (startAttr s info) "bit_state".toList = info.get "bit_state".toList := by
  rw [startAttr, getMember_setMember_same]

theorem getMember_startAttr_other {info : Value R} {key : Str} (target : key ≠ "target".toList)
    (bitState : key ≠ "bit_state".toList) :
    getMember (startAttr s info) key = getMember s.attr key := by
  rw [startAttr, getMember_setMember_other bitState, getMember_setMember_other target]

private theorem yields_started {info : Value R} {attr : List (Str × Value R)}
    (stopped : s.bIsRunning = false)
    (same : attr = touchMember (startAttr s info) "output_channels".toList) :
    (Yields (elements (getMember attr "output_channels".toList)) fun infos =>
      Yields (createAll w attr s.built 0 infos) fun ds =>
        Kept s (Typed info .playStart) ({ s with
          attr := attr, bIsRunning := true, demuxers := ds, built := s.built + ds.length }, [])) ↔
      Typed info .playStart = true ∧ Startable w s (info.get "bit_state".toList).toInteger := by
  cases typed : Typed info .playStart with
  | false =>
    have changed : ∀ ds : List (CDemuxer R), ¬Kept s false ({ s with
        attr := attr, bIsRunning := true, demuxers := ds, built := s.built + ds.length }, []) := by
      intro ds kept
      have flag := (kept rfl).bIsRunning
      rw [stopped] at flag
      cases flag
    constructor
    · rintro ⟨_, -, ds, -, kept⟩
      exact absurd kept (changed ds)
    · rintro ⟨wrong, -⟩
      cases wrong
  | true =>
    have kept : ∀ p : CCommMgr R × List (Effect R), Kept s true p := fun _ => nofun
    have bit : getMember attr "bit_state".toList = info.get "bit_state".toList := by
      rw [same, getMember_touchMember, getMember_startAttr_bit_state]
    have others : ∀ key, key ≠ "target".toList → key ≠ "bit_state".toList →
        getMember attr key = getMember s.attr key := by
      intro key target bitState
      rw [same, getMember_touchMember, getMember_startAttr_other target bitState]
    have isInt : (info.get "bit_state".toList).isInt = true := by
      simp only [Typed, Bool.and_eq_true] at typed
      exact typed.2
    simp only [kept, true_and]
    rw [← bit]
    apply yields_start
    · rw [bit]
      exact Value.inRange_of_isInt isInt
    · exact others _ (by decide) (by decide)
    · exact others _ (by decide) (by decide)

private theorem yields_playStart (object : root.hasMembers = true) :
    Yields (playStart w s root) (Kept s (Typed (root.get "info".toList) .playStart)) ↔
      Runs w s (root.get "info".toList) .playStart := by
  set info := root.get "info".toList with info_def
  have attr_def : setMember (setMember s.attr "target".toList
      (.string (info.get "target".toList).toStr)) "bit_state".toList
        (info.get "bit_state".toList) = startAttr s info := rfl
  have ids : (s.demuxers.map fun d : CDemuxer R =>
      { d with isPause := false, bIsRerverse := false, nSpeed := 1 }).map CDemuxer.id =
        s.demuxers.map CDemuxer.id := by
    simp [Function.comp_def]
  have resumed : Kept s (Typed info .playStart) ({ s with
      attr := startAttr s info, demuxers := s.demuxers.map fun d =>
        { d with isPause := false, bIsRerverse := false, nSpeed := 1 } }, []) ↔
      Typed info .playStart = true ∨ startAttr s info = s.attr := kept_iff_attr rfl ids
  simp only [playStart, Runs, yields_bind, yields_member, yields_asString, yields_ite, yields_pure,
    yields_onEntries, object, true_and, ← info_def, attr_def]
  cases running : s.bIsRunning with
  | true =>
    rw [running, startAttr_eq_self_iff] at resumed
    simp only [resumed, if_true, forall_const, not_true_eq_false, false_implies, and_true]
    tauto
  | false =>
    simp only [yields_started running rfl, Bool.false_eq_true, if_false, forall_const,
      not_false_eq_true, false_implies, true_and]
    tauto

private theorem yields_run (object : root.hasMembers = true) (cmd : Command) :
    Yields (run w s root cmd) (Kept s (Typed (root.get "info".toList) cmd)) ↔
      Runs w s (root.get "info".toList) cmd := by
  have kept : ∀ p : CCommMgr R × List (Effect R), Kept s true p := fun _ => nofun
  cases cmd with
  | playStart => exact yields_playStart object
  | playReverse | playClose | playPause =>
    simp only [run, playReverse, playClose, playPause, Runs, Typed, yields_ite, yields_bind,
      yields_onEntries, yields_pure, yields_ok, kept, and_true, implies_true]
  | playSpeedUp => exact yields_playSpeedUp object
  | playSeek => exact yields_playSeek object
  | getThumbnail => exact yields_getThumbnail object
  | getPlayList => exact yields_getPlayList
  | playDelete => exact yields_playDelete object

end Commands

section Rounds

variable {R : Type} {root : Value R}

private theorem yields_commandOf {P : Option Command → Prop} : Yields (commandOf root) P ↔
    root.hasMembers = true ∧ ∀ cmd, commandOf root = .ok cmd → P cmd := by
  have found : root.hasMembers = true ↔ ∃ cmd, commandOf root = .ok cmd := by
    have yields : (Yields (commandOf root) fun _ => True) ↔ root.hasMembers = true := by
      simp only [commandOf, yields_bind, yields_member, yields_pure, and_true]
    rw [← yields]
    simp only [Yields, and_true]
  rw [found]
  constructor
  · rintro ⟨cmd, done, holds⟩
    refine ⟨⟨cmd, done⟩, fun other done' => ?_⟩
    rw [done] at done'
    cases done'
    exact holds
  · rintro ⟨⟨cmd, done⟩, all⟩
    exact ⟨cmd, done, all cmd done⟩

private theorem isObject_of_commandOf {cmd : Command} (found : commandOf root = .ok (some cmd)) :
    root.isObject = true := by
  cases root with
  | object ms => rfl
  | null => cases found
  | _ => cases found

variable [Doubles R] {w : World} {s : CCommMgr R}

theorem isCommand_iff {cmd : Command} (found : commandOf root = .ok (some cmd)) :
    IsCommand root ↔ Typed (root.get "info".toList) cmd = true := by
  constructor
  · rintro ⟨-, other, found', typed⟩
    rw [found] at found'
    cases found'
    exact typed
  · intro typed
    exact ⟨isObject_of_commandOf found, cmd, found, typed⟩

private theorem yields_dispatch {d : Datagram} :
    (Yields (do
      let cmd ← commandOf root
      match cmd with
      | none => return (s, [.echo d.bytes])
      | some cmd =>
          let (t, effects) ← run w s root cmd
          return (t, .echo d.bytes :: effects)) fun p => ¬IsCommand root → Unchanged s p.1) ↔
      root.hasMembers = true ∧ ∀ cmd, commandOf root = .ok (some cmd) →
        Runs w s (root.get "info".toList) cmd := by
  rw [yields_bind, yields_commandOf]
  refine and_congr_right fun object => ?_
  have each : ∀ cmd, commandOf root = .ok (some cmd) → ((Yields (do
      let (t, effects) ← run w s root cmd
      return (t, .echo d.bytes :: effects)) fun p => ¬IsCommand root → Unchanged s p.1) ↔
        Runs w s (root.get "info".toList) cmd) := by
    intro cmd found
    rw [← yields_run object, yields_bind, isCommand_iff found]
    simp only [yields_pure, Bool.not_eq_true]
    rfl
  constructor
  · intro all cmd found
    exact (each cmd found).mp (all (some cmd) found)
  · intro all cmd found
    cases cmd with
    | none => exact yields_pure.mpr fun _ => ⟨rfl, rfl, rfl, rfl⟩
    | some cmd => exact (each cmd found).mpr (all cmd found)

end Rounds

section Number

/-- The integers of the library, without its `double`. -/
instance noDoubles : Doubles Empty where
  scan := fun _ => none
  inRange := fun _ _ => Empty.elim
  toInt := Empty.elim
  isIntegral := Empty.elim
  toStr := Empty.elim

def emptyWorld : World where
  readdir := fun _ => none
  content := fun _ => []
  binds := fun _ => true
  joins := fun _ => true

/-- What `Open` leaves behind. -/
def opened {R : Type} (attr : List (Str × Value R)) : CCommMgr R where
  attr := attr
  bIsRunning := false
  bIsRerverse := false
  nSpeed := 1
  nMoveSec := 0
  demuxers := []
  built := 0

def number : Datagram where
  bytes := "1".toList
  nonempty := by decide
  fits := by decide

end Number

end Tsender.Comm
