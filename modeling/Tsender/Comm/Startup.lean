/- Tsender/Comm/Startup
   source: demuxer.cpp (Run, Play, GetChannelFiles, Demux: what it reads of meta.json and of the
   settings), sender.cpp (Run: what it reads of the settings)
   digest: What the threads of a channel read before and between their files, exactly when no
   exception leaves them, and how that compares with what the play list has shown. -/

import Tsender.Comm.Agreement
import Tsender.Comm.PlayTree

set_option autoImplicit false
set_option relaxedAutoImplicit false

namespace Tsender.Comm.Startup

open Json Lib.Fallible PlayTree

structure Disk where
  /-- `IsDirExist`. -/
  isDirExist : Str → Bool
  /-- The text that `Reader::parse` gets of a file, if it can be opened. -/
  ifs : Str → Option Str

/-- A turn of the loop of `Demux`: the file, and whether `m_nSeekFrame` is found above 0 in it. -/
structure Visit where
  index : ℕ
  seeks : Bool

/-- What `Demux` has when it comes to its files. -/
structure Demuxing (R : Type) where
  files : List (Value R)
  nTotalFrame : UInt64
  codec : ℤ
  num : ℤ
  den : ℤ

section Threads

variable {R : Type} [Doubles R]

/-- A round of the loop that sums up `m_nTotalFrame`. -/
def countFrame (nTotalFrame : UInt64) (file : Value R) : Except Fault UInt64 := do
  let frame ← file.member "frame".toList
  let frame ← frame.asInt
  return nTotalFrame + .ofInt frame

/-- `Demux` before its files. -/
def demux (d : CDemuxer R) (files : Value R) : Except Fault (Demuxing R) := do
  let files ← elements files
  let nTotalFrame ← files.foldlM countFrame 0
  let codec ← (getMember d.attr "codec".toList).asInt
  let num ← d.info.member "num".toList
  let num ← num.asUInt64
  let den ← d.info.member "den".toList
  let den ← den.asUInt64
  return ⟨files, nTotalFrame, codec, num, den⟩

/-- What is read of a file before it is opened: its name and the type of the channel.  A file
without frames ends the loop. -/
def readFile (d : CDemuxer R) (value : Value R) : Except Fault (Option (Str × Str)) := do
  let frame ← value.member "frame".toList
  let last_frame ← frame.asInt64
  if last_frame = 0 then return none
  else
    let name ← value.member "name".toList
    let src_filename ← name.asString
    let type ← d.info.member "type".toList
    let type ← type.asString
    return some (src_filename, type)

/-- The loop over the files, through which moves and directions lead in this order. -/
def fileLoop (d : CDemuxer R) (files : List (Value R)) :
    List Visit → Except Fault (List (Str × Str))
  | [] => .ok []
  | v :: vs =>
      match files[v.index]? with
      | none => .ok []
      | some value => do
          let opened ← readFile d value
          match opened with
          | none => return []
          | some file =>
              if v.seeks && file.2 = "video".toList then seekFrame d
              let rest ← fileLoop d files vs
              return file :: rest

/-- `GetChannelFiles`; `none` where it returns `false`. -/
def getChannelFiles (disk : Disk) (d : CDemuxer R) (path : Str) :
    Except Fault (Option (Demuxing R)) :=
  if disk.isDirExist path then
    match disk.ifs (path ++ "/".toList ++ "meta.json".toList) with
    | none => .ok none
    | some text => do
        let parsed ← parse text
        match parsed with
        | none => return none
        | some info =>
            let files ← info.member "files".toList
            let demuxing ← demux d files
            return some demuxing
  else .ok none

/-- `Play`; `none` where it comes to `delete this`. -/
def play (disk : Disk) (d : CDemuxer R) : Except Fault (Option (Demuxing R)) := do
  let file_dst ← (getMember d.attr "file_dst".toList).asString
  let target ← (getMember d.attr "target".toList).asString
  getChannelFiles disk d
    (file_dst ++ "/".toList ++ target ++ "/".toList ++ Nat.toDigits 10 d.nChannel)

/-- `CSender::Run` before its loop and the type that each of its rounds reads. -/
def senderRun (info : Value R) : Except Fault Unit := do
  let num ← info.member "num".toList
  let _ ← num.asUInt64
  let den ← info.member "den".toList
  let _ ← den.asUInt64
  let gop ← info.member "gop".toList
  let _ ← gop.asUInt
  let type ← info.member "type".toList
  let _ ← type.asString
  return ()

end Threads

section Conditions

variable {R : Type} [Doubles R]

def pathOf (d : CDemuxer R) : Str :=
  (getMember d.attr "file_dst".toList).toStr ++ "/".toList ++
    (getMember d.attr "target".toList).toStr ++ "/".toList ++ Nat.toDigits 10 d.nChannel

/-- The frames of the files are `int`s. -/
def Countable (files : Value R) : Prop :=
  match files with
  | .array vs => ∀ file ∈ vs,
      file.hasMembers = true ∧ (file.get "frame".toList).inRange minInt maxInt = true
  | .object ms => ms = []
  | _ => True

def Openable (file : Value R) : Prop :=
  (file.get "frame".toList).inRange minInt64 maxInt64 = true ∧
    ((file.get "frame".toList).toInteger ≠ 0 → (file.get "name".toList).isPlain = true)

/-- No exception leaves the threads of the channel, whatever files moves lead to, with seeks in
them or without.  There is a sender only if its socket is set up. -/
def ThreadsSurvive (disk : Disk) (seeks : Bool) (d : CDemuxer R) : Prop :=
  (Yields (play disk d) fun started => ∀ demuxing, started = some demuxing →
    ∀ visits, (∀ v ∈ visits, v.seeks = true → seeks = true) →
      Yields (fileLoop d demuxing.files visits) fun _ => True) ∧
  (d.sends = true → Yields (senderRun d.info) fun _ => True)

/-- A file with frames is what a seek of a video channel needs to come to `SeekFrame`. -/
def Sought (d : CDemuxer R) (files : List (Value R)) : Prop :=
  (d.info.get "type".toList).toStr = "video".toList ∧
    ∃ file ∈ files, (file.get "frame".toList).toInteger ≠ 0

/-- The rate consists of two numbers of type `int`. -/
def IntRate (d : CDemuxer R) : Prop :=
  (d.info.get "num".toList).inRange minInt maxInt = true ∧
    (d.info.get "den".toList).inRange minInt maxInt = true

def Usable (disk : Disk) (seeks : Bool) (d : CDemuxer R) : Prop :=
  (getMember d.attr "file_dst".toList).isPlain = true ∧
  (getMember d.attr "target".toList).isPlain = true ∧
  (disk.isDirExist (pathOf d) = true → ∀ text,
    disk.ifs (pathOf d ++ "/".toList ++ "meta.json".toList) = some text →
      Readable text fun info : Value R => info.hasMembers = true ∧
        Countable (info.get "files".toList) ∧
        (∀ file ∈ items (info.get "files".toList), Openable file) ∧
        (seeks = true → Sought d (items (info.get "files".toList)) → IntRate d) ∧
        (getMember d.attr "codec".toList).inRange minInt maxInt = true) ∧
  (d.sends = true → (d.info.get "gop".toList).inRange 0 maxUInt = true)

end Conditions

section Created

variable {R : Type} [Doubles R] {w : World} {id n : ℕ} {info : Value R}
  {attr : List (Str × Value R)} {d : CDemuxer R}

/-- What `Create` has checked of the settings of a channel. -/
structure Checked (d : CDemuxer R) : Prop where
  members : d.info.hasMembers = true
  num : (d.info.get "num".toList).inRange 0 maxUInt64 = true
  den : (d.info.get "den".toList).inRange 0 maxUInt64 = true
  type : (d.info.get "type".toList).isPlain = true

private theorem checked_of_created (created : create w id info attr n = .ok d)
    (started : d.started = true) : Checked d ∧ d.attr = attr ∧ d.nChannel = n := by
  have made : Yields (create w id info attr n) (· = d) := ⟨d, created, rfl⟩
  simp only [create, yields_bind, yields_member, yields_asUInt64, yields_asInt, yields_asString,
    yields_ite, yields_pure] at made
  obtain ⟨members, num, -, den, -, unused, used⟩ := made
  by_cases skipped : 0 < (getMember attr "bit_state".toList).toInteger ∧
      (getMember attr "bit_state".toList).toInteger.toNat &&& 1 <<< n < 1
  · rw [← unused skipped] at started
    cases started
  · obtain ⟨-, type, sends, -, made⟩ := used skipped
    subst made
    exact ⟨⟨members, num, den, type⟩, rfl, rfl⟩

end Created

section Played

variable {R : Type} [Doubles R] {d : CDemuxer R} {disk : Disk} {files : Value R}

private theorem int_of_countable (countable : Countable files) : ∀ file ∈ items files,
    file.hasMembers = true ∧ (file.get "frame".toList).inRange minInt maxInt = true := by
  cases files with
  | array vs => exact countable
  | _ => exact fun file inside => absurd inside List.not_mem_nil

private theorem yields_countFrames {vs : List (Value R)} {total : UInt64} {P : UInt64 → Prop} :
    Yields (vs.foldlM countFrame total) P ↔
      (∀ file ∈ vs, file.hasMembers = true ∧
        (file.get "frame".toList).inRange minInt maxInt = true) ∧
      P (total + .ofInt (vs.map fun file => (file.get "frame".toList).toInteger).sum) := by
  induction vs generalizing total with
  | nil =>
    have zero : UInt64.ofInt 0 = 0 := rfl
    simp [zero]
  | cons file vs ih =>
    simp only [List.foldlM_cons, countFrame, yields_bind, yields_member, yields_asInt, yields_pure,
      ih, List.forall_mem_cons, List.map_cons, List.sum_cons, UInt64.ofInt_add, and_assoc,
      UInt64.add_assoc]

theorem yields_demux (checked : Checked d) {P : Demuxing R → Prop} :
    Yields (demux d files) P ↔ Countable files ∧
      (getMember d.attr "codec".toList).inRange minInt maxInt = true ∧
      P ⟨items files, .ofInt ((items files).map fun file =>
        (file.get "frame".toList).toInteger).sum, (getMember d.attr "codec".toList).toInteger,
        (d.info.get "num".toList).toInteger, (d.info.get "den".toList).toInteger⟩ := by
  simp only [demux, yields_bind, yields_elements, yields_countFrames, yields_asInt, yields_member,
    yields_asUInt64, yields_pure, checked.members, checked.num, checked.den, true_and,
    UInt64.zero_add]
  cases files with
  | array vs => simp only [Countable, items]
  | object ms => simp [Countable, items]
  | _ => simp [Countable, items]

private theorem yields_readFile (checked : Checked d) {file : Value R}
    (members : file.hasMembers = true) :
    (Yields (readFile d file) fun _ => True) ↔ Openable file := by
  simp only [readFile, Openable, yields_bind, yields_member, yields_asInt64, yields_asString,
    yields_ite, yields_pure, members, checked.members, checked.type, implies_true, true_and,
    and_true, ne_eq]

private theorem yields_seekFrame (checked : Checked d) :
    (Yields (seekFrame d) fun _ => True) ↔ IntRate d := by
  simp only [seekFrame, IntRate, yields_bind, yields_member, yields_asInt, yields_pure,
    checked.members, true_and, and_true]

theorem eq_of_readFile {value : Value R} {opened : Option (Str × Str)}
    (done : readFile d value = .ok opened) :
    opened = if (value.get "frame".toList).toInteger = 0 then none
      else some ((value.get "name".toList).toStr, (d.info.get "type".toList).toStr) := by
  have yields : Yields (readFile d value) (· = opened) := ⟨_, done, rfl⟩
  simp only [readFile, yields_bind, yields_member, yields_asInt64, yields_asString, yields_ite,
    yields_pure] at yields
  obtain ⟨-, -, last, more⟩ := yields
  split_ifs with empty
  · exact (last empty).symm
  · exact (more empty).2.2.2.2.symm

private theorem yields_visit (checked : Checked d) {vs : List (Value R)} {v : Visit}
    {rest : List Visit}
    {file : Value R} (found : vs[v.index]? = some file) (members : file.hasMembers = true) :
    (Yields (fileLoop d vs (v :: rest)) fun _ => True) ↔ Openable file ∧
      ((file.get "frame".toList).toInteger ≠ 0 →
        (v.seeks = true → (d.info.get "type".toList).toStr = "video".toList → IntRate d) ∧
          Yields (fileLoop d vs rest) fun _ => True) := by
  have readable := yields_readFile checked members
  simp only [fileLoop, found, yields_bind]
  constructor
  · rintro ⟨opened, done, goes⟩
    obtain rfl := eq_of_readFile done
    refine ⟨readable.mp ⟨_, done, trivial⟩, fun frames => ?_⟩
    rw [if_neg frames] at goes
    simp only [Bool.and_eq_true, decide_eq_true_eq] at goes
    split at goes
    · simp only [yields_bind, yields_pure] at goes
      obtain ⟨_, rated, others⟩ := goes
      exact ⟨fun _ _ => (yields_seekFrame checked).mp ⟨_, rated, trivial⟩, others⟩
    · rename_i still
      simp only [yields_bind, yields_pure] at goes
      exact ⟨fun seeks video => absurd ⟨seeks, video⟩ still, goes⟩
  · rintro ⟨openable, goes⟩
    obtain ⟨opened, done, -⟩ := readable.mpr openable
    refine ⟨opened, done, ?_⟩
    obtain rfl := eq_of_readFile done
    split_ifs with empty
    · exact yields_pure.mpr trivial
    · obtain ⟨rated, others⟩ := goes empty
      simp only [Bool.and_eq_true, decide_eq_true_eq]
      split
      · rename_i both
        obtain ⟨_, sought, -⟩ := (yields_seekFrame checked).mpr (rated both.1 both.2)
        simp only [sought, yields_bind, yields_ok, yields_pure]
        exact others
      · simpa only [yields_bind, yields_pure] using others

private theorem yields_fileLoop (checked : Checked d) {vs : List (Value R)} {seeks : Bool}
    (members : ∀ file ∈ vs, file.hasMembers = true) :
    (∀ visits : List Visit, (∀ v ∈ visits, v.seeks = true → seeks = true) →
        Yields (fileLoop d vs visits) fun _ => True) ↔
      (∀ file ∈ vs, Openable file) ∧ (seeks = true → Sought d vs → IntRate d) := by
  constructor
  · intro all
    refine ⟨fun file inside => ?_, fun sought ⟨video, file, inside, frames⟩ => ?_⟩
    · obtain ⟨i, found⟩ := List.mem_iff_getElem?.mp inside
      have alone := all [⟨i, false⟩] (by simp)
      exact ((yields_visit checked found (members file inside)).mp alone).1
    · obtain ⟨i, found⟩ := List.mem_iff_getElem?.mp inside
      have alone := all [⟨i, true⟩] (by simp [sought])
      exact (((yields_visit checked found (members file inside)).mp alone).2 frames).1 rfl video
  · rintro ⟨openable, rated⟩ visits allowed
    induction visits with
    | nil => simp [fileLoop]
    | cons v rest ih =>
      obtain ⟨first, others⟩ := List.forall_mem_cons.mp allowed
      cases found : vs[v.index]? with
      | none => simp [fileLoop, found]
      | some file =>
        have inside : file ∈ vs := List.mem_of_getElem? found
        refine (yields_visit checked found (members file inside)).mpr
          ⟨openable file inside, fun frames => ⟨fun seeks video => ?_, ih others⟩⟩
        exact rated (first seeks) ⟨video, file, inside, frames⟩

private theorem yields_getChannelFiles {path : Str} {P : Option (Demuxing R) → Prop}
    (others : P none) : Yields (getChannelFiles disk d path) P ↔
      (disk.isDirExist path = true → ∀ text,
        disk.ifs (path ++ "/".toList ++ "meta.json".toList) = some text →
          Readable text fun info : Value R => info.hasMembers = true ∧
            Yields (demux d (info.get "files".toList)) fun demuxing => P (some demuxing)) := by
  unfold getChannelFiles
  by_cases exist : disk.isDirExist path = true
  · rw [if_pos exist]
    cases opened : disk.ifs (path ++ "/".toList ++ "meta.json".toList) with
    | none => simp [others]
    | some text =>
      simp only [exist, forall_const, Option.some.injEq, forall_eq', Readable, yields_bind]
      constructor
      · rintro ⟨parsed, done, rest⟩
        refine ⟨parsed, done, fun info same => ?_⟩
        subst same
        simpa only [yields_bind, yields_member, yields_pure] using rest
      · rintro ⟨parsed, done, rest⟩
        refine ⟨parsed, done, ?_⟩
        cases parsed with
        | none => exact yields_pure.mpr others
        | some info => simpa only [yields_bind, yields_member, yields_pure] using rest info rfl
  · simp [exist, others]

/-- Without an exception, from the beginning of a thread to wherever the files lead. -/
theorem channel_survives_iff {w : World} {id n : ℕ} {info : Value R} {attr : List (Str × Value R)}
    (created : create w id info attr n = .ok d) (started : d.started = true) (disk : Disk)
    (seeks : Bool) : ThreadsSurvive disk seeks d ↔ Usable disk seeks d := by
  obtain ⟨checked, -, -⟩ := checked_of_created created started
  have demuxes : ∀ files : Value R, (Yields (demux d files) fun demuxing =>
      ∀ e, some demuxing = some e → ∀ visits, (∀ v ∈ visits, v.seeks = true → seeks = true) →
        Yields (fileLoop d e.files visits) fun _ => True) ↔
        Countable files ∧ (∀ file ∈ items files, Openable file) ∧
          (seeks = true → Sought d (items files) → IntRate d) ∧
          (getMember d.attr "codec".toList).inRange minInt maxInt = true := by
    intro files
    simp only [yields_demux checked, Option.some.injEq, forall_eq']
    refine and_congr_right fun countable => ?_
    rw [yields_fileLoop checked fun file inside => (int_of_countable countable file inside).1]
    tauto
  have sender : (Yields (senderRun d.info) fun _ => True) ↔
      (d.info.get "gop".toList).inRange 0 maxUInt = true := by
    simp only [senderRun, yields_bind, yields_member, yields_asUInt64, yields_asUInt,
      yields_asString, yields_pure, checked.members, checked.num, checked.den, checked.type,
      true_and, and_true]
  simp only [ThreadsSurvive, Usable, play, yields_bind, yields_asString, sender, pathOf]
  rw [yields_getChannelFiles (by simp)]
  simp only [demuxes, and_assoc]

end Played

section Shown

variable {R : Type} [Doubles R] {w : World} {disk : Disk} {s s' u t : CCommMgr R}
  {es : List (Effect R)} {asked list info : Value R} {ent sub : Dirent} {d : CDemuxer R}

structure SameDisk (w : World) (disk : Disk) : Prop where
  content : ∀ path, w.content path = (disk.ifs path).getD []
  dirs : ∀ base ents ent, w.readdir (base ++ "/".toList) = some ents → ent ∈ subdirectories ents →
    disk.isDirExist (base ++ "/".toList ++ ent.d_name) = true

/-- The directory of a channel in a recording, and what its `meta.json` says. -/
structure IsChannelOf (w : World) (basepath : Str) (ent sub : Dirent) (info : Value R) : Prop where
  recording : ∃ ents, w.readdir basepath = some ents ∧ ent ∈ subdirectories ents
  channel : ∃ subs, w.readdir (metabaseOf basepath ent) = some subs ∧ sub ∈ subdirectories subs
  parsed : parse (w.content (metapathOf (metabaseOf basepath ent) sub)) = .ok (some info)

def Shows (list : Value R) (ent sub : Dirent) (total : UInt64) : Prop :=
  ∃ entry ∈ items (list.get "files".toList), entry.get "path".toList = .string ent.d_name ∧
    ∃ channel ∈ items (entry.get "channels".toList),
      channel.get "idx".toList = .string sub.d_name ∧
        channel.get "total_frame".toList = .uint total

private theorem exists_of_forall₂ {α β : Type} {S : α → β → Prop} {xs : List α} {ys : List β}
    (related : List.Forall₂ S xs ys) : ∀ x ∈ xs, ∃ y ∈ ys, S x y := by
  induction related with
  | nil => exact fun x inside => absurd inside List.not_mem_nil
  | cons first _ ih =>
    rw [List.forall_mem_cons]
    exact ⟨⟨_, List.mem_cons_self, first⟩, fun x inside =>
      (ih x inside).imp fun y both => ⟨List.mem_cons_of_mem _ both.1, both.2⟩⟩

private theorem shows_of_isPlayList {basepath : Str} {ents : List Dirent} {root : Value R}
    (opened : w.readdir basepath = some ents) (found : IsChannelOf w basepath ent sub info)
    (listed : IsPlayList Wrapped w basepath ents root) :
    Shows root ent sub (.ofInt (framesOf info).sum) := by
  obtain ⟨⟨others, again, recording⟩, ⟨subs, openedSub, channel⟩, parsed⟩ := found
  obtain rfl : others = ents := Option.some.inj (again.symm.trans opened)
  obtain ⟨n, numbered⟩ := mem_recordings recording
  obtain ⟨entry, inside, read, found, -, openedToo, described, channels⟩ :=
    exists_of_forall₂ listed.2 (ent, n) numbered
  obtain rfl : found = subs := Option.some.inj (openedToo.symm.trans openedSub)
  obtain ⟨shown, insideToo, isChannel⟩ := exists_of_forall₂ channels sub channel
  unfold metapathOf metabaseOf at parsed
  simp only [IsChannel, parsed] at isChannel
  obtain ⟨total, rfl, isShown⟩ := isChannel
  refine ⟨entry, inside, ?_, shown, insideToo, ?_, ?_⟩
  · rw [described]
    rfl
  · rw [isShown]
    rfl
  · rw [isShown]
    rfl

private theorem shows_of_getPlayList (listed : getPlayList w s = .ok (s', [.reply list]))
    (found : IsChannelOf w (getMember s.attr "file_dst".toList).toStr ent sub info) :
    (getMember s.attr "file_dst".toList).isPlain = true ∧ Counted info ∧
      Shows list ent sub (.ofInt (framesOf info).sum) := by
  have yields : Yields (getPlayList w s) (· = (s', [.reply list])) := ⟨_, listed, rfl⟩
  simp only [getPlayList, outputFileList, yields_bind, yields_asString, yields_pure,
    getMember_touchMember] at yields
  obtain ⟨plain, root, done, same⟩ := yields
  obtain ⟨ents, opened, all⟩ := yields_getOutputFileList.mp ⟨root, done, trivial⟩
  have described := isPlayList_of_done opened done
  have shown := shows_of_isPlayList opened found described
  obtain ⟨⟨others, again, recording⟩, ⟨subs, openedSub, channel⟩, parsed⟩ := found
  obtain rfl : others = ents := Option.some.inj (again.symm.trans opened)
  obtain ⟨inside, named, isDir⟩ := mem_subdirectories.mp recording
  obtain ⟨-, found, openedToo, counted⟩ := all ent inside named isDir
  obtain rfl : found = subs := Option.some.inj (openedToo.symm.trans openedSub)
  obtain ⟨inside, named, isDir⟩ := mem_subdirectories.mp channel
  obtain ⟨read, parsedToo, each⟩ := counted sub inside named isDir
  obtain rfl : read = some info := Except.ok.inj (parsedToo.symm.trans parsed)
  refine ⟨plain, each info rfl, ?_⟩
  have reply := (List.cons.inj (Prod.mk.inj same).2).1
  cases reply
  have files : items (Value.get (.object (setMember root.members "cmd".toList
      (.string "get_play_list".toList))) "files".toList) = items (root.get "files".toList) := by
    rw [described.1]
    unfold rootOf
    split_ifs <;> rfl
  unfold Shows
  rw [files]
  exact shown

private theorem attr_of_playStart (ran : playStart w u asked = .ok (t, es))
    (stopped : u.bIsRunning = false)
    (inside : d ∈ t.demuxers) (started : d.started = true) : Checked d ∧
      getMember d.attr "file_dst".toList = getMember u.attr "file_dst".toList ∧
      getMember d.attr "codec".toList = getMember u.attr "codec".toList ∧
      getMember d.attr "target".toList =
        .string ((asked.get "info".toList).get "target".toList).toStr := by
  rcases Agreement.playStart_cases ran with ⟨running, -⟩ | ⟨-, infos, ds, -, created, rfl⟩
  · rw [stopped] at running
    cases running
  · obtain ⟨n, within, rfl⟩ := List.mem_iff_getElem.mp inside
    obtain ⟨entry, -, made⟩ := (createAll_spec created).2 n within
    obtain ⟨checked, attr, -⟩ := checked_of_created made started
    have target : getMember (startAttr u (asked.get "info".toList)) "target".toList =
        .string ((asked.get "info".toList).get "target".toList).toStr := by
      rw [startAttr, getMember_setMember_other (by decide), getMember_setMember_same]
    rw [attr]
    refine ⟨checked, ?_, ?_, ?_⟩
    · rw [getMember_touchMember, getMember_startAttr_other (by decide) (by decide)]
    · rw [getMember_touchMember, getMember_startAttr_other (by decide) (by decide)]
    · rw [getMember_touchMember, target]

private theorem found_of_isChannelOf {basepath : Str} (same : SameDisk w disk)
    (found : IsChannelOf w basepath ent sub info)
    (path : pathOf d = metabaseOf basepath ent ++ sub.d_name) :
    disk.isDirExist (pathOf d) = true ∧ ∃ text,
      disk.ifs (pathOf d ++ "/".toList ++ "meta.json".toList) = some text ∧
        parse text = .ok (some info) := by
  obtain ⟨-, ⟨subs, opened, channel⟩, parsed⟩ := found
  have file : pathOf d ++ "/".toList ++ "meta.json".toList =
      metapathOf (metabaseOf basepath ent) sub := by
    rw [path, metapathOf, List.append_assoc _ "/".toList]
    rfl
  refine ⟨?_, ?_⟩
  · rw [path]
    exact same.dirs (basepath ++ "/".toList ++ ent.d_name) subs sub opened channel
  · rw [← file, same.content] at parsed
    cases read : disk.ifs (pathOf d ++ "/".toList ++ "meta.json".toList) with
    | some text =>
      rw [read, Option.getD_some] at parsed
      exact ⟨text, rfl, parsed⟩
    | none =>
      have nothing : (parse [] : Except Fault (Option (Value R))) = .ok none := rfl
      rw [read, Option.getD_none, nothing] at parsed
      cases parsed

private theorem play_eq (fileDst : (getMember d.attr "file_dst".toList).isPlain = true)
    (target : (getMember d.attr "target".toList).isPlain = true)
    (exist : disk.isDirExist (pathOf d) = true) {text : Str}
    (opened : disk.ifs (pathOf d ++ "/".toList ++ "meta.json".toList) = some text)
    (parsed : parse text = .ok (some info)) (members : info.hasMembers = true) :
    play disk d = demux d (info.get "files".toList) >>= fun demuxing => .ok (some demuxing) := by
  have first : (getMember d.attr "file_dst".toList).asString = .ok _ := if_pos fileDst
  have second : (getMember d.attr "target".toList).asString = .ok _ := if_pos target
  unfold pathOf at exist opened
  simp only [play, first, second, ok_bind, getChannelFiles, exist, if_true, opened, parsed,
    member_eq members]
  rfl

theorem play_of_shown (same : SameDisk w disk)
    (listed : getPlayList w s = .ok (s', [.reply list]))
    (found : IsChannelOf w (getMember s.attr "file_dst".toList).toStr ent sub info)
    (settings : getMember u.attr "file_dst".toList = getMember s.attr "file_dst".toList)
    (stopped : u.bIsRunning = false) (ran : playStart w u asked = .ok (t, es))
    (target : ((asked.get "info".toList).get "target".toList).toStr = ent.d_name)
    (inside : d ∈ t.demuxers) (started : d.started = true)
    (number : Nat.toDigits 10 d.nChannel = sub.d_name) :
    Checked d ∧ Counted info ∧ Shows list ent sub (.ofInt (framesOf info).sum) ∧
      getMember d.attr "codec".toList = getMember u.attr "codec".toList ∧
      play disk d =
        demux d (info.get "files".toList) >>= fun demuxing => .ok (some demuxing) := by
  obtain ⟨plain, counted, shown⟩ := shows_of_getPlayList listed found
  obtain ⟨checked, fileDst, codec, targetToo⟩ := attr_of_playStart ran stopped inside started
  have path : pathOf d =
      metabaseOf (getMember s.attr "file_dst".toList).toStr ent ++ sub.d_name := by
    rw [pathOf, fileDst, settings, targetToo, target, number]
    rfl
  have targetPlain : (getMember d.attr "target".toList).isPlain = true := by
    rw [targetToo]
    rfl
  obtain ⟨exist, text, opened, parsed⟩ := found_of_isChannelOf same found path
  exact ⟨checked, counted, shown, codec,
    play_eq (by rwa [fileDst, settings]) targetPlain exist opened parsed counted.1⟩

/-- The thread of a channel that the list has shown comes to its files exactly if every number of
frames and the codec is an `int`, and then it has counted what the list shows. -/
theorem shown_channel_plays_iff (same : SameDisk w disk)
    (listed : getPlayList w s = .ok (s', [.reply list]))
    (found : IsChannelOf w (getMember s.attr "file_dst".toList).toStr ent sub info)
    (settings : getMember u.attr "file_dst".toList = getMember s.attr "file_dst".toList)
    (stopped : u.bIsRunning = false) (ran : playStart w u asked = .ok (t, es))
    (target : ((asked.get "info".toList).get "target".toList).toStr = ent.d_name)
    (inside : d ∈ t.demuxers) (started : d.started = true)
    (number : Nat.toDigits 10 d.nChannel = sub.d_name) :
    ∃ total, Shows list ent sub total ∧
      ((Yields (play disk d) fun _ => True) ↔
        (getMember u.attr "codec".toList).inRange minInt maxInt = true ∧
          ∀ file ∈ items (info.get "files".toList),
            (file.get "frame".toList).inRange minInt maxInt = true) ∧
      ∀ demuxing, play disk d = .ok demuxing →
        ∃ started, demuxing = some started ∧ started.nTotalFrame = total := by
  obtain ⟨checked, counted, shown, codecToo, plays⟩ :=
    play_of_shown same listed found settings stopped ran target inside started number
  have files := counted.2
  have countable : Countable (info.get "files".toList) ↔
      ∀ file ∈ items (info.get "files".toList),
        (file.get "frame".toList).inRange minInt maxInt = true := by
    unfold Countable
    generalize info.get "files".toList = listed at files ⊢
    cases listed with
    | array vs => exact forall₂_congr fun file inside => and_iff_right (files file inside).1
    | object ms => simpa [items] using files
    | _ => simp [items]
  refine ⟨_, shown, ?_, fun demuxing done => ?_⟩
  · rw [plays, yields_bind]
    simp only [yields_ok, yields_demux checked, and_true, codecToo, countable]
    exact and_comm
  · have yields : Yields (play disk d) (· = demuxing) := ⟨_, done, rfl⟩
    simp only [plays, yields_bind, yields_ok, yields_demux checked] at yields
    obtain ⟨-, -, rfl⟩ := yields
    exact ⟨_, rfl, rfl⟩

end Shown

section Small

def diskOf (w : World) : Disk where
  isDirExist path :=
    if path = "d".toList then true
    else if path = "d/r".toList then true
    else if path = "d/r/0".toList then true
    else false
  ifs path := if (w.content path).isEmpty then none else some (w.content path)

def smallDisk : Disk := diskOf smallWorld

def smallSettings : List (Str × Value Empty) :=
  [("file_dst".toList, .string "d".toList), ("output_channels".toList, .array [.object []])]

/-- `play_start` with the recording of the small world. -/
def smallStart : Value Empty :=
  .object [("info".toList, .object [("target".toList, .string "r".toList)])]

def smallChannel : CDemuxer Empty where
  id := 0
  info := .object []
  attr := setMember (setMember smallSettings "target".toList (.string "r".toList))
    "bit_state".toList .null
  nChannel := 0
  files := .int 0
  nSpeed := 1
  isPause := false
  bIsRerverse := false
  isMove := false
  nMoveIdx := 0
  nSeekFrame := 0
  started := true
  sends := false
  freed := false

theorem channel_survives_iff_small :
    ThreadsSurvive smallDisk true smallChannel ↔ Usable smallDisk true smallChannel :=
  @channel_survives_iff Empty _ smallChannel smallWorld 0 0 smallChannel.info smallChannel.attr
    rfl rfl smallDisk true

private theorem content_diskOf (w : World) (path : Str) :
    w.content path = ((diskOf w).ifs path).getD [] := by
  unfold diskOf
  by_cases empty : w.content path = []
  · simp [empty]
  · simp [empty]

theorem sameDisk_oneRecording (recording channel : Str) :
    SameDisk (oneRecording [⟨"0".toList, true⟩] recording channel)
      (diskOf (oneRecording [⟨"0".toList, true⟩] recording channel)) where
  content := content_diskOf _
  dirs base ents ent opened inside := by
    have recording : base = "d/r".toList ∧ ents = [⟨"0".toList, true⟩] := by
      simp only [oneRecording] at opened
      split_ifs at opened with top below
      · have last := congrArg List.getLast? top
        simp at last
      · cases opened
        exact ⟨List.append_left_injective "/".toList below, rfl⟩
    obtain ⟨rfl, rfl⟩ := recording
    have same : ent = ⟨"0".toList, true⟩ := by simpa [subdirectories, notDots] using inside
    rw [same]
    rfl

def readsObject (text : Str) : Bool :=
  match (parse text : Except Fault (Option (Value Empty))) with
  | .ok (some _) => true
  | _ => false

def replies (r : Except Fault (CCommMgr Empty × List (Effect Empty))) : Bool :=
  match r with
  | .ok (_, [.reply _]) => true
  | _ => false

theorem exists_of_readsObject {text : Str} (h : readsObject text = true) :
    ∃ info : Value Empty, parse text = .ok (some info) := by
  unfold readsObject at h
  split at h
  · exact ⟨_, by assumption⟩
  · cases h

theorem exists_of_replies {r : Except Fault (CCommMgr Empty × List (Effect Empty))}
    (h : replies r = true) : ∃ s list, r = .ok (s, [.reply list]) := by
  unfold replies at h
  split at h
  · exact ⟨_, _, rfl⟩
  · cases h

theorem shown_channel_plays_iff_small : ∃ (list info : Value Empty) (total : UInt64),
    Shows list ⟨"r".toList, true⟩ ⟨"0".toList, true⟩ total ∧
      ((Yields (play smallDisk smallChannel) fun _ => True) ↔
        (getMember smallSettings "codec".toList).inRange minInt maxInt = true ∧
          ∀ file ∈ items (info.get "files".toList),
            (file.get "frame".toList).inRange minInt maxInt = true) ∧
      ∀ demuxing, play smallDisk smallChannel = .ok demuxing →
        ∃ started, demuxing = some started ∧ started.nTotalFrame = total := by
  have listed : replies (getPlayList smallWorld (opened smallSettings)) = true := by
    decide +kernel
  have reads : readsObject (smallWorld.content (metapathOf (metabaseOf "d".toList
      ⟨"r".toList, true⟩) ⟨"0".toList, true⟩)) = true := by decide +kernel
  obtain ⟨s', list, listed⟩ := exists_of_replies listed
  obtain ⟨info, parsed⟩ := exists_of_readsObject reads
  have found : IsChannelOf smallWorld "d".toList ⟨"r".toList, true⟩ ⟨"0".toList, true⟩ info :=
    ⟨⟨_, rfl, by simp [subdirectories, notDots]⟩, ⟨_, rfl, by simp [subdirectories, notDots]⟩,
      parsed⟩
  have ran : playStart smallWorld (opened smallSettings) smallStart = .ok ({
      opened smallChannel.attr with
      bIsRunning := true, demuxers := [smallChannel], built := 1 }, []) := rfl
  exact ⟨list, info, shown_channel_plays_iff (sameDisk_oneRecording _ _) listed found rfl rfl ran
    rfl (List.mem_singleton_self _) rfl rfl⟩

end Small

end Tsender.Comm.Startup
