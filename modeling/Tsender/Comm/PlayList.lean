/- Tsender/Comm/PlayList
   source: misc.cpp (GetOutputFileList)
   digest: The play list describes each directory with its own data and nothing else, exactly
   where what can be parsed in it can be used. -/

import Mathlib.Data.List.Forall2
import Tsender.Comm.Dispatch

set_option autoImplicit false
set_option relaxedAutoImplicit false

namespace Tsender.Comm

open Json Lib.Fallible

section Conditions

variable {R : Type} [Doubles R]

/-- The reader does not come to its limit, and a value that it reads satisfies `P`. -/
def Readable (text : Str) (P : Value R → Prop) : Prop :=
  ∃ parsed : Option (Value R), parse text = .ok parsed ∧ ∀ root, parsed = some root → P root

def Counted (root : Value R) : Prop :=
  root.hasMembers = true ∧
    match root.get "files".toList with
    | .array files => ∀ file ∈ files,
        file.hasMembers = true ∧ (file.get "frame".toList).inRange minInt64 maxInt64 = true
    | .object ms => ms = []
    | _ => True

/-- What an `info.json` must be; one that is refused must be so for its first token. -/
def Informative (R : Type) [Doubles R] (text : Str) : Prop :=
  ∃ parsed : Option (Value R), parse text = .ok parsed ∧
    match parsed with
    | some info => info.hasMembers = true ∧ (info.get "info".toList).hasMembers = true
    | none => RefusedAtStart R text

def Recorded (w : World) (basepath : Str) (ent : Dirent) : Prop :=
  let metabase := basepath ++ "/".toList ++ ent.d_name ++ "/".toList
  Informative R (w.content (metabase ++ "info.json".toList)) ∧
  ∃ subs, w.readdir metabase = some subs ∧ ∀ sub ∈ subs, notDots sub = true → sub.isDir = true →
    Readable (w.content (metabase ++ sub.d_name ++ "/meta.json".toList)) (Counted (R := R))

end Conditions

section Entries

variable {R : Type}

/-- `null`, or an object without members. -/
def Blank (v : Value R) : Prop := v = .null ∨ v = .object []

def items : Value R → List (Value R)
  | .array vs => vs
  | _ => []

/-- The elements of `channels` for a `meta.json` with these data. -/
def channelOf (total : UInt64) (metapath : Str) (ent : Dirent) (info : Value R) : Value R :=
  .object [("total_frame".toList, .uint total), ("filename".toList, .string metapath),
    ("idx".toList, .string ent.d_name), ("num".toList, info.get "num".toList),
    ("den".toList, info.get "den".toList)]

/-- `bit_state`, exactly where there is an `info.json`. -/
def bitStateOf : Option (Value R) → List (Str × Value R)
  | none => []
  | some root => [("bit_state".toList, (root.get "info".toList).get "bit_state".toList)]

/-- `channels`, where there are any. -/
def channelsOf (channels : List (Value R)) : List (Str × Value R) :=
  if channels = [] then [] else [("channels".toList, .array channels)]

/-- The elements of `files`. -/
def entryOf (ent : Dirent) (idx : ℕ) (parsed : Option (Value R)) (channels : List (Value R)) :
    Value R :=
  .object ([("idx".toList, .int (.ofNat idx)), ("path".toList, .string ent.d_name)] ++
    bitStateOf parsed ++ channelsOf channels)

/-- What is returned for the elements of `files`. -/
def rootOf (entries : List (Value R)) : Value R :=
  if entries = [] then .null else .object [("files".toList, .array entries)]

def subdirectories (ents : List Dirent) : List Dirent :=
  ents.filter fun ent => notDots ent && ent.isDir

def recordings (ents : List Dirent) : List (Dirent × ℕ) :=
  (ents.filter notDots).zipIdx.filter fun p => p.1.isDir

end Entries

section Statements

variable {R : Type} [Doubles R] (Total : ℤ → UInt64 → Prop) (w : World)

def framesOf (info : Value R) : List ℤ :=
  (items (info.get "files".toList)).map fun file => (file.get "frame".toList).toInteger

/-- An element of `channels` has the data of its own directory, or no members; `Total` says what
number stands for the sum of the frames. -/
def IsChannel (metabase : Str) (ent : Dirent) (channel : Value R) : Prop :=
  let metapath := metabase ++ ent.d_name ++ "/meta.json".toList
  match (parse (w.content metapath) : Except Fault (Option (Value R))) with
  | .ok (some info) => ∃ total, Total (framesOf info).sum total ∧
      channel = channelOf total metapath ent info
  | .ok none => Blank channel
  | .error _ => False

/-- An element of `files` has the data of its own directory. -/
def IsRecording (basepath : Str) (p : Dirent × ℕ) (entry : Value R) : Prop :=
  let metabase := basepath ++ "/".toList ++ p.1.d_name ++ "/".toList
  ∃ parsed subs, parse (w.content (metabase ++ "info.json".toList)) = .ok parsed ∧
    w.readdir metabase = some subs ∧
    entry = entryOf p.1 p.2 parsed (items (entry.get "channels".toList)) ∧
    List.Forall₂ (IsChannel Total w metabase) (subdirectories subs)
      (items (entry.get "channels".toList))

def IsPlayList (basepath : Str) (ents : List Dirent) (root : Value R) : Prop :=
  root = rootOf (items (root.get "files".toList)) ∧
    List.Forall₂ (IsRecording Total w basepath) (recordings ents)
      (items (root.get "files".toList))

end Statements

section Values

variable {R : Type} {v : Value R}

theorem Blank.hasMembers (blank : Blank v) : v.hasMembers = true := by
  rcases blank with rfl | rfl <;> rfl

theorem Blank.members (blank : Blank v) : v.members = [] := by
  rcases blank with rfl | rfl <;> rfl

/-- What `clear` leaves of `null` or an object. -/
def cleared (v : Value R) : Value R := if v.isObject then .object [] else v

private theorem clear_eq (object : v.hasMembers = true) : v.clear = .ok (cleared v) := by
  cases v with
  | null | object ms => rfl
  | _ => cases object

private theorem blank_cleared (object : v.hasMembers = true) : Blank (cleared v) := by
  cases v with
  | null => exact .inl rfl
  | object ms => exact .inr rfl
  | _ => cases object

end Values

section Channels

variable {R : Type}

theorem yields_elements {v : Value R} {P : List (Value R) → Prop} : Yields (elements v) P ↔
    match v with
    | .array vs => P vs
    | .object ms => ms = [] ∧ P []
    | _ => P [] := by
  cases v with
  | object ms => cases ms <;> simp [elements]
  | _ => simp [elements]

private theorem set_channelOf (ent : Dirent) (total : UInt64) (metapath : Str) (info : Value R) :
    .object (setMember (setMember (setMember (setMember (setMember []
      "total_frame".toList (.uint total)) "filename".toList (.string metapath))
      "idx".toList (.string ent.d_name)) "num".toList (info.get "num".toList))
      "den".toList (info.get "den".toList)) = channelOf total metapath ent info := rfl

variable [Doubles R] {w : World} {metabase : Str} {ent : Dirent}

private theorem yields_totalFrame {files : List (Value R)} {P : ℤ → Prop} :
    Yields (totalFrame files) P ↔
      (∀ file ∈ files, file.hasMembers = true ∧
        (file.get "frame".toList).inRange minInt64 maxInt64 = true) ∧
      P (files.map fun file => (file.get "frame".toList).toInteger).sum := by
  induction files generalizing P with
  | nil => simp [totalFrame]
  | cons file files ih =>
    simp only [totalFrame, yields_bind, yields_member, yields_asInt64, yields_pure, ih,
      List.forall_mem_cons, List.map_cons, List.sum_cons, and_assoc]

private theorem yields_setChannel {metapath : Str} {channel info : Value R} {P : Value R → Prop}
    (blank : Blank channel) : Yields (setChannel metapath ent channel info) P ↔
      Counted info ∧ P (channelOf (.ofInt (framesOf info).sum) metapath ent info) := by
  simp only [setChannel, yields_bind, yields_member, yields_elements, yields_totalFrame,
    yields_assign, blank.hasMembers, blank.members, Counted, framesOf, Value.hasMembers_object,
    Value.members_object, set_channelOf, true_and]
  generalize info.get "files".toList = files
  cases files with
  | array files =>
    simp only [items]
    tauto
  | object ms =>
    simp only [items, List.not_mem_nil, false_implies, implies_true, List.map_nil]
    tauto
  | _ =>
    simp only [items, List.not_mem_nil, false_implies, implies_true, List.map_nil]
    tauto

end Channels

section Entry

variable {R : Type} {ent : Dirent} {idx : ℕ} {parsed : Option (Value R)}

private theorem set_entryOf (ent : Dirent) (number : ℕ) : Value.object (R := R)
    (setMember (setMember [] "idx".toList (.int (.ofNat number))) "path".toList
      (.string ent.d_name)) = entryOf ent number none [] := rfl

private theorem hasMembers_entryOf (channels : List (Value R)) :
    (entryOf ent idx parsed channels).hasMembers = true := rfl

private theorem yields_setBitState {info : Value R} {P : Value R → Prop} :
    Yields (setBitState (entryOf ent idx none []) info) P ↔
      (info.hasMembers = true ∧ (info.get "info".toList).hasMembers = true) ∧
        P (entryOf ent idx (some info) []) := by
  simp only [setBitState, yields_bind, yields_member, yields_assign, hasMembers_entryOf,
    true_and, and_assoc]
  rfl

private theorem yields_getFormatedErrorMessages [Doubles R] {text : Str} {P : Unit → Prop} :
    Yields (getFormatedErrorMessages R text) P ↔ errorsReadText R text = false ∧ P () := by
  unfold getFormatedErrorMessages
  cases errorsReadText R text <;> simp

private theorem get_channels (channels : List (Value R)) :
    items ((entryOf ent idx parsed channels).get "channels".toList) = channels := by
  cases channels with
  | nil => cases parsed <;> rfl
  | cons channel channels => cases parsed <;> rfl

private theorem get_files (entries : List (Value R)) :
    items ((rootOf entries).get "files".toList) = entries := by
  cases entries <;> rfl

private theorem appendTo_channels (channels : List (Value R)) (channel : Value R) :
    (entryOf ent idx parsed channels).appendTo "channels".toList channel =
      .ok (entryOf ent idx parsed (channels ++ [channel])) := by
  cases channels with
  | nil => cases parsed <;> rfl
  | cons first channels => cases parsed <;> rfl

private theorem appendTo_files (entries : List (Value R)) (entry : Value R) :
    (rootOf entries).appendTo "files".toList entry = .ok (rootOf (entries ++ [entry])) := by
  cases entries <;> rfl

end Entry

section Rounds

variable {R : Type} [Doubles R] {w : World} {basepath metabase : Str} {ent sub : Dirent} {idx : ℕ}
  {parsed : Option (Value R)} {root : Value R} {pre : List Dirent} {u v : Locals R}

private theorem subdirectories_append (isDir : (notDots sub && sub.isDir) = true) :
    subdirectories (pre ++ [sub]) = subdirectories pre ++ [sub] := by
  simp [subdirectories, isDir]

private theorem subdirectories_skip (isDir : ¬(notDots sub && sub.isDir) = true) :
    subdirectories (pre ++ [sub]) = subdirectories pre := by
  simp [subdirectories, isDir]

/-- How `uint64_t` sums up: modulo 2^64. -/
def Wrapped (sum : ℤ) (total : UInt64) : Prop := total = .ofInt sum

/-- What is appended for a directory: a parsed `meta.json` is read, else `channel` is as it was. -/
def nextChannel (metabase : Str) (sub : Dirent) (channel : Value R) : Option (Value R) → Value R
  | none => channel
  | some info => channelOf (.ofInt (framesOf info).sum)
      (metabase ++ sub.d_name ++ "/meta.json".toList) sub info

/-- In the loop over the entries of a recording: `b` has been begun and has a channel for each
directory up to here, and nothing is left over of them. -/
structure Gathered (w : World) (metabase : Str) (ent : Dirent) (number : ℕ)
    (parsed : Option (Value R)) (files : Value R) (pre : List Dirent) (v : Locals R) : Prop where
  root : v.root = files
  idx : v.idx = number
  sstm : v.sstm = []
  blank : Blank v.channel
  b : v.b = entryOf ent number parsed (items (v.b.get "channels".toList))
  channels : List.Forall₂ (IsChannel Wrapped w metabase) (subdirectories pre)
    (items (v.b.get "channels".toList))

private theorem hasMembers_nextChannel {channel : Value R} (blank : Blank channel)
    (read : Option (Value R)) : (nextChannel metabase sub channel read).hasMembers = true := by
  cases read with
  | none => exact blank.hasMembers
  | some info => rfl

private theorem isChannel_nextChannel {channel : Value R} (blank : Blank channel)
    {read : Option (Value R)}
    (done : parse (w.content (metabase ++ sub.d_name ++ "/meta.json".toList)) = .ok read) :
    IsChannel Wrapped w metabase sub (nextChannel metabase sub channel read) := by
  simp only [IsChannel, done]
  cases read with
  | none => exact blank
  | some info => exact ⟨_, rfl, rfl⟩

namespace Gathered

private theorem yields_round (g : Gathered w metabase ent idx parsed root pre v)
    (isDir : (notDots sub && sub.isDir) = true) {P : Locals R → Prop} :
    Yields (channelRound w metabase v sub) P ↔ ∃ read,
      parse (w.content (metabase ++ sub.d_name ++ "/meta.json".toList)) = .ok read ∧
      (∀ info, read = some info → Counted info) ∧ P { v with
        b := entryOf ent idx parsed (items (v.b.get "channels".toList) ++
          [nextChannel metabase sub v.channel read])
        channel := cleared (nextChannel metabase sub v.channel read)
        sstm := [] } := by
  have append : ∀ channel, v.b.appendTo "channels".toList channel =
      .ok (entryOf ent idx parsed (items (v.b.get "channels".toList) ++ [channel])) := by
    intro channel
    rw [← appendTo_channels, ← g.b]
  have clear : ∀ read, (nextChannel metabase sub v.channel read).clear =
      .ok (cleared (nextChannel metabase sub v.channel read)) :=
    fun read => clear_eq (hasMembers_nextChannel g.blank read)
  simp only [channelRound, isDir, if_true, yields_bind, append, g.sstm, List.nil_append]
  refine exists_congr fun read => and_congr_right fun _ => ?_
  cases read with
  | none =>
    have same := clear none
    simp only [nextChannel] at same ⊢
    simp only [yields_bind, yields_ok, yields_pure, same, reduceCtorEq, false_implies,
      implies_true, true_and]
  | some info =>
    have same := clear (some info)
    simp only [nextChannel] at same ⊢
    simp only [yields_bind, yields_setChannel g.blank, yields_ok, yields_pure, same,
      Option.some.injEq, forall_eq']

private theorem round_iff (g : Gathered w metabase ent idx parsed root pre v) :
    (Yields (channelRound w metabase v sub) fun _ => True) ↔
      (notDots sub = true → sub.isDir = true →
        Readable (w.content (metabase ++ sub.d_name ++ "/meta.json".toList))
          (Counted : Value R → Prop)) := by
  by_cases isDir : (notDots sub && sub.isDir) = true
  · rw [g.yields_round isDir]
    rw [Bool.and_eq_true] at isDir
    simp only [isDir, forall_const, and_true, Readable]
  · have skip : ¬(notDots sub = true ∧ sub.isDir = true) := by rwa [Bool.and_eq_true] at isDir
    simp only [channelRound, if_neg isDir, yields_ok, true_iff]
    exact fun named dir => absurd ⟨named, dir⟩ skip

theorem round (g : Gathered w metabase ent idx parsed root pre v)
    (done : channelRound w metabase v sub = .ok u) :
    Gathered w metabase ent idx parsed root (pre ++ [sub]) u := by
  by_cases isDir : (notDots sub && sub.isDir) = true
  · obtain ⟨read, found, -, rfl⟩ := (g.yields_round (P := (u = ·)) isDir).mp ⟨u, done, rfl⟩
    exact {
      root := g.root
      idx := g.idx
      sstm := rfl
      blank := blank_cleared (hasMembers_nextChannel g.blank read)
      b := by rw [get_channels]
      channels := by
        rw [get_channels, subdirectories_append isDir]
        exact List.rel_append g.channels (.cons (isChannel_nextChannel g.blank found) .nil) }
  · rw [channelRound, if_neg isDir] at done
    obtain rfl := Except.ok.inj done
    exact { g with channels := by rw [subdirectories_skip isDir]; exact g.channels }

private theorem loop_iff {s : Locals R} (g : Gathered w metabase ent idx parsed root [] s)
    (subs : List Dirent) :
    (Yields (subs.foldlM (channelRound w metabase) s) fun _ => True) ↔
      ∀ sub ∈ subs, notDots sub = true → sub.isDir = true →
        Readable (w.content (metabase ++ sub.d_name ++ "/meta.json".toList))
          (Counted : Value R → Prop) :=
  yields_foldlM g (fun _ _ _ g => g.round_iff) fun _ _ _ _ g done => g.round done

private theorem of_loop {s : Locals R} (g : Gathered w metabase ent idx parsed root [] s)
    {subs : List Dirent} (done : subs.foldlM (channelRound w metabase) s = .ok u) :
    Gathered w metabase ent idx parsed root subs u :=
  inv_of_foldlM g (fun _ _ _ _ g done => g.round done) done

end Gathered

/-- In the loop over the entries of the directory: there is an element for each recording up to
here, and nothing is left over of them. -/
structure Listed (w : World) (basepath : Str) (pre : List Dirent) (v : Locals R) : Prop where
  idx : v.idx = (pre.filter notDots).length
  b : Blank v.b
  blank : Blank v.channel
  list : IsPlayList Wrapped w basepath pre v.root

private theorem recordings_append (isDir : (notDots ent && ent.isDir) = true) :
    recordings (pre ++ [ent]) = recordings pre ++ [(ent, (pre.filter notDots).length)] := by
  rw [Bool.and_eq_true] at isDir
  simp [recordings, List.zipIdx_append, isDir]

private theorem recordings_skip (isDir : ¬(notDots ent && ent.isDir) = true) :
    recordings (pre ++ [ent]) = recordings pre := by
  by_cases named : notDots ent = true
  · have file : ent.isDir = false := by simpa [named] using isDir
    simp [recordings, List.zipIdx_append, named, file]
  · simp [recordings, named]

namespace Listed

private theorem gathered (l : Listed w basepath pre v) (parsed : Option (Value R)) :
    Gathered w metabase ent v.idx parsed v.root []
      { v with b := entryOf ent v.idx parsed [], sstm := [] } where
  root := rfl
  idx := rfl
  sstm := rfl
  blank := l.blank
  b := by rw [get_channels]
  channels := by
    rw [get_channels]
    exact .nil

private theorem yields_finish (l : Listed w basepath pre v) (parsed : Option (Value R))
    (subs : List Dirent) (metabase : Str) {P : Locals R → Prop} :
    (Yields (List.foldlM (channelRound w metabase)
      { v with b := entryOf ent v.idx parsed [], sstm := [] } subs) fun u =>
        Yields (u.root.appendTo "files".toList u.b) fun root =>
          Yields u.b.clear fun b => P { u with root := root, b := b }) ↔
    Yields (List.foldlM (channelRound w metabase)
      { v with b := entryOf ent v.idx parsed [], sstm := [] } subs) fun u => P { u with
        root := rootOf (items (v.root.get "files".toList) ++ [u.b])
        b := cleared u.b } := by
  refine exists_congr fun u => and_congr_right fun done => ?_
  have g := (l.gathered parsed).of_loop done
  have append : u.root.appendTo "files".toList u.b =
      .ok (rootOf (items (v.root.get "files".toList) ++ [u.b])) := by
    rw [g.root, ← appendTo_files, ← l.list.1]
  have clear : u.b.clear = .ok (cleared u.b) := by
    rw [g.b]
    rfl
  simp only [append, clear, yields_ok]

private theorem yields_entry (l : Listed w basepath pre v) {P : Locals R → Prop} :
    Yields (recordingEntry w basepath v ent) P ↔ ∃ parsed,
      parse (w.content (basepath ++ "/".toList ++ ent.d_name ++ "/".toList ++
        "info.json".toList)) = .ok parsed ∧
      (∀ info, parsed = some info →
        info.hasMembers = true ∧ (info.get "info".toList).hasMembers = true) ∧
      errorsReadText R (w.content (basepath ++ "/".toList ++ ent.d_name ++ "/".toList ++
        "info.json".toList)) = false ∧
      ∃ subs, w.readdir (basepath ++ "/".toList ++ ent.d_name ++ "/".toList) = some subs ∧
        Yields (subs.foldlM (channelRound w (basepath ++ "/".toList ++ ent.d_name ++ "/".toList))
          { v with b := entryOf ent v.idx parsed [], sstm := [] }) fun u => P { u with
            root := rootOf (items (v.root.get "files".toList) ++ [u.b])
            b := cleared u.b } := by
  simp only [recordingEntry, yields_bind, yields_assign, l.b.hasMembers, l.b.members, true_and,
    Value.hasMembers_object, Value.members_object, set_entryOf]
  refine exists_congr fun parsed => and_congr_right fun done => ?_
  generalize w.readdir (basepath ++ "/".toList ++ ent.d_name ++ "/".toList) = opened
  cases parsed with
  | none =>
    cases opened with
    | none => simp only [yields_bind, yields_getFormatedErrorMessages, yields_pure, yields_error,
        reduceCtorEq, and_false, false_and, exists_false]
    | some subs => simp only [yields_bind, yields_getFormatedErrorMessages, yields_pure,
        l.yields_finish, reduceCtorEq, false_implies, implies_true, true_and, Option.some.injEq,
        exists_eq_left']
  | some info =>
    have silent := errorsReadText_eq_false done
    cases opened with
    | none => simp only [yields_bind, yields_setBitState, yields_error, reduceCtorEq, and_false,
        false_and, exists_false]
    | some subs => simp only [yields_bind, yields_setBitState, yields_pure, l.yields_finish,
        Option.some.injEq, forall_eq', exists_eq_left', silent, true_and]

private theorem informative_iff {text : Str} : Informative R text ↔
    ∃ parsed : Option (Value R), parse text = .ok parsed ∧
      (∀ info, parsed = some info →
        info.hasMembers = true ∧ (info.get "info".toList).hasMembers = true) ∧
      errorsReadText R text = false := by
  refine exists_congr fun parsed => and_congr_right fun done => ?_
  cases parsed with
  | none => simp [errorsReadText_eq_false_iff done]
  | some info => simp [errorsReadText_eq_false done]

private theorem entry_iff (l : Listed w basepath pre v) :
    (Yields (recordingEntry w basepath v ent) fun _ => True) ↔
      Recorded (R := R) w basepath ent := by
  simp only [l.yields_entry, (l.gathered _).loop_iff, Recorded, informative_iff]
  simp only [← and_assoc, exists_and_right]

theorem entry (l : Listed w basepath pre v) (done : recordingEntry w basepath v ent = .ok u) :
    u.idx = v.idx ∧ Blank u.b ∧ Blank u.channel ∧ ∃ entry,
      IsRecording Wrapped w basepath (ent, v.idx) entry ∧
        u.root = rootOf (items (v.root.get "files".toList) ++ [entry]) := by
  obtain ⟨parsed, found, -, -, subs, opened, t, looped, rfl⟩ :=
    (l.yields_entry (P := (u = ·))).mp ⟨u, done, rfl⟩
  have g := (l.gathered parsed).of_loop looped
  have object : t.b.hasMembers = true := by
    rw [g.b]
    rfl
  exact ⟨g.idx, blank_cleared object, g.blank, t.b,
    ⟨parsed, subs, found, opened, g.b, g.channels⟩, rfl⟩

private theorem round_iff (l : Listed w basepath pre v) :
    (Yields (recordingRound w basepath v ent) fun _ => True) ↔
      (notDots ent = true → ent.isDir = true → Recorded (R := R) w basepath ent) := by
  by_cases named : notDots ent = true
  · by_cases isDir : ent.isDir = true
    · simp only [recordingRound, named, isDir, if_true, yields_bind, yields_pure, l.entry_iff,
        forall_const]
    · simp [recordingRound, named, isDir]
  · simp [recordingRound, named]

theorem round (l : Listed w basepath pre v) (done : recordingRound w basepath v ent = .ok u) :
    Listed w basepath (pre ++ [ent]) u := by
  by_cases named : notDots ent = true
  · have count : ((pre ++ [ent]).filter notDots).length = (pre.filter notDots).length + 1 := by
      simp [named]
    by_cases isDir : ent.isDir = true
    · simp only [recordingRound, named, isDir, if_true] at done
      obtain ⟨t, entered, done⟩ := bind_eq_ok.mp done
      cases done
      obtain ⟨idx, b, blank, entry, described, root⟩ := l.entry entered
      refine ⟨by rw [count, idx, l.idx], b, blank, ?_⟩
      have both : (notDots ent && ent.isDir) = true := by rw [named, isDir]; rfl
      unfold IsPlayList
      rw [root, get_files, recordings_append both, ← l.idx]
      exact ⟨rfl, List.rel_append l.list.2 (.cons described .nil)⟩
    · simp only [recordingRound, named, if_true, if_neg isDir, ok_bind] at done
      cases done
      refine ⟨by rw [count, l.idx], l.b, l.blank, ?_⟩
      have skip : ¬(notDots ent && ent.isDir) = true := by simp [isDir]
      unfold IsPlayList
      rw [recordings_skip skip]
      exact l.list
  · simp only [recordingRound, named, Bool.false_eq_true, if_false] at done
    cases done
    have skip : ¬(notDots ent && ent.isDir) = true := by simp [named]
    refine ⟨by simp [named, l.idx], l.b, l.blank, ?_⟩
    unfold IsPlayList
    rw [recordings_skip skip]
    exact l.list

end Listed

private theorem listed_start : Listed w basepath [] (⟨.null, .null, .null, 0, []⟩ : Locals R) :=
  ⟨rfl, .inl rfl, .inl rfl, rfl, .nil⟩

end Rounds

section PlayList

variable {R : Type} [Doubles R] {w : World} {basepath : Str} {ents : List Dirent} {root : Value R}

theorem yields_getOutputFileList :
    (Yields (getOutputFileList (R := R) w basepath) fun _ => True) ↔ ∃ ents,
      w.readdir basepath = some ents ∧ ∀ ent ∈ ents, notDots ent = true → ent.isDir = true →
        Recorded (R := R) w basepath ent := by
  unfold getOutputFileList
  cases w.readdir basepath with
  | none => simp
  | some ents =>
    simp only [yields_bind, yields_pure, Option.some.injEq, exists_eq_left']
    exact yields_foldlM listed_start (fun _ _ _ l => l.round_iff) fun _ _ _ _ l done =>
      l.round done

theorem isPlayList_of_done (opened : w.readdir basepath = some ents)
    (done : getOutputFileList w basepath = .ok root) :
    IsPlayList Wrapped w basepath ents root := by
  simp only [getOutputFileList, opened] at done
  obtain ⟨v, looped, done⟩ := bind_eq_ok.mp done
  cases done
  exact (inv_of_foldlM listed_start (fun _ _ _ _ l done => l.round done) looped).list

end PlayList

end Tsender.Comm
