/- Tsender/Comm/TableBound
   source: comm.cpp (RX, Delete, ~CCommMgr), core.cpp (Create), demuxer.cpp (Create)
   digest: The table of demuxers is never used behind its end exactly when the settings have no
   more channels than it, or a channel without a rate among those that fit. -/

import Mathlib.Logic.Function.Basic
import Tsender.Comm.Rates

set_option autoImplicit false
set_option relaxedAutoImplicit false

namespace Tsender.Comm.TableBound

open Json Lib.Fallible Lib.Transition

inductive RxPc where
  /-- `while (!m_bExit)`. -/
  | head
  | recv
  /-- The head of the loop of `play_start`, with so many entries of `output_channels` to come. -/
  | new (left : ℕ)
  | setMutex (left : ℕ)
  | create (left : ℕ)
  /-- The loop of `play_start` while running: the test of an entry and its three calls. -/
  | resumeTest (i : ℕ)
  | resumeCall (i : ℕ) (left : ℕ)
  /-- The loop of the other commands, with its one call. -/
  | call (i : ℕ)
  /-- `SAFE_DELETE` in `Delete`: the test and the delete, then the store of `NULL`. -/
  | delete (i : ℕ)
  | clear (i : ℕ)
  | left

inductive EndPc where
  | notYet
  | exitSet
  | delete (i : ℕ)
  | clear (i : ℕ)
  | terminate
  | done
  deriving DecidableEq

/-- The fields of `CCommMgr` that decide about its table, and its two threads. -/
structure State (R : Type) where
  attr : List (Str × Value R)
  bIsRunning : Bool
  nChannel : ℕ
  /-- Whether an entry of `m_CDemuxer` is not `NULL`; no constructor sets them. -/
  filled : ℕ → Bool
  rx : RxPc
  dtor : EndPc

inductive Act (R : Type) where
  /-- The next statement of RX, with what it reads from a datagram if it receives one. -/
  | rx (w : World) (root : Option (Value R))
  /-- The method that RX calls on a demuxer throws. -/
  | throws
  | dtor

inductive Event where
  /-- `m_CDemuxer[i]`. -/
  | accessed (i : ℕ)
  /-- `Create` of a new demuxer has returned and the demuxer is counted. -/
  | created
  /-- `play_close` has deleted the demuxers. -/
  | closed
  deriving DecidableEq

abbrev Step (R : Type) := Option (Option (State R) × List Event)

section Machine

variable {R : Type} [Doubles R]

/-- After `Open`. -/
def State.start (attr : List (Str × Value R)) : State R where
  attr := attr
  bIsRunning := false
  nChannel := 0
  filled := fun _ => true
  rx := .head
  dtor := .notYet

def State.manager (s : State R) : CCommMgr R where
  attr := s.attr
  bIsRunning := s.bIsRunning
  bIsRerverse := false
  nSpeed := 1
  nMoveSec := 0
  demuxers := []
  built := 0

/-- The rounds of a loop over the values of `v`. -/
def entryCount : Value R → ℕ
  | .array vs => vs.length
  | .object ms => ms.length
  | _ => 0

/-- `v[n]`. -/
def entryAt (v : Value R) (n : ℕ) : Except Fault (Value R) :=
  match v with
  | .array vs => .ok (vs[n]?.getD .null)
  | .null => .ok .null
  | _ => .error .logicError

/-- `play_start` up to one of its loops. -/
def startPlay (s : State R) (root : Value R) : Except Fault (State R) := do
  let info ← root.member "info".toList
  let target ← info.member "target".toList
  let target ← target.asString
  let bitState ← info.member "bit_state".toList
  let attr := setMember (setMember s.attr "target".toList (.string target))
    "bit_state".toList bitState
  if s.bIsRunning then return { s with attr := attr, rx := .resumeTest 0 }
  else
    let attr := touchMember attr "output_channels".toList
    return { s with
      attr := attr, bIsRunning := true, nChannel := 0
      rx := .new (entryCount (getMember attr "output_channels".toList)) }

/-- A command with a number in its `info` up to its loop over the demuxers. -/
def readNumber (s : State R) (root : Value R) (key : Str) : Except Fault (State R) :=
  if s.bIsRunning then do
    let info ← root.member "info".toList
    let number ← info.member key
    let _ ← number.asInt
    return { s with rx := .call 0 }
  else .ok { s with rx := .head }

def dispatch (w : World) (s : State R) (root : Value R) : Except Fault (State R) := do
  let cmd ← commandOf root
  match cmd with
  | none => return { s with rx := .head }
  | some .playStart => startPlay s root
  | some .playReverse | some .playPause =>
      return { s with rx := if s.bIsRunning then .call 0 else .head }
  | some .playClose => return { s with rx := if s.bIsRunning then .delete 0 else .head }
  | some .playSpeedUp => readNumber s root "speed".toList
  | some .playSeek => readNumber s root "move_sec".toList
  | some .getThumbnail => do
      let _ ← getThumbnail s.manager root
      return { s with rx := .head }
  | some .getPlayList => do
      let (t, _) ← getPlayList w s.manager
      return { s with attr := t.attr, rx := .head }
  | some .playDelete => do
      let (t, _) ← playDelete w s.manager root
      return { s with attr := t.attr, rx := .head }

/-- `Create` of the demuxer at `m_nChannel`, with its entry of the settings. -/
def createAt (w : World) (s : State R) : Except Fault (CDemuxer R) := do
  let info ← entryAt (getMember s.attr "output_channels".toList) s.nChannel
  Comm.create w s.nChannel info s.attr s.nChannel

def rxStep (w : World) (root : Option (Value R)) (s : State R) : Step R :=
  match s.rx with
  | .head => some (some { s with rx := if s.dtor = .notYet then .recv else .left }, [])
  | .recv =>
      match root with
      | none => some (some { s with rx := .head }, [])
      | some root =>
          match dispatch w s root with
          | .ok t => some (some t, [])
          | .error _ => some (none, [])
  | .new 0 => some (some { s with rx := .head }, [])
  | .new (left + 1) =>
      if s.nChannel < maxNumChannel then
        some (some { s with filled := Function.update s.filled s.nChannel true,
                            rx := .setMutex left }, [.accessed s.nChannel])
      else some (none, [.accessed s.nChannel])
  | .setMutex left => some (some { s with rx := .create left }, [.accessed s.nChannel])
  | .create left =>
      match createAt w s with
      | .ok _ => some (some { s with nChannel := s.nChannel + 1, rx := .new left },
          [.accessed s.nChannel, .created])
      | .error _ => some (none, [.accessed s.nChannel])
  | .resumeTest i =>
      if i < s.nChannel then
        some (some { s with rx := if s.filled i then .resumeCall i 3 else .resumeTest (i + 1) },
          [.accessed i])
      else some (some { s with rx := .head }, [])
  | .resumeCall i 0 => some (some { s with rx := .resumeTest (i + 1) }, [])
  | .resumeCall i (left + 1) => some (some { s with rx := .resumeCall i left }, [.accessed i])
  | .call i =>
      if i < s.nChannel then some (some { s with rx := .call (i + 1) }, [.accessed i])
      else some (some { s with rx := .head }, [])
  | .delete i =>
      if i < s.nChannel then some (some { s with rx := .clear i }, [.accessed i])
      else some (some { s with nChannel := 0, bIsRunning := false, rx := .head }, [.closed])
  | .clear i =>
      some (some { s with filled := Function.update s.filled i false, rx := .delete (i + 1) },
        [.accessed i])
  | .left => none

def throwStep (s : State R) : Step R :=
  match s.rx with
  | .call i => if i < s.nChannel then some (none, [.accessed i]) else none
  | _ => none

/-- `~CCommMgr`, which sets `m_bExit` first.  `Terminate` waits for RX. -/
def dtorStep (s : State R) : Step R :=
  match s.dtor with
  | .notYet => some (some { s with dtor := .exitSet }, [])
  | .exitSet => some (some { s with dtor := .delete 0 }, [])
  | .delete i =>
      if i < s.nChannel then some (some { s with dtor := .clear i }, [.accessed i])
      else some (some { s with dtor := .terminate }, [])
  | .clear i =>
      some (some { s with filled := Function.update s.filled i false, dtor := .delete (i + 1) },
        [.accessed i])
  | .terminate =>
      match s.rx with
      | .left => some (some { s with dtor := .done }, [])
      | _ => none
  | .done => none

def step : Machine (Option (State R)) (Act R) Event
  | none, _ => none
  | some s, .rx w root => rxStep w root s
  | some s, .throws => throwStep s
  | some s, .dtor => dtorStep s

/-- The demuxers created since the last `play_close`. -/
def createdSince (es : List Event) : ℕ :=
  es.foldl (fun n e => match e with
    | .accessed _ => n
    | .created => n + 1
    | .closed => 0) 0

/-- Every access is inside the table, and `m_nChannel` counts the demuxers in it. -/
structure Safe (es : List Event) (s : Option (State R)) : Prop where
  inside : ∀ i, .accessed i ∈ es → i < maxNumChannel
  count : ∀ t, s = some t → t.nChannel = createdSince es
  bound : ∀ t, s = some t → t.nChannel ≤ maxNumChannel

/-- `Create` takes the rate of a channel. -/
def Rated (info : Value R) : Prop :=
  info.hasMembers = true ∧ (info.get "num".toList).inRange 0 maxUInt64 = true ∧
    (info.get "den".toList).inRange 0 maxUInt64 = true

/-- The channels fit into the table, or one of those that do has no rate that `Create` takes. -/
def Fits (channels : Value R) : Prop :=
  ∀ infos, channels = .array infos → maxNumChannel < infos.length →
    ∃ n info, n < maxNumChannel ∧ infos[n]? = some info ∧ ¬Rated info

end Machine

section Counting

variable {es : List Event} {i : ℕ}

@[simp] theorem createdSince_accessed : createdSince (es ++ [.accessed i]) = createdSince es := by
  simp [createdSince]

@[simp] theorem createdSince_created :
    createdSince (es ++ [.accessed i, .created]) = createdSince es + 1 := by
  simp [createdSince]

@[simp] theorem createdSince_closed : createdSince (es ++ [.closed]) = 0 := by
  simp [createdSince]

end Counting

section Commands

variable {R : Type} {w : World} {s t : State R} {root : Value R}

structure Begins (s t : State R) : Prop where
  channels : getMember t.attr "output_channels".toList = getMember s.attr "output_channels".toList
  filled : t.filled = s.filled
  dtor : t.dtor = s.dtor
  pc : t.nChannel = s.nChannel ∧ t.bIsRunning = s.bIsRunning ∧
      (t.rx = .head ∨ t.rx = .resumeTest 0 ∨ t.rx = .call 0 ∨ t.rx = .delete 0) ∨
    s.bIsRunning = false ∧ t.nChannel = 0 ∧ t.bIsRunning = true ∧
      t.rx = .new (entryCount (getMember s.attr "output_channels".toList))

theorem Begins.head (s : State R) : Begins s { s with rx := .head } :=
  ⟨rfl, rfl, rfl, .inl ⟨rfl, rfl, .inl rfl⟩⟩

variable [Doubles R]

private theorem begins_startPlay (done : startPlay s root = .ok t) : Begins s t := by
  have yields : Yields (startPlay s root) fun u => u = t := ⟨t, done, rfl⟩
  simp only [startPlay, yields_bind, yields_member, yields_asString, yields_ite, yields_pure]
    at yields
  obtain ⟨-, -, -, -, running, stopped⟩ := yields
  have channels : ∀ target bitState : Value R,
      getMember (setMember (setMember s.attr "target".toList target) "bit_state".toList bitState)
        "output_channels".toList = getMember s.attr "output_channels".toList := by
    intro target bitState
    rw [getMember_setMember_other (by decide), getMember_setMember_other (by decide)]
  cases runs : s.bIsRunning with
  | true =>
    obtain rfl := running runs
    exact ⟨channels _ _, rfl, rfl, .inl ⟨rfl, rfl, .inr (.inl rfl)⟩⟩
  | false =>
    obtain rfl := stopped (by simp [runs])
    refine ⟨?_, rfl, rfl, .inr ⟨runs, rfl, rfl, ?_⟩⟩
    · exact (getMember_touchMember _ _ _).trans (channels _ _)
    · simp only [getMember_touchMember, channels]

private theorem begins_readNumber {key : Str} (done : readNumber s root key = .ok t) :
    Begins s t := by
  have yields : Yields (readNumber s root key) fun u => u = t := ⟨t, done, rfl⟩
  simp only [readNumber, yields_bind, yields_member, yields_asInt, yields_ite, yields_pure,
    yields_ok] at yields
  cases runs : s.bIsRunning with
  | true =>
    obtain ⟨-, -, -, rfl⟩ := yields.1 runs
    exact ⟨rfl, rfl, rfl, .inl ⟨rfl, rfl, .inr (.inr (.inl rfl))⟩⟩
  | false =>
    obtain rfl := yields.2 (by simp [runs])
    exact .head s

private theorem begins_dispatch (done : dispatch w s root = .ok t) : Begins s t := by
  obtain ⟨cmd, -, done⟩ := bind_eq_ok.mp done
  have other : ∀ {attr : List (Str × Value R)}, (∀ key, getMember attr key = getMember s.attr key) →
      Begins s { s with attr := attr, rx := .head } :=
    fun same => ⟨same _, rfl, rfl, .inl ⟨rfl, rfl, .inl rfl⟩⟩
  rcases cmd with _ | cmd
  · cases done
    exact .head s
  cases cmd with
  | playStart => exact begins_startPlay done
  | playSpeedUp | playSeek => exact begins_readNumber done
  | playReverse | playPause =>
    cases done
    refine ⟨rfl, rfl, rfl, .inl ⟨rfl, rfl, ?_⟩⟩
    cases s.bIsRunning <;> simp
  | playClose =>
    cases done
    refine ⟨rfl, rfl, rfl, .inl ⟨rfl, rfl, ?_⟩⟩
    cases s.bIsRunning <;> simp
  | getThumbnail =>
    obtain ⟨-, -, done⟩ := bind_eq_ok.mp done
    cases done
    exact .head s
  | getPlayList =>
    obtain ⟨⟨u, effects⟩, listed, done⟩ := bind_eq_ok.mp done
    cases done
    have yields : Yields (getPlayList w s.manager) fun r => r = (u, effects) := ⟨_, listed, rfl⟩
    simp only [getPlayList, yields_bind, yields_asString, yields_pure] at yields
    obtain ⟨-, _, -, same⟩ := yields
    obtain ⟨rfl, -⟩ := Prod.mk.inj same
    exact other fun key => getMember_touchMember _ _ _
  | playDelete =>
    obtain ⟨⟨u, effects⟩, listed, done⟩ := bind_eq_ok.mp done
    cases done
    have yields : Yields (playDelete w s.manager root) fun r => r = (u, effects) :=
      ⟨_, listed, rfl⟩
    simp only [playDelete, yields_bind, yields_asString, yields_member, yields_pure] at yields
    obtain ⟨-, -, -, -, _, -, same⟩ := yields
    obtain ⟨rfl, -⟩ := Prod.mk.inj same
    exact other fun key => getMember_touchMember _ _ _

end Commands

section Invariant

variable {R : Type} [Doubles R] {w : World} {s t : State R} {v : Value R} {n left : ℕ}
  {es fs : List Event} {o : Option (State R)}

/-- With `n` entries filled there are `left` to come, and those behind have rates. -/
def Filling (v : Value R) (n left : ℕ) : Prop :=
  left = 0 ∨ (∃ infos, v = .array infos ∧ infos.length = n + left ∧
    ∀ k info, k < n → infos[k]? = some info → Rated info) ∨ (∃ ms, v = .object ms ∧ n = 0)

/-- The indices that RX holds are inside the table, and it fills the table only while it runs. -/
def RxPc.Within (v : Value R) (running : Bool) (n : ℕ) : RxPc → Prop
  | .new left => running = true ∧ Filling v n left
  | .setMutex left | .create left =>
      running = true ∧ n < maxNumChannel ∧ Filling v n (left + 1)
  | .resumeCall i _ | .clear i => i < maxNumChannel
  | _ => True

structure Sound (v : Value R) (es : List Event) (s : State R) : Prop where
  channels : getMember s.attr "output_channels".toList = v
  count : s.nChannel = createdSince es
  bound : s.nChannel ≤ maxNumChannel
  stopped : s.bIsRunning = false → s.nChannel = 0
  rx : s.rx.Within v s.bIsRunning s.nChannel
  dtor : ∀ i, s.dtor = .clear i → i < maxNumChannel

def Keeps (v : Value R) (es fs : List Event) (o : Option (State R)) : Prop :=
  (∀ i, .accessed i ∈ fs → i < maxNumChannel) ∧ ∀ t, o = some t → Sound v (es ++ fs) t

theorem Keeps.goes_on (inside : ∀ i, .accessed i ∈ fs → i < maxNumChannel)
    (sound : Sound v (es ++ fs) t) : Keeps v es fs (some t) := by
  refine ⟨inside, fun u same => ?_⟩
  obtain rfl := Option.some.inj same
  exact sound

theorem Keeps.silent (sound : Sound v es t) : Keeps v es [] (some t) :=
  .goes_on (by simp) (by rwa [List.append_nil])

private theorem Keeps.accessed {i : ℕ} (inside : i < maxNumChannel) (sound : Sound v es t) :
    Keeps v es [.accessed i] (some t) := by
  refine .goes_on (by simpa using inside) ?_
  exact { sound with count := by rw [createdSince_accessed]; exact sound.count }

theorem Keeps.ended (inside : ∀ i, .accessed i ∈ fs → i < maxNumChannel) :
    Keeps v es fs (none : Option (State R)) :=
  ⟨inside, fun _ same => by cases same⟩

theorem Keeps.taken {o' : Option (State R)} {fs' : List Event}
    (go : some (o', fs') = some (o, fs)) (keeps : Keeps v es fs' o') : Keeps v es fs o := by
  obtain ⟨rfl, rfl⟩ := Prod.mk.inj (Option.some.inj go)
  exact keeps

theorem Keeps.loop (bound : s.nChannel ≤ maxNumChannel) {i : ℕ} {fs' : List Event} {t' : State R}
    (go : (if i < s.nChannel then some (some t, [.accessed i]) else some (some t', fs')) =
      some (o, fs))
    (more : i < maxNumChannel → Sound v es t) (ends : Keeps v es fs' (some t')) :
    Keeps v es fs o := by
  by_cases inside : i < s.nChannel
  · rw [if_pos inside] at go
    have below := inside.trans_le bound
    exact .taken go (.accessed below (more below))
  · rw [if_neg inside] at go
    exact .taken go ends

private theorem filling_zero (v : Value R) (left : ℕ) (count : left = entryCount v) :
    Filling v 0 left := by
  cases v with
  | array infos => exact .inr (.inl ⟨infos, rfl, by simp [count, entryCount], by simp⟩)
  | object ms => exact .inr (.inr ⟨ms, rfl, rfl⟩)
  | _ => exact .inl count

theorem Filling.room (filling : Filling v n (left + 1)) (fits : Fits v)
    (bound : n ≤ maxNumChannel) : n < maxNumChannel := by
  rcases filling with none | ⟨infos, rfl, length, rated⟩ | ⟨ms, rfl, rfl⟩
  · cases none
  · by_contra full
    have all : n = maxNumChannel := by omega
    obtain ⟨k, info, inside, found, unrated⟩ := fits infos rfl (by omega)
    exact unrated (rated k info (by omega) found)
  · decide

theorem Filling.next (filling : Filling v n (left + 1)) {info : Value R} {d : CDemuxer R}
    {attr : List (Str × Value R)} {id : ℕ} (entry : entryAt v n = .ok info)
    (done : Comm.create w id info attr n = .ok d) : Filling v (n + 1) left := by
  rcases filling with none | ⟨infos, rfl, length, rated⟩ | ⟨ms, rfl, rfl⟩
  · cases none
  · obtain ⟨members, num, den, -⟩ := (Service.create_cases done).2.1
    refine .inr (.inl ⟨infos, rfl, by omega, fun k other before found => ?_⟩)
    rcases Nat.lt_succ_iff_lt_or_eq.mp before with earlier | rfl
    · exact rated k other earlier found
    · simp only [entryAt, found, Option.getD_some] at entry
      obtain rfl := Except.ok.inj entry
      exact ⟨members, num, den⟩
  · cases entry

theorem Sound.move (sound : Sound v es s) {rx : RxPc} {dtor : EndPc} {filled : ℕ → Bool}
    (within : rx.Within v s.bIsRunning s.nChannel) (clears : ∀ i, dtor = .clear i → i < maxNumChannel) :
    Sound v es { s with filled := filled, rx := rx, dtor := dtor } where
  channels := sound.channels
  count := sound.count
  bound := sound.bound
  stopped := sound.stopped
  rx := within
  dtor := clears

theorem Sound.begins (sound : Sound v es s) (begins : Begins s t) : Sound v es t := by
  obtain ⟨channels, -, dtor, ⟨same, running, pc⟩ | ⟨stopped, none, running, pc⟩⟩ := begins
  · refine ⟨channels.trans sound.channels, by rw [same, sound.count], by rw [same]; exact sound.bound,
      by rw [same, running]; exact sound.stopped, ?_, by rw [dtor]; exact sound.dtor⟩
    rcases pc with pc | pc | pc | pc <;> rw [pc] <;> trivial
  · refine ⟨channels.trans sound.channels, by rw [none, ← sound.count, sound.stopped stopped],
      by rw [none]; exact Nat.zero_le _, fun _ => none, ?_, by rw [dtor]; exact sound.dtor⟩
    rw [pc, none, sound.channels]
    exact ⟨running, filling_zero v _ rfl⟩

theorem Sound.created (sound : Sound v es s) (running : s.bIsRunning = true)
    (room : s.nChannel < maxNumChannel) (filling : Filling v (s.nChannel + 1) left) :
    Sound v (es ++ [.accessed s.nChannel, .created])
      { s with nChannel := s.nChannel + 1, rx := .new left } where
  channels := sound.channels
  count := by rw [createdSince_created, sound.count]
  bound := room
  stopped := fun stopped => by simp [running] at stopped
  rx := ⟨running, filling⟩
  dtor := sound.dtor

theorem Sound.closed (sound : Sound v es s) :
    Sound v (es ++ [.closed]) { s with nChannel := 0, bIsRunning := false, rx := .head } where
  channels := sound.channels
  count := createdSince_closed.symm
  bound := Nat.zero_le _
  stopped := fun _ => rfl
  rx := trivial
  dtor := sound.dtor

private theorem keeps_recv (sound : Sound v es s) (pc : s.rx = .recv) {root : Option (Value R)}
    (go : rxStep w root s = some (o, fs)) : Keeps v es fs o := by
  simp only [rxStep, pc] at go
  cases root with
  | none => exact .taken go (.silent (sound.move trivial sound.dtor))
  | some root =>
    cases taken : dispatch w s root with
    | error fault =>
      simp only [taken] at go
      exact .taken go (.ended (by simp))
    | ok t =>
      simp only [taken] at go
      exact .taken go (.silent (sound.begins (begins_dispatch taken)))

private theorem keeps_new (sound : Sound v es s) (fits : Fits v) (pc : s.rx = .new left)
    {root : Option (Value R)} (go : rxStep w root s = some (o, fs)) : Keeps v es fs o := by
  have within := sound.rx
  rw [pc] at within
  cases left with
  | zero =>
    simp only [rxStep, pc] at go
    exact .taken go (.silent (sound.move trivial sound.dtor))
  | succ left =>
    have room : s.nChannel < maxNumChannel := within.2.room fits sound.bound
    simp only [rxStep, pc, if_pos room] at go
    exact .taken go (.accessed room (sound.move ⟨within.1, room, within.2⟩ sound.dtor))

private theorem keeps_create (sound : Sound v es s) (pc : s.rx = .create left)
    {root : Option (Value R)} (go : rxStep w root s = some (o, fs)) : Keeps v es fs o := by
  have within := sound.rx
  rw [pc] at within
  obtain ⟨running, room, filling⟩ := within
  simp only [rxStep, pc] at go
  cases made : createAt w s with
  | error fault =>
    simp only [made] at go
    exact .taken go (.ended (by simpa using room))
  | ok d =>
    simp only [made] at go
    obtain ⟨info, entry, done⟩ := bind_eq_ok.mp made
    rw [sound.channels] at entry
    have created := sound.created running room (filling.next entry done)
    exact .taken go (.goes_on (by simpa using room) created)

private theorem keeps_rxStep (sound : Sound v es s) (fits : Fits v) {root : Option (Value R)}
    (go : rxStep w root s = some (o, fs)) : Keeps v es fs o := by
  have within := sound.rx
  cases pc : s.rx with
  | recv => exact keeps_recv sound pc go
  | new left => exact keeps_new sound fits pc go
  | create left => exact keeps_create sound pc go
  | head =>
    simp only [rxStep, pc] at go
    refine .taken go (.silent (sound.move ?_ sound.dtor))
    split <;> trivial
  | setMutex left =>
    rw [pc] at within
    simp only [rxStep, pc] at go
    exact .taken go (.accessed within.2.1 (sound.move within sound.dtor))
  | resumeTest i =>
    simp only [rxStep, pc] at go
    refine .loop sound.bound go (fun inside => sound.move ?_ sound.dtor)
      (.silent (sound.move trivial sound.dtor))
    split
    · exact inside
    · trivial
  | resumeCall i left =>
    rw [pc] at within
    cases left with
    | zero =>
      simp only [rxStep, pc] at go
      exact .taken go (.silent (sound.move trivial sound.dtor))
    | succ left =>
      simp only [rxStep, pc] at go
      exact .taken go (.accessed within (sound.move within sound.dtor))
  | call i =>
    simp only [rxStep, pc] at go
    exact .loop sound.bound go (fun _ => sound.move trivial sound.dtor)
      (.silent (sound.move trivial sound.dtor))
  | delete i =>
    simp only [rxStep, pc] at go
    exact .loop sound.bound go (fun inside => sound.move inside sound.dtor)
      (.goes_on (by simp) sound.closed)
  | clear i =>
    rw [pc] at within
    simp only [rxStep, pc] at go
    exact .taken go (.accessed within (sound.move trivial sound.dtor))
  | left =>
    simp only [rxStep, pc] at go
    cases go

private theorem keeps_throwStep (sound : Sound v es s) (go : throwStep s = some (o, fs)) :
    Keeps v es fs o := by
  unfold throwStep at go
  split at go
  · rename_i i pc
    obtain ⟨more, go⟩ := Option.ite_none_right_eq_some.mp go
    obtain ⟨rfl, rfl⟩ := Prod.mk.inj (Option.some.inj go)
    exact .ended (by simpa using more.trans_le sound.bound)
  · cases go

private theorem keeps_dtorStep (sound : Sound v es s) (go : dtorStep s = some (o, fs)) :
    Keeps v es fs o := by
  cases pc : s.dtor with
  | notYet | exitSet =>
    simp only [dtorStep, pc] at go
    exact .taken go (.silent (sound.move sound.rx (by simp)))
  | delete i =>
    simp only [dtorStep, pc] at go
    refine .loop sound.bound go (fun inside => sound.move sound.rx fun j same => ?_)
      (.silent (sound.move sound.rx (by simp)))
    obtain rfl := EndPc.clear.inj same
    exact inside
  | clear i =>
    simp only [dtorStep, pc] at go
    exact .taken go (.accessed (sound.dtor i pc) (sound.move sound.rx (by simp)))
  | terminate =>
    simp only [dtorStep, pc] at go
    split at go
    · exact .taken go (.silent (sound.move sound.rx (by simp)))
    · cases go
  | done =>
    simp only [dtorStep, pc] at go
    cases go

private theorem keeps_step (sound : Sound v es s) (fits : Fits v) {a : Act R}
    (go : step (some s) a = some (o, fs)) : Keeps v es fs o := by
  cases a with
  | rx w root => exact keeps_rxStep sound fits go
  | throws => exact keeps_throwStep sound go
  | dtor => exact keeps_dtorStep sound go

theorem sound_start (attr : List (Str × Value R)) :
    Sound (getMember attr "output_channels".toList) [] (.start attr) where
  channels := rfl
  count := rfl
  bound := Nat.zero_le _
  stopped := fun _ => rfl
  rx := trivial
  dtor := by simp [State.start]

private theorem safe_of_fits {attr : List (Str × Value R)}
    (fits : Fits (getMember attr "output_channels".toList)) {acts : List (Act R)}
    (run : Run step (some (.start attr)) acts es o) : Safe es o := by
  have held : Keeps (getMember attr "output_channels".toList) [] es o := by
    refine run.invariant (Keeps.silent (sound_start attr)) ?_
    rintro ds m a n gs held go
    cases m with
    | none => cases go
    | some s =>
      have next := keeps_step (held.2 s rfl) fits go
      refine ⟨fun i mem => ?_, fun t same => ?_⟩
      · rcases List.mem_append.mp mem with before | now
        · exact held.1 i before
        · exact next.1 i now
      · exact next.2 t same
  exact ⟨held.1, fun t same => (held.2 t same).count, fun t same => (held.2 t same).bound⟩

end Invariant

section Overflow

variable {R : Type} [Doubles R] {s : State R} {infos : List (Value R)} {es : List Event}

/-- A `play_start` for no channel that there is room for. -/
def startRoot (R : Type) : Value R :=
  .object [("cmd".toList, .string "play_start".toList), ("info".toList,
    .object [("target".toList, .string []), ("bit_state".toList, .int 256)])]

/-- What the settings and the command give to the loop of `play_start`. -/
structure Overfull (infos : List (Value R)) (s : State R) : Prop where
  channels : getMember s.attr "output_channels".toList = .array infos
  bitState : getMember s.attr "bit_state".toList = .int 256
  rated : ∀ n info, n < maxNumChannel → infos[n]? = some info → Rated info

theorem unused (n : ℕ) (room : n < maxNumChannel) : (256 : ℤ).toNat &&& (1 <<< n) < 1 := by
  have all : ∀ n < maxNumChannel, (256 : ℤ).toNat &&& (1 <<< n) < 1 := by decide
  exact all n room

theorem Overfull.create (full : Overfull infos s) (room : s.nChannel < maxNumChannel)
    (more : s.nChannel < infos.length) : ∃ d, createAt emptyWorld s = .ok d := by
  have found : infos[s.nChannel]? = some infos[s.nChannel] := List.getElem?_eq_getElem more
  obtain ⟨members, num, den⟩ := full.rated s.nChannel _ room found
  have number : (getMember s.attr "bit_state".toList).toInteger = 256 := by
    rw [full.bitState]
    rfl
  have range : (getMember s.attr "bit_state".toList).inRange minInt maxInt = true := by
    rw [full.bitState]
    rfl
  have creatable : Creatable emptyWorld (getMember s.attr "udp_sender_ttl".toList)
      (getMember s.attr "bit_state".toList).toInteger s.nChannel infos[s.nChannel] := by
    rw [number]
    exact ⟨members, num, den, fun starts => absurd ⟨by decide, unused s.nChannel room⟩ starts⟩
  have yields : Yields (Comm.create emptyWorld s.nChannel infos[s.nChannel] s.attr s.nChannel)
      fun _ => True := (yields_create range).mpr creatable
  obtain ⟨d, made, -⟩ := yields
  refine ⟨d, ?_⟩
  simp only [createAt, full.channels, entryAt, found, Option.getD_some, ok_bind]
  exact made

theorem Overfull.fill (full : Overfull infos s) {left : ℕ} (pc : s.rx = .new (left + 1))
    (room : s.nChannel < maxNumChannel) (more : s.nChannel < infos.length) :
    ∃ acts fs t, Run step (some s) acts fs (some t) ∧ Overfull infos t ∧
      t.nChannel = s.nChannel + 1 ∧ t.rx = .new left := by
  obtain ⟨d, made⟩ := full.create room more
  let t : State R := { s with
    filled := Function.update s.filled s.nChannel true
    rx := .setMutex left }
  have first : step (some s) (.rx emptyWorld none) = some (some t, [.accessed s.nChannel]) := by
    simp only [step, rxStep, pc, if_pos room]
    rfl
  have second : step (some t) (.rx emptyWorld none) =
      some (some { t with rx := .create left }, [.accessed s.nChannel]) := rfl
  have third : step (some { t with rx := .create left }) (.rx emptyWorld none) =
      some (some { t with nChannel := s.nChannel + 1, rx := .new left },
        [.accessed s.nChannel, .created]) := by
    have same : createAt emptyWorld { t with rx := .create left } = .ok d := made
    simp only [step, rxStep, same]
    rfl
  exact ⟨_, _, _, ((Run.nil.snoc first).snoc second).snoc third,
    ⟨full.channels, full.bitState, full.rated⟩, rfl, rfl⟩

private theorem Overfull.fillAll (full : Overfull infos s) {k left : ℕ}
    (pc : s.rx = .new (left + k))
    (room : s.nChannel + k ≤ maxNumChannel) (more : s.nChannel + k ≤ infos.length) :
    ∃ acts fs t, Run step (some s) acts fs (some t) ∧ t.nChannel = s.nChannel + k ∧
      t.rx = .new left := by
  induction k generalizing s with
  | zero => exact ⟨[], [], s, .nil, rfl, pc⟩
  | succ k ih =>
    obtain ⟨acts, fs, t, run, next, count, here⟩ := full.fill pc (by omega) (by omega)
    obtain ⟨bs, gs, u, rest, total, done⟩ := ih next here (by omega) (by omega)
    exact ⟨acts ++ bs, fs ++ gs, u, run.trans rest, by omega, done⟩

/-- More channels than entries, of which the first have rates, are created behind the end. -/
private theorem overflows {attr : List (Str × Value R)}
    (channels : getMember attr "output_channels".toList = .array infos)
    (many : maxNumChannel < infos.length)
    (rated : ∀ n info, n < maxNumChannel → infos[n]? = some info → Rated info) :
    ∃ acts fs, Run step (some (.start attr)) acts fs none ∧ .accessed maxNumChannel ∈ fs := by
  have head : step (some (.start attr)) (.rx emptyWorld none) =
      some (some { State.start attr with rx := .recv }, []) := rfl
  let filled := touchMember (setMember (setMember attr "target".toList (.string []))
    "bit_state".toList (.int 256)) "output_channels".toList
  have same : getMember filled "output_channels".toList = .array infos := by
    rw [getMember_touchMember, getMember_setMember_other (by decide),
      getMember_setMember_other (by decide), channels]
  let t : State R := { State.start attr with
    attr := filled, bIsRunning := true, rx := .new (infos.length) }
  have taken : step (some { State.start attr with rx := .recv })
      (.rx emptyWorld (some (startRoot R))) = some (some t, []) := by
    have begun : dispatch emptyWorld { State.start attr with rx := .recv } (startRoot R) =
        .ok { State.start attr with
          attr := filled, bIsRunning := true
          rx := .new (entryCount (getMember filled "output_channels".toList)) } := rfl
    rw [same] at begun
    simp only [step, rxStep, begun]
    rfl
  have full : Overfull infos t := by
    refine ⟨same, ?_, rated⟩
    rw [getMember_touchMember, getMember_setMember_same]
  have begins : t.rx = .new (infos.length - maxNumChannel - 1 + 1 + maxNumChannel) := by
    have length : infos.length = infos.length - maxNumChannel - 1 + 1 + maxNumChannel := by omega
    rw [← length]
  have empty : t.nChannel = 0 := rfl
  obtain ⟨acts, fs, u, run, count, pc⟩ := full.fillAll begins (by omega) (by omega)
  have last : step (some u) (.rx emptyWorld none) = some (none, [.accessed maxNumChannel]) := by
    have place : u.nChannel = maxNumChannel := by omega
    simp only [step, rxStep, pc, place, Nat.lt_irrefl, if_false]
  have started := (Run.nil.snoc head).snoc taken
  exact ⟨_, _, (started.trans run).snoc last, by simp⟩

/-- For all settings that `CCore::Create` accepts, no command makes RX or `Delete` use the table
behind its end, and `m_nChannel` counts the demuxers in it, exactly if the settings fit. -/
theorem safe_iff_fits {text : Str} {opens : Bool} {manager : CCommMgr R}
    {effects : List (Effect R)}
    (created : Service.createCore text opens = .ok (some manager, effects)) :
    ∃ root : Value R, parse text = .ok (some root) ∧
      ((∀ acts : List (Act R), Throughout step Safe (some (.start manager.attr)) acts) ↔
        Fits (root.get "output_channels".toList)) := by
  obtain ⟨-, -, root, parsed, same⟩ := Service.createCore_cases created
  refine ⟨root, parsed, ?_⟩
  rw [← same "output_channels".toList]
  constructor
  · intro safe infos channels many
    by_contra none
    have rated : ∀ n info, n < maxNumChannel → infos[n]? = some info → Rated info := by
      intro n info inside found
      by_contra unrated
      exact none ⟨n, info, inside, found, unrated⟩
    obtain ⟨acts, fs, run, accessed⟩ := overflows channels many rated
    have outside := (safe acts acts [] fs _ (by simp) run).inside maxNumChannel accessed
    exact absurd outside (Nat.lt_irrefl _)
  · intro fits acts pre suf es o _ run
    exact safe_of_fits fits run

end Overflow

section Settings

def settings (count : ℕ) : Str :=
  "\x7b\x22version\x22:\x221.0.0\x22,\x22file_dst\x22:\x22output\x22,".toList ++
    "\x22udp_sender_port\x22:5016,\x22output_channels\x22:[".toList ++
    List.intercalate [','] (List.replicate count "\x7b\x22num\x22:1,\x22den\x22:30\x7d".toList) ++
    "]\x7d".toList

theorem safe_iff_fits_two : ∃ (manager : CCommMgr Empty) (effects : List (Effect Empty)),
    Service.createCore (settings 2) true = .ok (some manager, effects) ∧
      ∃ root : Value Empty, parse (settings 2) = .ok (some root) ∧
        ((∀ acts : List (Act Empty), Throughout step Safe (some (.start manager.attr)) acts) ↔
          Fits (root.get "output_channels".toList)) := by
  have made : (Rates.managerOf (settings 2)).isSome = true := by decide +kernel
  obtain ⟨manager, found⟩ := Option.isSome_iff_exists.mp made
  obtain ⟨effects, created⟩ := Rates.createCore_of_managerOf found
  exact ⟨manager, effects, created, safe_iff_fits created⟩

def startNone : Datagram where
  bytes := ("\x7b\x22cmd\x22:\x22play_start\x22,\x22info\x22:\x7b" ++
    "\x22target\x22:\x22a\x22,\x22bit_state\x22:256\x7d\x7d").toList
  nonempty := by decide
  fits := by decide

/-- Nine channels in the settings and one `play_start`: the last is created behind the table. -/
theorem nine_channels_overflow : ∃ (manager : CCommMgr Empty) (effects : List (Effect Empty)),
    Service.createCore (settings 9) true = .ok (some manager, effects) ∧
      ∃ acts es o, Run step (some (.start manager.attr)) acts es o ∧
        .accessed maxNumChannel ∈ es ∧
        ¬∀ acts : List (Act Empty), Throughout step Safe (some (.start manager.attr)) acts := by
  have found : ((Rates.managerOf (settings 9)).bind fun manager =>
      (exec step (some (.start manager.attr)) (.rx emptyWorld none ::
        .rx emptyWorld (some (Rates.rootOf startNone)) ::
        List.replicate 25 (.rx emptyWorld none))).map fun r =>
          decide (.accessed maxNumChannel ∈ r.2)) = some true := by
    decide +kernel
  obtain ⟨manager, made, ran⟩ := Option.bind_eq_some_iff.mp found
  obtain ⟨effects, created⟩ := Rates.createCore_of_managerOf made
  obtain ⟨o, es, run, seen⟩ := Run.exists_of_exec ran
  have accessed : .accessed maxNumChannel ∈ es := of_decide_eq_true seen
  refine ⟨manager, effects, created, _, es, o, run, accessed, fun safe => ?_⟩
  have outside := (safe _ _ [] es o (List.append_nil _).symm run).inside maxNumChannel accessed
  exact absurd outside (Nat.lt_irrefl _)

end Settings

end Tsender.Comm.TableBound
