/- Tsender/Comm/Service
   source: core.cpp (Create), comm.cpp (Open, RX), demuxer.cpp (Create, Reverse, Demux),
   sender.cpp (Run)
   digest: The program from its settings on: the manager, the loop of play_start in single steps
   and the threads of the channels where they divide by the rates of their channels. -/

import Tsender.Comm.Agreement

set_option autoImplicit false
set_option relaxedAutoImplicit false

namespace Tsender.Comm.Service

open Json Lib.Fallible Lib.Transition

/-- The manager and the channels, whose threads run while `play_start` creates further ones. -/
structure Program (R : Type) where
  manager : CCommMgr R
  /-- What the last `play_start` that created channels found around it. -/
  world : World
  /-- The entries of `output_channels` that its loop has still to come to. -/
  rest : Option (List (Value R))

inductive Act (R : Type) where
  /-- `RX` has read a value from a datagram. -/
  | command (w : World) (root : Value R)
  /-- The head of the loop of `play_start`. -/
  | create
  /-- `Play` of a channel reads the settings for the name of its directory. -/
  | play (i : ℕ)
  /-- `Play` of a channel does not find its recording; here at any time. -/
  | deleteThis (i : ℕ)
  /-- `Demux` of a channel keeps the list of its files and reads the settings for the codec. -/
  | demux (i : ℕ) (files : Value R)
  /-- `Demux` of a channel takes a move. -/
  | move (i : ℕ)
  /-- `Demux` of a video channel takes up a seek. -/
  | seek (i : ℕ)
  /-- `Demux` of a video channel calls `Reverse`. -/
  | reverse (i : ℕ)
  /-- `Demux` of an audio channel takes up a seek. -/
  | audioSeek (i : ℕ)
  /-- `Run` of the sender of an audio channel comes to its next block. -/
  | audioRun (i : ℕ)

section Core

variable {R : Type} [Doubles R]

/-- `CCore::Create` with the text of the settings, where the sockets of `Open` can be set up or not.
Without a manager the program ends. -/
def createCore (text : Str) (opens : Bool) :
    Except Fault (Option (CCommMgr R) × List (Effect R)) := do
  let parsed ← parse text
  match parsed with
  | none => return (none, [])
  | some root =>
      let fileDst ← root.member "file_dst".toList
      let fileDst ← fileDst.asString
      let mkdir := Effect.system ("mkdir -p ".toList ++ fileDst)
      let version ← root.member "version".toList
      let _ ← version.asString
      let port ← root.member "udp_sender_port".toList
      let _ ← port.asInt
      let attr := match root with
        | .object ms => ms
        | _ => []
      let attr := touchMember (touchMember attr "version".toList) "file_dst".toList
      return (if opens then some (Comm.opened attr) else none, [mkdir])

end Core

section Steps

variable {R : Type} [Doubles R]

/-- `play_start` up to the loop over the entries of `output_channels`. -/
def startHead (s : CCommMgr R) (root : Value R) :
    Except Fault (CCommMgr R × List (Value R)) := do
  let info ← root.member "info".toList
  let target ← info.member "target".toList
  let target ← target.asString
  let bitState ← info.member "bit_state".toList
  let attr := setMember (setMember s.attr "target".toList (.string target))
    "bit_state".toList bitState
  let attr := touchMember attr "output_channels".toList
  let infos ← elements (getMember attr "output_channels".toList)
  return ({ s with attr := attr, bIsRunning := true, demuxers := [] }, infos)

def command (p : Program R) (w : World) (root : Value R) : Except Fault (Program R) := do
  let cmd ← commandOf root
  match cmd with
  | none => return p
  | some cmd =>
      if cmd = .playStart ∧ p.manager.bIsRunning = false then
        let (s, infos) ← startHead p.manager root
        return ⟨s, w, some infos⟩
      else
        let (s, _) ← run w p.manager root cmd
        return { p with manager := s }

/-- The body of the loop of `play_start`. -/
def createNext (p : Program R) (info : Value R) (rest : List (Value R)) :
    Except Fault (Program R) :=
  let s := p.manager
  if s.nChannel < maxNumChannel then do
    let demuxer ← Comm.create p.world s.built info s.attr s.nChannel
    return { p with
      manager := { s with demuxers := s.demuxers ++ [demuxer], built := s.built + 1 }
      rest := some rest }
  else .error .outOfBounds

/-- `den`, which is read together with `num`. -/
def readDen (d : CDemuxer R) : Except Fault ℤ := do
  let num ← d.info.member "num".toList
  let _ ← num.asUInt64
  let den ← d.info.member "den".toList
  den.asUInt64

def divideBy (den : ℤ) : Except Fault Unit := if den = 0 then .error .divideByZero else .ok ()

/-- `m_info["type"]`, which `Create` has read. -/
def typeOf (d : CDemuxer R) : Str := (d.info.get "type".toList).toStr

/-- `Demux` gets past the codec in the settings. -/
def getsToFiles (d : CDemuxer R) : Bool :=
  (getMember d.attr "codec".toList).inRange minInt maxInt

/-- A step of a thread of a started channel that is still there, and where `here` says. -/
def channelStep (p : Program R) (i : ℕ) (here : CDemuxer R → Bool)
    (f : CDemuxer R → Except Fault (CDemuxer R)) : Option (Except Fault (Program R)) :=
  match p.manager.demuxers[i]? with
  | none => none
  | some d =>
      if d.started && !d.freed && here d then
        some do
          let e ← f d
          return { p with manager := { p.manager with demuxers := p.manager.demuxers.set i e } }
      else none

def demux (files : Value R) (d : CDemuxer R) : Except Fault (CDemuxer R) := do
  let _ ← (getMember d.attr "codec".toList).asInt
  return Agreement.demux files d

def seek (d : CDemuxer R) : Except Fault (CDemuxer R) := do
  seekFrame d
  return { d with nSeekFrame := 0 }

def reverse (d : CDemuxer R) : Except Fault (CDemuxer R) := do
  let den ← readDen d
  divideBy den
  return d

def audioSeek (d : CDemuxer R) : Except Fault (CDemuxer R) := do
  let den ← readDen d
  divideBy den
  return { d with nSeekFrame := 0 }

/-- `Run` reads `gop` before its loop, too. -/
def audioRun (d : CDemuxer R) : Except Fault (CDemuxer R) := do
  let den ← readDen d
  let gop ← d.info.member "gop".toList
  let _ ← gop.asUInt
  divideBy den
  return d

def act (p : Program R) : Act R → Option (Except Fault (Program R))
  | .command w root => if p.rest.isNone then some (command p w root) else none
  | .create =>
      match p.rest with
      | none => none
      | some [] => some (.ok { p with rest := none })
      | some (info :: rest) => some (createNext p info rest)
  | .play i => channelStep p i (fun _ => true) fun d => .ok (Agreement.play d)
  | .deleteThis i => channelStep p i (fun _ => true) fun d => .ok { d with freed := true }
  | .demux i files => channelStep p i (fun _ => true) (demux files)
  | .move i =>
      channelStep p i (fun d => getsToFiles d && d.isMove) fun d => .ok { d with isMove := false }
  | .seek i =>
      channelStep p i (fun d => getsToFiles d && typeOf d = "video".toList && 0 < d.nSeekFrame) seek
  | .reverse i =>
      channelStep p i (fun d => getsToFiles d && typeOf d = "video".toList && d.bIsRerverse) reverse
  | .audioSeek i =>
      channelStep p i (fun d => getsToFiles d && typeOf d = "audio".toList && 0 < d.nSeekFrame)
        audioSeek
  | .audioRun i => channelStep p i (fun d => d.sends && typeOf d = "audio".toList) audioRun

def step : Machine (Option (Program R)) (Act R) Fault
  | none, _ => none
  | some p, a =>
      match act p a with
      | none => none
      | some (.ok q) => some (some q, [])
      | some (.error fault) => some (none, [fault])

/-- The program with the manager that `CCore` has opened. -/
def Program.start (s : CCommMgr R) : Program R := ⟨s, emptyWorld, none⟩

end Steps

section Creation

variable {R : Type} [Doubles R] {w : World} {s t : CCommMgr R} {root : Value R}
  {attr : List (Str × Value R)}

theorem startHead_cases {infos : List (Value R)} (done : startHead s root = .ok (t, infos)) :
    elements (getMember s.attr "output_channels".toList) = .ok infos ∧
      t = { s with
        attr := touchMember (startAttr s (root.get "info".toList)) "output_channels".toList
        bIsRunning := true, demuxers := [] } := by
  have yields : Yields (startHead s root) fun p => p = (t, infos) := ⟨_, done, rfl⟩
  simp only [startHead, yields_bind, yields_member, yields_asString, yields_pure] at yields
  obtain ⟨-, -, -, -, found, read, same⟩ := yields
  obtain ⟨rfl, rfl⟩ := Prod.mk.inj same
  rw [getMember_touchMember] at read
  have channels : getMember (startAttr s (root.get "info".toList)) "output_channels".toList =
      getMember s.attr "output_channels".toList :=
    getMember_startAttr_other (by decide) (by decide)
  refine ⟨?_, rfl⟩
  rw [← channels]
  exact read

private theorem playStart_eq (stopped : s.bIsRunning = false) : playStart w s root = do
    let (t, infos) ← startHead s root
    let demuxers ← createAll w t.attr s.built 0 infos
    return ({ t with demuxers := demuxers, built := s.built + demuxers.length }, []) := by
  simp only [playStart, startHead, stopped, bind_assoc, pure_bind, Bool.false_eq_true, if_false]

/-- `Create` of channel `n` comes to `Start` with this `bit_state`. -/
def Starts (bitState : ℤ) (n : ℕ) : Prop :=
  ¬(0 < bitState ∧ bitState.toNat &&& (1 <<< n) < 1)

/-- `SetSocket` of the sender of channel `n` gets through. -/
def Sends (w : World) (ttl : Value R) (n : ℕ) (info : Value R) : Prop :=
  w.binds n = true ∧ takesTtl ttl.toInteger = true ∧ isGroup (info.get "ip".toList).toStr = true ∧
    w.joins n = true

/-- A channel right after `Create`. -/
structure Fresh (w : World) (attr : List (Str × Value R)) (bitState : ℤ) (n : ℕ) (info : Value R)
    (d : CDemuxer R) : Prop where
  entry : d.info = info
  settings : d.attr = attr
  started : d.started = true ↔ Starts bitState n
  sends : d.sends = true ↔
    Starts bitState n ∧ Sends w (getMember attr "udp_sender_ttl".toList) n info
  freed : d.freed = false
  bIsRerverse : d.bIsRerverse = false
  nSeekFrame : d.nSeekFrame = 0
  files : d.files = .int 0

private theorem sends_of_createSender {info : Value R} {n : ℕ} {sends : Bool}
    (done : createSender w info attr n = .ok sends) :
    sends = true ↔ Sends w (getMember attr "udp_sender_ttl".toList) n info := by
  have yields : Yields (createSender w info attr n) fun b => b = sends := ⟨_, done, rfl⟩
  simp only [createSender, setSocket, yields_bind, yields_member, yields_asString, yields_asInt,
    yields_asUInt, yields_ite, yields_pure] at yields
  obtain ⟨-, -, -, -, -, -, bound, unbound⟩ := yields
  by_cases binds : w.binds n = true
  · obtain ⟨-, rfl⟩ := bound binds
    simp only [Sends, binds, Bool.and_eq_true, true_and, and_assoc]
  · obtain rfl := unbound binds
    exact iff_of_false Bool.false_ne_true fun sends => binds sends.1

theorem create_cases {info : Value R} {id n : ℕ} {d : CDemuxer R}
    (done : Comm.create w id info attr n = .ok d) :
    (getMember attr "bit_state".toList).inRange minInt maxInt = true ∧
      Creatable w (getMember attr "udp_sender_ttl".toList)
        (getMember attr "bit_state".toList).toInteger n info ∧
      Fresh w attr (getMember attr "bit_state".toList).toInteger n info d := by
  have yields : Yields (Comm.create w id info attr n) fun e => e = d := ⟨d, done, rfl⟩
  have read : (getMember attr "bit_state".toList).inRange minInt maxInt = true := by
    simp only [Comm.create, yields_bind, yields_member, yields_asInt, yields_asUInt64] at yields
    exact yields.2.2.2.2.1
  refine ⟨read, (yields_create read).mp ⟨d, done, trivial⟩, ?_⟩
  simp only [Comm.create, yields_bind, yields_member, yields_asString, yields_asInt,
    yields_asUInt64, yields_ite, yields_pure] at yields
  obtain ⟨-, -, -, -, -, idle, starts⟩ := yields
  by_cases unused : 0 < (getMember attr "bit_state".toList).toInteger ∧
      (getMember attr "bit_state".toList).toInteger.toNat &&& (1 <<< n) < 1
  · obtain rfl := idle unused
    have never : ¬Starts (getMember attr "bit_state".toList).toInteger n :=
      fun starts => starts unused
    exact ⟨rfl, rfl, iff_of_false Bool.false_ne_true never,
      iff_of_false Bool.false_ne_true fun sends => never sends.1, rfl, rfl, rfl, rfl⟩
  · obtain ⟨-, -, sends, sender, rfl⟩ := starts unused
    exact ⟨rfl, rfl, iff_of_true rfl unused,
      (sends_of_createSender sender).trans (and_iff_right unused).symm, rfl, rfl, rfl, rfl⟩

theorem createAll_fresh {built k : ℕ} {infos : List (Value R)} {ds : List (CDemuxer R)}
    (done : createAll w attr built k infos = .ok ds) : ds.length = infos.length ∧
      ∀ n info, infos[n]? = some info → ∃ d, ds[n]? = some d ∧
        Fresh w attr (getMember attr "bit_state".toList).toInteger (k + n) info d := by
  obtain ⟨length, created⟩ := createAll_spec done
  refine ⟨length, fun n info found => ?_⟩
  obtain ⟨inside, rfl⟩ := List.getElem?_eq_some_iff.mp found
  have there : n < ds.length := length ▸ inside
  obtain ⟨other, same, made⟩ := created n there
  obtain rfl := Option.some.inj (found.symm.trans same)
  exact ⟨ds[n], List.getElem?_eq_getElem there, (create_cases made).2.2⟩

end Creation

section Channels

variable {R : Type} {p : Program R}

theorem channelStep_cases {i : ℕ} {here : CDemuxer R → Bool}
    {f : CDemuxer R → Except Fault (CDemuxer R)} {r : Except Fault (Program R)}
    (next : channelStep p i here f = some r) :
    ∃ d, p.manager.demuxers[i]? = some d ∧ d.started = true ∧ d.freed = false ∧ here d = true ∧
      ((∃ e, f d = .ok e ∧ r = .ok { p with
          manager := { p.manager with demuxers := p.manager.demuxers.set i e } }) ∨
        ∃ fault, f d = .error fault ∧ r = .error fault) := by
  unfold channelStep at next
  split at next
  · cases next
  · rename_i d found
    split at next
    · rename_i there
      simp only [Bool.and_eq_true, Bool.not_eq_true'] at there
      refine ⟨d, found, there.1.1, there.1.2, there.2, ?_⟩
      cases result : f d with
      | ok e =>
        rw [result] at next
        exact .inl ⟨e, rfl, (Option.some.inj next).symm⟩
      | error fault =>
        rw [result] at next
        exact .inr ⟨fault, rfl, (Option.some.inj next).symm⟩
    · cases next

theorem channelStep_fails {i : ℕ} {here : CDemuxer R → Bool}
    {f : CDemuxer R → Except Fault (CDemuxer R)} {d : CDemuxer R} {fault : Fault}
    (found : p.manager.demuxers[i]? = some d) (started : d.started = true)
    (live : d.freed = false) (there : here d = true) (fails : f d = .error fault) :
    channelStep p i here f = some (.error fault) := by
  simp only [channelStep, found, started, live, there, Bool.not_false, Bool.and_self, if_true, fails]
  rfl

end Channels

section Reaching

variable {R : Type} [Doubles R] {s t : CCommMgr R} {w : World} {root : Value R}
  {infos : List (Value R)}

theorem step_of_ok {p q : Program R} {a : Act R} (taken : act p a = some (.ok q)) :
    step (some p) a = some (some q, []) := by
  simp only [step, taken]

theorem step_of_error {p : Program R} {a : Act R} {fault : Fault}
    (failed : act p a = some (.error fault)) : step (some p) a = some (none, [fault]) := by
  simp only [step, failed]

private theorem create_run {p : Program R} {front back : List (Value R)} {ds : List (CDemuxer R)}
    (more : p.rest = some (front ++ back))
    (done : createAll p.world p.manager.attr p.manager.built p.manager.nChannel front = .ok ds) :
    Run step (some p) (List.replicate front.length .create) []
      (some ⟨{ p.manager with
          demuxers := p.manager.demuxers ++ ds, built := p.manager.built + ds.length },
        p.world, some back⟩) := by
  induction front generalizing p ds with
  | nil =>
    cases done
    have same : p = ⟨{ p.manager with
        demuxers := p.manager.demuxers ++ [], built := p.manager.built + 0 }, p.world,
        some back⟩ := by
      obtain ⟨manager, world, rest⟩ := p
      obtain rfl : rest = some back := more
      simp
    rw [List.length_nil, List.length_nil, ← same]
    exact .nil
  | cons info front ih =>
    unfold createAll at done
    split at done
    · rename_i room
      obtain ⟨d, first, done⟩ := bind_eq_ok.mp done
      obtain ⟨rest, others, done⟩ := bind_eq_ok.mp done
      cases done
      have turn : act p .create = some (.ok { p with
          manager := { p.manager with
            demuxers := p.manager.demuxers ++ [d], built := p.manager.built + 1 }
          rest := some (front ++ back) }) := by
        simp only [act, more, List.cons_append, createNext, room, if_true, first]
        rfl
      have later := @ih { p with
        manager := { p.manager with
          demuxers := p.manager.demuxers ++ [d], built := p.manager.built + 1 }
        rest := some (front ++ back) } rest rfl (by
          simpa [CCommMgr.nChannel] using others)
      have whole := Run.cons (step_of_ok turn) later
      have count : p.manager.built + (d :: rest).length = p.manager.built + 1 + rest.length := by
        rw [List.length_cons]
        omega
      rw [count, List.length_cons, List.replicate_succ]
      simpa using whole
    · cases done

theorem start_run {world : World} (stopped : s.bIsRunning = false)
    (cmd : commandOf root = .ok (some .playStart)) {front back : List (Value R)}
    (head : startHead s root = .ok (t, front ++ back)) {ds : List (CDemuxer R)}
    (done : createAll w t.attr t.built 0 front = .ok ds) :
    Run step (some ⟨s, world, none⟩) (.command w root :: List.replicate front.length .create) []
      (some ⟨{ t with demuxers := ds, built := t.built + ds.length }, w, some back⟩) := by
  have empty : t.demuxers = [] := by
    obtain ⟨-, rfl⟩ := startHead_cases head
    rfl
  have first : act ⟨s, world, none⟩ (.command w root) =
      some (.ok ⟨t, w, some (front ++ back)⟩) := by
    simp only [act, Option.isNone_none, if_true, command, cmd, ok_bind, stopped, and_self, head]
    rfl
  have later := @create_run R _ ⟨t, w, some (front ++ back)⟩ front back ds rfl
    (by simpa [CCommMgr.nChannel, empty] using done)
  have whole := Run.cons (step_of_ok first) later
  simpa [empty] using whole

/-- What one round of `RX` makes of a `play_start` the program comes to in single steps. -/
private theorem playStart_run {world : World} {es : List (Effect R)}
    (stopped : s.bIsRunning = false)
    (cmd : commandOf root = .ok (some .playStart)) (done : playStart w s root = .ok (t, es)) :
    ∃ n, Run step (some ⟨s, world, none⟩) (.command w root :: List.replicate n .create) []
      (some ⟨t, w, none⟩) := by
  rw [playStart_eq stopped] at done
  obtain ⟨⟨u, infos⟩, head, done⟩ := bind_eq_ok.mp done
  obtain ⟨ds, created, done⟩ := bind_eq_ok.mp done
  cases done
  have built : u.built = s.built := by
    obtain ⟨-, rfl⟩ := startHead_cases head
    rfl
  have started := @start_run R _ s u w root world stopped cmd infos [] (by simpa using head) ds
    (by rw [built]; exact created)
  refine ⟨infos.length + 1, ?_⟩
  have whole := started.snoc (step_of_ok (a := .create) rfl)
  rw [built] at whole
  simpa [List.replicate_succ'] using whole

end Reaching

section Settings

variable {R : Type} [Doubles R]

theorem createCore_cases {text : Str} {opens : Bool} {s : CCommMgr R} {es : List (Effect R)}
    (created : createCore text opens = .ok (some s, es)) :
    s.bIsRunning = false ∧ s.demuxers = [] ∧ ∃ root : Value R, parse text = .ok (some root) ∧
      ∀ key, getMember s.attr key = root.get key := by
  obtain ⟨parsed, reads, created⟩ := bind_eq_ok.mp created
  cases parsed with
  | none => cases created
  | some root =>
    simp only [bind_eq_ok] at created
    obtain ⟨fileDst, member, _, -, _, -, _, -, _, -, _, -, created⟩ := created
    cases opens with
    | false => cases created
    | true =>
      cases created
      refine ⟨rfl, rfl, root, reads, fun key => ?_⟩
      simp only [opened, getMember_touchMember]
      cases root with
      | object ms => rfl
      | _ => rfl

end Settings

end Tsender.Comm.Service
