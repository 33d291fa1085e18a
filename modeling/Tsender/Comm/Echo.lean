/- Tsender/Comm/Echo
   source: comm.cpp (RX, TX)
   digest: Hosts that run the program, their clients and a network between them; a command acts
   at most once unless it comes from the address of a host. -/

import Mathlib.Logic.Function.Basic
import Tsender.Comm.Survival
import Tsender.Lib.Delivery
import Tsender.Lib.Transition

set_option autoImplicit false
set_option relaxedAutoImplicit false

namespace Tsender.Comm.Echo

open Json Lib.Delivery Lib.Fallible Lib.Transition

/-- A datagram on its way to the port of the service, the only one that `TX` sends to. -/
structure Packet (A : Type) where
  src : A
  dst : A
  bytes : Str
  deriving DecidableEq

/-- The first bytes of a packet.  With less than one the loop goes on to the next packet. -/
def recvfrom (bytes : Str) : Option Datagram :=
  if h : bytes = [] then none
  else some {
    bytes := bytes.take readSize
    nonempty := by simp [h, readSize]
    fits := List.length_take_le readSize bytes }

section Rounds

variable {R : Type} [Doubles R]

def dispatch (R : Type) [Doubles R] (d : Datagram) : Option Command :=
  match stringAt d.buff with
  | .error _ => none
  | .ok strbuf =>
      match (parse strbuf : Except Fault (Option (Value R))) with
      | .ok (some root) =>
          match commandOf root with
          | .ok cmd => cmd
          | .error _ => none
      | _ => none

/-- The manager after a round, if the program is still there, and what the round does.  The echo
goes out before anything can fail, a reply after everything that can. -/
def round (w : World) (s : CCommMgr R) (d : Datagram) : Option (CCommMgr R) × List (Effect R) :=
  match rx w s d with
  | .ok (t, effects) => (some t, effects)
  | .error _ => (none, [.echo d.bytes])

/-- The bytes that `TX` sends. -/
def sent (writeString : Value R → Str) : Effect R → Option Str
  | .echo bytes => some bytes
  | .reply root => some (Delete.cStr (writeString root))
  | .system _ => none

end Rounds

structure Hosts (A H R : Type) where
  /-- The host whose manager is bound at an address. -/
  owner : A → Option H
  /-- `Json::writeString`. -/
  writeString : Value R → Str

structure Net (A H R : Type) where
  /-- The manager of each host until a fault ends its program. -/
  managers : H → Option (CCommMgr R)
  inFlight : List (Packet A)

inductive Act (A : Type) where
  /-- A client sends a packet. -/
  | inject (p : Packet A)
  | lose (i : ℕ)
  /-- A packet in flight is received by the manager at its destination, which sends from `src`. -/
  | deliver (i : ℕ) (src : A) (w : World)

inductive Event (A : Type) where
  | injected (p : Packet A)
  | dispatched (p : Packet A) (cmd : Command)
  deriving DecidableEq

def injected {A : Type} (es : List (Event A)) : List (Packet A) :=
  es.filterMap fun e => match e with
    | .injected p => some p
    | .dispatched _ _ => none

def dispatched {A : Type} (es : List (Event A)) : List (Packet A) :=
  es.filterMap fun e => match e with
    | .injected _ => none
    | .dispatched p _ => some p

section Steps

variable {A H R : Type} [DecidableEq H] [Doubles R]

def Hosts.acts (hosts : Hosts A H R) (p : Packet A) : Bool :=
  (hosts.owner p.dst).isSome && ((recvfrom p.bytes).bind (dispatch R)).isSome

/-- What `TX` sends back to where a packet came from. -/
def Hosts.answers (hosts : Hosts A H R) (p : Packet A) (src : A) (effects : List (Effect R)) :
    List (Packet A) :=
  (effects.filterMap (sent hosts.writeString)).map (Packet.mk src p.src)

/-- `RX` takes a packet from the network. -/
def deliver (hosts : Hosts A H R) (net : Net A H R) (i : ℕ) (src : A) (w : World) :
    Option (Net A H R × List (Event A)) := do
  let p ← net.inFlight[i]?
  let h ← hosts.owner p.dst
  let s ← net.managers h
  if hosts.owner src = some h then
    match recvfrom p.bytes with
    | none => some ({ net with inFlight := net.inFlight.eraseIdx i }, [])
    | some d =>
        let r := round w s d
        some ({
          managers := Function.update net.managers h r.1
          inFlight := net.inFlight.eraseIdx i ++ hosts.answers p src r.2 },
          (dispatch R d).toList.map (.dispatched p))
  else none

def step (hosts : Hosts A H R) : Machine (Net A H R) (Act A) (Event A)
  | net, .inject p => some ({ net with inFlight := net.inFlight ++ [p] }, [.injected p])
  | net, .lose i => some ({ net with inFlight := net.inFlight.eraseIdx i }, [])
  | net, .deliver i src w => deliver hosts net i src w

end Steps

section Rounds

variable {R : Type} [Doubles R] {w : World} {s : CCommMgr R} {d : Datagram}

private theorem rx_of_not_dispatched {p : CCommMgr R × List (Effect R)} (idle : dispatch R d = none)
    (done : rx w s d = .ok p) : p = (s, [.echo d.bytes]) := by
  obtain ⟨strbuf, read, done⟩ := bind_eq_ok.mp done
  obtain ⟨parsed, parses, done⟩ := bind_eq_ok.mp done
  cases parsed with
  | none =>
    cases done
    rfl
  | some root =>
    obtain ⟨cmd, found, done⟩ := bind_eq_ok.mp done
    have none_found : cmd = none := by
      simpa only [dispatch, read, parses, found] using idle
    subst none_found
    cases done
    rfl

private theorem round_of_not_dispatched (idle : dispatch R d = none) :
    (round w s d).2 = [.echo d.bytes] := by
  unfold round
  cases done : rx w s d with
  | error e => rfl
  | ok p =>
    rw [rx_of_not_dispatched idle done]

theorem recvfrom_bytes {bytes : Str} (received : recvfrom bytes = some d) :
    recvfrom d.bytes = some d := by
  unfold recvfrom at received
  split at received
  · cases received
  · rename_i nonempty
    cases received
    have again : bytes.take readSize ≠ [] := by simp [nonempty, readSize]
    simp [recvfrom, again, List.take_take]

end Rounds

section Events

variable {A : Type} {es fs : List (Event A)}

theorem injected_append : injected (es ++ fs) = injected es ++ injected fs :=
  List.filterMap_append

theorem dispatched_append : dispatched (es ++ fs) = dispatched es ++ dispatched fs :=
  List.filterMap_append

end Events

section Answers

variable {A H R : Type} [Doubles R] {hosts : Hosts A H R} {p : Packet A} {d : Datagram}

private theorem acts_of_recvfrom (received : recvfrom p.bytes = some d) :
    hosts.acts p = ((hosts.owner p.dst).isSome && (dispatch R d).isSome) := by
  simp only [Hosts.acts, received, Option.bind_some]

private theorem answers_inert {s : CCommMgr R} {src : A} {w : World}
    (received : recvfrom p.bytes = some d)
    (outside : (dispatch R d).isSome = true → hosts.owner p.src = none) :
    ∀ q ∈ hosts.answers p src (round w s d).2, hosts.acts q = false := by
  intro q mem
  obtain ⟨bytes, answer, rfl⟩ := List.mem_map.mp mem
  cases idle : dispatch R d with
  | some cmd =>
    have nobody : hosts.owner p.src = none := outside (by rw [idle]; rfl)
    simp [Hosts.acts, nobody]
  | none =>
    -- The only answer is the echo, and it is read like the packet.
    rw [round_of_not_dispatched idle] at answer
    have echo : bytes = d.bytes := by simpa [sent] using answer
    have same : hosts.acts (Packet.mk src p.src d.bytes) =
        ((hosts.owner p.src).isSome && (dispatch R d).isSome) :=
      acts_of_recvfrom (recvfrom_bytes received)
    rw [echo, same, idle]
    simp

end Answers

section Invariant

variable {A H R : Type} [Doubles R] {hosts : Hosts A H R} {net next : Net A H R}
  {es fs : List (Event A)}

def Outside (hosts : Hosts A H R) (es : List (Event A)) : Prop :=
  ∀ p ∈ injected es, hosts.acts p = true → hosts.owner p.src = none

theorem Outside.front (outside : Outside hosts (es ++ fs)) : Outside hosts es := by
  intro p mem
  apply outside p
  rw [injected_append]
  exact List.mem_append_left _ mem

/-- Every command that was dispatched or can still be was injected, each of them once. -/
def Once (hosts : Hosts A H R) (es : List (Event A)) (net : Net A H R) : Prop :=
  Accounted hosts.acts (dispatched es) net.inFlight (injected es)

variable [DecidableEq H]

private theorem deliver_cases {i : ℕ} {src : A} {w : World}
    (go : deliver hosts net i src w = some (next, fs)) :
    ∃ p, net.inFlight[i]? = some p ∧ (hosts.owner p.dst).isSome = true ∧
      ((recvfrom p.bytes = none ∧ next.inFlight = net.inFlight.eraseIdx i ∧ fs = []) ∨
        ∃ s d, recvfrom p.bytes = some d ∧
          next.inFlight = net.inFlight.eraseIdx i ++ hosts.answers p src (round w s d).2 ∧
          fs = (dispatch R d).toList.map (.dispatched p)) := by
  obtain ⟨p, found, go⟩ := Option.bind_eq_some_iff.mp go
  obtain ⟨h, bound, go⟩ := Option.bind_eq_some_iff.mp go
  obtain ⟨s, present, go⟩ := Option.bind_eq_some_iff.mp go
  refine ⟨p, found, by rw [bound]; rfl, ?_⟩
  split at go
  · split at go
    · rename_i empty
      cases go
      exact .inl ⟨empty, rfl, rfl⟩
    · rename_i d received
      cases go
      exact .inr ⟨s, d, received, rfl, rfl⟩
  · cases go

private theorem once_deliver {i : ℕ} {src : A} {w : World} (h : Once hosts es net)
    (outside : Outside hosts es) (go : deliver hosts net i src w = some (next, fs)) :
    Once hosts (es ++ fs) next := by
  obtain ⟨p, found, bound, ⟨-, rest, rfl⟩ | ⟨s, d, received, rest, rfl⟩⟩ := deliver_cases go
  · unfold Once
    rw [List.append_nil, rest]
    exact h.lose i
  · have acts : hosts.acts p = (dispatch R d).isSome := by
      rw [acts_of_recvfrom received, bound, Bool.true_and]
    have mem : p ∈ net.inFlight := List.mem_of_getElem? found
    have inert : ∀ q ∈ hosts.answers p src (round w s d).2, hosts.acts q = false := by
      refine answers_inert received fun command => ?_
      rw [← acts] at command
      exact outside p (h.mem_issued mem command) command
    unfold Once
    rw [injected_append, dispatched_append, rest]
    cases command : dispatch R d with
    | none =>
      show Accounted hosts.acts (dispatched es ++ []) _ (injected es ++ [])
      rw [List.append_nil, List.append_nil]
      exact (h.lose i).send inert
    | some cmd =>
      show Accounted hosts.acts (dispatched es ++ [p]) _ (injected es ++ [])
      rw [List.append_nil]
      exact (h.handle found (by rw [acts, command]; rfl)).send inert

private theorem once_step {a : Act A} (h : Once hosts es net) (outside : Outside hosts (es ++ fs))
    (go : step hosts net a = some (next, fs)) : Once hosts (es ++ fs) next := by
  cases a with
  | inject p =>
    cases go
    unfold Once
    rw [injected_append, dispatched_append]
    show Accounted hosts.acts (dispatched es ++ []) _ (injected es ++ [p])
    rw [List.append_nil]
    exact h.issue p
  | lose i =>
    cases go
    unfold Once
    rw [List.append_nil]
    exact h.lose i
  | deliver i src w => exact once_deliver h outside.front go

private theorem once_run {managers : H → Option (CCommMgr R)} {acts : List (Act A)}
    (run : Run (step hosts) ⟨managers, []⟩ acts es net) (outside : Outside hosts es) :
    Once hosts es net := by
  have kept : Outside hosts es → Once hosts es net := by
    apply run.invariant
    · exact fun _ => Accounted.start
    · intro ds m a n gs h go outside
      exact once_step (h outside.front) outside go
  exact kept outside

end Invariant

section Commands

variable {A H R : Type} [DecidableEq H] [Doubles R]

/-- The hosts dispatch no more commands than there are packets from clients, if no command for a
host comes from the address of a host. -/
theorem dispatched_le_injected (hosts : Hosts A H R) (managers : H → Option (CCommMgr R))
    (acts : List (Act A)) (es : List (Event A)) (net : Net A H R)
    (run : Run (step hosts) ⟨managers, []⟩ acts es net) (outside : Outside hosts es) :
    (dispatched es).length ≤ (injected es).length :=
  (once_run run outside).length_le

end Commands

section Pause

def oneHost : Hosts ℕ Unit Empty where
  owner := fun a => if a = 0 then some () else none
  writeString := fun _ => []

def managers : Unit → Option (CCommMgr Empty) := fun _ => some (opened [])

/-- A client with the address `src` sends `play_pause`, and the host takes `rounds` packets. -/
def pause (src rounds : ℕ) : List (Act ℕ) :=
  .inject ⟨src, 0, "\x7b\x22cmd\x22:\x22play_pause\x22\x7d".toList⟩ ::
    List.replicate rounds (.deliver 0 0 emptyWorld)

theorem pause_dispatched_le_injected : ∃ es net,
    Run (step oneHost) ⟨managers, []⟩ (pause 1 1) es net ∧ (dispatched es).length = 1 ∧
      (dispatched es).length ≤ (injected es).length := by
  have found : (exec (step oneHost) ⟨managers, []⟩ (pause 1 1)).map
      (fun r : Net ℕ Unit Empty × List (Event ℕ) => decide ((dispatched r.2).length = 1 ∧
        ∀ p ∈ injected r.2, oneHost.owner p.src = none)) = some true := by decide +kernel
  obtain ⟨net, es, run, seen⟩ := Run.exists_of_exec found
  obtain ⟨once, outside⟩ := of_decide_eq_true seen
  exact ⟨es, net, run, once, dispatched_le_injected oneHost managers _ es net run
    fun p mem _ => outside p mem⟩

/-- The echo to the host's own address is the command once more. -/
theorem pause_from_host_dispatched_twice :
    ¬∀ (hosts : Hosts ℕ Unit Empty) (managers : Unit → Option (CCommMgr Empty))
      (acts : List (Act ℕ)) (es : List (Event ℕ)) (net : Net ℕ Unit Empty),
      Run (step hosts) ⟨managers, []⟩ acts es net →
        (dispatched es).length ≤ (injected es).length := by
  intro claim
  have found : (exec (step oneHost) ⟨managers, []⟩ (pause 0 2)).map
      (fun r : Net ℕ Unit Empty × List (Event ℕ) =>
        decide (¬(dispatched r.2).length ≤ (injected r.2).length)) = some true := by
    decide +kernel
  obtain ⟨net, es, run, seen⟩ := Run.exists_of_exec found
  exact of_decide_eq_true seen (claim oneHost managers _ es net run)

end Pause

end Tsender.Comm.Echo
