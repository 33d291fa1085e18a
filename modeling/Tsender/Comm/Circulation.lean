/- Tsender/Comm/Circulation
   source: comm.cpp (RX, TX)
   digest: A command from the address of a host comes back to a host as its own echo.  On a network
   that loses nothing it never dies out, and requests for thumbnails multiply. -/

import Tsender.Comm.Reply
import Tsender.Lib.Schedule

set_option autoImplicit false
set_option relaxedAutoImplicit false

namespace Tsender.Comm.Circulation

open Json Lib.Delivery Lib.Fallible Lib.Transition Echo

section Classes

variable {A H R : Type} [Doubles R]

def circulates (hosts : Hosts A H R) (ofClass : Command → Bool) (p : Packet A) : Bool :=
  (hosts.owner p.src).isSome && (hosts.owner p.dst).isSome &&
    ((recvfrom p.bytes).bind (dispatch R)).any ofClass

def anyCommand : Command → Bool := fun _ => true

def isThumbnail : Command → Bool := fun cmd => cmd = .getThumbnail

def keeps : Act A → Bool
  | .lose _ => false
  | _ => true

end Classes

section Rounds

variable {R : Type} [Doubles R] {w : World} {s t : CCommMgr R} {d : Datagram} {asked : Value R}
  {writeString : Value R → Str}

private theorem answered_le_one {cmd : Command} {r : CCommMgr R × List (Effect R)}
    (ran : run w s asked cmd = .ok r) : (r.2.filterMap (sent writeString)).length ≤ 1 := by
  cases cmd with
  | playStart | playReverse | playClose | playSpeedUp | playPause | playSeek =>
    rw [effects_of_silent rfl ran]
    exact Nat.zero_le _
  | getThumbnail =>
    rw [(getThumbnail_cases ran).2]
    exact le_rfl
  | getPlayList =>
    obtain ⟨fileDst, -, ran⟩ := bind_eq_ok.mp ran
    obtain ⟨list, -, ran⟩ := bind_eq_ok.mp ran
    cases ran
    exact le_rfl
  | playDelete =>
    obtain ⟨fileDst, -, ran⟩ := bind_eq_ok.mp ran
    obtain ⟨info, -, ran⟩ := bind_eq_ok.mp ran
    obtain ⟨target, -, ran⟩ := bind_eq_ok.mp ran
    obtain ⟨text, -, ran⟩ := bind_eq_ok.mp ran
    obtain ⟨list, -, ran⟩ := bind_eq_ok.mp ran
    cases ran
    cases Delete.deleteCommand fileDst text <;> exact le_rfl

private theorem round_cases (w : World) (s : CCommMgr R) (d : Datagram) :
    ∃ more, (round w s d).2 = .echo d.bytes :: more ∧
      (more.filterMap (sent writeString)).length ≤ (dispatch R d).toList.length := by
  unfold Echo.round
  cases done : rx w s d with
  | error e => exact ⟨[], rfl, Nat.zero_le _⟩
  | ok r =>
    rcases Reply.rx_cases done with ⟨-, effects⟩ | ⟨asked, cmd, more, dispatched, ran, effects⟩
    · exact ⟨[], effects, Nat.zero_le _⟩
    · refine ⟨more, effects, ?_⟩
      rw [dispatched]
      exact answered_le_one ran

private theorem rx_of_dispatched {cmd : Command} (dispatched : dispatch R d = some cmd) (w : World)
    (s : CCommMgr R) : ∃ asked, rx w s d = run w s asked cmd >>= fun r =>
      .ok (r.1, .echo d.bytes :: r.2) := by
  unfold dispatch at dispatched
  split at dispatched
  · cases dispatched
  · rename_i strbuf text
    split at dispatched
    · rename_i root parses
      split at dispatched
      · rename_i found
        subst dispatched
        refine ⟨root, ?_⟩
        rw [rx, text, ok_bind, parses, ok_bind]
        simp only [found, ok_bind]
        rfl
      · cases dispatched
    · cases dispatched

def thumbnailReply : Value R :=
  .object (setMember [] "cmd".toList (.string "get_thumbnail".toList))

private theorem round_thumbnail (requested : dispatch R d = some .getThumbnail)
    (present : (round w s d).1.isSome = true) :
    (round w s d).2 = [.echo d.bytes, .reply thumbnailReply] := by
  unfold Echo.round at present ⊢
  cases done : rx w s d with
  | error e =>
    rw [done] at present
    cases present
  | ok r =>
    rcases Reply.rx_cases done with ⟨none, -⟩ | ⟨asked, cmd, more, dispatched, ran, effects⟩
    · rw [requested] at none
      cases none
    · rw [requested] at dispatched
      cases dispatched
      have replied : more = [.reply thumbnailReply] := (getThumbnail_cases ran).2
      rw [replied] at effects
      exact effects

private theorem thumbnailReply_requests (hasComment : Value R → Bool) : ∃ bytes,
    sent (Json.writeString (compact hasComment)) (.reply (thumbnailReply : Value R)) = some bytes ∧
      (recvfrom bytes).bind (dispatch R) = some .getThumbnail := by
  have none_real : ∀ r ∈ reals (thumbnailReply : Value R), PrintsBack r := by
    intro r inside
    simp [thumbnailReply, setMember, reals, memberReals] at inside
  have answers : Reply.Answers (thumbnailReply : Value R) .getThumbnail "get_thumbnail".toList :=
    ⟨⟨[], rfl, List.forall_mem_nil _⟩, .inl ⟨rfl, rfl⟩⟩
  have text : render (inOrder (thumbnailReply : Value R)) =
      "\x7b\x22cmd\x22:\x22get_thumbnail\x22\x7d".toList := by rfl
  obtain ⟨bytes, answer, -, short, -⟩ := Reply.received_answer answers none_real hasComment
  have whole := @Reply.sent_reply R _ hasComment _ none_real
  rw [answer, Option.some.injEq] at whole
  refine ⟨bytes, answer, short ?_⟩
  rw [whole, text]
  decide

end Rounds

section Answers

variable {A H R : Type} [Doubles R] {hosts : Hosts A H R} {p : Packet A} {src : A} {d : Datagram}
  {h : H} {more : List (Effect R)} {ofClass : Command → Bool}

private theorem circulates_echo (received : recvfrom p.bytes = some d)
    (bound : hosts.owner p.dst = some h) (own : hosts.owner src = some h) :
    circulates hosts ofClass ⟨src, p.src, d.bytes⟩ = circulates hosts ofClass p := by
  simp only [circulates, recvfrom_bytes received, received, bound, own, Option.isSome_some,
    Bool.true_and, Bool.and_true]

private theorem circulates_of_host (received : recvfrom p.bytes = some d)
    (bound : hosts.owner p.dst = some h) : circulates hosts ofClass p =
      ((hosts.owner p.src).isSome && (dispatch R d).any ofClass) := by
  simp only [circulates, received, bound, Option.isSome_some, Bool.and_true, Option.bind_some]

private theorem countP_answers_of_outside (outside : hosts.owner p.src = none) :
    (hosts.answers p src more).countP (circulates hosts ofClass) = 0 := by
  rw [List.countP_eq_zero]
  intro q inside
  obtain ⟨bytes, -, rfl⟩ := List.mem_map.mp inside
  simp [circulates, outside]

private theorem countP_answers_le (received : recvfrom p.bytes = some d)
    (bound : hosts.owner p.dst = some h)
    (few : (more.filterMap (sent hosts.writeString)).length ≤ (dispatch R d).toList.length) :
    (hosts.answers p src more).countP (circulates hosts ofClass) ≤
      (dispatched ((dispatch R d).toList.map (Event.dispatched p))).countP
        (circulates hosts anyCommand) := by
  cases known : hosts.owner p.src with
  | none =>
    rw [countP_answers_of_outside known]
    exact Nat.zero_le _
  | some k =>
    have whole : (hosts.answers p src more).countP (circulates hosts ofClass) ≤
        (dispatch R d).toList.length := by
      refine le_trans List.countP_le_length ?_
      rwa [Hosts.answers, List.length_map]
    have counted : circulates hosts anyCommand p = _ := circulates_of_host received bound
    cases command : dispatch R d with
    | none =>
      rw [command] at whole
      exact whole
    | some cmd =>
      rw [command] at whole counted
      rw [known] at counted
      refine whole.trans_eq ?_
      simp [dispatched, counted, anyCommand]

private theorem countP_thumbnails_le {w : World} {s : CCommMgr R} {hasComment : Value R → Bool}
    (printer : hosts.writeString = writeString (compact hasComment))
    (received : recvfrom p.bytes = some d) (bound : hosts.owner p.dst = some h)
    (own : hosts.owner src = some h) (present : (round w s d).1.isSome = true)
    (effects : (round w s d).2 = .echo d.bytes :: more) (wanted : ofClass .getThumbnail = true) :
    (dispatched ((dispatch R d).toList.map (Event.dispatched p))).countP
        (circulates hosts isThumbnail) ≤
      (hosts.answers p src more).countP (circulates hosts ofClass) := by
  have counted : circulates hosts isThumbnail p = _ := circulates_of_host received bound
  by_cases both : circulates hosts isThumbnail p = true
  · rw [counted, Bool.and_eq_true] at both
    obtain ⟨known, asked⟩ := both
    obtain ⟨cmd, requested, thumbnail⟩ := Option.any_eq_true _ _ |>.mp asked
    obtain rfl : cmd = .getThumbnail := of_decide_eq_true thumbnail
    rw [round_thumbnail requested present] at effects
    obtain rfl : more = [.reply thumbnailReply] := (List.cons.inj effects).2.symm
    obtain ⟨bytes, answer, again⟩ := thumbnailReply_requests (R := R) hasComment
    have one : hosts.answers p src [.reply thumbnailReply] = [⟨src, p.src, bytes⟩] := by
      simp [Hosts.answers, printer, answer]
    have goes : circulates hosts ofClass ⟨src, p.src, bytes⟩ = true := by
      simp [circulates, own, known, again, wanted]
    rw [one, requested, List.countP_singleton, if_pos goes]
    exact List.countP_le_length
  · have nothing : (dispatched ((dispatch R d).toList.map (Event.dispatched p))).countP
        (circulates hosts isThumbnail) = 0 := by
      cases dispatch R d with
      | none => rfl
      | some cmd => simp [dispatched, both]
    rw [nothing]
    exact Nat.zero_le _

end Answers

section Steps

variable {A H R : Type} [Doubles R] [DecidableEq H] {hosts : Hosts A H R} {net next : Net A H R}
  {fs : List (Event A)} {ofClass : Command → Bool}

private theorem deliver_spec {i : ℕ} {src : A} {w : World}
    (go : deliver hosts net i src w = some (next, fs)) :
    ∃ p h s, net.inFlight[i]? = some p ∧ hosts.owner p.dst = some h ∧
      hosts.owner src = some h ∧ net.managers h = some s ∧
      (∀ k ≠ h, next.managers k = net.managers k) ∧
      ((recvfrom p.bytes = none ∧ next.inFlight = net.inFlight.eraseIdx i ∧ fs = []) ∨
        ∃ d, recvfrom p.bytes = some d ∧ next.managers h = (round w s d).1 ∧
          next.inFlight = net.inFlight.eraseIdx i ++ hosts.answers p src (round w s d).2 ∧
          fs = (dispatch R d).toList.map (.dispatched p)) := by
  obtain ⟨p, found, go⟩ := Option.bind_eq_some_iff.mp go
  obtain ⟨h, bound, go⟩ := Option.bind_eq_some_iff.mp go
  obtain ⟨s, present, go⟩ := Option.bind_eq_some_iff.mp go
  split at go
  · rename_i own
    split at go
    · rename_i empty
      cases go
      exact ⟨p, h, s, found, bound, own, present, fun _ _ => rfl, .inl ⟨empty, rfl, rfl⟩⟩
    · rename_i d received
      cases go
      exact ⟨p, h, s, found, bound, own, present, fun k other => Function.update_of_ne other ..,
        .inr ⟨d, received, Function.update_self .., rfl, rfl⟩⟩
  · cases go

private theorem deliver_eq {i : ℕ} {src : A} {w : World} {p : Packet A} {h : H} {s : CCommMgr R}
    {d : Datagram} (found : net.inFlight[i]? = some p) (bound : hosts.owner p.dst = some h)
    (present : net.managers h = some s) (own : hosts.owner src = some h)
    (received : recvfrom p.bytes = some d) : deliver hosts net i src w = some ({
      managers := Function.update net.managers h (round w s d).1
      inFlight := net.inFlight.eraseIdx i ++ hosts.answers p src (round w s d).2 },
      (dispatch R d).toList.map (.dispatched p)) := by
  simp only [deliver, found, bound, present, own, received, Option.bind_eq_bind, Option.bind_some,
    if_true]

/-- What a step over a network without losses adds to the packets that circulate: those that were
injected, and `more`, which are answers to commands. -/
private theorem step_adds {a : Act A} (go : restrict keeps (step hosts) net a = some (next, fs)) :
    ∃ more : List (Packet A),
      (∀ ofClass, next.inFlight.countP (circulates hosts ofClass) =
        net.inFlight.countP (circulates hosts ofClass) +
          (injected fs).countP (circulates hosts ofClass) +
          more.countP (circulates hosts ofClass)) ∧
      (more.countP (circulates hosts anyCommand) ≤
        (dispatched fs).countP (circulates hosts anyCommand)) ∧
      ∀ hasComment, hosts.writeString = writeString (compact hasComment) →
        (∀ h, (next.managers h).isSome = true) → ∀ ofClass, ofClass .getThumbnail = true →
          (dispatched fs).countP (circulates hosts isThumbnail) ≤
            more.countP (circulates hosts ofClass) := by
  obtain ⟨kept, go⟩ := restrict_eq_some.mp go
  cases a with
  | lose i => cases kept
  | inject p =>
    cases go
    exact ⟨[], fun _ => List.countP_append, Nat.zero_le _, fun _ _ _ _ _ => Nat.zero_le _⟩
  | deliver i src w =>
    obtain ⟨p, h, s, found, bound, own, -, -,
      ⟨empty, rest, rfl⟩ | ⟨d, received, after, rest, rfl⟩⟩ := deliver_spec go
    · refine ⟨[], fun ofClass => ?_, le_rfl, fun _ _ _ _ _ => le_rfl⟩
      have inert : circulates hosts ofClass p = false := by simp [circulates, empty]
      have count := @countP_eraseIdx _ (circulates hosts ofClass) _ _ _ found
      rw [inert] at count
      rw [rest]
      exact count
    · obtain ⟨more, effects, few⟩ := @round_cases R _ hosts.writeString w s d
      have silent : injected ((dispatch R d).toList.map (Event.dispatched p)) = [] := by
        cases dispatch R d <;> rfl
      refine ⟨hosts.answers p src more, fun ofClass => ?_, countP_answers_le received bound few,
        fun hasComment printer present ofClass wanted => ?_⟩
      · rw [rest, effects, silent]
        exact countP_sendAgain found (circulates_echo received bound own) _
      · have alive : (round w s d).1.isSome = true := by
          rw [← after]
          exact present h
        exact countP_thumbnails_le printer received bound own alive effects wanted

private theorem present_before {a : Act A}
    (go : restrict keeps (step hosts) net a = some (next, fs))
    (present : ∀ h, (next.managers h).isSome = true) (h : H) :
    (net.managers h).isSome = true := by
  obtain ⟨kept, go⟩ := restrict_eq_some.mp go
  cases a with
  | lose i => cases kept
  | inject p =>
    cases go
    exact present h
  | deliver i src w =>
    obtain ⟨p, k, s, -, -, -, handler, others, -⟩ := deliver_spec go
    by_cases same : h = k
    · rw [same, handler]
      rfl
    · rw [← others h same]
      exact present h

end Steps

section Runs

variable {A H R : Type} [Doubles R] [DecidableEq H]

/-- What circulates is what was injected from the addresses of hosts, and an answer for each request
for a thumbnail and for some of the other commands that were dispatched. -/
structure Multiplied (hosts : Hosts A H R) (es : List (Event A)) (net : Net A H R) : Prop where
  atLeast : (injected es).countP (circulates hosts anyCommand) +
    (dispatched es).countP (circulates hosts isThumbnail) ≤
      net.inFlight.countP (circulates hosts anyCommand)
  atMost : net.inFlight.countP (circulates hosts anyCommand) ≤
    (injected es).countP (circulates hosts anyCommand) +
      (dispatched es).countP (circulates hosts anyCommand)

/-- On a network that loses nothing, each request for a thumbnail from the address of a host leaves
one more in flight when it is dispatched, as long as no program has ended. -/
theorem requests_multiply (hosts : Hosts A H R) (managers : H → Option (CCommMgr R))
    (hasComment : Value R → Bool) (printer : hosts.writeString = writeString (compact hasComment))
    (acts : List (Act A)) (es : List (Event A)) (net : Net A H R)
    (run : Run (restrict keeps (step hosts)) ⟨managers, []⟩ acts es net)
    (present : ∀ h, (net.managers h).isSome = true) : Multiplied hosts es net := by
  have kept : (∀ h, (net.managers h).isSome = true) → Multiplied hosts es net := by
    apply run.invariant
    · exact fun _ => ⟨le_rfl, le_rfl⟩
    · intro ds m a n gs held go present
      obtain ⟨lower, upper⟩ := held (present_before go present)
      obtain ⟨more, adds, few, thumbnails⟩ := step_adds go
      have enough := thumbnails hasComment printer present anyCommand rfl
      constructor
      · rw [adds anyCommand, injected_append, dispatched_append, List.countP_append,
          List.countP_append]
        omega
      · rw [adds anyCommand, injected_append, dispatched_append, List.countP_append,
          List.countP_append]
        omega
  exact kept present

end Runs

section Schedules

variable {A H R : Type} [Doubles R] [DecidableEq H] {hosts : Hosts A H R}
  {ofClass : Command → Bool} {run : Schedule (restrict keeps (step hosts))}

def DeliversAt (hosts : Hosts A H R) (ofClass : Command → Bool)
    (run : Schedule (restrict keeps (step hosts))) (n : ℕ) : Prop :=
  ∃ i src w p, run.act n = .deliver i src w ∧ (run.state n).inFlight[i]? = some p ∧
    circulates hosts ofClass p = true

/-- Whenever a command of the class circulates, one is delivered then or later. -/
def Delivers (hosts : Hosts A H R) (ofClass : Command → Bool)
    (run : Schedule (restrict keeps (step hosts))) : Prop :=
  ∀ n, 0 < (run.state n).inFlight.countP (circulates hosts ofClass) →
    ∃ m ≥ n, DeliversAt hosts ofClass run m

private theorem dispatched_of_delivered {n : ℕ} (delivered : DeliversAt hosts ofClass run n) :
    0 < (dispatched (run.events n)).countP (circulates hosts ofClass) := by
  obtain ⟨i, src, w, p, act, found, goes⟩ := delivered
  have go := run.moves n
  rw [act] at go
  obtain ⟨-, go⟩ := restrict_eq_some.mp go
  obtain ⟨q, h, s, found', bound, -, -, -, ⟨empty, -, -⟩ | ⟨d, received, -, -, events⟩⟩ :=
    deliver_spec go
  · obtain rfl : p = q := Option.some.inj (found.symm.trans found')
    simp [circulates, empty] at goes
  · obtain rfl : p = q := Option.some.inj (found.symm.trans found')
    have counted := goes
    rw [circulates_of_host received bound, Bool.and_eq_true] at counted
    obtain ⟨cmd, command, -⟩ := Option.any_eq_true _ _ |>.mp counted.2
    rw [events, command]
    simp [dispatched, goes]

private theorem circulating_mono :
    Monotone fun n => (run.state n).inFlight.countP (circulates hosts ofClass) := by
  refine monotone_nat_of_le_succ fun n => ?_
  obtain ⟨more, adds, -, -⟩ := step_adds (run.moves n)
  rw [adds ofClass]
  omega

private theorem delivered_again (delivers : Delivers hosts ofClass run) {n : ℕ}
    (one : 0 < (run.state n).inFlight.countP (circulates hosts ofClass)) (k : ℕ) :
    ∃ m ≥ k, DeliversAt hosts ofClass run m := by
  have still : 0 < (run.state (max k n)).inFlight.countP (circulates hosts ofClass) :=
    lt_of_lt_of_le one (circulating_mono (le_max_right k n))
  obtain ⟨m, later, delivered⟩ := delivers _ still
  exact ⟨m, (le_max_left k n).trans later, delivered⟩

/-- A command from the address of a host is dispatched without end, on a network that loses nothing
and keeps delivering such commands. -/
theorem command_goes_round (delivers : Delivers hosts ofClass run) {n : ℕ}
    (one : 0 < (run.state n).inFlight.countP (circulates hosts ofClass)) (bound : ℕ) :
    ∃ m, bound ≤ (dispatched (run.past m)).countP (circulates hosts ofClass) := by
  have past : ∀ m, (dispatched (run.past (m + 1))).countP (circulates hosts ofClass) =
      (dispatched (run.past m)).countP (circulates hosts ofClass) +
        (dispatched (run.events m)).countP (circulates hosts ofClass) := by
    intro m
    rw [Schedule.past, dispatched_append, List.countP_append]
  refine Schedule.passes (monotone_nat_of_le_succ fun m => ?_) (fun k => ?_) bound
  · rw [past]
    omega
  · obtain ⟨m, later, delivered⟩ := delivered_again delivers one k
    have more := dispatched_of_delivered delivered
    exact ⟨m, later, by rw [past]; omega⟩

/-- The packets that one request for a thumbnail makes pass every number. -/
theorem requests_flood {hasComment : Value R → Bool}
    (printer : hosts.writeString = writeString (compact hasComment))
    (present : ∀ n h, ((run.state n).managers h).isSome = true)
    (delivers : Delivers hosts isThumbnail run) {n : ℕ}
    (one : 0 < (run.state n).inFlight.countP (circulates hosts isThumbnail)) (bound : ℕ) :
    ∃ m, bound ≤ (run.state m).inFlight.countP (circulates hosts isThumbnail) := by
  refine Schedule.passes circulating_mono (fun k => ?_) bound
  obtain ⟨m, later, delivered⟩ := delivered_again delivers one k
  refine ⟨m, later, ?_⟩
  have dispatch := dispatched_of_delivered delivered
  obtain ⟨more, adds, -, thumbnails⟩ := step_adds (run.moves m)
  have enough := thumbnails hasComment printer (present (m + 1)) isThumbnail rfl
  rw [adds isThumbnail]
  omega

end Schedules

section Flood

def printingHost : Hosts ℕ Unit Empty where
  owner := fun a => if a = 0 then some () else none
  writeString := writeString (compact fun _ => false)

def request : Packet ℕ := ⟨0, 0, "\x7b\x22cmd\x22:\x22get_thumbnail\x22\x7d".toList⟩

def requests (n : ℕ) : Net ℕ Unit Empty := ⟨managers, List.replicate n request⟩

private theorem round_request : ∃ d, recvfrom request.bytes = some d ∧
    dispatch Empty d = some .getThumbnail ∧ round emptyWorld (opened (R := Empty) []) d =
      (some (opened []), [.echo request.bytes, .reply thumbnailReply]) := by
  have asked : ((recvfrom request.bytes).any fun d =>
      decide (d.bytes = request.bytes ∧ dispatch Empty d = some .getThumbnail)) = true := by
    decide +kernel
  obtain ⟨d, received, found⟩ := Option.any_eq_true _ _ |>.mp asked
  obtain ⟨same, dispatched⟩ := of_decide_eq_true found
  obtain ⟨root, done⟩ := rx_of_dispatched dispatched emptyWorld (opened [])
  refine ⟨d, received, dispatched, ?_⟩
  rw [Echo.round, done, same]
  rfl

private theorem answers_request : printingHost.answers request 0
    [.echo request.bytes, .reply thumbnailReply] = [request, request] := by
  have text : sent printingHost.writeString (.reply thumbnailReply) = some request.bytes := by
    have printed : ∀ r ∈ reals (thumbnailReply : Value Empty), PrintsBack r := fun r => r.elim
    exact @Reply.sent_reply Empty _ (fun _ => false) _ printed
  simp only [Hosts.answers, List.filterMap_cons, sent]
  rfl

private theorem step_requests (n : ℕ) :
    restrict keeps (step printingHost) (requests (n + 1)) (.deliver 0 0 emptyWorld) =
      some (requests (n + 2), [.dispatched request .getThumbnail]) := by
  obtain ⟨d, received, dispatched, done⟩ := round_request
  have same : Function.update managers () (some (opened [])) = managers :=
    Function.update_eq_self _ _
  have rest : List.replicate n request ++ [request, request] = List.replicate (n + 2) request := by
    rw [List.replicate_add]
    rfl
  have go := @deliver_eq ℕ Unit Empty _ _ printingHost (requests (n + 1)) 0 0 emptyWorld request ()
    (opened []) d rfl rfl rfl rfl received
  have left : (requests (n + 1)).inFlight.eraseIdx 0 = List.replicate n request := rfl
  rw [done, dispatched, answers_request, left, rest] at go
  refine restrict_eq_some.mpr ⟨rfl, go.trans ?_⟩
  show some ((⟨Function.update managers () (some (opened [])), _⟩ : Net ℕ Unit Empty), _) = _
  rw [same]
  rfl

def flood : Schedule (restrict keeps (step printingHost)) where
  state := fun n => requests (n + 1)
  act := fun _ => .deliver 0 0 emptyWorld
  events := fun _ => [.dispatched request .getThumbnail]
  moves := fun n => step_requests n

private theorem circulates_request : circulates printingHost isThumbnail request = true := by
  decide +kernel

private theorem flood_delivers : Delivers printingHost isThumbnail flood :=
  fun n _ => ⟨n, le_rfl, 0, 0, emptyWorld, request, rfl, rfl, circulates_request⟩

private theorem flood_starts :
    0 < (flood.state 0).inFlight.countP (circulates printingHost isThumbnail) := by
  show 0 < [request].countP (circulates printingHost isThumbnail)
  rw [List.countP_singleton, if_pos circulates_request]
  decide

theorem command_goes_round_flood : ∃ m,
    1000 ≤ (dispatched (flood.past m)).countP (circulates printingHost isThumbnail) :=
  command_goes_round flood_delivers flood_starts 1000

theorem requests_flood_oneHost : ∃ m,
    1000 ≤ (flood.state m).inFlight.countP (circulates printingHost isThumbnail) :=
  requests_flood rfl (fun _ _ => rfl) flood_delivers flood_starts 1000

theorem requests_multiply_twice : ∃ es,
    (dispatched es).countP (circulates printingHost isThumbnail) = 2 ∧
      Multiplied printingHost es (requests 3) := by
  have injects : restrict keeps (step printingHost) ⟨managers, []⟩ (.inject request) =
      some (requests 1, [.injected request]) := rfl
  have run := ((Run.nil.snoc injects).snoc (step_requests 0)).snoc (step_requests 1)
  refine ⟨_, ?_, requests_multiply printingHost managers (fun _ => false) rfl _ _ _ run
    fun _ => rfl⟩
  simp [dispatched, circulates_request]

end Flood

end Tsender.Comm.Circulation
