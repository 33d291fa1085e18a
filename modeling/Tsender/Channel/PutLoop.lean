/- Tsender/Channel/PutLoop
   source: demuxer.cpp (the loop around PutVideo in Demux), queue.cpp (PutVideo)
   digest: The loop that enqueues a packet ends for the packets with a timestamp that is not
   negative, and spins for the others. -/

import Mathlib.Order.Monotone.Basic
import Tsender.Channel.Steps
import Tsender.Lib.Schedule

set_option autoImplicit false
set_option relaxedAutoImplicit false

namespace Tsender.Channel.PutLoop

open Lib.Transition Queue

/-- `PutVideo` finds no slot. -/
def Full (q : CQueue) : Prop := (maxNumQueue : ℤ) ≤ q.nPacket

/-- `Demux` is in the loop around `PutVideo` with this packet. -/
def Offers (pkt : AVPacket) (c : State) : Prop := c.d.pc = .put ∧ c.d.pkt = pkt

/-- With a free slot, one turn of the loop stores the packet or discards it, and leaves. -/
def LeavesOnRoom (cfg : Config) (pkt : AVPacket) : Prop :=
  ∀ c, Offers pkt c → c.d.bExit = false → ¬ Full c.q →
    ∃ c' es, step cfg c .demux = some (c', es) ∧ c'.d.pc = .testMove ∧
      (c'.q = (c.q.restart c.d.seekPts).store pkt ∨ c'.q = c.q)

/-- With a demux thread that goes on and a consumer that returns packets whenever the queue is
full, the loop ends. -/
def Ends (cfg : Config) (pkt : AVPacket) : Prop :=
  ∀ run : Schedule (step cfg), Offers pkt (run.state 0) → run.Recurs .demux →
    run.Answers (fun c => Full c.q) .ret → ∃ n, (run.state n).d.pc ≠ .put

private theorem room_new : ¬ Full .new := by
  unfold Full
  decide

section Turn

variable {cfg : Config} {c c' : State} {es : List Event} {pkt : AVPacket}

private theorem putVideo_of_room (data : 0 < pkt.size) (startPts : UInt64) (room : ¬ Full c.q) :
    c.q.putVideo pkt startPts = ((c.q.restart startPts).store pkt, (pkt.size : ℤ)) := by
  have below : ¬ Full (c.q.restart startPts) := by
    by_cases same : c.q.startPts = startPts
    · rwa [restart_same same]
    · simp [Full, (holds_restart_changed same).count]
  simp only [Full] at below
  simp only [CQueue.putVideo, if_neg below, if_pos data]

private theorem full_of_stay (offers : Offers pkt c) (data : 0 < pkt.size) (timed : -1 < pkt.pts)
    (turn : step cfg c .demux = some (c', es)) (stay : c'.d.pc = .put) :
    Full c.q ∧ c'.d.pkt = pkt ∧ c'.q = c.q := by
  obtain ⟨pc, rfl⟩ := offers
  have put_turn : put c = some (c', es) := by
    simpa only [step, demux, pc] using turn
  simp only [put, if_pos timed] at put_turn
  by_cases exit : c.d.bExit = true
  · rw [if_pos exit] at put_turn
    cases put_turn
    cases stay
  · rw [if_neg exit] at put_turn
    by_cases same : c.q.startPts = c.d.seekPts
    · rcases putVideo_same same data with refused | stored
      · have full : Full c.q := by
          by_contra room
          rw [putVideo_of_room data _ room, Prod.mk.injEq] at refused
          omega
        simp only [refused, lt_irrefl, if_false] at put_turn
        cases put_turn
        exact ⟨full, rfl, rfl⟩
      · simp only [stored, Int.natCast_pos, if_pos data] at put_turn
        cases put_turn
        cases stay
    · simp only [(putVideo_changed same data).1, Int.natCast_pos, if_pos data] at put_turn
      cases put_turn
      cases stay

theorem nPacket_getVideo (q : CQueue) : q.getVideo.1.nPacket = q.nPacket := by
  unfold CQueue.getVideo
  split
  · rfl
  · split <;> rfl

private theorem nPacket_other {a : Act} (other : a ≠ .demux) (next : step cfg c a = some (c', es)) :
    c'.q.nPacket ≤ c.q.nPacket ∧ (a = .ret → c'.q.nPacket < c.q.nPacket) := by
  cases a with
  | demux => exact absurd rfl other
  | clock now₁ now₂ =>
    obtain ⟨-, -, s, rfl, -⟩ := clock_cases next
    exact ⟨le_rfl, nofun⟩
  | get garbage =>
    obtain ⟨-, ⟨-, rfl⟩ | ⟨-, -, rfl⟩ | ⟨pkt, timeBase, -, -, rfl⟩⟩ := get_cases next
    · exact ⟨le_rfl, nofun⟩
    · exact ⟨(nPacket_getVideo c.q).le, nofun⟩
    · exact ⟨(nPacket_getVideo c.q).le, nofun⟩
  | send =>
    obtain ⟨pkt, s, -, rfl, -⟩ := send_cases next
    exact ⟨le_rfl, nofun⟩
  | ret =>
    obtain ⟨pkt, -, -, rfl⟩ := ret_cases next
    have less : c.q.nPacket - 1 < c.q.nPacket := Int.sub_one_lt_of_le le_rfl
    exact ⟨less.le, fun _ => less⟩
  | _ =>
    obtain ⟨queue, -⟩ := command_kept rfl next
    exact ⟨by rw [queue], nofun⟩

private theorem waiting_step {a : Act} (offers : Offers pkt c) (data : 0 < pkt.size)
    (timed : -1 < pkt.pts) (next : step cfg c a = some (c', es)) (stay : c'.d.pc = .put) :
    Offers pkt c' ∧ c'.q.nPacket ≤ c.q.nPacket ∧ (a = .demux → Full c.q) ∧
      (a = .ret → c'.q.nPacket < c.q.nPacket) := by
  by_cases demux : a = .demux
  · subst demux
    obtain ⟨full, same, queue⟩ := full_of_stay offers data timed next stay
    exact ⟨⟨stay, same⟩, by rw [queue], fun _ => full, nofun⟩
  · obtain ⟨fewer, returned⟩ := nPacket_other demux next
    have same : c'.d.pkt = c.d.pkt := by rw [other_locals demux next]
    exact ⟨⟨stay, same.trans offers.2⟩, fewer, fun h => absurd h demux, returned⟩

end Turn

section Loop

variable {cfg : Config} {pkt : AVPacket}

private theorem leaves_on_room (data : 0 < pkt.size) (timed : -1 < pkt.pts) :
    LeavesOnRoom cfg pkt := by
  rintro c ⟨pc, rfl⟩ running room
  refine ⟨{ c with
    d := { c.d with pc := .testMove }
    q := (c.q.restart c.d.seekPts).store c.d.pkt }, [.accepted c.d.pkt], ?_, rfl, .inl rfl⟩
  simp only [step, demux, pc, put, running, Bool.false_eq_true, if_false, if_pos timed,
    putVideo_of_room data c.d.seekPts room, Int.natCast_pos, if_pos data]

private theorem ends_of_timed (data : 0 < pkt.size) (timed : -1 < pkt.pts) : Ends cfg pkt := by
  intro run start recurs answers
  refine @Schedule.eventually _ _ _ _ run (fun c => c.d.pc ≠ .put)
    (fun c => (c.q.nPacket - maxNumQueue + 1).toNat) fun never n => ?_
  have stay : ∀ n, (run.state n).d.pc = .put := fun n => not_not.mp (never n)
  have offers : ∀ n, Offers pkt (run.state n) := by
    apply Schedule.always start
    intro n offers
    exact (waiting_step offers data timed (run.moves n) (stay (n + 1))).1
  have falling : Antitone fun n => (run.state n).q.nPacket := by
    apply antitone_nat_of_succ_le
    intro n
    exact (waiting_step (offers n) data timed (run.moves n) (stay (n + 1))).2.1
  -- A later turn of the loop stays in it, so the queue is full then, and therefore now.
  have full : ∀ n, Full (run.state n).q := by
    intro n
    obtain ⟨m, later, turn⟩ := recurs n
    have then_full := (waiting_step (offers m) data timed (run.moves m) (stay (m + 1))).2.2.1 turn
    exact le_trans then_full (falling later)
  obtain ⟨m, later, returned⟩ := answers n (full n)
  have less := (waiting_step (offers m) data timed (run.moves m) (stay (m + 1))).2.2.2 returned
  have before : (run.state m).q.nPacket ≤ (run.state n).q.nPacket := falling later
  have after : Full (run.state (m + 1)).q := full (m + 1)
  simp only [Full] at after
  exact ⟨m + 1, by omega⟩

private theorem turn_unstamped {c : State} (offers : Offers pkt c) (untimed : ¬ -1 < pkt.pts)
    (running : c.d.bExit = false) : step cfg c .demux = some (c, []) := by
  obtain ⟨pc, rfl⟩ := offers
  simp only [step, demux, pc, put, running, Bool.false_eq_true, if_false, if_neg untimed]

/-- From there no sequence of steps and commands but an exit gets `Demux` out of the loop. -/
private theorem wedged {c t : State} {as : List Act} {es : List Event} (offers : Offers pkt c)
    (untimed : ¬ -1 < pkt.pts) (run : Run (step cfg) c as es t) :
    t.d.bExit = true ∨ Offers pkt t := by
  have kept : (fun _ t => t.d.bExit = true ∨ Offers pkt t) es t := by
    apply run.invariant (.inr offers)
    intro ds m a n gs held next
    by_cases demux : a = .demux
    · subst demux
      cases running : m.d.bExit with
      | true => exact .inl (bExit_kept next running)
      | false =>
        have waits := held.resolve_left (by simp [running])
        rw [turn_unstamped waits untimed running] at next
        cases next
        exact .inr waits
    · rcases held with exit | waits
      · exact .inl (bExit_kept next exit)
      · have same : n.d.pc = m.d.pc ∧ n.d.pkt = m.d.pkt := by
          rw [other_locals demux next]
          exact ⟨rfl, rfl⟩
        exact .inr ⟨same.1.trans waits.1, same.2.trans waits.2⟩
  exact kept

/-- The loop that enqueues a packet cannot wedge exactly when its timestamp is not negative. -/
theorem cannot_wedge_iff (cfg : Config) (pkt : AVPacket) (data : 0 < pkt.size) :
    LeavesOnRoom cfg pkt ∧ Ends cfg pkt ↔ -1 < pkt.pts := by
  constructor
  · rintro ⟨leaves, -⟩
    by_contra untimed
    let c : State := { State.start cfg with
      d := { (State.start cfg).d with pc := .put, pkt := pkt } }
    obtain ⟨c', es, turn, left, -⟩ := leaves c ⟨rfl, rfl⟩ rfl room_new
    rw [turn_unstamped ⟨rfl, rfl⟩ untimed rfl] at turn
    cases turn
    cases left
  · exact fun timed => ⟨leaves_on_room data timed, ends_of_timed data timed⟩

def unstamped : Config where
  files := [{
    frame := 1
    opens := true
    hasVideo := true
    initsFilter := true
    startTime := 0
    timeBase := ⟨1, 90000⟩
    packets := [⟨[0], avNoptsValue⟩]
    seekTm := fun _ => 0
    seekFile := fun _ => none }]
  filter := some
  nChannel := 0
  num := 1
  den := 30
  gop := 30
  stray := false

theorem cannot_wedge_iff_zero :
    LeavesOnRoom unstamped ⟨some 0, [0], 0⟩ ∧ Ends unstamped ⟨some 0, [0], 0⟩ ↔ (-1 : ℤ) < 0 :=
  cannot_wedge_iff unstamped ⟨some 0, [0], 0⟩ (by decide)

/-- Its first packet keeps `Demux` in the loop at an empty queue, until an exit. -/
theorem unstamped_wedges :
    ∃ c es, Run (step unstamped) (State.start unstamped) (List.replicate 5 .demux) es c ∧
      Offers ⟨some 0, [0], avNoptsValue⟩ c ∧ c.d.bExit = false ∧ ¬ Full c.q ∧
      step unstamped c .demux = some (c, []) ∧
      ∀ as fs t, Run (step unstamped) c as fs t →
        t.d.bExit = true ∨ Offers ⟨some 0, [0], avNoptsValue⟩ t :=
  ⟨_, _, .of_exec rfl, ⟨rfl, rfl⟩, rfl, room_new, rfl,
    fun _ _ _ run => wedged ⟨rfl, rfl⟩ (by decide) run⟩

end Loop

end Tsender.Channel.PutLoop
