/- Tsender/Channel/Fed
   source: sender.cpp (Run video branch), queue.cpp (PutVideo, GetVideo, RetVideo)
   digest: The sender of a video channel, fed by any calls of PutVideo, under a clock that does
   not go back, with an account of the epochs that its packets belong to. -/

import Tsender.Channel.Steps

set_option autoImplicit false
set_option relaxedAutoImplicit false

namespace Tsender.Channel.Fed

open Lib.Transition Queue

/-- The sender and its queue, and what has happened between them.  The demux thread is not
there: any packet with data can be put, and the context can yield any time base. -/
structure Feed where
  c : State
  /-- The last reading of the clock. -/
  now : ℤ
  /-- How often `PutVideo` has changed `m_start_pts`. -/
  epoch : ℕ
  /-- `GetVideo` has been called in this epoch. -/
  polled : Bool
  /-- The packets that `GetVideo` has returned in this epoch. -/
  count : ℕ
  /-- The epoch of the packet that was returned last, and how many of it came before, until it
  is sent or skipped. -/
  carried : Option (ℕ × ℕ)
  /-- The `m_seek_pts` under which `m_out_pts` was last computed. -/
  under : UInt64

inductive FeedAct where
  | put (pkt : AVPacket) (startPts : UInt64)
  | setAVFormatContext
  | clock (now₁ now₂ : ℤ)
  /-- `GetVideo`, called at a time. -/
  | get (time : ℤ) (garbage : AVRational)
  | send
  | ret
  deriving DecidableEq

inductive FeedEvent where
  /-- `GetVideo` was called, so long after `m_begin`. -/
  | called (outPts seekPts : UInt64) (elapsed : ℤ)
  /-- A packet of an epoch was skipped or sent, after so many others of it. -/
  | passed (epoch index : ℕ) (skipped : Bool)
  deriving DecidableEq

def skips : Event → Bool
  | .skipped _ => true
  | _ => false

/-- `m_out_pts` is computed from the packet in hand. -/
def recomputes (c : State) : Bool :=
  match c.s.pc with
  | .send pkt => 0 < UInt64.ofInt pkt.pts - c.s.oldPts
  | _ => false

/-- `GetVideo` hands over a packet. -/
def finds (q : CQueue) : Bool := q.getVideo.2.2.isSome

/-- Every queue call is one atomic step. -/
def feedStep (cfg : Config) : Machine Feed FeedAct FeedEvent
  | s, .put pkt startPts =>
      let c := { s.c with q := (s.c.q.putVideo pkt startPts).1 }
      if pkt.size = 0 then none
      else if s.c.q.startPts ≠ startPts then
        some ({ s with c := c, epoch := s.epoch + 1, polled := false, count := 0 }, [])
      else some ({ s with c := c }, [])
  | s, .setAVFormatContext =>
      some ({ s with c := { s.c with s := { s.c.s with fmtCtx := .ctx 0 } } }, [])
  | s, .clock now₁ now₂ =>
      match runHead cfg s.c now₁ now₂ with
      | none => none
      | some (c, _) =>
          if s.now ≤ now₁ ∧ now₁ ≤ now₂ then some ({ s with c := c, now := now₂ }, []) else none
  | s, .get time garbage =>
      match runGet cfg s.c garbage with
      | none => none
      | some (c, _) =>
          if time < s.now then none
          else if s.c.s.fmtCtx = .null then some ({ s with c := c, now := time }, [])
          else
            some ({ s with
              c := c
              now := time
              polled := true
              count := s.count + (finds s.c.q).toNat
              carried := if finds s.c.q then some (s.epoch, s.count) else none },
              [.called s.c.s.outPts s.c.s.seekPts (time - s.c.s.beginAt)])
  | s, .send =>
      match s.carried, runSend s.c with
      | some (epoch, index), some (c, es) =>
          some ({ s with
            c := c
            carried := none
            under := if recomputes s.c then s.c.s.seekPts else s.under },
            [.passed epoch index (es.any skips)])
      | _, _ => none
  | s, .ret =>
      match runRet s.c with
      | none => none
      | some (c, _) => some ({ s with c := c }, [])

def Feed.start (cfg : Config) : Feed := ⟨.start cfg, 0, 0, false, 0, none, 0⟩

/-- A channel of no files, for a sender that is fed by hand. -/
def handFed (gop : UInt32) : Config where
  files := []
  filter := some
  nChannel := 0
  num := 1
  den := 1
  gop := gop
  stray := false

/-- A packet of one byte, with its pts in microseconds under `microseconds`. -/
def packetAt (n : ℕ) (pts : ℤ) : AVPacket := ⟨some n, [0], pts⟩

def microseconds : AVRational := ⟨1, 1000000⟩

section Steps

variable {cfg : Config} {s t : Feed} {es : List FeedEvent}

def headed (cfg : Config) (s : CSender) (now₁ now₂ : ℤ) : CSender :=
  { s with
    beginAt := if s.seekPts ≠ s.seekOldPts then now₂ else s.beginAt
    skipCnt := if s.seekPts ≠ s.seekOldPts then Int.bmod cfg.gop.toNat (2 ^ 32) else s.skipCnt
    nowPts := s.seekPts + UInt64.ofInt (now₁ - s.beginAt)
    seekOldPts := s.seekPts
    pc := if s.outPts ≤ s.seekPts + UInt64.ofInt (now₁ - s.beginAt) then .get else .head }

theorem clock_fed {now₁ now₂ : ℤ} (step : feedStep cfg s (.clock now₁ now₂) = some (t, es)) :
    s.c.s.pc = .head ∧ s.now ≤ now₁ ∧ now₁ ≤ now₂ ∧ es = [] ∧
      t = { s with c := { s.c with s := headed cfg s.c.s now₁ now₂ }, now := now₂ } := by
  simp only [feedStep, runHead] at step
  split at step
  · cases step
  · rename_i c gs headed_eq
    split at headed_eq
    · rename_i pc
      cases headed_eq
      split at step
      · rename_i forward
        cases step
        exact ⟨pc, forward.1, forward.2, rfl, rfl⟩
      · cases step
    · cases headed_eq

theorem put_fed {pkt : AVPacket} {startPts : UInt64}
    (step : feedStep cfg s (.put pkt startPts) = some (t, es)) :
    0 < pkt.size ∧ es = [] ∧ t.c = { s.c with q := (s.c.q.putVideo pkt startPts).1 } ∧
      t.now = s.now ∧ t.carried = s.carried ∧ t.under = s.under ∧
      (s.c.q.startPts ≠ startPts ∧ t.epoch = s.epoch + 1 ∧ t.polled = false ∧ t.count = 0 ∨
        s.c.q.startPts = startPts ∧ t.epoch = s.epoch ∧ t.polled = s.polled ∧
          t.count = s.count) := by
  simp only [feedStep] at step
  split at step
  · cases step
  · rename_i data
    refine ⟨Nat.pos_of_ne_zero data, ?_⟩
    split at step
    · rename_i changed
      cases step
      exact ⟨rfl, rfl, rfl, rfl, rfl, .inl ⟨changed, rfl, rfl, rfl⟩⟩
    · rename_i same
      cases step
      exact ⟨rfl, rfl, rfl, rfl, rfl, .inr ⟨not_not.mp same, rfl, rfl, rfl⟩⟩

theorem get_fed {time : ℤ} {garbage : AVRational}
    (step : feedStep cfg s (.get time garbage) = some (t, es)) :
    s.c.s.pc = .get ∧ s.now ≤ time ∧
      (s.c.s.fmtCtx = .null ∧ es = [] ∧
          t = { s with c := { s.c with s := { s.c.s with pc := .head } }, now := time } ∨
        s.c.s.fmtCtx ≠ .null ∧
          es = [.called s.c.s.outPts s.c.s.seekPts (time - s.c.s.beginAt)] ∧
          (finds s.c.q = false ∧
              t = { s with
                c := { s.c with
                  q := s.c.q.getVideo.1
                  s := { s.c.s with seekPts := s.c.q.startPts, pc := .head } }
                now := time
                polled := true
                carried := none } ∨
            finds s.c.q = true ∧ ∃ pkt timeBase, s.c.q.getVideo.2.2 = some pkt ∧
              t = { s with
                c := { s.c with
                  q := s.c.q.getVideo.1
                  s := { s.c.s with
                    seekPts := s.c.q.startPts, timeBase := timeBase, pStream := true
                    pc := .send pkt } }
                now := time
                polled := true
                count := s.count + 1
                carried := some (s.epoch, s.count) })) := by
  simp only [feedStep] at step
  cases run : runGet cfg s.c garbage with
  | none => simp [run] at step
  | some next =>
    obtain ⟨c, gs⟩ := next
    rw [run] at step
    dsimp only at step
    split at step
    · cases step
    · rename_i forward
      obtain ⟨pc, cases_of⟩ := get_cases run
      refine ⟨pc, not_lt.mp forward, ?_⟩
      split at step
      · rename_i none_yet
        cases step
        simp only [runGet, pc, if_pos none_yet] at run
        cases run
        exact .inl ⟨none_yet, rfl, rfl⟩
      · rename_i context
        cases step
        refine .inr ⟨context, rfl, ?_⟩
        rcases cases_of with ⟨silent, -⟩ | ⟨-, none_found, rfl⟩ | ⟨pkt, timeBase, -, found, rfl⟩
        · subst silent
          simp only [runGet, pc, context, if_false] at run
          split at run <;> cases run
        · have nothing : finds s.c.q = false := by simp [finds, none_found]
          exact .inl ⟨nothing, by simp [nothing]⟩
        · have something : finds s.c.q = true := by simp [finds, found]
          exact .inr ⟨something, pkt, timeBase, found, by simp [something]⟩

theorem send_fed (step : feedStep cfg s .send = some (t, es)) :
    ∃ pkt epoch index, s.c.s.pc = .send pkt ∧ s.carried = some (epoch, index) ∧
      es = [.passed epoch index (0 < s.c.s.skipCnt)] ∧
      t = { s with
        c := { s.c with s := { s.c.s with
          skipCnt := if 0 < s.c.s.skipCnt then s.c.s.skipCnt - 1 else s.c.s.skipCnt
          outPts := if recomputes s.c then outPtsOf s.c.s.timeBase pkt.pts else s.c.s.outPts
          oldPts := UInt64.ofInt pkt.pts
          pc := .ret pkt } }
        carried := none
        under := if recomputes s.c then s.c.s.seekPts else s.under } := by
  simp only [feedStep] at step
  split at step
  · rename_i epoch index c gs carried sent
    cases step
    simp only [runSend] at sent
    split at sent
    · rename_i pkt pc
      split at sent
      · cases sent
      · cases sent
        refine ⟨pkt, epoch, index, pc, carried, ?_, ?_⟩
        · by_cases skip : 0 < s.c.s.skipCnt <;> simp [skip, skips]
        · simp [recomputes, pc]
    · cases sent
  · cases step

theorem ret_fed (step : feedStep cfg s .ret = some (t, es)) :
    ∃ pkt, s.c.s.pc = .ret pkt ∧ es = [] ∧
      t = { s with c := { s.c with q := s.c.q.retVideo, s := { s.c.s with pc := .head } } } := by
  simp only [feedStep] at step
  split at step
  · cases step
  · rename_i c gs returned
    obtain ⟨pkt, pc, -, rfl⟩ := ret_cases returned
    cases step
    exact ⟨pkt, pc, rfl, rfl⟩

end Steps

end Tsender.Channel.Fed
