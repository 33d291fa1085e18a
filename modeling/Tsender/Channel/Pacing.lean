/- Tsender/Channel/Pacing
   source: sender.cpp (Run video branch: m_begin, m_now_pts, m_out_pts, m_seek_pts)
   digest: The media clock of the sender: packets come no earlier than their time as long as a
   seek finds m_out_pts in the past, and no time waited for is of a timeline left behind. -/

import Tsender.Channel.Fed

set_option autoImplicit false
set_option relaxedAutoImplicit false

namespace Tsender.Channel.Pacing

open Lib.Transition Queue Fed

section Early

/-- Whenever `GetVideo` is called, the media clock, `m_seek_pts` plus the time since `m_begin`,
has reached `m_out_pts`. -/
def NotEarly (es : List FeedEvent) (_ : Feed) : Prop :=
  ∀ outPts seekPts elapsed, .called outPts seekPts elapsed ∈ es →
    (outPts.toNat : ℤ) ≤ seekPts.toNat + elapsed

/-- A head of the loop that finds a new `m_seek_pts` and lets `GetVideo` be called, with the time
elapsed since the old `m_begin`, has nothing to wait for: `m_out_pts` is not behind it. -/
def SeekFindsDue (_ : List FeedEvent) (s : Feed) : FeedAct → Prop
  | .clock now₁ _ => s.c.s.seekPts ≠ s.c.s.seekOldPts →
      s.c.s.outPts ≤ s.c.s.seekPts + UInt64.ofInt (now₁ - s.c.s.beginAt) →
      s.c.s.outPts ≤ s.c.s.seekPts
  | .put _ _ | .setAVFormatContext | .get _ _ | .send | .ret => True

instance (es : List FeedEvent) (s : Feed) (a : FeedAct) : Decidable (SeekFindsDue es s a) := by
  cases a <;> unfold SeekFindsDue <;> infer_instance

/-- The clock is past `m_begin`, and between the head and `GetVideo` the time has come. -/
structure Timed (es : List FeedEvent) (s : Feed) : Prop where
  calls : NotEarly es s
  begun : s.c.s.beginAt ≤ s.now
  due : s.c.s.pc = .get →
    (s.c.s.outPts.toNat : ℤ) ≤ s.c.s.seekPts.toNat + (s.now - s.c.s.beginAt)

private theorem timed_start (cfg : Config) : Timed [] (.start cfg) := ⟨nofun, le_rfl, nofun⟩

private theorem toNat_ofInt_le {n : ℤ} (forward : 0 ≤ n) : ((UInt64.ofInt n).toNat : ℤ) ≤ n := by
  have wrapped : (n % 2 ^ 64).toNat ≤ n.toNat := by omega
  have kept : (UInt64.ofInt n).toNat ≤ (n % 2 ^ 64).toNat := Nat.mod_le _ _
  omega

private theorem toNat_add_ofInt_le (a : UInt64) {n : ℤ} (forward : 0 ≤ n) :
    ((a + UInt64.ofInt n).toNat : ℤ) ≤ a.toNat + n := by
  have elapsed := toNat_ofInt_le forward
  have sum : (a + UInt64.ofInt n).toNat ≤ a.toNat + (UInt64.ofInt n).toNat := by
    rw [UInt64.toNat_add]
    exact Nat.mod_le _ _
  omega

variable {cfg : Config} {es fs : List FeedEvent} {s t : Feed}

private theorem timed_clock {now₁ now₂ : ℤ} (h : Timed es s)
    (finds : SeekFindsDue es s (.clock now₁ now₂))
    (step : feedStep cfg s (.clock now₁ now₂) = some (t, fs)) : Timed (es ++ fs) t := by
  obtain ⟨-, first, second, rfl, rfl⟩ := clock_fed step
  have begun := h.begun
  refine ⟨by rw [List.append_nil]; exact h.calls, ?_, fun pc => ?_⟩
  · dsimp only [headed]
    split <;> omega
  · have reached : s.c.s.outPts ≤ s.c.s.seekPts + UInt64.ofInt (now₁ - s.c.s.beginAt) := by
      by_contra early
      simp [headed, early] at pc
    dsimp only [headed]
    split
    · -- The timeline begins anew with this head.
      rename_i seek
      have past : s.c.s.outPts.toNat ≤ s.c.s.seekPts.toNat := finds seek reached
      omega
    · have bound := toNat_add_ofInt_le s.c.s.seekPts (sub_nonneg.mpr (begun.trans first))
      have reached : s.c.s.outPts.toNat ≤
          (s.c.s.seekPts + UInt64.ofInt (now₁ - s.c.s.beginAt)).toNat := reached
      omega

private theorem timed_step {a : FeedAct} (h : Timed es s) (finds : SeekFindsDue es s a)
    (step : feedStep cfg s a = some (t, fs)) : Timed (es ++ fs) t := by
  have calls : NotEarly (es ++ []) s := by
    rw [List.append_nil]
    exact h.calls
  cases a with
  | put pkt startPts =>
    obtain ⟨-, rfl, c, now, -⟩ := put_fed step
    refine ⟨calls, by rw [c, now]; exact h.begun, ?_⟩
    rw [c, now]
    exact h.due
  | setAVFormatContext =>
    cases step
    exact ⟨calls, h.begun, h.due⟩
  | clock now₁ now₂ => exact timed_clock h finds step
  | get time garbage =>
    obtain ⟨pc, later, ⟨-, rfl, rfl⟩ | ⟨-, rfl, found⟩⟩ := get_fed step
    · exact ⟨calls, h.begun.trans later, nofun⟩
    · have called : NotEarly (es ++ [.called s.c.s.outPts s.c.s.seekPts
          (time - s.c.s.beginAt)]) s := by
        intro outPts seekPts elapsed here
        rcases List.mem_append.mp here with old | now
        · exact h.calls outPts seekPts elapsed old
        · cases List.mem_singleton.mp now
          have due := h.due pc
          omega
      rcases found with ⟨-, rfl⟩ | ⟨-, pkt, timeBase, -, rfl⟩
      · exact ⟨called, h.begun.trans later, nofun⟩
      · exact ⟨called, h.begun.trans later, nofun⟩
  | send =>
    obtain ⟨pkt, epoch, index, -, -, rfl, rfl⟩ := send_fed step
    refine ⟨?_, h.begun, nofun⟩
    intro outPts seekPts elapsed here
    exact h.calls outPts seekPts elapsed (by simpa using here)
  | ret =>
    obtain ⟨pkt, -, rfl, rfl⟩ := ret_fed step
    exact ⟨calls, h.begun, nofun⟩

/-- No packet is taken before its time, in every run in which each head that finds a seek and
goes on to `GetVideo` has nothing to wait for. -/
theorem no_packet_early (cfg : Config) (acts : List FeedAct)
    (meets : Meets (feedStep cfg) SeekFindsDue (.start cfg) acts) :
    Throughout (feedStep cfg) NotEarly (.start cfg) acts := by
  refine Throughout.of_meets (fun bs ds m run meets => ?_) meets
  have timed : Timed ds m :=
    run.guarded_invariant meets (timed_start cfg)
      fun _ _ _ _ _ h finds step => timed_step h finds step
  exact timed.calls

/-- A first packet of 5 s is sent; ten seconds later a seek to 2 s brings a packet of 2 s. -/
def seekBack : List FeedAct :=
  [.setAVFormatContext, .put (packetAt 0 5000000) 0, .clock 0 0, .get 0 microseconds, .send, .ret,
    .clock 5000000 5000000, .get 5000000 microseconds, .put (packetAt 1 2000000) 2000000,
    .clock 10000000 10000000, .get 10000000 microseconds, .send, .ret, .clock 10000001 10000001,
    .get 10000001 microseconds]

theorem no_packet_early_after_seek :
    Throughout (feedStep (handFed 1)) NotEarly (.start (handFed 1)) seekBack :=
  no_packet_early (handFed 1) seekBack
    (Meets.of_check (fun _ _ _ => of_decide_eq_true) (by decide +kernel))

/-- Ten seconds after `m_begin` a seek to 100 s brings a packet of 101 s; the next head adds the
ten seconds to the new `m_seek_pts`, and `GetVideo` is called a second too early. -/
theorem packet_early_after_seek :
    ¬ ∀ (cfg : Config) (acts : List FeedAct) (es : List FeedEvent) (s : Feed),
      Run (feedStep cfg) (.start cfg) acts es s → NotEarly es s := by
  intro claim
  have found : (exec (feedStep (handFed 1)) (.start (handFed 1))
      [.setAVFormatContext, .put (packetAt 0 101000000) 100000000, .clock 10000000 10000000,
        .get 10000000 microseconds, .send, .ret, .clock 10000000 10000000,
        .get 10000000 microseconds]).map (fun r =>
          decide (.called 101000000 100000000 0 ∈ r.2)) = some true := by decide +kernel
  obtain ⟨s, es, run, seen⟩ := Run.exists_of_exec found
  have reached := claim _ _ _ _ run _ _ _ (of_decide_eq_true seen)
  exact absurd reached (by decide)

end Early

section Dead

/-- At every head of the loop at which `m_seek_pts` is not the one under which `m_out_pts` was
computed, there is nothing to wait for. -/
def NotDead (_ : List FeedEvent) (s : Feed) : Prop :=
  s.c.s.pc = .head → s.c.s.seekPts ≠ s.under → s.c.s.outPts ≤ s.c.s.seekPts

/-- `GetVideo` has a packet with another pts than the one before. -/
def brings (q : CQueue) (oldPts : UInt64) : Bool :=
  q.getVideo.2.2.any fun pkt => 0 < UInt64.ofInt pkt.pts - oldPts

/-- A `GetVideo` that reports another `start_pts` than `m_out_pts` was computed under has a packet
from which that is computed anew, or `m_out_pts` is not behind that `start_pts`. -/
def NewsBringsPacket (_ : List FeedEvent) (s : Feed) : FeedAct → Prop
  | .get _ _ => s.c.s.fmtCtx ≠ .null → s.c.q.startPts ≠ s.under →
      s.c.s.outPts ≤ s.c.q.startPts ∨ brings s.c.q s.c.s.oldPts = true
  | .put _ _ | .setAVFormatContext | .clock _ _ | .send | .ret => True

instance (es : List FeedEvent) (s : Feed) (a : FeedAct) :
    Decidable (NewsBringsPacket es s a) := by
  cases a <;> unfold NewsBringsPacket <;> infer_instance

/-- The time waited for is of the timeline of `m_seek_pts`, or past, or about to be computed. -/
def Alive (_ : List FeedEvent) (s : Feed) : Prop :=
  recomputes s.c = true ∨ s.c.s.seekPts = s.under ∨ s.c.s.outPts ≤ s.c.s.seekPts

variable {cfg : Config} {es fs : List FeedEvent} {s t : Feed}

private theorem Alive.of_idle (h : Alive es s) (idle : ∀ pkt, s.c.s.pc ≠ .send pkt) :
    s.c.s.seekPts = s.under ∨ s.c.s.outPts ≤ s.c.s.seekPts := by
  refine h.resolve_left fun computes => ?_
  unfold recomputes at computes
  split at computes
  · exact absurd ‹_› (idle _)
  · cases computes

private theorem alive_step {a : FeedAct} (h : Alive es s) (brings : NewsBringsPacket es s a)
    (step : feedStep cfg s a = some (t, fs)) : Alive (es ++ fs) t := by
  cases a with
  | put pkt startPts =>
    obtain ⟨-, -, c, -, -, under, -⟩ := put_fed step
    simp only [Alive, c, under]
    exact h
  | setAVFormatContext =>
    cases step
    exact h
  | clock now₁ now₂ =>
    obtain ⟨pc, -, -, -, rfl⟩ := clock_fed step
    exact .inr (h.of_idle (by simp [pc]))
  | get time garbage =>
    obtain ⟨pc, -, ⟨-, -, rfl⟩ | ⟨context, -, found⟩⟩ := get_fed step
    · exact .inr (h.of_idle (by simp [pc]))
    · by_cases known : s.c.q.startPts = s.under
      · rcases found with ⟨-, rfl⟩ | ⟨-, pkt, timeBase, -, rfl⟩
        · exact .inr (.inl known)
        · exact .inr (.inl known)
      · rcases brings context known with past | packet
        · rcases found with ⟨-, rfl⟩ | ⟨-, pkt, timeBase, -, rfl⟩
          · exact .inr (.inr past)
          · exact .inr (.inr past)
        · rcases found with ⟨nothing, rfl⟩ | ⟨-, pkt, timeBase, got, rfl⟩
          · simp only [finds, Option.isSome_eq_false_iff, Option.isNone_iff_eq_none] at nothing
            simp [Pacing.brings, nothing] at packet
          · refine .inl ?_
            simpa [Pacing.brings, got, recomputes] using packet
  | send =>
    obtain ⟨pkt, epoch, index, pc, -, -, rfl⟩ := send_fed step
    refine .inr ?_
    cases computes : recomputes s.c with
    | true => exact .inl (by simp)
    | false =>
      have rest := h.resolve_left (by simp [computes])
      simpa using rest
  | ret =>
    obtain ⟨pkt, pc, -, rfl⟩ := ret_fed step
    exact .inr (h.of_idle (by simp [pc]))

/-- The sender never waits on a dead timeline, in every run in which each `GetVideo` that reports
a `start_pts` before `m_out_pts` also brings a packet to compute that from. -/
theorem no_dead_timeline (cfg : Config) (acts : List FeedAct)
    (meets : Meets (feedStep cfg) NewsBringsPacket (.start cfg) acts) :
    Throughout (feedStep cfg) NotDead (.start cfg) acts := by
  refine Throughout.of_meets (fun bs ds m run meets pc other => ?_) meets
  have alive : Alive ds m :=
    run.guarded_invariant meets (.inr (.inl rfl))
      fun _ _ _ _ _ h brings step => alive_step h brings step
  exact (alive.of_idle (by simp [pc])).resolve_left other

theorem no_dead_timeline_after_seek :
    Throughout (feedStep (handFed 1)) NotDead (.start (handFed 1)) seekBack :=
  no_dead_timeline (handFed 1) seekBack
    (Meets.of_check (fun _ _ _ => of_decide_eq_true) (by decide +kernel))

/-- A seek from 5 s back to 1 s before `RetVideo`: the late return moves the read position past
the new packet, `GetVideo` reports the new `start_pts` alone, and `m_out_pts` stays at 5 s. -/
theorem dead_timeline_after_late_return :
    ¬ ∀ (cfg : Config) (acts : List FeedAct) (es : List FeedEvent) (s : Feed),
      Run (feedStep cfg) (.start cfg) acts es s → NotDead es s := by
  intro claim
  have found : (exec (feedStep (handFed 1)) (.start (handFed 1))
      [.setAVFormatContext, .put (packetAt 0 5000000) 5000000, .clock 0 0, .get 0 microseconds,
        .send, .put (packetAt 1 1000000) 1000000, .ret, .clock 1 1, .get 1 microseconds]).map
          (fun r => decide (r.1.c.s.pc = .head ∧ r.1.c.s.seekPts = 1000000 ∧
            r.1.under = 5000000 ∧ r.1.c.s.outPts = 5000000)) = some true := by decide +kernel
  obtain ⟨s, es, run, seen⟩ := Run.exists_of_exec found
  obtain ⟨pc, seek, under, out⟩ := of_decide_eq_true seen
  have due := claim _ _ _ _ run pc
  rw [seek, under, out] at due
  exact absurd (due (by decide)) (by decide)

end Dead

end Tsender.Channel.Pacing
