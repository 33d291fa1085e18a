/- Tsender/Channel/SeekSkip
   source: sender.cpp (Run video branch: skip_cnt), queue.cpp (PutVideo, GetVideo)
   digest: The packets skipped after a seek are the first of the new epoch only where the
   sender learns of the epoch before it gets a packet of it. -/

import Tsender.Channel.Fed

set_option autoImplicit false
set_option relaxedAutoImplicit false

namespace Tsender.Channel.SeekSkip

open Lib.Transition Queue Fed

/-- Of each epoch that a change of `start_pts` began, exactly the first `gop` packets returned
are skipped. -/
def SkipsFirst (gop : UInt32) (es : List FeedEvent) : Prop :=
  ∀ epoch index skipped, .passed epoch index skipped ∈ es → 0 < epoch →
    (skipped = true ↔ index < gop.toNat)

/-- The first `GetVideo` of a new epoch hands over no packet and reports another `start_pts` than
the last, and `gop` fits the `int` that it is copied to. -/
def LearnsFirst (cfg : Config) (_ : List FeedEvent) (s : Feed) : FeedAct → Prop
  | .get _ _ => s.c.s.fmtCtx ≠ .null → 0 < s.epoch → s.polled = false →
      finds s.c.q = false ∧ s.c.q.startPts ≠ s.c.s.seekPts ∧ cfg.gop.toNat < 2 ^ 31
  | .put _ _ | .setAVFormatContext | .clock _ _ | .send | .ret => True

instance (cfg : Config) (es : List FeedEvent) (s : Feed) :
    (a : FeedAct) → Decidable (LearnsFirst cfg es s a)
  | .get _ _ => inferInstanceAs (Decidable (_ → _ → _ → _ ∧ _ ∧ _))
  | .put _ _ | .setAVFormatContext | .clock _ _ | .send | .ret => .isTrue trivial

def passed (s : Feed) : ℕ := s.count - s.carried.isSome.toNat

/-- How the sender stands to the epoch it has last asked about: it will set `skip_cnt` at the next
head of its loop, or has set it and counts it down. -/
def Counts (gop : UInt32) (s : Feed) : Prop :=
  s.c.s.pc = .head ∧ s.c.s.seekOldPts ≠ s.c.s.seekPts ∧ s.count = 0 ∨
    s.c.s.seekOldPts = s.c.s.seekPts ∧ s.c.s.skipCnt = (gop.toNat - passed s : ℕ)

structure Skipping (cfg : Config) (es : List FeedEvent) (s : Feed) : Prop where
  skips : SkipsFirst cfg.gop es
  settled : s.c.s.pc = .get → s.c.s.seekOldPts = s.c.s.seekPts
  sending : ∀ epoch index, s.carried = some (epoch, index) → ∃ pkt, s.c.s.pc = .send pkt
  unpolled : s.polled = false → s.count = 0
  /-- The packet in hand is the last of the epoch, or the epoch has not been asked about. -/
  inHand : ∀ epoch index, s.carried = some (epoch, index) → s.polled = true → index + 1 = s.count
  owed : ∀ epoch index, s.carried = some (epoch, index) → 0 < epoch →
    (0 < s.c.s.skipCnt ↔ index < cfg.gop.toNat)
  reported : 0 < s.epoch → s.polled = true → s.c.q.startPts = s.c.s.seekPts
  fits : 0 < s.epoch → s.polled = true → cfg.gop.toNat < 2 ^ 31
  counts : 0 < s.epoch → s.polled = true → Counts cfg.gop s

private theorem skipping_start (cfg : Config) : Skipping cfg [] (.start cfg) := by
  refine ⟨nofun, nofun, nofun, fun _ => rfl, nofun, nofun, nofun, nofun, nofun⟩

section Steps

variable {cfg : Config} {es fs : List FeedEvent} {s t : Feed}

theorem SkipsFirst.silent {gop : UInt32} (h : SkipsFirst gop es) : SkipsFirst gop (es ++ []) := by
  rwa [List.append_nil]

theorem Skipping.congr (h : Skipping cfg es s) (sender : t.c.s = s.c.s)
    (start : t.c.q.startPts = s.c.q.startPts) (epoch : t.epoch = s.epoch)
    (polled : t.polled = s.polled) (count : t.count = s.count) (carried : t.carried = s.carried) :
    Skipping cfg (es ++ []) t := by
  have same : Counts cfg.gop t ↔ Counts cfg.gop s := by
    simp only [Counts, passed, sender, count, carried]
  refine ⟨h.skips.silent, ?_, ?_, ?_, ?_, ?_, ?_, ?_, ?_⟩
  · rw [sender]; exact h.settled
  · rw [sender, carried]; exact h.sending
  · rw [polled, count]; exact h.unpolled
  · rw [carried, polled, count]; exact h.inHand
  · rw [carried, sender]; exact h.owed
  · rw [epoch, polled, start, sender]; exact h.reported
  · rw [epoch, polled]; exact h.fits
  · rw [epoch, polled, same]; exact h.counts

theorem SkipsFirst.called {gop : UInt32} {outPts seekPts : UInt64} {elapsed : ℤ}
    (h : SkipsFirst gop es) : SkipsFirst gop (es ++ [.called outPts seekPts elapsed]) := by
  intro epoch index skipped here
  exact h epoch index skipped (by simpa using here)

/-- Behind the head of the loop `skip_cnt` is set. -/
theorem Skipping.counted (h : Skipping cfg es s) (pc : s.c.s.pc ≠ .head) (new : 0 < s.epoch)
    (asked : s.polled = true) :
    s.c.s.seekOldPts = s.c.s.seekPts ∧ s.c.s.skipCnt = (cfg.gop.toNat - passed s : ℕ) :=
  (h.counts new asked).resolve_left fun first => pc first.1

private theorem skipping_put {pkt : AVPacket} {startPts : UInt64} (h : Skipping cfg es s)
    (step : feedStep cfg s (.put pkt startPts) = some (t, fs)) : Skipping cfg (es ++ fs) t := by
  obtain ⟨-, rfl, c, -, carried, -, ⟨-, epoch, polled, count⟩ | ⟨same, epoch, polled, count⟩⟩ :=
    put_fed step
  · refine ⟨h.skips.silent, ?_, ?_, fun _ => count, ?_, ?_, ?_, ?_, ?_⟩
    · rw [c]; exact h.settled
    · rw [c, carried]; exact h.sending
    · rw [polled]; nofun
    · rw [c, carried]; exact h.owed
    · rw [polled]; nofun
    · rw [polled]; nofun
    · rw [polled]; nofun
  · exact h.congr (by rw [c]) (by rw [c, startPts_putVideo, same]) epoch polled count carried

theorem Skipping.empty (h : Skipping cfg es s) (pc : ∀ pkt, s.c.s.pc ≠ .send pkt) :
    s.carried = none := by
  cases carried : s.carried with
  | none => rfl
  | some last =>
    obtain ⟨epoch, index⟩ := last
    obtain ⟨pkt, sending⟩ := h.sending epoch index carried
    exact absurd sending (pc pkt)

private theorem bmod_gop {gop : UInt32} (fits : gop.toNat < 2 ^ 31) :
    Int.bmod gop.toNat (2 ^ 32) = gop.toNat := by
  apply Int.bmod_eq_of_le <;> omega

private theorem skipping_clock {now₁ now₂ : ℤ} (h : Skipping cfg es s)
    (step : feedStep cfg s (.clock now₁ now₂) = some (t, fs)) : Skipping cfg (es ++ fs) t := by
  obtain ⟨pc, -, -, rfl, rfl⟩ := clock_fed step
  have empty : s.carried = none := h.empty (by simp [pc])
  refine ⟨h.skips.silent, fun _ => rfl, ?_, h.unpolled, ?_, ?_, h.reported, h.fits, ?_⟩
  · simp [empty]
  · simp [empty]
  · simp [empty]
  · intro new asked
    refine .inr ⟨rfl, ?_⟩
    rcases h.counts new asked with ⟨-, other, none_yet⟩ | ⟨same, counted⟩
    · simpa [headed, other.symm, passed, none_yet] using bmod_gop (h.fits new asked)
    · simpa [headed, same, passed] using counted

private theorem skipping_get {time : ℤ} {garbage : AVRational} (h : Skipping cfg es s)
    (learns : LearnsFirst cfg es s (.get time garbage))
    (step : feedStep cfg s (.get time garbage) = some (t, fs)) : Skipping cfg (es ++ fs) t := by
  obtain ⟨pc, -, ⟨none_yet, rfl, rfl⟩ | ⟨context, rfl, found⟩⟩ := get_fed step
  · have empty : s.carried = none := h.empty (by simp [pc])
    refine ⟨h.skips.silent, nofun, ?_, h.unpolled, h.inHand, h.owed, h.reported, h.fits, ?_⟩
    · simp [empty]
    · exact fun new asked => .inr (h.counted (by simp [pc]) new asked)
  · have empty : s.carried = none := h.empty (by simp [pc])
    have settled := h.settled pc
    rcases found with ⟨nothing, rfl⟩ | ⟨something, pkt, timeBase, -, rfl⟩
    · refine ⟨h.skips.called, nofun, nofun, nofun, nofun, nofun, ?_, ?_, ?_⟩
      · simp
      · intro new _
        cases asked : s.polled with
        | true => exact h.fits new asked
        | false => exact (learns context new asked).2.2
      · intro new _
        cases asked : s.polled with
        | true =>
          -- The epoch is known: nothing has changed.
          have same := h.reported new asked
          obtain ⟨-, counted⟩ := h.counted (by simp [pc]) new asked
          refine .inr ⟨settled.trans same.symm, ?_⟩
          simpa [passed, empty] using counted
        | false =>
          have other := (learns context new asked).2.1
          exact .inl ⟨rfl, by rw [settled]; exact other.symm, h.unpolled asked⟩
    · have known : 0 < s.epoch → s.polled = true := by
        intro new
        by_contra unasked
        have nothing := (learns context new (Bool.eq_false_iff.mpr unasked)).1
        rw [nothing] at something
        cases something
      have counted : 0 < s.epoch → s.c.s.skipCnt = (cfg.gop.toNat - s.count : ℕ) := by
        intro new
        have counted := (h.counted (by simp [pc]) new (known new)).2
        simpa [passed, empty] using counted
      refine ⟨h.skips.called, nofun, ?_, nofun, ?_, ?_, ?_, ?_, ?_⟩
      · exact fun _ _ _ => ⟨pkt, rfl⟩
      · rintro epoch index ⟨⟩ -
        rfl
      · rintro epoch index ⟨⟩ new
        dsimp only
        rw [counted new]
        omega
      · simp
      · exact fun new _ => h.fits new (known new)
      · intro new _
        refine .inr ⟨settled.trans (h.reported new (known new)).symm, ?_⟩
        simpa [passed] using counted new

private theorem skipping_send (h : Skipping cfg es s) (step : feedStep cfg s .send = some (t, fs)) :
    Skipping cfg (es ++ fs) t := by
  obtain ⟨pkt, epoch, index, pc, carried, rfl, rfl⟩ := send_fed step
  refine ⟨?_, nofun, nofun, h.unpolled, nofun, nofun, h.reported, h.fits, ?_⟩
  · intro e i skipped here new
    rcases List.mem_append.mp here with old | now
    · exact h.skips e i skipped old new
    · obtain ⟨rfl, rfl, rfl⟩ : e = epoch ∧ i = index ∧ skipped = decide (0 < s.c.s.skipCnt) := by
        simpa using now
      rw [decide_eq_true_iff]
      exact h.owed e i carried new
  · intro new asked
    obtain ⟨settled, counted⟩ := h.counted (by simp [pc]) new asked
    have last := h.inHand epoch index carried asked
    refine .inr ⟨settled, ?_⟩
    simp only [passed, carried, Option.isSome_some, Option.isSome_none, Bool.toNat_true,
      Bool.toNat_false, Nat.sub_zero] at counted ⊢
    split <;> omega

private theorem skipping_ret (h : Skipping cfg es s) (step : feedStep cfg s .ret = some (t, fs)) :
    Skipping cfg (es ++ fs) t := by
  obtain ⟨pkt, pc, rfl, rfl⟩ := ret_fed step
  have empty : s.carried = none := h.empty (by simp [pc])
  refine ⟨h.skips.silent, nofun, ?_, h.unpolled, h.inHand, h.owed, h.reported, h.fits, ?_⟩
  · simp [empty]
  · exact fun new asked => .inr (h.counted (by simp [pc]) new asked)

private theorem skipping_step {a : FeedAct} (h : Skipping cfg es s)
    (learns : LearnsFirst cfg es s a)
    (step : feedStep cfg s a = some (t, fs)) : Skipping cfg (es ++ fs) t := by
  cases a with
  | put pkt startPts => exact skipping_put h step
  | setAVFormatContext =>
    cases step
    exact ⟨h.skips.silent, h.settled, h.sending, h.unpolled, h.inHand, h.owed, h.reported, h.fits,
      h.counts⟩
  | clock now₁ now₂ => exact skipping_clock h step
  | get time garbage => exact skipping_get h learns step
  | send => exact skipping_send h step
  | ret => exact skipping_ret h step

end Steps

/-- After every seek exactly the first `gop` packets of the new epoch are skipped, in every run
in which the sender learns of each epoch before it gets a packet of it. -/
theorem seek_skips_first (cfg : Config) (acts : List FeedAct)
    (meets : Meets (feedStep cfg) (LearnsFirst cfg) (.start cfg) acts) :
    Throughout (feedStep cfg) (fun es _ => SkipsFirst cfg.gop es) (.start cfg) acts := by
  refine Throughout.of_meets (fun bs ds m run meets => ?_) meets
  have skipping : Skipping cfg ds m :=
    run.guarded_invariant meets (skipping_start cfg)
      fun _ _ _ _ _ h learns step => skipping_step h learns step
  exact skipping.skips

/-- A seek between `GetVideo` and `RetVideo`: the late return moves the read position past the
first packet, so that the sender learns of the epoch by an empty `GetVideo`. -/
def learnsByEmptyGet : List FeedAct :=
  [.setAVFormatContext, .put (packetAt 0 0) 0, .clock 0 0, .get 0 microseconds, .send,
    .put (packetAt 1 5) 5, .ret, .clock 1 1, .get 1 microseconds, .clock 2 2,
    .put (packetAt 2 6) 5, .get 2 microseconds, .send, .ret, .put (packetAt 3 7) 5,
    .clock 9 9, .get 9 microseconds, .send]

theorem seek_skips_first_after_empty_get :
    Throughout (feedStep (handFed 1)) (fun es _ => SkipsFirst 1 es) (.start (handFed 1))
      learnsByEmptyGet :=
  seek_skips_first (handFed 1) learnsByEmptyGet
    (Meets.of_check (fun _ _ _ => of_decide_eq_true) (by decide +kernel))

/-- The first packet of a new epoch comes with the news of it and is sent, although one packet
is to be skipped. -/
theorem first_packet_not_skipped :
    ¬ ∀ (cfg : Config) (acts : List FeedAct) (es : List FeedEvent) (s : Feed), 1 ≤ cfg.gop →
      Run (feedStep cfg) (.start cfg) acts es s → SkipsFirst cfg.gop es := by
  intro claim
  have found : (exec (feedStep (handFed 1)) (.start (handFed 1))
      [.setAVFormatContext, .put (packetAt 0 5) 5, .clock 0 0, .get 0 microseconds, .send]).map
        (fun r => decide (r.2 = [.called 0 0 0, .passed 1 0 false])) = some true := by
    decide +kernel
  obtain ⟨s, es, run, seen⟩ := Run.exists_of_exec found
  obtain rfl : es = [.called 0 0 0, .passed 1 0 false] := of_decide_eq_true seen
  have skipped := claim (handFed 1) _ _ _ (by decide) run 1 0 false (by simp) (by decide)
  exact absurd (skipped.mpr (by decide)) (by decide)

end Tsender.Channel.SeekSkip
