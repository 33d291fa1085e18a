/- Tsender/Channel/ReverseRun
   source: demuxer.cpp (Reverse, and the reverse branch and file switches of Demux)
   digest: The positions that reverse playback reads from: a frame step apart as long as no
   attempt of Reverse fails between two of them, and more where one has. -/

import Mathlib.Data.List.Chain
import Mathlib.Tactic.Ring
import Mathlib.Tactic.Zify
import Tsender.Channel.Reverse
import Tsender.Lib.Observer

set_option autoImplicit false
set_option relaxedAutoImplicit false

namespace Tsender.Channel.ReverseRun

open Lib.Transition

/-- The frame duration `tb.den * num / (den * tb.num)` is this positive number of units. -/
def IsFrameStep (cfg : Config) (tb : AVRational) (step : ℕ) : Prop :=
  0 < step ∧ (step : ℤ) * (cfg.den.toNat * tb.num) = tb.den * cfg.num.toNat

/-- `Demux` is at the call of `Reverse`. -/
def Turns (c : State) (a : Act) : Prop :=
  a = .demux ∧ c.d.pc = .reverse ∧ c.d.bIsRerverse = true

instance (c : State) (a : Act) : Decidable (Turns c a) := inferInstanceAs (Decidable (_ ∧ _ ∧ _))

/-- Reports each position that `Reverse` has sought and `Demux` is going to read a packet from.
The note is the number of attempts of `Reverse` that have failed since. -/
def position : Observer State Act ℕ UInt64 := fun failed c a c' =>
  if Turns c a then
    if c'.d.pc = .readFrame then (0, [c'.d.reversePts]) else (failed + 1, [])
  else (failed, [])

def positions (cfg : Config) : Machine (State × ℕ) Act UInt64 := observe (step cfg) position

private theorem positions_runs (cfg : Config) (c c' : State) (as : List Act) :
    (∃ ps failed, Run (positions cfg) (c, 0) as ps (c', failed)) ↔
      ∃ es, Run (step cfg) c as es c' :=
  run_observe_iff 0

/-- The positions fall by exactly `step` from one to the next and do not wrap below 0. -/
def Descends (step : ℕ) (es : List UInt64) (_ : State × ℕ) : Prop :=
  (∀ p ∈ es, 0 ≤ int64Of p) ∧ es.IsChain fun p q => int64Of p - int64Of q = step

/-- `avformat_seek_file` is called with 0 as the lowest position and refuses one below. -/
def RefusesNegative (cfg : Config) : Prop :=
  ∀ file ∈ cfg.files, ∀ pos < 0, file.seekFile pos = none

def FrameStep (cfg : Config) (step : ℕ) : Prop :=
  ∀ file ∈ cfg.files,
    IsFrameStep cfg file.timeBase step ∧ 0 < file.timeBase.den ∧ file.timeBase.den < 2 ^ 31

/-- The division that `Reverse` makes first has no remainder. -/
def Divides (cfg : Config) (tb : AVRational) : Prop :=
  tb.num = 1 ∧ cfg.den.toNat ∣ tb.den.toNat

instance (cfg : Config) (tb : AVRational) : Decidable (Divides cfg tb) :=
  inferInstanceAs (Decidable (_ ∧ _))

/-- Where a position has been read from and `Reverse` goes on in a file, no attempt has failed in
between, playback has not been turned forward and the first division has no remainder. -/
def Steady (cfg : Config) (es : List UInt64) (s : State × ℕ) (a : Act) : Prop :=
  Turns s.1 a → GoesOn cfg s.1.d → es ≠ [] →
    s.2 = 0 ∧ 0 < s.1.d.reverseCount ∧
      ∀ file ∈ openedFile cfg s.1.d, Divides cfg file.timeBase

instance (cfg : Config) (es : List UInt64) (s : State × ℕ) (a : Act) :
    Decidable (Steady cfg es s a) := inferInstanceAs (Decidable (_ → _ → _ → _ ∧ _ ∧ _))

section Positions

variable {step : ℕ} {es : List UInt64} {p q : UInt64} {s t : State × ℕ}

private theorem int64Of_nonneg_iff : 0 ≤ int64Of p ↔ p.toNat < 2 ^ 63 := by
  constructor
  · intro nonneg
    by_contra large
    have bound := p.toNat_lt
    have wrapped : int64Of p = (p.toNat : ℤ) - 2 ^ 64 := by
      unfold int64Of
      rw [Int.bmod_def]
      omega
    omega
  · intro small
    rw [int64Of_of_lt small]
    omega

private theorem descends_append : Descends step (es ++ [p]) t ↔
    Descends step es s ∧ 0 ≤ int64Of p ∧
      ∀ q, es.getLast? = some q → int64Of q - int64Of p = step := by
  simp only [Descends, List.isChain_append, List.mem_append, List.mem_singleton, or_imp,
    forall_and, forall_eq, List.isChain_singleton, List.head?_cons, Option.mem_def,
    Option.some.injEq, true_and]
  constructor
  · rintro ⟨⟨above, nonneg⟩, chain, last⟩
    exact ⟨⟨above, chain⟩, nonneg, fun q is_last => last q is_last p rfl⟩
  · rintro ⟨⟨above, chain⟩, nonneg, last⟩
    refine ⟨⟨above, nonneg⟩, chain, ?_⟩
    rintro q is_last _ rfl
    exact last q is_last

private theorem next_exact {back : UInt64} (small : back.toNat < 2 ^ 63) (last : 0 ≤ int64Of q)
    (nonneg : 0 ≤ int64Of (q - back)) : int64Of q - int64Of (q - back) = back.toNat := by
  rw [int64Of_nonneg_iff] at last nonneg
  have above : back.toNat ≤ q.toNat := by
    rw [UInt64.toNat_sub] at nonneg
    omega
  rw [int64Of_of_lt last, int64Of_of_lt nonneg, toNat_sub_of_le above]
  omega

end Positions

section Rate

variable {cfg : Config} {tb : AVRational} {step : ℕ}

/-- With units of one over a whole number of seconds, the step of `Reverse` is the frame duration
exactly when its first division has no remainder. -/
private theorem exact_iff_dvd (duration : IsFrameStep cfg tb step) (unit : tb.num = 1)
    (rate : cfg.den ≠ 0) (base : 0 < tb.den) (int : tb.den < 2 ^ 31)
    (fits : tb.den.toNat / cfg.den.toNat * cfg.num.toNat < 2 ^ 64) :
    (reverseStep cfg tb).toNat = step ↔ cfg.den.toNat ∣ tb.den.toNat := by
  obtain ⟨positive, whole⟩ := duration
  have den : (UInt64.ofInt tb.den).toNat = tb.den.toNat := by
    have value := toNat_ofInt_of_lt base.le (by omega : tb.den < 2 ^ 64)
    omega
  have frames : step * cfg.den.toNat = tb.den.toNat * cfg.num.toNat := by
    rw [unit, mul_one] at whole
    zify
    rw [Int.toNat_of_nonneg base.le]
    exact whole
  have den_pos : 0 < cfg.den.toNat :=
    Nat.pos_of_ne_zero fun zero => rate (UInt64.toNat_inj.mp zero)
  have num_pos : 0 < cfg.num.toNat := by
    have product : 0 < tb.den.toNat * cfg.num.toNat := frames ▸ Nat.mul_pos positive den_pos
    exact Nat.pos_of_mul_pos_left product
  have value : (reverseStep cfg tb).toNat = tb.den.toNat / cfg.den.toNat * cfg.num.toNat := by
    rw [reverseStep, UInt64.toNat_mul, UInt64.toNat_div, den]
    exact Nat.mod_eq_of_lt fits
  rw [value]
  constructor
  · intro same
    have product : tb.den.toNat / cfg.den.toNat * cfg.den.toNat * cfg.num.toNat =
        tb.den.toNat * cfg.num.toNat := by
      rw [← frames, ← same]
      ring
    exact (Nat.dvd_iff_div_mul_eq _ _).mpr (Nat.eq_of_mul_eq_mul_right num_pos product)
  · intro divides
    apply Nat.eq_of_mul_eq_mul_right den_pos
    rw [frames, Nat.mul_right_comm, Nat.div_mul_cancel divides]

private theorem reverseStep_exact (duration : IsFrameStep cfg tb step) (base : 0 < tb.den)
    (int : tb.den < 2 ^ 31) (small : step < 2 ^ 63) (divides : Divides cfg tb) :
    (reverseStep cfg tb).toNat = step := by
  obtain ⟨unit, dvd⟩ := divides
  have rate : cfg.den ≠ 0 := by
    intro zero
    rw [zero, UInt64.toNat_zero, zero_dvd_iff] at dvd
    omega
  have fits : tb.den.toNat / cfg.den.toNat * cfg.num.toNat < 2 ^ 64 := by
    have den_pos : 0 < cfg.den.toNat :=
      Nat.pos_of_ne_zero fun zero => rate (UInt64.toNat_inj.mp zero)
    have whole := duration.2
    rw [unit, mul_one] at whole
    have frames : step * cfg.den.toNat = tb.den.toNat * cfg.num.toNat := by
      zify
      rw [Int.toNat_of_nonneg base.le]
      exact whole
    have same : tb.den.toNat / cfg.den.toNat * cfg.num.toNat = step := by
      apply Nat.eq_of_mul_eq_mul_right den_pos
      rw [frames, Nat.mul_right_comm, Nat.div_mul_cancel dvd]
    omega
  exact (exact_iff_dvd duration unit rate base int fits).mpr dvd

end Rate

section Step

variable {cfg : Config} {step : ℕ} {es ds : List UInt64} {s t : State × ℕ} {a : Act}

/-- A step does not call `Reverse`, or it notes the failed attempt, or it reports the position one
step of `Reverse` back. -/
private theorem positions_cases (near : cfg.nChannel < 6) (next : positions cfg s a = some (t, ds))
    : ¬ Turns s.1 a ∧ ds = [] ∧ t.2 = s.2 ∨
      Turns s.1 a ∧ ∃ file, openedFile cfg s.1.d = some file ∧
        t.1.d.reversePts = reverseStart s.1.d - reverseStep cfg file.timeBase ∧
        (GoesOn cfg s.1.d ∧ ds = [t.1.d.reversePts] ∧ t.2 = 0 ∨
          ¬ GoesOn cfg s.1.d ∧ ds = [] ∧ t.2 = s.2 + 1) := by
  obtain ⟨c, failed⟩ := s
  obtain ⟨c', failed'⟩ := t
  obtain ⟨fs, taken, noted⟩ : ∃ fs, Channel.step cfg c a = some (c', fs) ∧
      position failed c a c' = (failed', ds) := observe_eq_some.mp next
  by_cases turns : Turns c a
  · obtain ⟨rfl, pc, back⟩ := turns
    obtain ⟨file, opened, reached, goes⟩ := reverse_step near pc back taken
    refine .inr ⟨⟨rfl, pc, back⟩, file, opened, reached, ?_⟩
    by_cases on : c'.d.pc = .readFrame
    · simp only [position, Turns, pc, back, on, and_self, if_true] at noted
      cases noted
      exact .inl ⟨goes.mp on, rfl, rfl⟩
    · simp only [position, Turns, pc, back, on, and_self, if_true, if_false] at noted
      cases noted
      exact .inr ⟨fun reads => on (goes.mpr reads), rfl, rfl⟩
  · simp only [position, turns, if_false] at noted
    cases noted
    exact .inl ⟨turns, rfl, rfl⟩

/-- Until an attempt fails or playback is turned forward, `Reverse` stands where `Demux` has read
last. -/
def Stood (es : List UInt64) (s : State × ℕ) : Prop :=
  ∀ q, es.getLast? = some q → s.2 = 0 → 0 < s.1.d.reverseCount → s.1.d.reversePts = q

private theorem goesOn_nonneg {d : CDemuxer} {file : File} (refuses : RefusesNegative cfg)
    (goes : GoesOn cfg d) (opened : openedFile cfg d = some file) :
    0 ≤ int64Of (reverseStart d - reverseStep cfg file.timeBase) := by
  obtain ⟨file', rest, opened', sought, -⟩ := goes
  obtain rfl : file = file' := Option.some.inj (opened.symm.trans opened')
  obtain ⟨ctx, -, found⟩ := Option.bind_eq_some_iff.mp opened
  by_contra negative
  have refused := refuses file (List.mem_of_getElem? found) _ (not_le.mp negative)
  exact absurd (refused.symm.trans sought) (Option.some_ne_none rest).symm

private theorem ahead_count {c c' : State} {fs : List Event} (pc : c.d.pc = .reverse)
    (ahead : ¬ c.d.bIsRerverse = true) (taken : Channel.step cfg c .demux = some (c', fs)) :
    c'.d.reverseCount = 0 := by
  simp only [Channel.step, demux, pc, reverse, if_neg ahead] at taken
  rw [← (Prod.mk.inj (Option.some.inj taken)).1]

private theorem stood_append (near : cfg.nChannel < 6) (stood : Stood es s)
    (next : positions cfg s a = some (t, ds)) : Stood (es ++ ds) t := by
  intro q last none_failed counted
  obtain ⟨idle, rfl, same⟩ | ⟨turns, file, opened, reached, ⟨goes, rfl, -⟩ | ⟨-, -, fails⟩⟩ :=
    positions_cases near next
  · rw [List.append_nil] at last
    obtain ⟨fs, taken, -⟩ := observe_eq_some.mp next
    by_cases forward : a = .demux ∧ s.1.d.pc = .reverse
    · obtain ⟨rfl, pc⟩ := forward
      have zero := ahead_count pc (fun back => idle ⟨rfl, pc, back⟩) taken
      exact absurd counted (by simp [zero])
    · obtain ⟨count, kept⟩ := reverse_kept (fun own pc => forward ⟨own, pc⟩) taken
      rw [kept]
      exact stood q last (same ▸ none_failed) (count ▸ counted)
  · rw [List.getLast?_concat] at last
    exact Option.some.inj last
  · omega

private theorem descends_of_steady (near : cfg.nChannel < 6) (refuses : RefusesNegative cfg)
    (frames : FrameStep cfg step) (small : step < 2 ^ 63) (stood : Stood es s)
    (sofar : Descends step es s) (next : positions cfg s a = some (t, ds))
    (steady : Steady cfg es s a) : Descends step (es ++ ds) t := by
  obtain ⟨-, rfl, -⟩ | ⟨turns, file, opened, reached, ⟨goes, rfl, -⟩ | ⟨-, rfl, -⟩⟩ :=
    positions_cases near next
  · rw [List.append_nil]
    exact sofar
  · have nonneg := goesOn_nonneg refuses goes opened
    rw [← reached] at nonneg
    rw [@descends_append step es _ s t]
    refine ⟨sofar, nonneg, fun q last => ?_⟩
    have read : es ≠ [] := by
      rintro rfl
      cases last
    obtain ⟨none_failed, counted, divides⟩ := steady turns goes read
    have start : reverseStart s.1.d = q := by
      rw [reverseStart, if_pos counted]
      exact stood q last none_failed counted
    obtain ⟨ctx, -, found⟩ := Option.bind_eq_some_iff.mp opened
    obtain ⟨duration, base, int⟩ := frames file (List.mem_of_getElem? found)
    have rate := reverseStep_exact duration base int small (divides file opened)
    rw [reached, start] at nonneg ⊢
    have above := sofar.1 q (List.mem_of_getLast? last)
    rw [next_exact (rate ▸ small) above nonneg, rate]
  · rw [List.append_nil]
    exact sofar

/-- At each call of `Reverse` behind the first position playback has not been turned forward, and
the attempts that have failed come to less than 2⁶⁴ units. -/
def Unturned (step : ℕ) (es : List UInt64) (s : State × ℕ) (a : Act) : Prop :=
  Turns s.1 a → es ≠ [] → 0 < s.1.d.reverseCount ∧ (s.2 + 1) * step < 2 ^ 64

/-- Each failed attempt has taken `Reverse` a step further down. -/
def Sunk (step : ℕ) (es : List UInt64) (s : State × ℕ) : Prop :=
  ∀ q, es.getLast? = some q → 0 < s.1.d.reverseCount →
    s.1.d.reversePts = q - UInt64.ofNat (s.2 * step)

private theorem sub_steps (q : UInt64) (k : ℕ) {back : UInt64} (rate : back.toNat = step) :
    q - UInt64.ofNat (k * step) - back = q - UInt64.ofNat ((k + 1) * step) := by
  have whole : back = UInt64.ofNat step := by rw [← rate, UInt64.ofNat_toNat]
  rw [whole, Nat.add_mul, one_mul, UInt64.ofNat_add]
  grind

private theorem sunk_append (near : cfg.nChannel < 6)
    (rate : ∀ file ∈ cfg.files, (reverseStep cfg file.timeBase).toNat = step) (sunk : Sunk step es s)
    (next : positions cfg s a = some (t, ds)) (unturned : Unturned step es s a) :
    Sunk step (es ++ ds) t := by
  intro q last counted
  obtain ⟨idle, rfl, same⟩ | ⟨turns, file, opened, reached, ⟨-, rfl, none_failed⟩ | ⟨-, rfl, fails⟩⟩ :=
    positions_cases near next
  · rw [List.append_nil] at last
    obtain ⟨fs, taken, -⟩ := observe_eq_some.mp next
    by_cases forward : a = .demux ∧ s.1.d.pc = .reverse
    · obtain ⟨rfl, pc⟩ := forward
      have zero := ahead_count pc (fun back => idle ⟨rfl, pc, back⟩) taken
      exact absurd counted (by simp [zero])
    · obtain ⟨count, kept⟩ := reverse_kept (fun own pc => forward ⟨own, pc⟩) taken
      rw [kept, same]
      exact sunk q last (count ▸ counted)
  · rw [List.getLast?_concat] at last
    have top : t.1.d.reversePts = q := Option.some.inj last
    simp [none_failed, top]
  · rw [List.append_nil] at last
    have read : es ≠ [] := by
      rintro rfl
      cases last
    obtain ⟨before, -⟩ := unturned turns read
    have start : reverseStart s.1.d = q - UInt64.ofNat (s.2 * step) := by
      rw [reverseStart, if_pos before]
      exact sunk q last before
    obtain ⟨ctx, -, found⟩ := Option.bind_eq_some_iff.mp opened
    rw [reached, start, sub_steps q s.2 (rate file (List.mem_of_getElem? found)), fails]

private theorem none_failed_of_apart {k : ℕ} {q : UInt64} (positive : 0 < step)
    (fits : (k + 1) * step < 2 ^ 64) (last : 0 ≤ int64Of q)
    (nonneg : 0 ≤ int64Of (q - UInt64.ofNat ((k + 1) * step)))
    (apart : int64Of q - int64Of (q - UInt64.ofNat ((k + 1) * step)) = step) : k = 0 := by
  rw [int64Of_nonneg_iff] at last nonneg
  rw [int64Of_of_lt last, int64Of_of_lt nonneg, UInt64.toNat_sub,
    UInt64.toNat_ofNat_of_lt' fits] at apart
  rw [UInt64.toNat_sub, UInt64.toNat_ofNat_of_lt' fits] at nonneg
  by_contra some_failed
  have more : step < (k + 1) * step := by
    have one : 1 ≤ k := Nat.one_le_iff_ne_zero.mpr some_failed
    have product : 1 * step ≤ k * step := Nat.mul_le_mul_right step one
    rw [Nat.add_mul]
    omega
  generalize (k + 1) * step = sunk at *
  omega

private theorem steady_of_descends (near : cfg.nChannel < 6) (positive : 0 < step)
    (divides : ∀ file ∈ cfg.files, Divides cfg file.timeBase)
    (rate : ∀ file ∈ cfg.files, (reverseStep cfg file.timeBase).toNat = step)
    (sunk : Sunk step es s) (sofar : Descends step es s)
    (next : positions cfg s a = some (t, ds)) (after : Descends step (es ++ ds) t)
    (unturned : Unturned step es s a) : Steady cfg es s a := by
  intro turns goes read
  obtain ⟨counted, fits⟩ := unturned turns read
  obtain ⟨idle, -⟩ | ⟨-, file, opened, reached, ⟨-, rfl, -⟩ | ⟨stays, -⟩⟩ :=
    positions_cases near next
  · exact absurd turns idle
  · have mem : ∀ {file : File}, openedFile cfg s.1.d = some file → file ∈ cfg.files := by
      intro file opened
      obtain ⟨ctx, -, found⟩ := Option.bind_eq_some_iff.mp opened
      exact List.mem_of_getElem? found
    obtain ⟨-, nonneg, last⟩ := (@descends_append step es _ s t).mp after
    obtain ⟨q, is_last⟩ := Option.ne_none_iff_exists'.mp
      (mt List.getLast?_eq_none_iff.mp read)
    have position : t.1.d.reversePts = q - UInt64.ofNat ((s.2 + 1) * step) := by
      rw [reached, reverseStart, if_pos counted, sunk q is_last counted,
        sub_steps q s.2 (rate file (mem opened))]
    rw [position] at nonneg last
    refine ⟨?_, counted, fun file opened => divides file (mem opened)⟩
    exact none_failed_of_apart positive fits (sofar.1 q (List.mem_of_getLast? is_last)) nonneg
      (last q is_last)
  · exact absurd goes stays

end Step

/-- Reverse playback visits positions exactly a frame step apart in every run in which no attempt
of `Reverse` has failed where it goes on; in a run that does not turn forward it does in no
other. -/
theorem reverse_visits_all (cfg : Config) (near : cfg.nChannel < 6) (step : ℕ)
    (small : step < 2 ^ 63) (frames : FrameStep cfg step) (refuses : RefusesNegative cfg) (c : State)
    (as : List Act) :
    (Meets (positions cfg) (Steady cfg) (c, 0) as →
      Throughout (positions cfg) (Descends step) (c, 0) as) ∧
    ((∀ file ∈ cfg.files, Divides cfg file.timeBase) →
      Meets (positions cfg) (Unturned step) (c, 0) as →
      Throughout (positions cfg) (Descends step) (c, 0) as →
      Meets (positions cfg) (Steady cfg) (c, 0) as) := by
  constructor
  · apply Throughout.of_meets
    intro bs ds m run meets
    have both : Stood ds m ∧ Descends step ds m := by
      apply @Run.guarded_invariant _ _ _ _ _ _ _ _ _ (fun es s => Stood es s ∧ Descends step es s)
        run meets
      · exact ⟨nofun, nofun, .nil⟩
      · rintro es n a t gs ⟨stood, sofar⟩ steady next
        exact ⟨stood_append near stood next,
          descends_of_steady near refuses frames small stood sofar next steady⟩
    exact both.2
  · intro divides unturned all
    have positive : ∀ file ∈ cfg.files, 0 < step := fun file mem => (frames file mem).1.1
    have rate : ∀ file ∈ cfg.files, (reverseStep cfg file.timeBase).toNat = step :=
      fun file mem => by
        obtain ⟨duration, base, int⟩ := frames file mem
        exact reverseStep_exact duration base int small (divides file mem)
    have sunk : Throughout (positions cfg) (Sunk step) (c, 0) as := by
      refine Throughout.of_meets (fun bs ds m run meets => ?_) unturned
      exact run.guarded_invariant meets nofun fun es n a t gs sofar calls next =>
        sunk_append near rate sofar next calls
    have both : Throughout (positions cfg) (fun ds m => Sunk step ds m ∧ Descends step ds m)
        (c, 0) as := fun pre suf ds m whole run =>
      ⟨sunk pre suf ds m whole run, all pre suf ds m whole run⟩
    have steady : Meets (positions cfg) (fun ds m a => Unturned step ds m a → Steady cfg ds m a)
        (c, 0) as := by
      refine Meets.of_throughout (fun ds m a n gs before next after calls turns goes read => ?_) both
      have opened := goes
      obtain ⟨file, rest, opened, -⟩ := opened
      obtain ⟨ctx, -, found⟩ := Option.bind_eq_some_iff.mp opened
      exact steady_of_descends near (positive file (List.mem_of_getElem? found)) divides rate
        before.1 before.2 next after.2 calls turns goes read
    exact fun pre suf a ds gs m n whole run next =>
      steady pre suf a ds gs m n whole run next (unturned pre suf a ds gs m n whole run next)

def oneFile : Config := seconds [secondsFile 0 4]

def thereAndBack : List Act :=
  List.replicate 21 .demux ++ [.setReverse true] ++ List.replicate 20 .demux

private theorem seconds_refusesNegative (files : List (ℕ × ℕ)) :
    RefusesNegative (seconds (files.map fun file => secondsFile file.1 file.2)) := by
  intro file mem pos negative
  obtain ⟨⟨first, count⟩, -, rfl⟩ := List.mem_map.mp mem
  exact if_neg (by omega)

theorem reverse_visits_all_oneFile :
    ∃ t es, Run (positions oneFile) (.start oneFile, 0) thereAndBack es t ∧
      es = [180000, 90000, 0] ∧
      Meets (positions oneFile) (Steady oneFile) (.start oneFile, 0) thereAndBack ∧
      Throughout (positions oneFile) (Descends 90000) (.start oneFile, 0) thereAndBack := by
  have steady : Meets (positions oneFile) (Steady oneFile) (.start oneFile, 0) thereAndBack :=
    Meets.of_check (fun _ _ _ => of_decide_eq_true) (by decide +kernel)
  have frames : FrameStep oneFile 90000 := by
    unfold FrameStep IsFrameStep
    decide
  have all := (reverse_visits_all oneFile (by decide) 90000 (by decide) frames
    (seconds_refusesNegative [(0, 4)]) (.start oneFile) thereAndBack).1 steady
  have found : (exec (positions oneFile) (.start oneFile, 0) thereAndBack).map
      (fun r => decide (r.2 = [180000, 90000, 0])) = some true := by decide +kernel
  obtain ⟨t, es, run, seen⟩ := Run.exists_of_exec found
  exact ⟨t, es, run, of_decide_eq_true seen, steady, all⟩

def contiguous : Config := seconds [secondsFile 0 2, secondsFile 2 2]

def endAndBack : List Act :=
  List.replicate 27 .demux ++ [.setReverse true] ++ List.replicate 13 .demux

/-- The frame at 90000, the last of the first file, is passed over: the attempt to seek it in the
second file fails, and the first file is entered a step further back. -/
theorem last_frame_skipped :
    IsFrameStep contiguous ⟨1, 90000⟩ 90000 ∧
      ∃ t es, Run (positions contiguous) (.start contiguous, 0) endAndBack es t ∧
        es = [180000, 0] ∧ ¬ Descends 90000 es t := by
  have found : (exec (positions contiguous) (.start contiguous, 0) endAndBack).map
      (fun r => decide (r.2 = [180000, 0])) = some true := by decide +kernel
  obtain ⟨t, es, run, seen⟩ := Run.exists_of_exec found
  obtain rfl : es = [180000, 0] := of_decide_eq_true seen
  refine ⟨by unfold IsFrameStep; decide, t, _, run, rfl, fun descends => ?_⟩
  have apart := descends.2
  rw [List.isChain_pair] at apart
  exact absurd apart (by decide)

end Tsender.Channel.ReverseRun
