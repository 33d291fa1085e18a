/- Tsender/Channel/SeekReverse
   source: demuxer.cpp (SeekFrame and Reverse in the video loop of Demux)
   digest: A seek while stepping in reverse takes effect on the next step back only by chance:
   Reverse goes on from its own position. -/

import Tsender.Channel.Reverse
import Tsender.Lib.Observer

set_option autoImplicit false
set_option relaxedAutoImplicit false

namespace Tsender.Channel.SeekReverse

open Lib.Transition Queue

/-- The first call of `Reverse` after a seek: the position that was sought, the frame step of the
open file, and the position that `Reverse` sought. -/
structure Resumed where
  tm : ℤ
  step : UInt64
  pos : UInt64
  deriving DecidableEq

/-- A seek made while stepping in reverse: the position sought, and `m_reverse_pts` when
`SeekFrame` was called. -/
structure Sought where
  tm : ℤ
  stood : UInt64

/-- The seek that `SeekFrame` is about to carry out while stepping in reverse. -/
def soughtInReverse (cfg : Config) (d : CDemuxer) : Option Sought :=
  if 0 < d.reverseCount ∧ 0 < d.nSeekFrame then
    (openedFile cfg d).map fun file => ⟨file.seekTm d.nSeekFrame, d.reversePts⟩
  else none

/-- Takes down each seek made while stepping in reverse, and reports its position with the first
position that `Reverse` seeks afterwards. -/
def resume (cfg : Config) : Observer State Act (Option Sought) Resumed
  | due, c, .demux, c' =>
      match c.d.pc with
      | .doSeek => (soughtInReverse cfg c.d, [])
      | .reverse =>
          if c.d.bIsRerverse then
            (none, due.toList.flatMap fun sought => (openedFile cfg c.d).toList.map fun file =>
              ⟨sought.tm, reverseStep cfg file.timeBase, c'.d.reversePts⟩)
          else (due, [])
      | _ => (due, [])
  | due, _, _, _ => (due, [])

def resumed (cfg : Config) : Machine (State × Option Sought) Act Resumed :=
  observe (step cfg) (resume cfg)

private theorem resumed_runs (cfg : Config) (c c' : State) (as : List Act) :
    (∃ ds due, Run (resumed cfg) (c, none) as ds (c', due)) ↔ ∃ es, Run (step cfg) c as es c' :=
  run_observe_iff none

def TakesEffect (es : List Resumed) (_ : State × Option Sought) : Prop :=
  ∀ r ∈ es, r.pos = UInt64.ofInt r.tm - r.step

/-- Where `Reverse` is called first after a seek, the seek has gone to where stepping in reverse
stood anyway; or, where playback has been turned forward since, to the packet at hand. -/
def SeeksInPlace (_ : List Resumed) (s : State × Option Sought) (a : Act) : Prop :=
  a = .demux → s.1.d.pc = .reverse → s.1.d.bIsRerverse = true →
    ∀ sought, s.2 = some sought →
      UInt64.ofInt sought.tm =
        if 0 < s.1.d.reverseCount then sought.stood else UInt64.ofInt s.1.d.pkt.pts

instance (es : List Resumed) (s : State × Option Sought) (a : Act) :
    Decidable (SeeksInPlace es s a) :=
  inferInstanceAs (Decidable (_ → _ → _ → ∀ sought ∈ s.2, _ = _))

/-- A seek leaves `Reverse` where it stood, until playback is turned forward. -/
def Stands (_ : List Resumed) (s : State × Option Sought) : Prop :=
  ∀ sought, s.2 = some sought → 0 < s.1.d.reverseCount → s.1.d.reversePts = sought.stood

section Resume

variable {cfg : Config} {s t : State × Option Sought} {a : Act} {es ds : List Resumed}

private theorem soughtInReverse_stood {d : CDemuxer} {sought : Sought}
    (found : soughtInReverse cfg d = some sought) : sought.stood = d.reversePts := by
  unfold soughtInReverse at found
  split at found
  · obtain ⟨file, -, rfl⟩ := Option.map_eq_some_iff.mp found
    rfl
  · cases found

private theorem resume_kept {c c' : State} {due : Option Sought}
    (pc : a = .demux → c.d.pc ≠ .doSeek ∧ c.d.pc ≠ .reverse) :
    resume cfg due c a c' = (due, []) := by
  cases a with
  | demux =>
    obtain ⟨seek, reverse⟩ := pc rfl
    cases at_pc : c.d.pc with
    | doSeek => exact absurd at_pc seek
    | reverse => exact absurd at_pc reverse
    | _ => simp only [resume, at_pc]
  | _ => rfl

private theorem stands_start (c : State) : Stands [] (c, none) := by
  simp [Stands]

private theorem stands_append (stands : Stands es s) (next : resumed cfg s a = some (t, ds)) :
    Stands (es ++ ds) t := by
  obtain ⟨c, due⟩ := s
  obtain ⟨c', due'⟩ := t
  obtain ⟨fs, taken, noted⟩ : ∃ fs, step cfg c a = some (c', fs) ∧
      resume cfg due c a c' = (due', ds) := observe_eq_some.mp next
  intro sought found counted
  dsimp only at found counted ⊢
  by_cases turn : a = .demux ∧ c.d.pc = .reverse
  · obtain ⟨rfl, pc⟩ := turn
    cases back : c.d.bIsRerverse with
    | true =>
      simp only [resume, pc, back, if_true] at noted
      obtain ⟨rfl, -⟩ := Prod.mk.inj noted
      cases found
    | false =>
      have ahead : c'.d.reverseCount = 0 := by
        simp only [step, demux, pc, reverse, back, Bool.false_eq_true, if_false] at taken
        cases taken
        rfl
      exact absurd counted (by simp [ahead])
  · have outside : a = .demux → c.d.pc ≠ .reverse := fun own pc => turn ⟨own, pc⟩
    obtain ⟨count, position⟩ := reverse_kept outside taken
    rw [position]
    by_cases seek : a = .demux ∧ c.d.pc = .doSeek
    · obtain ⟨rfl, pc⟩ := seek
      simp only [resume, pc] at noted
      obtain ⟨rfl, -⟩ := Prod.mk.inj noted
      exact (soughtInReverse_stood found).symm
    · have kept := @resume_kept cfg a c c' due fun own =>
        ⟨fun pc => seek ⟨own, pc⟩, outside own⟩
      obtain ⟨rfl, -⟩ := Prod.mk.inj (kept.symm.trans noted)
      exact stands sought found (count ▸ counted)

private theorem takesEffect_append_iff (near : cfg.nChannel < 6) (stands : Stands es s)
    (sofar : TakesEffect es s) (next : resumed cfg s a = some (t, ds)) :
    TakesEffect (es ++ ds) t ↔ SeeksInPlace es s a := by
  obtain ⟨c, due⟩ := s
  obtain ⟨c', due'⟩ := t
  obtain ⟨fs, taken, noted⟩ : ∃ fs, step cfg c a = some (c', fs) ∧
      resume cfg due c a c' = (due', ds) := observe_eq_some.mp next
  have only : TakesEffect (es ++ ds) (c', due') ↔ TakesEffect ds (c', due') := by
    simp only [TakesEffect, List.mem_append, or_imp, forall_and]
    exact and_iff_right sofar
  rw [only]
  by_cases turn : a = .demux ∧ c.d.pc = .reverse ∧ c.d.bIsRerverse = true
  · obtain ⟨rfl, pc, back⟩ := turn
    obtain ⟨file, opened, position, -⟩ := reverse_step near pc back taken
    simp only [resume, pc, back, if_true, opened] at noted
    obtain ⟨-, rfl⟩ := Prod.mk.inj noted
    cases due with
    | none => simp [TakesEffect, SeeksInPlace]
    | some sought =>
      have start : reverseStart c.d =
          if 0 < c.d.reverseCount then sought.stood else UInt64.ofInt c.d.pkt.pts := by
        unfold reverseStart
        split
        · exact stands sought rfl ‹_›
        · rfl
      simp [TakesEffect, SeeksInPlace, pc, back, position, start, eq_comm]
  · have quiet : ds = [] := by
      by_cases reverse : a = .demux ∧ c.d.pc = .reverse
      · obtain ⟨rfl, pc⟩ := reverse
        have ahead : c.d.bIsRerverse = false := by
          simpa [pc] using turn
        simp only [resume, pc, ahead, Bool.false_eq_true, if_false] at noted
        exact (Prod.mk.inj noted).2.symm
      · by_cases seek : a = .demux ∧ c.d.pc = .doSeek
        · obtain ⟨rfl, pc⟩ := seek
          simp only [resume, pc] at noted
          exact (Prod.mk.inj noted).2.symm
        · have kept := @resume_kept cfg a c c' due fun own =>
            ⟨fun pc => seek ⟨own, pc⟩, fun pc => reverse ⟨own, pc⟩⟩
          exact (Prod.mk.inj (noted.symm.trans kept)).2
    subst quiet
    constructor
    · intro _ demux pc back
      exact absurd ⟨demux, pc, back⟩ turn
    · exact fun _ => nofun

end Resume

/-- A seek during reverse playback takes effect exactly when it goes where `Reverse` would have
gone on from without it. -/
theorem seek_takes_effect_iff (cfg : Config) (near : cfg.nChannel < 6) (c : State)
    (as : List Act) :
    Throughout (resumed cfg) TakesEffect (c, none) as ↔
      Meets (resumed cfg) SeeksInPlace (c, none) as := by
  apply @throughout_iff_meets _ _ _ _ _ _ _ _ Stands (stands_start c)
  · exact nofun
  · exact fun ds m a n gs stands next => stands_append stands next
  · exact fun ds m a n gs stands sofar next => takesEffect_append_iff near stands sofar next

def halvesFile (first count : ℕ) : File :=
  let packets := (List.range count).map fun n : ℕ => ⟨[0], 45000 * ((first + n : ℕ) : ℤ)⟩
  { secondsFile first count with
    startTime := UInt64.ofNat (500000 * first)
    packets := packets
    seekTm := fun nFrame => 45000 * nFrame - 45000
    seekFile := fun pts =>
      if 45000 * first ≤ pts then some (packets.filter fun p => pts ≤ p.pts) else none }

def halves : Config :=
  { seconds [halvesFile 0 1, halvesFile 1 5, halvesFile 6 2] with den := 2 }

/-- Play on into the second file, step back twice, to 135000, and seek that frame. -/
def seekInPlace : List Act :=
  List.replicate 38 .demux ++ [.setReverse true] ++ List.replicate 10 .demux ++
    [.setMoveSec 2, .storeSeekFrame, .storeIsMove] ++ List.replicate 5 .demux

theorem seek_takes_effect_iff_halves :
    ∃ t es, Run (resumed halves) (.start halves, none) seekInPlace es t ∧
      es = [⟨135000, 45000, 90000⟩] ∧
      Meets (resumed halves) SeeksInPlace (.start halves, none) seekInPlace ∧
      Throughout (resumed halves) TakesEffect (.start halves, none) seekInPlace := by
  have inPlace : Meets (resumed halves) SeeksInPlace (.start halves, none) seekInPlace :=
    Meets.of_check (fun _ _ _ => of_decide_eq_true) (by decide +kernel)
  have takes := (seek_takes_effect_iff halves (by decide) (.start halves) seekInPlace).mpr inPlace
  have found : (exec (resumed halves) (.start halves, none) seekInPlace).map
      (fun r => decide (r.2 = [⟨135000, 45000, 90000⟩])) = some true := by decide +kernel
  obtain ⟨t, es, run, seen⟩ := Run.exists_of_exec found
  exact ⟨t, es, run, of_decide_eq_true seen, inPlace, takes⟩

def threeFiles : Config := seconds [secondsFile 0 1, secondsFile 1 2, secondsFile 3 2]

/-- Play forward to the end, step back once, and seek the frame of the third second. -/
def seekInReverse : List Act :=
  List.replicate 38 .demux ++ [.setReverse true] ++ List.replicate 5 .demux ++
    [.setMoveSec 2, .storeSeekFrame, .storeIsMove] ++ List.replicate 10 .demux

/-- The seek goes to position 135000, and the next step back to 180000, one frame before 270000,
where playback was before the seek. -/
theorem seek_in_reverse_ignored :
    ∃ t es, Run (resumed threeFiles) (.start threeFiles, none) seekInReverse es t ∧
      es = [⟨135000, 90000, 180000⟩] ∧ ¬ TakesEffect es t := by
  have found : (exec (resumed threeFiles) (.start threeFiles, none) seekInReverse).map
      (fun r => decide (r.2 = [⟨135000, 90000, 180000⟩])) = some true := by decide +kernel
  obtain ⟨t, es, run, seen⟩ := Run.exists_of_exec found
  obtain rfl : es = [⟨135000, 90000, 180000⟩] := of_decide_eq_true seen
  refine ⟨t, _, run, rfl, fun takes => ?_⟩
  have position := takes ⟨135000, 90000, 180000⟩ List.mem_cons_self
  exact absurd position (by decide)

end Tsender.Channel.SeekReverse
