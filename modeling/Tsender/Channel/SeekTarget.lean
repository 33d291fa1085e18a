/- Tsender/Channel/SeekTarget
   source: demuxer.cpp (the file loop of Demux, its move branch, SetMoveSec)
   digest: The file that Demux opens after a move is the one that SetMoveSec found when the
   channel plays forward, and the one behind it when it plays in reverse. -/

import Tsender.Channel.Steps
import Tsender.Lib.Observer

set_option autoImplicit false
set_option relaxedAutoImplicit false

namespace Tsender.Channel.SeekTarget

open Lib.Transition

/-- The file that the file loop goes on with at an index, unless it ends there. -/
def nextFile (cfg : Config) (i : ℤ) : Option ℕ :=
  match fileAt cfg i with
  | none => none
  | some file => if file.frame = 0 then none else some i.toNat

structure Attempt where
  nFrame : UInt64
  file : Option ℕ

structure Moves where
  /-- The frame of the `SetMoveSec` that stored its index last. -/
  asked : Option UInt64
  /-- The frame of the move that `Demux` has taken and not yet opened a file for, and the
  direction in which it was taken. -/
  taken : Option (UInt64 × Bool)

/-- Takes down each move that `Demux` takes and reports what file comes next.  An exit may come
first. -/
def follow (cfg : Config) : Observer State Act Moves Attempt
  | g, _, .setMoveSec nSec, _ => ({ g with asked := moveFrame cfg nSec }, [])
  | g, c, .demux, _ =>
      match c.d.pc with
      | .readMove => ({ g with taken := g.asked.map fun n => (n, c.d.bIsRerverse) }, [])
      | .fileTop =>
          ({ g with taken := none },
            if c.d.bExit then [] else
              g.taken.toList.map fun move => ⟨move.1, nextFile cfg c.d.i⟩)
      | _ => (g, [])
  | g, _, _, _ => (g, [])

def followed (cfg : Config) : Machine (State × Moves) Act Attempt :=
  observe (step cfg) (follow cfg)

def followStart (cfg : Config) : State × Moves := (.start cfg, ⟨none, none⟩)

private theorem followed_runs (cfg : Config) (c : State) (as : List Act) :
    (∃ ds moves, Run (followed cfg) (followStart cfg) as ds (c, moves)) ↔
      ∃ es, Run (step cfg) (.start cfg) as es c :=
  run_observe_iff _

def OpensTarget (cfg : Config) (es : List Attempt) (_ : State × Moves) : Prop :=
  ∀ e ∈ es, findFileIndexFromFrame cfg e.nFrame < cfg.files.length →
    e.file = some (findFileIndexFromFrame cfg e.nFrame)

/-- The file loop gets to its head after a move only if the move was taken while playing forward
or leads behind the last file, or to leave. -/
def MovesForward (cfg : Config) (_ : List Attempt) (s : State × Moves) (a : Act) : Prop :=
  a = .demux → s.1.d.pc = .fileTop → s.1.d.bExit = false → ∀ nFrame reversed,
    s.2.taken = some (nFrame, reversed) →
    findFileIndexFromFrame cfg nFrame < cfg.files.length → reversed = false

structure Following (cfg : Config) (s : State × Moves) : Prop where
  asked : ∀ nFrame, s.2.asked = some nFrame → s.1.d.nMoveIdx = findFileIndexFromFrame cfg nFrame
  taken : ∀ nFrame reversed, s.2.taken = some (nFrame, reversed) →
    s.1.d.pc = .fileEnd ∧ s.1.d.i + 1 = findFileIndexFromFrame cfg nFrame + reversed.toNat ∨
      s.1.d.pc = .fileTop ∧ s.1.d.i = findFileIndexFromFrame cfg nFrame + reversed.toNat

private theorem following_start (cfg : Config) : Following cfg (followStart cfg) where
  asked := nofun
  taken := nofun

section FileLoop

variable {cfg : Config} {c c' : State} {es : List Event}

private theorem nMoveIdx_demux (next : step cfg c .demux = some (c', es)) :
    c'.d.nMoveIdx = c.d.nMoveIdx := by
  cases demux_cases next with
  | turned pc back d kept => exact kept.2.2.1
  | _ => rfl

private theorem nMoveIdx_other {a : Act} (demux : a ≠ .demux)
    (command : ∀ nSec, a ≠ .setMoveSec nSec)
    (next : step cfg c a = some (c', es)) : c'.d.nMoveIdx = c.d.nMoveIdx := by
  cases a with
  | demux => exact absurd rfl demux
  | setMoveSec nSec => exact absurd rfl (command nSec)
  | clock now₁ now₂ =>
    obtain ⟨-, -, s, rfl, -⟩ := clock_cases next
    rfl
  | get garbage =>
    obtain ⟨-, ⟨-, rfl⟩ | ⟨-, -, rfl⟩ | ⟨pkt, timeBase, -, -, rfl⟩⟩ := get_cases next <;> rfl
  | send =>
    obtain ⟨pkt, s, -, rfl, -⟩ := send_cases next
    rfl
  | ret =>
    obtain ⟨pkt, -, -, rfl⟩ := ret_cases next
    rfl
  | storeSeekFrame =>
    obtain ⟨nFrame, frame, -, -, -, rfl⟩ := storeSeekFrame_cases next
    rfl
  | storeIsMove =>
    obtain ⟨nFrame, -, -, rfl⟩ := storeIsMove_cases next
    rfl
  | setReverse state | exit =>
    cases next
    rfl

private theorem nextFile_iff {k : ℕ} (frames : ∀ file ∈ cfg.files, file.frame ≠ 0)
    (inside : k < cfg.files.length) (reversed : Bool) :
    nextFile cfg (k + reversed.toNat) = some k ↔ reversed = false := by
  cases reversed with
  | false =>
    have found : fileAt cfg k = some cfg.files[k] := by
      simp [fileAt, inside]
    have frame : cfg.files[k].frame ≠ 0 := frames _ (List.getElem_mem inside)
    simp [nextFile, found, frame]
  | true =>
    have other : nextFile cfg (k + (true).toNat) ≠ some k := by
      unfold nextFile
      split
      · nofun
      · split
        · nofun
        · rw [Ne, Option.some.injEq, Bool.toNat_true]
          omega
    simp only [other, Bool.true_eq_false]

end FileLoop

section Follow

variable {cfg : Config} {s t : State × Moves} {a : Act} {ds : List Attempt}

theorem Following.step (h : Following cfg s) (next : followed cfg s a = some (t, ds)) :
    Following cfg t := by
  obtain ⟨c, g⟩ := s
  obtain ⟨c', g'⟩ := t
  obtain ⟨es, taken, noted⟩ : ∃ es, Channel.step cfg c a = some (c', es) ∧
      follow cfg g c a c' = (g', ds) := observe_eq_some.mp next
  by_cases demux : a = .demux
  · subst demux
    have index : c'.d.nMoveIdx = c.d.nMoveIdx := nMoveIdx_demux taken
    cases pc : c.d.pc with
    | readMove =>
      simp only [follow, pc] at noted
      cases noted
      simp only [Channel.step, Channel.demux, pc, readMove] at taken
      cases taken
      refine ⟨h.asked, ?_⟩
      intro nFrame reversed moved
      obtain ⟨n, asked, same⟩ := Option.map_eq_some_iff.mp moved
      cases same
      have idx : c.d.nMoveIdx = findFileIndexFromFrame cfg nFrame := h.asked nFrame asked
      refine .inl ⟨rfl, ?_⟩
      dsimp only
      cases c.d.bIsRerverse with
      | false => simp [idx]
      | true => simp [idx]
    | fileTop =>
      simp only [follow, pc] at noted
      cases noted
      exact ⟨fun nFrame asked => index.trans (h.asked nFrame asked), by simp⟩
    | fileEnd =>
      simp only [follow, pc] at noted
      cases noted
      simp only [Channel.step, Channel.demux, pc, fileEnd] at taken
      cases taken
      refine ⟨h.asked, ?_⟩
      intro nFrame reversed moved
      obtain ⟨-, i⟩ | ⟨top, -⟩ := h.taken nFrame reversed moved
      · exact .inr ⟨rfl, i⟩
      · exact absurd (top.symm.trans pc) (by decide)
    | _ =>
      simp only [follow, pc] at noted
      cases noted
      refine ⟨fun nFrame asked => index.trans (h.asked nFrame asked), ?_⟩
      intro nFrame reversed moved
      obtain ⟨here, -⟩ | ⟨here, -⟩ := h.taken nFrame reversed moved
      · exact absurd (here.symm.trans pc) (by decide)
      · exact absurd (here.symm.trans pc) (by decide)
  · have kept : c'.d.pc = c.d.pc ∧ c'.d.i = c.d.i := by
      rw [other_locals demux taken]
      exact ⟨rfl, rfl⟩
    have notes : g'.taken = g.taken := by
      cases a with
      | demux => exact absurd rfl demux
      | _ => cases noted; rfl
    refine ⟨?_, ?_⟩
    · by_cases command : ∃ nSec, a = .setMoveSec nSec
      · obtain ⟨nSec, rfl⟩ := command
        cases noted
        obtain ⟨nFrame, -, frame, -, rfl⟩ := setMoveSec_cases taken
        intro n asked
        obtain rfl : nFrame = n := Option.some.inj (frame.symm.trans asked)
        rfl
      · rw [not_exists] at command
        have same : g'.asked = g.asked := by
          cases a with
          | demux => exact absurd rfl demux
          | setMoveSec nSec => exact absurd rfl (command nSec)
          | _ => cases noted; rfl
        intro n asked
        rw [same] at asked
        exact (nMoveIdx_other demux command taken).trans (h.asked n asked)
    · intro nFrame reversed moved
      rw [notes] at moved
      rw [kept.1, kept.2]
      exact h.taken nFrame reversed moved

/-- One step reports a wrong file exactly when it gets to the head of the file loop after a move
taken in reverse. -/
private theorem opensTarget_append_iff (frames : ∀ file ∈ cfg.files, file.frame ≠ 0)
    {es : List Attempt} (h : Following cfg s) (sofar : OpensTarget cfg es s)
    (next : followed cfg s a = some (t, ds)) :
    OpensTarget cfg (es ++ ds) t ↔ MovesForward cfg es s a := by
  obtain ⟨c, g⟩ := s
  obtain ⟨c', g'⟩ := t
  obtain ⟨fs, -, noted⟩ : ∃ fs, Channel.step cfg c a = some (c', fs) ∧
      follow cfg g c a c' = (g', ds) := observe_eq_some.mp next
  have only : OpensTarget cfg (es ++ ds) (c', g') ↔ OpensTarget cfg ds (c', g') := by
    simp only [OpensTarget, List.mem_append, or_imp, forall_and]
    exact and_iff_right sofar
  rw [only]
  by_cases top : a = .demux ∧ c.d.pc = .fileTop ∧ c.d.bExit = false
  · obtain ⟨rfl, pc, running⟩ := top
    simp only [follow, pc, running, Bool.false_eq_true, if_false] at noted
    obtain ⟨-, rfl⟩ := Prod.mk.inj noted
    cases moved : g.taken with
    | none => simp [OpensTarget, MovesForward, moved]
    | some move =>
      obtain ⟨nFrame, reversed⟩ := move
      obtain ⟨here, -⟩ | ⟨-, i⟩ := h.taken nFrame reversed moved
      · exact absurd (here.symm.trans pc) (by decide)
      · dsimp only at i
        constructor
        · rintro opens - - - nFrame' reversed' taken' inside
          obtain ⟨rfl, rfl⟩ := Prod.mk.inj (Option.some.inj (moved.symm.trans taken'))
          have file := opens ⟨nFrame, nextFile cfg c.d.i⟩ (by simp) inside
          rw [i] at file
          exact (nextFile_iff frames inside reversed).mp file
        · intro forward e reported inside
          simp only [Option.toList_some, List.map_cons, List.map_nil,
            List.mem_singleton] at reported
          subst reported
          dsimp only at inside ⊢
          rw [i]
          exact (nextFile_iff frames inside reversed).mpr
            (forward rfl pc running nFrame reversed moved inside)
  · have quiet : ds = [] := by
      cases a with
      | demux =>
        cases pc : c.d.pc with
        | fileTop =>
          have exit : c.d.bExit = true := by
            simpa [pc] using top
          simp only [follow, pc, exit, if_true] at noted
          cases noted
          rfl
        | _ =>
          simp only [follow, pc] at noted
          cases noted
          rfl
      | _ =>
        cases noted
        rfl
    subst quiet
    constructor
    · intro _ demux pc running
      exact absurd ⟨demux, pc, running⟩ top
    · exact fun _ => nofun

end Follow

/-- A seek opens its target file next exactly when its move is not taken in reverse. -/
theorem opens_target_iff (cfg : Config) (frames : ∀ file ∈ cfg.files, file.frame ≠ 0)
    (as : List Act) :
    Throughout (followed cfg) (OpensTarget cfg) (followStart cfg) as ↔
      Meets (followed cfg) (MovesForward cfg) (followStart cfg) as := by
  apply @throughout_iff_meets _ _ _ _ _ _ _ _ (fun _ => Following cfg) (following_start cfg)
  · exact nofun
  · exact fun ds m a n gs h next => h.step next
  · exact fun ds m a n gs h sofar next => opensTarget_append_iff frames h sofar next

def oneFile : Config where
  files := [{
    frame := 100
    opens := true
    hasVideo := true
    initsFilter := true
    startTime := 0
    timeBase := ⟨1, 90000⟩
    packets := []
    seekTm := fun _ => 0
    seekFile := fun _ => none }]
  filter := some
  nChannel := 0
  num := 1
  den := 30
  gop := 30
  stray := false

/-- `SetMoveSec(1)` while the first file is played, in a direction, and the move taken. -/
def seekOneSecond (reversed : Bool) : List Act :=
  [.demux, .setReverse reversed, .setMoveSec 1, .storeSeekFrame, .storeIsMove,
    .demux, .demux, .demux, .demux, .demux]

theorem opens_target_iff_oneFile :
    Throughout (followed oneFile) (OpensTarget oneFile) (followStart oneFile)
        (seekOneSecond false) ↔
      Meets (followed oneFile) (MovesForward oneFile) (followStart oneFile)
        (seekOneSecond false) :=
  opens_target_iff oneFile (by decide) _

/-- In reverse the index is not lowered before the `for` statement raises it, so that a seek into
the last file ends the file loop. -/
theorem reverse_seek_ends :
    ∃ t, Run (followed oneFile) (followStart oneFile) (seekOneSecond true) [⟨30, none⟩] t ∧
      t.1.d.pc = .done ∧ t.1.d.bExit = false ∧ findFileIndexFromFrame oneFile 30 = 0 ∧
      ¬ OpensTarget oneFile [⟨30, none⟩] t := by
  refine ⟨_, .of_exec rfl, rfl, rfl, by decide, fun opens => ?_⟩
  have file := opens ⟨30, none⟩ List.mem_cons_self (by decide)
  cases file

end Tsender.Channel.SeekTarget
