/- Tsender/Channel/SeekHandoff
   digest: The three stores of SetMoveSec against the statements of Demux: the last command is
   obeyed as a whole unless Demux acts on its frame before it has seen its move flag. -/

import Tsender.Channel.Steps

set_option autoImplicit false
set_option relaxedAutoImplicit false

namespace Tsender.Channel.SeekHandoff

open Lib.Transition

/-- The last complete command, by its frame, and whether `Demux` has taken a move since.  Reaching
the end of the file after that is playback going on, not the command any more. -/
def aim (g : Option (UInt64 × Bool)) : Event → Option (UInt64 × Bool)
  | .moved _ => g.map fun (nFrame, _) => (nFrame, true)
  | .eof => g.filter fun (_, taken) => !taken
  | .commanded nFrame => some (nFrame, false)
  | _ => g

def goal (es : List Event) : Option (UInt64 × Bool) := es.foldl aim none

@[simp] theorem goal_append (es fs : List Event) :
    goal (es ++ fs) = fs.foldl aim (goal es) := List.foldl_append

/-- The pcs at which `Demux` reads from an open file. -/
def DemuxPc.reading : DemuxPc → Bool
  | .testMove | .testSeek | .reverse | .readFrame | .put => true
  | _ => false

/-- No command is under way and `Demux` has consumed all flags. -/
def Settled (c : State) : Prop :=
  c.cmd = .idle ∧ c.d.isMove = false ∧ c.d.nSeekFrame = 0 ∧ DemuxPc.reading c.d.pc = true

/-- A settled channel reads the file of the last command, and the last seek in that file was to
the frame of that command. -/
def OnTarget (cfg : Config) (es : List Event) (c : State) : Prop :=
  ∀ nFrame taken, goal es = some (nFrame, taken) → 0 < nFrame → Settled c →
    ∃ ctx, c.d.fmtCtx = some ctx ∧ ctx.file = findFileIndexFromFrame cfg nFrame ∧
      ctx.sought = some (nFrame.toNat : ℤ)

def betweenStores : MoveSec → Bool
  | .storedFrame _ => true
  | .idle | .storedIdx _ => false

/-- The frame about to be stored is an `int`. -/
def fits : MoveSec → Bool
  | .storedIdx nFrame => nFrame.toNat < 2 ^ 31
  | .idle | .storedFrame _ => true

/-- `Demux` acts on a seek frame only when no move flag is set or about to be, and frames fit
their field. -/
def HandsOver (_ : List Event) (c : State) (a : Act) : Prop :=
  (a = .demux → c.d.pc = .testSeek ∧ 0 < c.d.nSeekFrame ∨ c.d.pc = .doSeek ∨ c.d.pc = .clearSeek →
    c.d.isMove = false ∧ betweenStores c.cmd = false) ∧
  (a = .storeSeekFrame → fits c.cmd = true)

instance (es : List Event) (c : State) (a : Act) : Decidable (HandsOver es c a) :=
  inferInstanceAs (Decidable ((_ → _ → _ ∧ _) ∧ (_ → _)))

/-- How far `Demux` is with a command for frame `f` in file `k`, where the flag tells whether it
has taken a move since. -/
inductive OnTheWay (k : ℕ) (f : ℤ) (d : CDemuxer) : Bool → Prop
  | due (taken : Bool) (move : d.isMove = true) (idx : d.nMoveIdx = k) (seek : d.nSeekFrame = f) :
      OnTheWay k f d taken
  | taking (taken : Bool) (pc : d.pc = .readMove) (move : d.isMove = false)
      (idx : d.nMoveIdx = k) (seek : d.nSeekFrame = f) : OnTheWay k f d taken
  | closing (pc : d.pc = .fileEnd) (move : d.isMove = false) (seek : d.nSeekFrame = f)
      (i : d.i + 1 = k) : OnTheWay k f d true
  | opening (pc : d.pc = .fileTop) (move : d.isMove = false) (seek : d.nSeekFrame = f)
      (i : d.i = k) : OnTheWay k f d true
  | opened (pc : d.pc = .testMove ∨ d.pc = .testSeek ∨ d.pc = .doSeek) (move : d.isMove = false)
      (seek : d.nSeekFrame = f) (ctx : AVFormatContext) (context : d.fmtCtx = some ctx)
      (file : ctx.file = k) : OnTheWay k f d true
  | applied (pc : d.pc = .clearSeek) (move : d.isMove = false) (ctx : AVFormatContext)
      (context : d.fmtCtx = some ctx) (file : ctx.file = k) (sought : ctx.sought = some f) :
      OnTheWay k f d true
  | there (pc : DemuxPc.reading d.pc = true) (move : d.isMove = false) (seek : d.nSeekFrame = 0)
      (ctx : AVFormatContext) (context : d.fmtCtx = some ctx) (file : ctx.file = k)
      (sought : ctx.sought = some f) : OnTheWay k f d true
  | finished (pc : d.pc = .done) : OnTheWay k f d true

/-- What has been stored of the command under way, and where `Demux` is with the last one. -/
structure Handing (cfg : Config) (es : List Event) (c : State) : Prop where
  ahead : c.d.bIsRerverse = false
  playing : c.d.bExit = false
  clearing : c.d.pc = .clearMove → c.d.isMove = true
  storedIdx : ∀ nFrame, c.cmd = .storedIdx nFrame →
    c.d.nMoveIdx = findFileIndexFromFrame cfg nFrame
  storedFrame : ∀ nFrame, c.cmd = .storedFrame nFrame →
    c.d.nMoveIdx = findFileIndexFromFrame cfg nFrame ∧ c.d.nSeekFrame = nFrame.toNat
  onTheWay : c.cmd = .idle → ∀ nFrame taken, goal es = some (nFrame, taken) → 0 < nFrame →
    OnTheWay (findFileIndexFromFrame cfg nFrame) nFrame.toNat c.d taken

private theorem handing_start (cfg : Config) : Handing cfg [] (.start cfg) where
  ahead := rfl
  playing := rfl
  clearing := by simp [State.start]
  storedIdx := by simp [State.start]
  storedFrame := by simp [State.start]
  onTheWay := by simp [goal]

private theorem Handing.onTarget {cfg : Config} {es : List Event} {c : State} (h : Handing cfg es c)
    : OnTarget cfg es c := by
  rintro nFrame taken aimed positive ⟨idle, stay, cleared, reading⟩
  have frame : (nFrame.toNat : ℤ) ≠ 0 := by
    have : 0 < nFrame.toNat := UInt64.lt_iff_toNat_lt.mp positive
    omega
  cases h.onTheWay idle nFrame taken aimed positive with
  | due taken move => rw [stay] at move; cases move
  | taking taken pc | closing pc | opening pc | applied pc | finished pc =>
    rw [pc] at reading
    cases reading
  | opened pc move seek => exact absurd (seek.symm.trans cleared) frame
  | there pc move seek ctx context file sought => exact ⟨ctx, context, file, sought⟩

section Demux

variable {cfg : Config} {es fs : List Event} {c c' : State} {k : ℕ} {f : ℤ} {n : UInt64}
  {taken taken' : Bool}

private theorem aimed_demux {g : Option (UInt64 × Bool)} (go : Demuxed cfg c c' fs)
    (aimed : fs.foldl aim g = some (n, taken')) : ∃ taken, g = some (n, taken) := by
  cases go with
  | moved pc i index =>
    simp only [List.foldl_cons, List.foldl_nil, aim, Option.map_eq_some_iff] at aimed
    obtain ⟨⟨n', taken⟩, rfl, same⟩ := aimed
    obtain ⟨rfl, -⟩ := Prod.mk.inj same
    exact ⟨taken, rfl⟩
  | ended pc ctx context rest =>
    simp only [List.foldl_cons, List.foldl_nil, aim, Option.filter_eq_some_iff] at aimed
    exact ⟨taken', aimed.1⟩
  | _ => exact ⟨taken', aimed⟩

private theorem due_demux (move : c.d.isMove = true) (idx : c.d.nMoveIdx = k)
    (seek : c.d.nSeekFrame = f) (ahead : c.d.bIsRerverse = false)
    (hands : HandsOver es c .demux) (go : Demuxed cfg c c' fs) : OnTheWay k f c'.d taken' := by
  have clear : ¬(c.d.pc = .testSeek ∧ 0 < c.d.nSeekFrame ∨ c.d.pc = .doSeek ∨
      c.d.pc = .clearSeek) := by
    intro acts
    have unset := (hands.1 rfl acts).1
    rw [move] at unset
    cases unset
  cases go with
  | noMove pc stay => rw [move] at stay; cases stay
  | clearedMove pc => exact .taking taken' rfl rfl idx seek
  | foundSeek pc found => exact absurd (.inl ⟨pc, found⟩) clear
  | sought pc | soughtFar pc => exact absurd (.inr (.inl pc)) clear
  | clearedSeek pc => exact absurd (.inr (.inr pc)) clear
  | turned pc back => rw [ahead] at back; cases back
  | _ => exact .due taken' move idx seek

private theorem taking_demux (pc : c.d.pc = .readMove) (move : c.d.isMove = false)
    (idx : c.d.nMoveIdx = k) (seek : c.d.nSeekFrame = f) (ahead : c.d.bIsRerverse = false)
    (go : Demuxed cfg c c' fs) (aimed : fs.foldl aim (some (n, taken)) = some (n, taken')) :
    OnTheWay k f c'.d taken' := by
  cases go with
  | moved pc i index =>
    obtain rfl : true = taken' := by simpa [aim] using aimed
    refine .closing rfl move seek ?_
    change i + 1 = k
    rw [index ahead, idx]
    omega
  | _ => simp_all

private theorem closing_demux (pc : c.d.pc = .fileEnd) (move : c.d.isMove = false)
    (seek : c.d.nSeekFrame = f) (i : c.d.i + 1 = k) (go : Demuxed cfg c c' fs) :
    OnTheWay k f c'.d true := by
  cases go with
  | closed pc => exact .opening rfl move seek i
  | _ => simp_all

private theorem opening_demux (pc : c.d.pc = .fileTop) (move : c.d.isMove = false)
    (seek : c.d.nSeekFrame = f) (i : c.d.i = k) (go : Demuxed cfg c c' fs) :
    OnTheWay k f c'.d true := by
  cases go with
  | stopped | unfiltered => exact .finished rfl
  | opened pc file found frames =>
    refine .opened (.inl rfl) move seek _ rfl ?_
    change c.d.i.toNat = k
    rw [i, Int.toNat_natCast]
  | _ => simp_all

private theorem opened_demux (pc : c.d.pc = .testMove ∨ c.d.pc = .testSeek ∨ c.d.pc = .doSeek)
    (move : c.d.isMove = false) (seek : c.d.nSeekFrame = f) (positive : 0 < f)
    {ctx : AVFormatContext} (context : c.d.fmtCtx = some ctx) (file : ctx.file = k)
    (playing : c.d.bExit = false) (near : cfg.nChannel < 6) (go : Demuxed cfg c c' fs) :
    OnTheWay k f c'.d true := by
  rcases pc with pc | pc | pc
  · cases go with
    | noMove pc stay => exact .opened (.inr (.inl rfl)) move seek ctx context file
    | _ => simp_all
  · cases go with
    | foundSeek pc found => exact .opened (.inr (.inr rfl)) move seek ctx context file
    | passed pc no_seek =>
      rw [seek] at no_seek
      exact absurd positive no_seek
    | _ => simp_all
  · cases go with
    | sought pc ctx' file' context' =>
      obtain rfl := Option.some.inj (context.symm.trans context')
      exact .applied rfl move _ rfl file (by rw [← seek])
    | soughtFar pc far => exact absurd near far
    | _ => simp_all

private theorem applied_demux (pc : c.d.pc = .clearSeek) (move : c.d.isMove = false)
    {ctx : AVFormatContext} (context : c.d.fmtCtx = some ctx) (file : ctx.file = k)
    (sought : ctx.sought = some f) (go : Demuxed cfg c c' fs) : OnTheWay k f c'.d true := by
  cases go with
  | clearedSeek pc => exact .there rfl move rfl ctx context file sought
  | _ => simp_all

private theorem there_demux (pc : DemuxPc.reading c.d.pc = true) (move : c.d.isMove = false)
    (seek : c.d.nSeekFrame = 0) {ctx : AVFormatContext} (context : c.d.fmtCtx = some ctx)
    (file : ctx.file = k) (sought : ctx.sought = some f) (ahead : c.d.bIsRerverse = false)
    (playing : c.d.bExit = false) (go : Demuxed cfg c c' fs)
    (aimed : fs.foldl aim (some (n, true)) = some (n, taken')) : OnTheWay k f c'.d true := by
  cases go with
  | noMove | passed | forward | putExit | accepted =>
    exact .there rfl move seek ctx context file sought
  | refused | stuck => exact .there pc move seek ctx context file sought
  | dropped pc ctx' payload rest first context' | read pc ctx' payload out rest first context' =>
    obtain rfl := Option.some.inj (context.symm.trans context')
    refine .there ?_ move seek _ rfl file sought
    dsimp only
    first
      | rfl
      | split <;> rfl
  | ended => simp [aim] at aimed
  | foundSeek pc found => simp [seek] at found
  | _ => simp_all [DemuxPc.reading]

private theorem onTheWay_demux (positive : 0 < f) (near : cfg.nChannel < 6)
    (ahead : c.d.bIsRerverse = false) (playing : c.d.bExit = false)
    (hands : HandsOver es c .demux) (h : OnTheWay k f c.d taken) (go : Demuxed cfg c c' fs)
    (aimed : fs.foldl aim (some (n, taken)) = some (n, taken')) : OnTheWay k f c'.d taken' := by
  have still : taken = true → taken' = true := by
    rintro rfl
    cases go with
    | ended => simp [aim] at aimed
    | _ => simpa [aim, eq_comm] using aimed
  cases h with
  | due _ move idx seek => exact due_demux move idx seek ahead hands go
  | taking _ pc move idx seek => exact taking_demux pc move idx seek ahead go aimed
  | closing pc move seek i => exact still rfl ▸ closing_demux pc move seek i go
  | opening pc move seek i => exact still rfl ▸ opening_demux pc move seek i go
  | opened pc move seek ctx context file =>
    exact still rfl ▸ opened_demux pc move seek positive context file playing near go
  | applied pc move ctx context file sought =>
    exact still rfl ▸ applied_demux pc move context file sought go
  | there pc move seek ctx context file sought =>
    exact still rfl ▸ there_demux pc move seek context file sought ahead playing go aimed
  | finished pc => cases go <;> simp_all

end Demux

section Steps

variable {cfg : Config} {es fs : List Event} {c c' : State}

private theorem kept_demux (go : Demuxed cfg c c' fs) :
    c'.cmd = c.cmd ∧ c'.d.bExit = c.d.bExit ∧ c'.d.nMoveIdx = c.d.nMoveIdx ∧
      c'.d.bIsRerverse = c.d.bIsRerverse := by
  cases go with
  | turned pc back d kept =>
    exact ⟨rfl, kept.1, kept.2.2.1, kept.2.2.2.2.2.2.2.1.trans back.symm⟩
  | _ => exact ⟨rfl, rfl, rfl, rfl⟩

private theorem handing_demux (near : cfg.nChannel < 6) (h : Handing cfg es c)
    (hands : HandsOver es c .demux) (go : Demuxed cfg c c' fs) : Handing cfg (es ++ fs) c' := by
  obtain ⟨cmd, exit, idx, reverse⟩ := kept_demux go
  refine ⟨reverse.trans h.ahead, exit.trans h.playing, ?_, ?_, ?_, ?_⟩
  · intro pc
    cases go with
    | foundMove _ move => exact move
    | refused pc' | stuck pc' => simp_all
    | read => dsimp only at pc; split at pc <;> cases pc
    | turned _ _ d kept => rcases kept.2.2.2.2.2.2.2.2 with pc' | pc' <;> simp_all
    | _ => cases pc
  · intro nFrame stored
    rw [cmd] at stored
    exact idx.trans (h.storedIdx nFrame stored)
  · intro nFrame stored
    rw [cmd] at stored
    obtain ⟨file, frame⟩ := h.storedFrame nFrame stored
    refine ⟨idx.trans file, ?_⟩
    cases go with
    | clearedSeek pc =>
      have before := (hands.1 rfl (.inr (.inr pc))).2
      rw [stored] at before
      cases before
    | turned _ _ d kept => exact kept.2.2.2.1.trans frame
    | _ => exact frame
  · intro idle nFrame taken' aimed positive
    rw [cmd] at idle
    rw [goal_append] at aimed
    obtain ⟨taken, before⟩ := aimed_demux go aimed
    rw [before] at aimed
    have frame : 0 < (nFrame.toNat : ℤ) := by
      have : 0 < nFrame.toNat := UInt64.lt_iff_toNat_lt.mp positive
      omega
    exact onTheWay_demux frame near h.ahead h.playing hands
      (h.onTheWay idle nFrame taken before positive) go aimed

/-- A step of the sender concerns neither side of the hand-over. -/
private theorem Handing.beside (h : Handing cfg es c) (goal_same : goal (es ++ fs) = goal es)
    (d : c'.d = c.d) (cmd : c'.cmd = c.cmd) : Handing cfg (es ++ fs) c' := by
  refine ⟨?_, ?_, ?_, ?_, ?_, ?_⟩
  · rw [d]; exact h.ahead
  · rw [d]; exact h.playing
  · rw [d]; exact h.clearing
  · rw [d, cmd]; exact h.storedIdx
  · rw [d, cmd]; exact h.storedFrame
  · rw [d, cmd, goal_same]; exact h.onTheWay

private theorem seekFrameOf_eq {nFrame : UInt64} (small : nFrame.toNat < 2 ^ 31) :
    seekFrameOf nFrame = nFrame.toNat := by
  unfold seekFrameOf
  exact Int.bmod_eq_of_le (by omega) (by omega)

private theorem handing_step (near : cfg.nChannel < 6) {a : Act} (seeks : a.seeks = true)
    (h : Handing cfg es c) (hands : HandsOver es c a) (go : step cfg c a = some (c', fs)) :
    Handing cfg (es ++ fs) c' := by
  cases a with
  | demux => exact handing_demux near h hands (demux_cases go)
  | clock now₁ now₂ =>
    obtain ⟨-, rfl, s, rfl, -⟩ := clock_cases go
    exact h.beside (by simp) rfl rfl
  | get garbage =>
    obtain ⟨-, ⟨rfl, rfl⟩ | ⟨rfl, -, rfl⟩ | ⟨pkt, timeBase, rfl, -, rfl⟩⟩ := get_cases go
    · exact h.beside (by simp) rfl rfl
    · exact h.beside (by simp [aim]) rfl rfl
    · exact h.beside (by simp [aim]) rfl rfl
  | send =>
    obtain ⟨pkt, s, -, rfl, -, -, -, ⟨-, rfl, -⟩ | ⟨-, rfl, -⟩⟩ := send_cases go
    · exact h.beside (by simp [aim]) rfl rfl
    · exact h.beside (by simp [aim]) rfl rfl
  | ret =>
    obtain ⟨pkt, -, rfl, rfl⟩ := ret_cases go
    exact h.beside (by simp [aim]) rfl rfl
  | setMoveSec nSec =>
    obtain ⟨nFrame, idle, -, rfl, rfl⟩ := setMoveSec_cases go
    refine ⟨h.ahead, h.playing, h.clearing, ?_, by simp, by simp⟩
    rintro nFrame' same
    obtain rfl := MoveSec.storedIdx.inj same
    rfl
  | storeSeekFrame =>
    have small := hands.2 rfl
    obtain ⟨nFrame, frame, stored, value, rfl, rfl⟩ := storeSeekFrame_cases go
    rw [stored] at small
    rw [seekFrameOf_eq (by simpa [fits] using small)] at value
    refine ⟨h.ahead, h.playing, h.clearing, by simp, ?_, by simp⟩
    rintro nFrame' same
    obtain rfl := MoveSec.storedFrame.inj same
    exact ⟨h.storedIdx nFrame stored, value⟩
  | storeIsMove =>
    obtain ⟨nFrame, stored, rfl, rfl⟩ := storeIsMove_cases go
    obtain ⟨idx, frame⟩ := h.storedFrame nFrame stored
    refine ⟨h.ahead, h.playing, fun _ => rfl, by simp, by simp, ?_⟩
    intro _ nFrame' taken aimed _
    obtain ⟨rfl, rfl⟩ := Prod.mk.inj (Option.some.inj (by simpa [aim] using aimed))
    exact .due false rfl idx frame
  | setReverse | exit => simp [Act.seeks, Act.plays] at seeks

end Steps

/-- In a run in which `Demux` never acts on a seek frame ahead of its move flag, a settled channel
is where the last command sent it. -/
theorem last_seek_arrives (cfg : Config) (near : cfg.nChannel < 6) (acts : List Act)
    (hands : Meets (restrict Act.seeks (step cfg)) HandsOver (.start cfg) acts) :
    Throughout (restrict Act.seeks (step cfg)) (OnTarget cfg) (.start cfg) acts := by
  refine Throughout.of_meets (fun bs ds m run hands => ?_) hands
  have handing : Handing cfg ds m := by
    apply run.guarded_invariant hands (handing_start cfg)
    intro ds m a n gs h own go
    obtain ⟨seeks, taken⟩ := restrict_eq_some.mp go
    exact handing_step near seeks h own taken
  exact handing.onTarget

def twoFrames : File where
  frame := 2
  opens := true
  hasVideo := true
  initsFilter := true
  startTime := 0
  timeBase := ⟨1, 1⟩
  packets := [⟨[0], 0⟩, ⟨[1], 1⟩]
  seekTm := fun frame => frame % 2
  seekFile := fun tm => some ([⟨[0], 0⟩, ⟨[1], 1⟩].drop tm.toNat)

def twoFiles : Config where
  files := [twoFrames, twoFrames]
  filter := some
  nChannel := 0
  num := 1
  den := 1
  gop := 1
  stray := false

/-- `Demux` takes some statements, a seek to second 3 comes in, and `Demux` goes on. -/
def seekAfter (before after : ℕ) : List Act :=
  List.replicate before .demux ++ [.setMoveSec 3, .storeSeekFrame, .storeIsMove] ++
    List.replicate after .demux

theorem last_seek_arrives_at_move_test :
    Throughout (restrict Act.seeks (step twoFiles)) (OnTarget twoFiles) (.start twoFiles)
      (seekAfter 1 9) :=
  last_seek_arrives twoFiles (by decide) (seekAfter 1 9)
    (Meets.of_check (fun _ _ _ => of_decide_eq_true) (by decide))

/-- The stores that come between the two tests lose their frame in the old file. -/
theorem seek_between_tests_is_lost :
    ¬ ∀ acts : List Act, Throughout (restrict Act.seeks (step twoFiles)) (OnTarget twoFiles)
      (.start twoFiles) acts := by
  intro claim
  have found : (exec (restrict Act.seeks (step twoFiles)) (.start twoFiles)
      (seekAfter 2 12)).map (fun r : State × List Event => decide (
        goal r.2 = some (3, true) ∧ r.1.cmd = .idle ∧ r.1.d.isMove = false ∧
          r.1.d.nSeekFrame = 0 ∧ DemuxPc.reading r.1.d.pc = true ∧
          r.1.d.fmtCtx.map AVFormatContext.sought = some none)) = some true := by decide
  obtain ⟨c, es, run, seen⟩ := Run.exists_of_exec found
  obtain ⟨aimed, idle, move, seek, reading, unsought⟩ := of_decide_eq_true seen
  obtain ⟨ctx, context, -, sought⟩ := claim (seekAfter 2 12) (seekAfter 2 12) [] es c (by simp)
    run 3 true aimed (by decide) ⟨idle, move, seek, reading⟩
  simp [context, sought] at unsought

end Tsender.Channel.SeekHandoff
