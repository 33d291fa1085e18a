/- Tsender/Channel/AudioOnce
   source: demuxer.cpp (Demux audio loop), queue.cpp (PutAudio)
   digest: PutAudio returns 0 also when it has stored the block, so that the block counts as
   unsent for ever: a channel stores what the files hold only where it stores nothing. -/

import Tsender.Channel.Audio

set_option autoImplicit false
set_option relaxedAutoImplicit false

namespace Tsender.Channel.Audio

open Lib.Transition Queue Queue.AudioDelivery

def AudioFile.plays (file : AudioFile) : Bool := file.frame ≠ 0 && file.opens

def played (cfg : Config) : List AudioFile := cfg.files.takeWhile AudioFile.plays

/-- The complete consecutive blocks of a file. -/
def completeBlocks (content : List UInt8) : List Block :=
  List.ofFn fun k : Fin (content.length / audioBlockSize) =>
    ⟨(content.drop (audioBlockSize * k)).take audioBlockSize, by
      have whole : audioBlockSize * (k.val + 1) ≤ content.length :=
        (Nat.mul_le_mul_left _ k.isLt).trans (Nat.mul_div_le _ _)
      rw [Nat.mul_succ] at whole
      simp only [List.length_take, List.length_drop]
      omega⟩

def fileBlocks (cfg : Config) : List Block :=
  cfg.files.flatMap fun file => completeBlocks file.content

def StoredOnce (cfg : Config) (es : List FeedEvent) : Prop := accepted es <+: fileBlocks cfg

section OneShortFile

def OneShortFile (cfg : Config) : Prop :=
  ∀ file rest, played cfg = file :: rest → file.content.length < audioBlockSize ∧ rest = []

variable {cfg : Config}

def Last (cfg : Config) : Prop := ∀ file, fileAt cfg 1 = some file → file.plays = false

theorem OneShortFile.first (few : OneShortFile cfg) {file : AudioFile}
    (found : fileAt cfg 0 = some file) (plays : file.plays = true) :
    file.content.length < audioBlockSize ∧ Last cfg := by
  cases files : cfg.files with
  | nil => simp [fileAt, files] at found
  | cons f rest =>
    obtain rfl : f = file := by simpa [fileAt, files] using found
    obtain ⟨short, none_after⟩ := few f (rest.takeWhile AudioFile.plays) (by
      rw [played, files, List.takeWhile_cons_of_pos plays])
    refine ⟨short, fun g second => ?_⟩
    cases rest with
    | nil => simp [fileAt, files] at second
    | cons h later =>
      obtain rfl : h = g := by simpa [fileAt, files] using second
      by_contra goes
      rw [List.takeWhile_cons_of_pos (by simpa using goes)] at none_after
      cases none_after

/-- Where `Demux` can be, and in what state, when the only file it plays is short. -/
def Place (cfg : Config) (d : CDemuxer) : Prop :=
  match d.pc with
  | .fileTop => d.i = 0 ∧ d.isAudioRead = false ∨ d.i = 1 ∧ Last cfg
  | .testMove | .testSeek | .testRead | .read =>
      d.i = 0 ∧ d.isAudioRead = false ∧ Last cfg ∧
        ∃ file : AudioFile, d.ifs = .of file ∧ file.content.length < audioBlockSize
  | .testEof => d.i = 0 ∧ Last cfg ∧ d.ifs.eof = true
  | .fileEnd => d.i = 0 ∧ Last cfg
  | .done => True
  | _ => False

structure Silent (cfg : Config) (es : List FeedEvent) (c : State) : Prop where
  stored : accepted es = []
  stays : c.d.isMove = false
  unsought : c.d.nSeekFrame = 0
  unpaused : c.d.isPause = false
  place : Place cfg c.d

private theorem silent_start : Silent cfg [] .start := ⟨rfl, rfl, rfl, rfl, .inl ⟨rfl, rfl⟩⟩

private theorem read_short {file : AudioFile} (short : file.content.length < audioBlockSize) :
    (Ifstream.of file).read.1.eof = true := by
  simp [Ifstream.of, Ifstream.read, short]

private theorem silent_openFile {es fs : List FeedEvent} {c c' : State} (few : OneShortFile cfg)
    (h : Silent cfg es c) (pc : c.d.pc = .fileTop) (step : openFile cfg c = some (c', fs)) :
    Silent cfg (es ++ fs) c' := by
  have place := h.place
  simp only [Place, pc] at place
  have stop : Silent cfg (es ++ []) { c with d := { c.d with pc := .done } } :=
    ⟨by simpa using h.stored, h.stays, h.unsought, h.unpaused, trivial⟩
  simp only [openFile] at step
  split at step
  · cases step
    exact stop
  · rename_i file found
    split at step
    · cases step
      exact stop
    · rename_i opens
      have plays : file.plays = true := by
        simp only [not_or, Bool.not_eq_false] at opens
        simp [AudioFile.plays, opens.2.1, opens.2.2]
      cases step
      rcases place with ⟨zero, unread⟩ | ⟨one, last⟩
      · rw [zero] at found
        obtain ⟨short, last⟩ := few.first found plays
        exact ⟨by simpa using h.stored, h.stays, h.unsought, h.unpaused,
          zero, unread, last, file, rfl, short⟩
      · rw [one] at found
        rw [last file found] at plays
        cases plays

private theorem silent_demux {es fs : List FeedEvent} {c c' : State} {garbage : Block}
    (few : OneShortFile cfg) (h : Silent cfg es c) (step : demux cfg c garbage = some (c', fs)) :
    Silent cfg (es ++ fs) c' := by
  have stored : accepted (es ++ []) = [] := by simpa using h.stored
  have place := h.place
  simp only [demux] at step
  cases pc : c.d.pc <;> rw [pc] at step <;> simp only [Place, pc] at place <;> dsimp only at step
  case fileTop => exact silent_openFile few h pc step
  case testMove =>
    cases step
    obtain ⟨zero, unread, last, opened⟩ := place
    refine ⟨stored, h.stays, h.unsought, h.unpaused, ?_⟩
    cases c.d.bExit with
    | true => exact ⟨zero, last⟩
    | false =>
      simp only [h.stays, Place]
      exact ⟨zero, unread, last, opened⟩
  case testSeek =>
    cases step
    refine ⟨stored, h.stays, h.unsought, h.unpaused, ?_⟩
    simp only [h.unsought, Place]
    exact place
  case testRead =>
    cases step
    have reads : c.d.isPause = false ∧ c.d.isAudioRead = false := ⟨h.unpaused, place.2.1⟩
    refine ⟨stored, h.stays, h.unsought, h.unpaused, ?_⟩
    simp only [if_pos reads, Place]
    exact place
  case read =>
    cases step
    obtain ⟨zero, -, last, file, opened, short⟩ := place
    exact ⟨stored, h.stays, h.unsought, h.unpaused, zero, last,
      by rw [opened]; exact read_short short⟩
  case testEof =>
    cases step
    refine ⟨stored, h.stays, h.unsought, h.unpaused, ?_⟩
    simp only [place.2.2, Place]
    exact ⟨place.1, place.2.1⟩
  case fileEnd =>
    cases step
    refine ⟨stored, h.stays, h.unsought, h.unpaused, .inr ⟨?_, place.2⟩⟩
    simp [place.1]
  case done => cases step

theorem consumes_stores_nothing {f g : Feed} {fs : List FeedEvent} {a : FeedAct}
    (step : restrict consumes feedStep f a = some (g, fs)) : accepted fs = [] := by
  obtain ⟨call, step⟩ := restrict_eq_some.mp step
  cases a with
  | put b startPts => cases call
  | get =>
    simp only [feedStep] at step
    split at step <;> cases step <;> rfl
  | ret =>
    simp only [feedStep] at step
    split at step <;> cases step
    rfl
  | enable | disable =>
    cases step
    rfl

private theorem silent_step {es fs : List FeedEvent} {c c' : State} {a : Act}
    (few : OneShortFile cfg)
    (h : Silent cfg es c) (next : restrict Act.plays (step cfg) c a = some (c', fs)) :
    Silent cfg (es ++ fs) c' := by
  obtain ⟨play, next⟩ := restrict_eq_some.mp next
  cases a with
  | demux garbage => exact silent_demux few h next
  | queue b =>
    simp only [step] at next
    split at next
    · cases next
    · rename_i feed gs call
      cases next
      exact ⟨by rw [accepted_append, h.stored, consumes_stores_nothing call]; rfl,
        h.stays, h.unsought, h.unpaused, h.place⟩
  | exit =>
    cases next
    exact ⟨by simpa using h.stored, h.stays, h.unsought, h.unpaused, h.place⟩
  | storeMoveIdx _ | storeSeekFrame _ | storeIsMove | setPause _ | setReverse _ | setSpeed _ =>
    cases play

end OneShortFile

section Again

variable {cfg : Config} {c : State} {blocks : List Block}

/-- A turn of the loop that is about to store whatever the buffer holds: the flag says that a
block is read, and no error, command or end of the file stops it. -/
structure Ready (c : State) (blocks : List Block) : Prop where
  pc : c.d.pc = .testMove
  stays : c.d.isMove = false
  goesOn : c.d.bExit = false
  unsought : c.d.nSeekFrame = 0
  unpaused : c.d.isPause = false
  ahead : c.d.bIsRerverse = false
  normal : c.d.nSpeed = 1
  isRead : c.d.isAudioRead = true
  more : c.d.ifs.eof = false
  holds : HoldsAudio c.feed.q blocks

private theorem put_room (holds : HoldsAudio c.feed.q blocks)
    (room : blocks.length < maxNumAudioQueue) : ∃ q, HoldsAudio q (blocks ++ [c.d.audioBuf]) ∧
      put c = some (⟨{ c.d with pc := .testMove }, { c.feed with q := q }⟩,
        [.accepted c.d.audioBuf]) := by
  obtain ⟨held, counted⟩ := putAudio_room c.d.audioBuf c.d.seekPts holds room
  refine ⟨_, held, ?_⟩
  have taken : feedStep c.feed (.put c.d.audioBuf c.d.seekPts) = some ({ c.feed with
      q := (c.feed.q.putAudio c.d.audioBuf.1 c.d.seekPts).1 }, [.accepted c.d.audioBuf]) := by
    simp [feedStep, counted]
  simp only [put, taken, returned_putAudio, lt_irrefl, if_false]

theorem Ready.turn (cfg : Config) (h : Ready c blocks)
    (room : blocks.length < maxNumAudioQueue) (b : Block) :
    ∃ as c', Run (restrict Act.plays (step cfg)) c as [.accepted b] c' ∧
      Ready c' (blocks ++ [b]) := by
  let atPut : State := { c with d := { c.d with audioBuf := b, pc := .put } }
  have reached : Run (restrict Act.plays (step cfg)) c (List.replicate 6 (.demux b)) [] atPut := by
    apply Run.of_exec
    simp [exec, restrict, Act.plays, step, demux, h.pc, h.goesOn, h.stays, h.unsought, h.unpaused,
      h.isRead, h.more, h.ahead, h.normal, atPut]
  obtain ⟨q, held, put_done⟩ := put_room (c := atPut) h.holds room
  have last : restrict Act.plays (step cfg) atPut (.demux b) = put atPut := rfl
  refine ⟨_, _, reached.snoc (last.trans put_done), ?_⟩
  exact ⟨rfl, h.stays, h.goesOn, h.unsought, h.unpaused, h.ahead, h.normal, h.isRead, h.more,
    held⟩

def afterRead (file : AudioFile) : State :=
  { State.start with d := { State.start.d with
    lastFrame := UInt64.ofInt file.frame
    ifs := (Ifstream.of file).read.1
    audioBuf := fill noBlock (Ifstream.of file).read.2
    nAudioCount := State.start.d.nAudioCount + 1
    isAudioRead := true
    pc := .testEof } }

private theorem plays_iff {file : AudioFile} :
    file.plays = true ↔ ¬ (file.frame = 0 ∨ file.opens = false) := by
  simp [AudioFile.plays]

private theorem run_afterRead {file : AudioFile} (found : fileAt cfg 0 = some file)
    (plays : file.plays = true) :
    Run (restrict Act.plays (step cfg)) .start (List.replicate 5 (.demux noBlock)) []
      (afterRead file) := by
  have opens := plays_iff.mp plays
  apply Run.of_exec
  simp [exec, restrict, Act.plays, step, demux, openFile, State.start, found, opens, afterRead]

private theorem read_long {file : AudioFile} (long : audioBlockSize ≤ file.content.length) :
    (Ifstream.of file).read.1.eof = false := by
  simp [Ifstream.of, Ifstream.read, long]

private theorem ready_of_long {file : AudioFile} (found : fileAt cfg 0 = some file)
    (plays : file.plays = true) (long : audioBlockSize ≤ file.content.length) :
    ∃ as c b, Run (restrict Act.plays (step cfg)) .start as [.accepted b] c ∧ Ready c [b] := by
  let atPut : State := { afterRead file with d := { (afterRead file).d with pc := .put } }
  have more : (afterRead file).d.ifs.eof = false := read_long long
  have reached : Run (restrict Act.plays (step cfg)) (afterRead file)
      (List.replicate 3 (.demux noBlock)) [] atPut := by
    apply Run.of_exec
    simp only [afterRead] at more
    simp [exec, restrict, Act.plays, step, demux, State.start, afterRead, atPut, more]
  obtain ⟨q, held, put_done⟩ := put_room (c := atPut) holdsAudio_new (by decide)
  have last : restrict Act.plays (step cfg) atPut (.demux noBlock) = put atPut := rfl
  refine ⟨_, _, _, ((run_afterRead found plays).trans reached).snoc (last.trans put_done), ?_⟩
  exact ⟨rfl, rfl, rfl, rfl, rfl, rfl, rfl, rfl, more, held⟩

private theorem ready_of_short {file second : AudioFile} (found : fileAt cfg 0 = some file)
    (plays : file.plays = true) (short : file.content.length < audioBlockSize)
    (next : fileAt cfg 1 = some second) (goes : second.plays = true) :
    ∃ as c, Run (restrict Act.plays (step cfg)) .start as [] c ∧ Ready c [] := by
  let opened : State := { afterRead file with d := { (afterRead file).d with
    i := 1
    lastFrame := UInt64.ofInt second.frame
    ifs := .of second
    pc := .testMove } }
  have ended : (afterRead file).d.ifs.eof = true := read_short short
  have opens := plays_iff.mp goes
  have reached : Run (restrict Act.plays (step cfg)) (afterRead file)
      (List.replicate 3 (.demux noBlock)) [] opened := by
    apply Run.of_exec
    simp only [afterRead] at ended
    simp [exec, restrict, Act.plays, step, demux, openFile, State.start, afterRead, opened, ended,
      next, opens]
  refine ⟨_, _, (run_afterRead found plays).trans reached, ?_⟩
  exact ⟨rfl, rfl, rfl, rfl, rfl, rfl, rfl, rfl, rfl, holdsAudio_new⟩

private theorem exists_other (l : List Block) (n : ℕ) : ∃ b : Block, l[n]? ≠ some b := by
  by_contra none_other
  simp only [ne_eq, not_exists, not_not] at none_other
  have zeros := none_other noBlock
  have ones := none_other ⟨List.replicate audioBlockSize 1, rfl⟩
  rw [zeros] at ones
  exact absurd ones (by decide)

end Again

private theorem played_cons {cfg : Config} {file : AudioFile} {rest : List AudioFile}
    (whole : played cfg = file :: rest) :
    fileAt cfg 0 = some file ∧ file.plays = true ∧
      ∀ second later, rest = second :: later →
        fileAt cfg 1 = some second ∧ second.plays = true := by
  cases files : cfg.files with
  | nil => simp [played, files] at whole
  | cons f more =>
    rw [played, files, List.takeWhile_cons] at whole
    split at whole
    · rename_i plays
      obtain ⟨rfl, rfl⟩ := List.cons.inj whole
      refine ⟨by simp [fileAt, files], plays, fun second later next => ?_⟩
      cases more with
      | nil => cases next
      | cons g tail =>
        rw [List.takeWhile_cons] at next
        split at next
        · rename_i goes
          obtain ⟨rfl, -⟩ := List.cons.inj next
          exact ⟨by simp [fileAt, files], goes⟩
        · cases next
    · cases whole

/-- In every run of an audio channel without seek, pause, reverse or change of speed the blocks
stored are the first blocks of the files if and only if the channel plays no file or one that
has no complete block. -/
theorem audio_stored_once_iff (cfg : Config) :
    (∀ (acts : List Act) (es : List FeedEvent) (c : State),
      Run (restrict Act.plays (step cfg)) .start acts es c → StoredOnce cfg es) ↔
    OneShortFile cfg := by
  constructor
  · intro once file rest whole
    obtain ⟨found, plays, later⟩ := played_cons whole
    -- The buffer of the turn in which the flag is set by mistake holds another block than the next.
    have short : file.content.length < audioBlockSize := by
      by_contra long
      obtain ⟨as, c, first, run, ready⟩ := ready_of_long found plays (not_lt.mp long)
      obtain ⟨b, other⟩ := exists_other (fileBlocks cfg) 1
      obtain ⟨bs, c', again, -⟩ := ready.turn cfg (Nat.one_lt_succ_succ 31) b
      obtain ⟨rest, blocks⟩ := once _ _ _ (run.trans again)
      rw [← blocks] at other
      exact other rfl
    refine ⟨short, ?_⟩
    cases rest with
    | nil => rfl
    | cons second more =>
      obtain ⟨next, goes⟩ := later second more rfl
      obtain ⟨as, c, run, ready⟩ := ready_of_short found plays short next goes
      obtain ⟨b, other⟩ := exists_other (fileBlocks cfg) 0
      obtain ⟨bs, c', again, -⟩ := ready.turn cfg (Nat.succ_pos 32) b
      obtain ⟨rest, blocks⟩ := once _ _ _ (run.trans again)
      rw [← blocks] at other
      exact absurd rfl other
  · intro few acts es c run
    have silent : Silent cfg es c :=
      run.invariant silent_start fun _ _ _ _ _ h next => silent_step few h next
    simp [StoredOnce, silent.stored]

def twoBlocks : Config where
  files := [⟨2, true, List.replicate 24 0 ++ List.replicate 24 1⟩]
  num := 1
  den := 1

/-- The buffer, at the same place of the stack in every turn, still holds the first block in the
second turn, and the first block is stored again. -/
theorem first_block_stored_twice :
    ¬ ∀ (cfg : Config) (acts : List Act) (es : List FeedEvent) (c : State),
      Run (restrict Act.plays (step cfg)) .start acts es c → StoredOnce cfg es := by
  intro claim
  have found : (exec (restrict Act.plays (step twoBlocks)) .start
      (List.replicate 16 (.demux noBlock))).map (fun r =>
        decide (accepted r.2 = [noBlock, noBlock])) = some true := by decide +kernel
  obtain ⟨c, es, run, seen⟩ := Run.exists_of_exec found
  have once := claim _ _ _ _ run
  rw [StoredOnce, of_decide_eq_true seen] at once
  exact absurd once (by decide +kernel)

end Tsender.Channel.Audio
