/- Tsender/Channel/Steps
   digest: What one step of a channel can do: one case for each way through a statement of
   Demux, and one lemma for each step of the sender. -/

import Tsender.Channel.Model
import Tsender.Queue.VideoRing

set_option autoImplicit false
set_option relaxedAutoImplicit false

namespace Tsender.Channel

open Queue

/-- The ways a statement of `Demux` can go. -/
inductive Demuxed (cfg : Config) (c : State) : State → List Event → Prop
  | stopped (pc : c.d.pc = .fileTop) :
      Demuxed cfg c { c with d := { c.d with pc := .done } } []
  | unfiltered (pc : c.d.pc = .fileTop) (file : File) (found : fileAt cfg c.d.i = some file)
      (first : c.d.i = 0) :
      Demuxed cfg c { c with
        d := { c.d with
          fmtCtx := some ⟨c.d.opened, c.d.i.toNat, file.packets, none⟩
          opened := c.d.opened + 1
          pc := .done }
        s := { c.s with fmtCtx := if file.hasVideo then .ctx c.d.opened else c.s.fmtCtx } }
        [.opened c.d.i.toNat]
  | opened (pc : c.d.pc = .fileTop) (file : File) (found : fileAt cfg c.d.i = some file)
      (frames : file.frame ≠ 0) :
      Demuxed cfg c { c with
        d := { c.d with
          fmtCtx := some ⟨c.d.opened, c.d.i.toNat, file.packets, none⟩
          opened := c.d.opened + 1
          pkt := emptyPkt
          fileFirstPts := 0
          pc := .testMove }
        s := { c.s with fmtCtx := if file.hasVideo then .ctx c.d.opened else c.s.fmtCtx } }
        [.opened c.d.i.toNat]
  | left (pc : c.d.pc = .testMove) (exit : c.d.bExit = true) :
      Demuxed cfg c { c with d := { c.d with pc := .fileEnd } } []
  | foundMove (pc : c.d.pc = .testMove) (move : c.d.isMove = true) :
      Demuxed cfg c { c with d := { c.d with pc := .clearMove } } []
  | noMove (pc : c.d.pc = .testMove) (stay : c.d.isMove = false) :
      Demuxed cfg c { c with d := { c.d with pc := .testSeek } } []
  | clearedMove (pc : c.d.pc = .clearMove) :
      Demuxed cfg c { c with d := { c.d with isMove := false, pc := .readMove } } []
  | moved (pc : c.d.pc = .readMove) (i : ℤ)
      (index : c.d.bIsRerverse = false → i = c.d.nMoveIdx - 1) :
      Demuxed cfg c { c with d := { c.d with i := i, pc := .fileEnd } } [.moved i]
  | foundSeek (pc : c.d.pc = .testSeek) (seek : 0 < c.d.nSeekFrame) :
      Demuxed cfg c { c with d := { c.d with pc := .doSeek } } []
  | passed (pc : c.d.pc = .testSeek) (no_seek : ¬ 0 < c.d.nSeekFrame) :
      Demuxed cfg c { c with d := { c.d with pc := .reverse } } [.passed]
  | sought (pc : c.d.pc = .doSeek) (ctx : AVFormatContext) (file : File)
      (context : c.d.fmtCtx = some ctx) (found : cfg.files[ctx.file]? = some file)
      (near : cfg.nChannel < 6) :
      Demuxed cfg c { c with d := { c.d with
        fmtCtx := some { ctx with
          rest := (file.seekFile (file.seekTm c.d.nSeekFrame)).getD ctx.rest
          sought := some c.d.nSeekFrame }
        seekPts := seekPtsOf file.timeBase (file.seekTm c.d.nSeekFrame)
        pc := .clearSeek } } [.sought c.d.nSeekFrame]
  | soughtFar (pc : c.d.pc = .doSeek) (far : ¬ cfg.nChannel < 6) :
      Demuxed cfg c { c with d := { c.d with pc := .clearSeek } } [.sought c.d.nSeekFrame]
  | clearedSeek (pc : c.d.pc = .clearSeek) :
      Demuxed cfg c { c with d := { c.d with nSeekFrame := 0, pc := .reverse } } []
  | turned (pc : c.d.pc = .reverse) (back : c.d.bIsRerverse = true) (d : CDemuxer)
      (kept : d.bExit = c.d.bExit ∧ d.isMove = c.d.isMove ∧ d.nMoveIdx = c.d.nMoveIdx ∧
        d.nSeekFrame = c.d.nSeekFrame ∧ d.seekPts = c.d.seekPts ∧ d.pkt = c.d.pkt ∧
        d.reads = c.d.reads ∧ d.bIsRerverse = true ∧ (d.pc = .readFrame ∨ d.pc = .fileEnd)) :
      Demuxed cfg c { c with d := d } []
  | forward (pc : c.d.pc = .reverse) (ahead : c.d.bIsRerverse = false) :
      Demuxed cfg c { c with d := { c.d with reverseCount := 0, pc := .readFrame } } []
  | ended (pc : c.d.pc = .readFrame) (ctx : AVFormatContext) (context : c.d.fmtCtx = some ctx)
      (rest : ctx.rest = []) :
      Demuxed cfg c { c with d := { c.d with
        pkt := emptyPkt, fmtCtx := none, pc := .fileEnd } } [.eof]
  | dropped (pc : c.d.pc = .readFrame) (ctx : AVFormatContext) (payload : Payload)
      (rest : List Payload) (first : UInt64) (context : c.d.fmtCtx = some ctx)
      (next : ctx.rest = payload :: rest) (filtered : cfg.filter payload = none) :
      Demuxed cfg c { c with d := { c.d with
        fmtCtx := some { ctx with rest := rest }
        fileFirstPts := first
        reads := c.d.reads + 1
        pkt := .blank
        pc := .testMove } } []
  | read (pc : c.d.pc = .readFrame) (ctx : AVFormatContext) (payload out : Payload)
      (rest : List Payload) (first : UInt64) (context : c.d.fmtCtx = some ctx)
      (next : ctx.rest = payload :: rest) (filtered : cfg.filter payload = some out) :
      Demuxed cfg c { c with d := { c.d with
        fmtCtx := some { ctx with rest := rest }
        fileFirstPts := first
        reads := c.d.reads + 1
        pkt := ⟨some c.d.reads, out.data, out.pts⟩
        pc := if 0 < out.data.length then .put else .testMove } }
        [.read ⟨some c.d.reads, out.data, out.pts⟩]
  | putExit (pc : c.d.pc = .put) (exit : c.d.bExit = true) :
      Demuxed cfg c { c with d := { c.d with pc := .testMove } } []
  | accepted (pc : c.d.pc = .put) (size : 0 < (c.q.putVideo c.d.pkt c.d.seekPts).2) :
      Demuxed cfg c { c with
        d := { c.d with pc := .testMove }
        q := (c.q.putVideo c.d.pkt c.d.seekPts).1 } [.accepted c.d.pkt]
  | refused (pc : c.d.pc = .put) (size : ¬ 0 < (c.q.putVideo c.d.pkt c.d.seekPts).2) :
      Demuxed cfg c { c with q := (c.q.putVideo c.d.pkt c.d.seekPts).1 } [.refused]
  | stuck (pc : c.d.pc = .put) : Demuxed cfg c c []
  | closed (pc : c.d.pc = .fileEnd) :
      Demuxed cfg c { c with d := { c.d with fmtCtx := none, i := c.d.i + 1, pc := .fileTop } } []

section Inversion

variable {cfg : Config} {c c' : State} {es : List Event}

private theorem openFile_cases (pc : c.d.pc = .fileTop) (step : openFile cfg c = some (c', es)) :
    Demuxed cfg c c' es := by
  simp only [openFile] at step
  split at step
  · cases step
    exact .stopped pc
  · rename_i file found
    split at step
    · cases step
      exact .stopped pc
    · rename_i opens
      split at step
      · rename_i bare
        cases step
        exact .unfiltered pc file found bare.1
      · cases step
        exact .opened pc file found fun none_left => opens (.inr (.inl none_left))

private theorem testMove_cases (pc : c.d.pc = .testMove) (step : testMove c = some (c', es)) :
    Demuxed cfg c c' es := by
  cases step
  cases exit : c.d.bExit with
  | true => simpa [exit] using Demuxed.left pc exit
  | false =>
    cases move : c.d.isMove with
    | true => simpa [exit, move] using Demuxed.foundMove pc move
    | false => simpa [exit, move] using Demuxed.noMove pc move

private theorem readMove_cases (pc : c.d.pc = .readMove) (step : readMove c = some (c', es)) :
    Demuxed cfg c c' es := by
  cases step
  exact .moved pc _ fun ahead => if_pos ahead

private theorem testSeek_cases (pc : c.d.pc = .testSeek) (step : testSeek c = some (c', es)) :
    Demuxed cfg c c' es := by
  simp only [testSeek] at step
  split at step
  · rename_i seek
    cases step
    exact .foundSeek pc seek
  · rename_i no_seek
    cases step
    exact .passed pc no_seek

private theorem doSeek_cases (pc : c.d.pc = .doSeek) (step : doSeek cfg c = some (c', es)) :
    Demuxed cfg c c' es := by
  simp only [doSeek] at step
  split at step
  · cases step
  · rename_i d sought
    cases step
    simp only [CDemuxer.seekFrame] at sought
    split at sought
    · cases sought
    · rename_i ctx context
      split at sought
      · cases sought
      · rename_i file found
        split at sought
        · rename_i near
          split at sought
          · cases sought
          · obtain rfl := Option.some.inj sought
            exact .sought pc ctx file context found near
        · rename_i far
          obtain rfl := Option.some.inj sought
          exact .soughtFar pc far

private theorem stepBack_kept {d d' : CDemuxer} {ok : Bool}
    (back : d.stepBack cfg = some (d', ok)) :
    d'.bExit = d.bExit ∧ d'.isMove = d.isMove ∧ d'.nMoveIdx = d.nMoveIdx ∧
      d'.nSeekFrame = d.nSeekFrame ∧ d'.seekPts = d.seekPts ∧ d'.pkt = d.pkt ∧
      d'.reads = d.reads ∧ d'.bIsRerverse = d.bIsRerverse := by
  simp only [CDemuxer.stepBack] at back
  split at back
  · cases back
  · split at back
    · cases back
    · split at back
      · cases back
      · split at back
        · split at back
          · obtain ⟨rfl, -⟩ := Prod.mk.inj (Option.some.inj back)
            exact ⟨rfl, rfl, rfl, rfl, rfl, rfl, rfl, rfl⟩
          · split at back
            · cases back
            · obtain ⟨rfl, -⟩ := Prod.mk.inj (Option.some.inj back)
              exact ⟨rfl, rfl, rfl, rfl, rfl, rfl, rfl, rfl⟩
        · obtain ⟨rfl, -⟩ := Prod.mk.inj (Option.some.inj back)
          exact ⟨rfl, rfl, rfl, rfl, rfl, rfl, rfl, rfl⟩

private theorem reverse_cases (pc : c.d.pc = .reverse) (step : reverse cfg c = some (c', es)) :
    Demuxed cfg c c' es := by
  simp only [reverse] at step
  split at step
  · rename_i back
    split at step
    · cases step
    · rename_i d stepped
      cases step
      obtain ⟨h₁, h₂, h₃, h₄, h₅, h₆, h₇, h₈⟩ := stepBack_kept stepped
      exact .turned pc back _ ⟨h₁, h₂, h₃, h₄, h₅, h₆, h₇, h₈.trans back, .inl rfl⟩
    · rename_i d stepped
      cases step
      obtain ⟨h₁, h₂, h₃, h₄, h₅, h₆, h₇, h₈⟩ := stepBack_kept stepped
      exact .turned pc back _ ⟨h₁, h₂, h₃, h₄, h₅, h₆, h₇, h₈.trans back, .inr rfl⟩
  · rename_i ahead
    cases step
    exact .forward pc (by simpa using ahead)

private theorem readFrame_cases (pc : c.d.pc = .readFrame)
    (step : readFrame cfg c = some (c', es)) : Demuxed cfg c c' es := by
  simp only [readFrame] at step
  split at step
  · cases step
  · rename_i ctx context
    split at step
    · rename_i rest
      cases step
      exact .ended pc ctx context rest
    · rename_i payload rest next
      split at step
      · cases step
      · split at step
        · rename_i filtered
          cases step
          exact .dropped pc ctx payload rest _ context next filtered
        · rename_i out filtered
          cases step
          exact .read pc ctx payload out rest _ context next filtered

private theorem put_cases (pc : c.d.pc = .put) (step : put c = some (c', es)) :
    Demuxed cfg c c' es := by
  simp only [put] at step
  split at step
  · rename_i exit
    cases step
    exact .putExit pc exit
  · split at step
    · split at step
      · rename_i size
        cases step
        exact .accepted pc size
      · rename_i size
        cases step
        exact .refused pc size
    · cases step
      exact .stuck pc

theorem demux_cases (step : demux cfg c = some (c', es)) : Demuxed cfg c c' es := by
  simp only [demux] at step
  split at step
  · exact openFile_cases ‹_› step
  · exact testMove_cases ‹_› step
  · cases step
    exact .clearedMove ‹_›
  · exact readMove_cases ‹_› step
  · exact testSeek_cases ‹_› step
  · exact doSeek_cases ‹_› step
  · cases step
    exact .clearedSeek ‹_›
  · exact reverse_cases ‹_› step
  · exact readFrame_cases ‹_› step
  · exact put_cases ‹_› step
  · cases step
    exact .closed ‹_›
  · cases step

theorem clock_cases {now₁ now₂ : ℤ} (step : runHead cfg c now₁ now₂ = some (c', es)) :
    c.s.pc = .head ∧ es = [] ∧ ∃ s : CSender, c' = { c with s := s } ∧
      (s.pc = .get ∨ s.pc = .head) ∧ s.seekPts = c.s.seekPts ∧ s.seekOldPts = c.s.seekPts ∧
      (c.s.seekPts = c.s.seekOldPts → s.skipCnt = c.s.skipCnt) := by
  simp only [runHead] at step
  split at step
  · rename_i pc
    cases step
    refine ⟨pc, rfl, _, rfl, ?_, rfl, rfl, fun same => by simp [same]⟩
    dsimp only
    split
    · exact .inl rfl
    · exact .inr rfl
  · cases step

theorem get_cases {garbage : AVRational} (step : runGet cfg c garbage = some (c', es)) :
    c.s.pc = .get ∧
      ((es = [] ∧ c' = { c with s := { c.s with pc := .head } }) ∨
        (es = [.polled c.q.startPts none] ∧ c.q.getVideo.2.2 = none ∧
          c' = { c with
            q := c.q.getVideo.1
            s := { c.s with seekPts := c.q.startPts, pc := .head } }) ∨
        ∃ (pkt : AVPacket) (timeBase : AVRational),
          es = [.polled c.q.startPts (some pkt)] ∧ c.q.getVideo.2.2 = some pkt ∧
          c' = { c with
            q := c.q.getVideo.1
            s := { c.s with
              seekPts := c.q.startPts, timeBase := timeBase, pStream := true
              pc := .send pkt } }) := by
  simp only [runGet] at step
  split at step
  · rename_i pc
    refine ⟨pc, ?_⟩
    split at step
    · cases step
      exact .inl ⟨rfl, rfl⟩
    · split at step
      · rename_i q startPts none_got
        cases step
        have reported := reported_getVideo c.q
        rw [none_got] at reported
        obtain rfl : startPts = c.q.startPts := reported
        exact .inr (.inl ⟨rfl, by rw [none_got], by rw [none_got]⟩)
      · rename_i q startPts pkt got
        cases step
        have reported := reported_getVideo c.q
        rw [got] at reported
        obtain rfl : startPts = c.q.startPts := reported
        exact .inr (.inr ⟨pkt, _, rfl, by rw [got], by rw [got]⟩)
  · cases step

theorem send_cases (step : runSend c = some (c', es)) :
    ∃ (pkt : AVPacket) (s : CSender), c.s.pc = .send pkt ∧ c' = { c with s := s } ∧
      s.pc = .ret pkt ∧ s.seekPts = c.s.seekPts ∧ s.seekOldPts = c.s.seekOldPts ∧
      ((c.s.skipCnt ≤ 0 ∧ es = [.sent pkt] ∧ s.skipCnt = c.s.skipCnt) ∨
        (0 < c.s.skipCnt ∧ es = [.skipped pkt] ∧ s.skipCnt = c.s.skipCnt - 1)) := by
  simp only [runSend] at step
  split at step
  · rename_i pkt pc
    split at step
    · cases step
    · cases step
      refine ⟨pkt, _, pc, rfl, rfl, rfl, rfl, ?_⟩
      rcases le_or_gt c.s.skipCnt 0 with send | skip
      · exact .inl ⟨send, by simp [not_lt.mpr send], by simp [not_lt.mpr send]⟩
      · exact .inr ⟨skip, by simp [skip], by simp [skip]⟩
  · cases step

theorem ret_cases (step : runRet c = some (c', es)) :
    ∃ pkt, c.s.pc = .ret pkt ∧ es = [.released pkt] ∧
      c' = { c with q := c.q.retVideo, s := { c.s with pc := .head } } := by
  simp only [runRet] at step
  split at step
  · rename_i pkt pc
    cases step
    exact ⟨pkt, pc, rfl, rfl⟩
  · cases step

theorem setMoveSec_cases {nSec : ℤ} (step : setMoveSec cfg c nSec = some (c', es)) :
    ∃ nFrame, c.cmd = .idle ∧ moveFrame cfg nSec = some nFrame ∧ es = [] ∧
      c' = { c with
        d := { c.d with nMoveIdx := findFileIndexFromFrame cfg nFrame }
        cmd := .storedIdx nFrame } := by
  simp only [setMoveSec] at step
  split at step
  · rename_i nFrame idle frame
    cases step
    exact ⟨nFrame, idle, frame, rfl, rfl⟩
  · cases step

theorem storeSeekFrame_cases (step : storeSeekFrame c = some (c', es)) :
    ∃ nFrame frame, c.cmd = .storedIdx nFrame ∧ frame = seekFrameOf nFrame ∧ es = [] ∧
      c' = { c with d := { c.d with nSeekFrame := frame }, cmd := .storedFrame nFrame } := by
  simp only [storeSeekFrame] at step
  split at step
  · rename_i nFrame stored
    cases step
    exact ⟨nFrame, _, stored, rfl, rfl, rfl⟩
  · cases step

theorem storeIsMove_cases (step : storeIsMove c = some (c', es)) :
    ∃ nFrame, c.cmd = .storedFrame nFrame ∧ es = [.commanded nFrame] ∧
      c' = { c with d := { c.d with isMove := true }, cmd := .idle } := by
  simp only [storeIsMove] at step
  split at step
  · rename_i nFrame stored
    cases step
    exact ⟨nFrame, stored, rfl, rfl⟩
  · cases step

/-- A statement of `SetMoveSec`, `SetReverse` or of the exit, none of `Demux` or `Run`. -/
def Act.isCommand : Act → Bool
  | .setMoveSec _ | .storeSeekFrame | .storeIsMove | .setReverse _ | .exit => true
  | .demux | .clock _ _ | .get _ | .send | .ret => false

theorem command_kept {a : Act} (command : a.isCommand = true)
    (step : Channel.step cfg c a = some (c', es)) :
    c'.q = c.q ∧ c'.s = c.s ∧ (es = [] ∨ ∃ nFrame, es = [.commanded nFrame]) := by
  cases a with
  | setMoveSec nSec =>
    obtain ⟨nFrame, -, -, rfl, rfl⟩ := setMoveSec_cases step
    exact ⟨rfl, rfl, .inl rfl⟩
  | storeSeekFrame =>
    obtain ⟨nFrame, frame, -, -, rfl, rfl⟩ := storeSeekFrame_cases step
    exact ⟨rfl, rfl, .inl rfl⟩
  | storeIsMove =>
    obtain ⟨nFrame, -, rfl, rfl⟩ := storeIsMove_cases step
    exact ⟨rfl, rfl, .inr ⟨nFrame, rfl⟩⟩
  | setReverse state | exit =>
    cases step
    exact ⟨rfl, rfl, .inl rfl⟩
  | demux | clock now₁ now₂ | get garbage | send | ret => cases command

theorem other_locals {a : Act} (other : a ≠ .demux) (step : Channel.step cfg c a = some (c', es)) :
    c'.d = { c.d with
      bExit := c'.d.bExit
      isMove := c'.d.isMove
      bIsRerverse := c'.d.bIsRerverse
      nMoveIdx := c'.d.nMoveIdx
      nSeekFrame := c'.d.nSeekFrame } := by
  cases a with
  | demux => exact absurd rfl other
  | clock now₁ now₂ =>
    obtain ⟨-, -, s, rfl, -⟩ := clock_cases step
    rfl
  | get garbage =>
    obtain ⟨-, ⟨-, rfl⟩ | ⟨-, -, rfl⟩ | ⟨pkt, timeBase, -, -, rfl⟩⟩ := get_cases step <;> rfl
  | send =>
    obtain ⟨pkt, s, -, rfl, -⟩ := send_cases step
    rfl
  | ret =>
    obtain ⟨pkt, -, -, rfl⟩ := ret_cases step
    rfl
  | setMoveSec nSec =>
    obtain ⟨nFrame, -, -, -, rfl⟩ := setMoveSec_cases step
    rfl
  | storeSeekFrame =>
    obtain ⟨nFrame, frame, -, -, -, rfl⟩ := storeSeekFrame_cases step
    rfl
  | storeIsMove =>
    obtain ⟨nFrame, -, -, rfl⟩ := storeIsMove_cases step
    rfl
  | setReverse state | exit =>
    cases step
    rfl

theorem bExit_kept {a : Act} (next : Channel.step cfg c a = some (c', es))
    (exit : c.d.bExit = true) : c'.d.bExit = true := by
  cases a with
  | demux =>
    cases demux_cases next with
    | turned pc back d kept => exact kept.1.trans exit
    | _ => exact exit
  | clock now₁ now₂ =>
    obtain ⟨-, -, s, rfl, -⟩ := clock_cases next
    exact exit
  | get garbage =>
    obtain ⟨-, ⟨-, rfl⟩ | ⟨-, -, rfl⟩ | ⟨pkt, timeBase, -, -, rfl⟩⟩ := get_cases next <;> exact exit
  | send =>
    obtain ⟨pkt, s, -, rfl, -⟩ := send_cases next
    exact exit
  | ret =>
    obtain ⟨pkt, -, -, rfl⟩ := ret_cases next
    exact exit
  | setMoveSec nSec =>
    obtain ⟨nFrame, -, -, -, rfl⟩ := setMoveSec_cases next
    exact exit
  | storeSeekFrame =>
    obtain ⟨nFrame, frame, -, -, -, rfl⟩ := storeSeekFrame_cases next
    exact exit
  | storeIsMove =>
    obtain ⟨nFrame, -, -, rfl⟩ := storeIsMove_cases next
    exact exit
  | setReverse state =>
    cases next
    exact exit
  | exit =>
    cases next
    rfl

end Inversion

end Tsender.Channel
