/- Tsender/Channel/Completion
   source: demuxer.cpp (Demux), sender.cpp (Run), queue.cpp (PutVideo, GetVideo, RetVideo)
   digest: Left alone under a fair schedule, a channel gets its whole recording onto the
   network. -/

import Tsender.Channel.FormatContext
import Tsender.Channel.Playback
import Tsender.Channel.PutLoop
import Tsender.Channel.Reverse

set_option autoImplicit false
set_option relaxedAutoImplicit false

namespace Tsender.Channel.Completion

open Lib.Transition Queue Playback
open FormatContext (namesOpen onePacket)
open PutLoop (nPacket_getVideo)

/-- `Run` is given its first packet, and the context whose time base it goes on to read is
closed. -/
def readsClosed (c : State) : Act → Bool
  | .get _ => c.s.fmtCtx ≠ .null ∧ c.s.pStream = false ∧ c.q.getVideo.2.2 ≠ none ∧
      namesOpen c = false
  | _ => false

def playing (cfg : Config) : Machine State Act Event := fun c a =>
  if readsClosed c a then none else restrict Act.plays (step cfg) c a

private theorem playing_eq_some {cfg : Config} {c : State} {a : Act} {next : State × List Event} :
    playing cfg c a = some next ↔
      readsClosed c a = false ∧ a.plays = true ∧ step cfg c a = some next := by
  rw [playing]
  split
  · rename_i closed
    simp [closed]
  · rename_i reads
    rw [restrict_eq_some, Bool.not_eq_true] at *
    simp [reads]

structure Playable (cfg : Config) : Prop where
  opens : ∀ file ∈ cfg.files, file.opens = true
  hasVideo : ∀ file ∈ cfg.files, file.hasVideo = true
  initsFilter : ∀ file ∈ cfg.files, file.initsFilter = true
  stamped : ∀ p ∈ recording cfg, -1 < p.pts

/-- `Demux` is scheduled again and again until it is done, and again and again the sender finds
that the time it waits for has come. -/
structure Fair (cfg : Config) (run : Schedule (playing cfg)) : Prop where
  demux : run.Answers (fun c => c.d.pc ≠ .done) .demux
  clock : ∀ n, ∃ m ≥ n, ∃ now₁ now₂, run.act m = .clock now₁ now₂ ∧
    ((run.state m).s.outPts.toNat : ℤ) ≤ now₁ ∧ now₁ < 2 ^ 64

def Settled (c : State) : Prop := c.d.pc = .done ∧ c.q.nPacket ≤ 0

section Rank

/-- More than the number of turns that `Demux` makes with a file. -/
def turns (file : File) : ℕ := 6 * file.packets.length + 8

def turnsFrom (cfg : Config) (n : ℕ) : ℕ := ((cfg.files.drop n).map turns).sum

def leftInFile (d : CDemuxer) : ℕ := ((d.fmtCtx.map AVFormatContext.rest).getD []).length

/-- How far `Demux` is from its end. -/
def demuxRank (cfg : Config) (d : CDemuxer) : ℕ :=
  let inFile (left : ℕ) := turnsFrom cfg (d.i.toNat + 1) + 2 + 6 * leftInFile d + left
  match d.pc with
  | .fileTop => turnsFrom cfg d.i.toNat + 1
  | .put => inFile 5
  | .testMove => inFile 4
  | .testSeek => inFile 3
  | .reverse => inFile 2
  | .readFrame => inFile 1
  | .fileEnd => turnsFrom cfg (d.i.toNat + 1) + 2
  | .done | .clearMove | .readMove | .doSeek | .clearSeek => 0

def senderRank : SenderPc → ℕ
  | .head | .get => 3
  | .send _ => 2
  | .ret _ => 1

def rank (cfg : Config) (c : State) : ℕ :=
  8 * demuxRank cfg c.d + 4 * c.q.nPacket.toNat + senderRank c.s.pc

inductive Idle (c : State) : Act → State → Prop
  | refused (some_left : 0 < c.q.nPacket) : Idle c .demux c
  | clock (now₁ now₂ : ℤ) (s : CSender) (pc : c.s.pc = .head) (next : s.pc = .get ∨ s.pc = .head) :
      Idle c (.clock now₁ now₂) { c with s := s }
  | empty (garbage : AVRational) (s : CSender) (pc : c.s.pc = .get) (next : s.pc = .head)
      (none_left : c.q.nPacket ≤ 0) : Idle c (.get garbage) { c with s := s }

variable {cfg : Config} {c c' : State} {a : Act}

private theorem Idle.rank_eq (idle : Idle c a c') : rank cfg c' = rank cfg c := by
  cases idle with
  | refused => rfl
  | clock now₁ now₂ s pc next =>
    rcases next with get | head
    · simp [rank, senderRank, pc, get]
    · simp [rank, senderRank, pc, head]
  | empty garbage s pc next none_left => simp [rank, senderRank, pc, next]

theorem Idle.kept (idle : Idle c a c') : c'.d = c.d ∧ c'.q = c.q := by
  cases idle <;> exact ⟨rfl, rfl⟩

private theorem turnsFrom_open {n : ℕ} {file : File} (found : fileAt cfg n = some file) :
    turnsFrom cfg n = turns file + turnsFrom cfg (n + 1) := by
  have found : cfg.files[n]? = some file := by simpa [fileAt] using found
  obtain ⟨bound, rfl⟩ := List.getElem?_eq_some_iff.mp found
  unfold turnsFrom
  rw [List.drop_eq_getElem_cons bound, List.map_cons, List.sum_cons]

private theorem index_nonneg {later : List Payload} (next : Later cfg c.d later)
    (running : c.d.pc ≠ .done) : 0 ≤ c.d.i := by
  cases pc : c.d.pc with
  | done => exact absurd pc running
  | clearMove | readMove | doSeek | clearSeek => simp [Later, pc] at next
  | fileTop | fileEnd =>
    simp only [Later, pc] at next
    obtain ⟨n, index, -⟩ := next
    omega
  | testMove | testSeek | reverse | readFrame | put =>
    simp only [Later, pc] at next
    obtain ⟨n, ctx, index, -⟩ := next
    omega

private theorem demuxRank_step {es : List Event} {later : List Payload} (still : Undisturbed c)
    (next : Later cfg c.d later) (go : Demuxed cfg c c' es) :
    demuxRank cfg c'.d < demuxRank cfg c.d ∨ c.d.pc = .put ∧ c'.d = c.d := by
  cases go with
  | stopped pc | unfiltered pc =>
    left
    simp [demuxRank, pc]
  | opened pc file found frames =>
    left
    obtain ⟨n, at_n⟩ := Int.eq_ofNat_of_zero_le (index_nonneg next (by simp [pc]))
    rw [at_n] at found
    have more := turnsFrom_open found
    simp only [demuxRank, leftInFile, pc, at_n, Int.toNat_natCast, more, turns, Option.map_some,
      Option.getD_some]
    omega
  | left pc exit => exact absurd exit (by simp [still.playing])
  | foundMove pc move => exact absurd move (by simp [still.move])
  | foundSeek pc seek => exact absurd seek (by simp [still.seek])
  | turned pc back => exact absurd back (by simp [still.ahead])
  | clearedMove pc | moved pc | sought pc | soughtFar pc | clearedSeek pc =>
    simp [Later, pc] at next
  | noMove pc | passed pc | forward pc =>
    left
    simp [demuxRank, leftInFile, pc]
  | ended pc =>
    left
    simp only [demuxRank, pc]
    omega
  | dropped pc ctx payload rest first context front =>
    left
    simp only [demuxRank, leftInFile, pc, context, Option.map_some, Option.getD_some, front,
      List.length_cons]
    omega
  | read pc ctx payload p rest first context front =>
    left
    by_cases data : 0 < p.data.length
    · simp only [demuxRank, leftInFile, pc, context, Option.map_some, Option.getD_some, front,
        List.length_cons, if_pos data]
      omega
    · simp only [demuxRank, leftInFile, pc, context, Option.map_some, Option.getD_some, front,
        List.length_cons, if_neg data]
      omega
  | putExit pc exit => exact absurd exit (by simp [still.playing])
  | accepted pc =>
    left
    simp [demuxRank, leftInFile, pc]
  | refused pc | stuck pc => exact .inr ⟨pc, rfl⟩
  | closed pc =>
    left
    have at_next : (c.d.i + 1).toNat = c.d.i.toNat + 1 := by
      have index := index_nonneg next (by simp [pc])
      omega
    simp only [demuxRank, pc, at_next]
    omega

end Rank

/-- Beside the order of the packets: what is read when `Demux` is done, that the sender has a
context as soon as there is a packet, and that its clock runs on. -/
structure Underway (cfg : Config) (es : List Event) (c : State) : Prop where
  fed : ∃ waiting later, Feeding cfg es c waiting later ∧ (c.d.pc = .done → later = [])
  context : c.s.fmtCtx = .null → c.q.nPacket ≤ 0 ∧ (c.d.pc = .fileTop ∨ c.d.pc = .done)
  beginAt : c.s.beginAt = 0

section Steps

variable {cfg : Config} {es fs : List Event} {c c' : State} {waiting : List AVPacket}
  {later : List Payload}

theorem Underway.start (cfg : Config) : Underway cfg [] (.start cfg) where
  fed := ⟨[], _, feeding_start cfg, nofun⟩
  context _ := ⟨le_rfl, .inl rfl⟩
  beginAt := rfl

private theorem following_stop {n : ℕ} (stop : ∀ file, fileAt cfg n = some file → file.frame = 0) :
    following cfg n = [] := by
  unfold following
  rcases Nat.lt_or_ge n cfg.files.length with inside | beyond
  · have frames := stop cfg.files[n] (by simp [fileAt, inside])
    rw [List.drop_eq_getElem_cons inside, List.takeWhile_cons_of_neg (by simp [frames])]
    rfl
  · rw [List.drop_of_length_le beyond]
    rfl

private theorem mem_of_fileAt {i : ℤ} {file : File} (found : fileAt cfg i = some file) :
    file ∈ cfg.files := by
  simp only [fileAt] at found
  split at found
  · cases found
  · exact List.mem_of_getElem? found

private theorem openFile_playable (playable : Playable cfg) (running : c.d.bExit = false)
    (go : openFile cfg c = some (c', fs)) :
    (∀ file, fileAt cfg c.d.i = some file → file.frame = 0) ∧ fs = [] ∧
        c' = { c with d := { c.d with pc := .done } } ∨
      c'.d.pc = .testMove ∧ c'.q = c.q ∧
        c'.s = { c.s with fmtCtx := .ctx c.d.opened } := by
  simp only [openFile] at go
  split at go
  · rename_i none_left
    cases go
    exact .inl ⟨by simp [none_left], rfl, rfl⟩
  · rename_i file found
    have mem := mem_of_fileAt found
    have opens := playable.opens file mem
    split at go
    · rename_i stop
      cases go
      have frames : file.frame = 0 := by simpa [running, opens] using stop
      refine .inl ⟨fun other same => ?_, rfl, rfl⟩
      obtain rfl := Option.some.inj (found.symm.trans same)
      exact frames
    · split at go
      · rename_i bare
        exact absurd bare.2 (by simp [playable.initsFilter file mem])
      · cases go
        exact .inr ⟨rfl, rfl, by simp [playable.hasVideo file mem]⟩

private theorem finished_demux (playable : Playable cfg) (h : Feeding cfg es c waiting later)
    (go : demux cfg c = some (c', fs)) :
    ∃ waiting' later', Feeding cfg (es ++ fs) c' waiting' later' ∧
      (c'.d.pc = .done → later' = []) := by
  obtain ⟨waiting', later', fed⟩ := feeding_demux h (demux_cases go)
  by_cases top : c.d.pc = .fileTop
  · have opening : openFile cfg c = some (c', fs) := by simpa [demux, top] using go
    rcases openFile_playable playable h.undisturbed.playing opening with
      ⟨stop, rfl, rfl⟩ | ⟨pc, -, -⟩
    · have next := h.later
      simp only [Later, top] at next
      obtain ⟨n, index, rfl⟩ := next
      refine ⟨waiting, following cfg n, ?_, fun _ => following_stop (index ▸ stop)⟩
      exact {
        undisturbed := { h.undisturbed with }
        holds := h.holds
        fifo := by simpa [offered, top] using h.fifo
        later := trivial
        data := by simp }
    · exact ⟨waiting', later', fed, by simp [pc]⟩
  · refine ⟨waiting', later', fed, fun done => ?_⟩
    cases demux_cases go with
    | stopped pc | unfiltered pc => exact absurd pc top
    | turned pc back => exact absurd back (by simp [h.undisturbed.ahead])
    | refused pc | stuck pc =>
      rw [pc] at done
      cases done
    | read pc =>
      simp only at done
      split at done <;> cases done
    | _ => cases done

private theorem finished_step (playable : Playable cfg) {a : Act} (plays : a.plays = true)
    (h : Feeding cfg es c waiting later) (finished : c.d.pc = .done → later = [])
    (go : step cfg c a = some (c', fs)) :
    ∃ waiting' later', Feeding cfg (es ++ fs) c' waiting' later' ∧
      (c'.d.pc = .done → later' = []) := by
  cases a with
  | demux => exact finished_demux playable h go
  | clock now₁ now₂ =>
    have same : c'.d = c.d := by
      obtain ⟨-, -, s, rfl, -⟩ := clock_cases go
      rfl
    exact ⟨waiting, later, feeding_clock h go, by rwa [same]⟩
  | get garbage =>
    obtain ⟨waiting', fed⟩ := feeding_get h go
    have same : c'.d = c.d := by
      obtain ⟨-, ⟨-, rfl⟩ | ⟨-, -, rfl⟩ | ⟨pkt, timeBase, -, -, rfl⟩⟩ := get_cases go <;> rfl
    exact ⟨waiting', later, fed, by rwa [same]⟩
  | send =>
    have same : c'.d = c.d := by
      obtain ⟨pkt, s, -, rfl, -⟩ := send_cases go
      rfl
    exact ⟨waiting, later, feeding_send h go, by rwa [same]⟩
  | ret =>
    have same : c'.d = c.d := by
      obtain ⟨pkt, -, -, rfl⟩ := ret_cases go
      rfl
    exact ⟨waiting, later, feeding_ret h go, by rwa [same]⟩
  | setMoveSec | storeSeekFrame | storeIsMove | setReverse | exit => simp [Act.plays] at plays

theorem demux_context (playable : Playable cfg) (h : Feeding cfg es c waiting later)
    (before : c.s.fmtCtx = .null → c.q.nPacket ≤ 0 ∧ (c.d.pc = .fileTop ∨ c.d.pc = .done))
    (go : demux cfg c = some (c', fs)) :
    (c'.s.fmtCtx = .null → c'.q.nPacket ≤ 0 ∧ (c'.d.pc = .fileTop ∨ c'.d.pc = .done)) ∧
      c'.s.beginAt = c.s.beginAt ∧ c'.s.pc = c.s.pc := by
  by_cases top : c.d.pc = .fileTop
  · have opening : openFile cfg c = some (c', fs) := by simpa [demux, top] using go
    rcases openFile_playable playable h.undisturbed.playing opening with
      ⟨-, -, rfl⟩ | ⟨-, -, sender⟩
    · exact ⟨fun null => ⟨(before null).1, .inr rfl⟩, rfl, rfl⟩
    · exact ⟨fun null => by simp [sender] at null, by rw [sender], by rw [sender]⟩
  · have same : c'.s = c.s := by
      cases demux_cases go with
      | unfiltered pc | opened pc => exact absurd pc top
      | _ => rfl
    refine ⟨fun null => ?_, by rw [same], by rw [same]⟩
    rw [same] at null
    obtain ⟨-, pc | pc⟩ := before null
    · exact absurd pc top
    · simp [demux, pc] at go

theorem Underway.step (playable : Playable cfg) {a : Act} (plays : a.plays = true)
    (h : Underway cfg es c) (go : step cfg c a = some (c', fs)) : Underway cfg (es ++ fs) c' := by
  obtain ⟨waiting, later, fed, finished⟩ := h.fed
  have fed' := finished_step playable plays fed finished go
  cases a with
  | demux =>
    obtain ⟨context, beginAt, -⟩ := demux_context playable fed h.context go
    exact ⟨fed', context, beginAt.trans h.beginAt⟩
  | clock now₁ now₂ =>
    have still : c.s.seekPts = c.s.seekOldPts :=
      fed.undisturbed.senderEpoch.trans fed.undisturbed.senderOldEpoch.symm
    simp only [Channel.step, runHead] at go
    split at go
    · cases go
      exact ⟨fed', h.context, by simpa [still] using h.beginAt⟩
    · cases go
  | get garbage =>
    have counted : c.q.getVideo.1.nPacket = c.q.nPacket := nPacket_getVideo c.q
    obtain ⟨-, ⟨-, rfl⟩ | ⟨-, -, rfl⟩ | ⟨pkt, timeBase, -, -, rfl⟩⟩ := get_cases go
    · exact ⟨fed', h.context, h.beginAt⟩
    · exact ⟨fed', fun null => by simpa [counted] using h.context null, h.beginAt⟩
    · exact ⟨fed', fun null => by simpa [counted] using h.context null, h.beginAt⟩
  | send =>
    simp only [Channel.step, runSend] at go
    split at go
    · split at go
      · cases go
      · cases go
        exact ⟨fed', h.context, h.beginAt⟩
    · cases go
  | ret =>
    obtain ⟨pkt, -, -, rfl⟩ := ret_cases go
    refine ⟨fed', fun null => ?_, h.beginAt⟩
    obtain ⟨none_left, pc⟩ := h.context null
    refine ⟨?_, pc⟩
    simp only [CQueue.retVideo]
    omega
  | setMoveSec | storeSeekFrame | storeIsMove | setReverse | exit => simp [Act.plays] at plays

private theorem stamped_put (playable : Playable cfg) (h : Feeding cfg es c waiting later)
    (pc : c.d.pc = .put) : -1 < c.d.pkt.pts := by
  have mem : contents c.d.pkt ∈ recording cfg := by
    rw [← h.fifo]
    simp [offered, pc]
  exact playable.stamped _ mem

private theorem put_step (playable : Playable cfg) (h : Feeding cfg es c waiting later)
    (pc : c.d.pc = .put) (go : demux cfg c = some (c', fs)) :
    c'.q.nPacket = c.q.nPacket + 1 ∧ c'.d = { c.d with pc := .testMove } ∨
      c' = c ∧ 0 < c.q.nPacket := by
  have same : c.q.startPts = c.d.seekPts := by
    rw [h.undisturbed.queueEpoch, h.undisturbed.demuxEpoch]
  have data : 0 < c.d.pkt.size := h.data pc
  simp only [demux, pc, put, h.undisturbed.playing, Bool.false_eq_true, if_false,
    if_pos (stamped_put playable h pc)] at go
  rcases h.holds.bound.lt_or_eq with room | full
  · rw [(putVideo_room h.holds same room data).1] at go
    simp only [Int.natCast_pos, if_pos data] at go
    cases go
    exact .inl ⟨rfl, by simp [h.undisturbed.playing]⟩
  · rw [putVideo_full h.holds same full] at go
    simp only [lt_self_iff_false, if_false] at go
    cases go
    refine .inr ⟨rfl, ?_⟩
    have count := h.holds.count
    have some_left : 0 < maxNumQueue := by decide
    omega

private theorem rank_demux (playable : Playable cfg) (h : Underway cfg es c)
    (go : demux cfg c = some (c', fs)) : rank cfg c' < rank cfg c ∨ Idle c .demux c' := by
  obtain ⟨waiting, later, fed, -⟩ := h.fed
  have sender := (demux_context playable fed h.context go).2.2
  by_cases put : c.d.pc = .put
  · rcases put_step playable fed put go with ⟨stored, demuxer⟩ | ⟨rfl, some_left⟩
    · left
      simp only [rank, sender, stored, demuxer, demuxRank, put]
      simp only [leftInFile]
      omega
    · exact .inr (.refused some_left)
  · have queue : c'.q = c.q := by
      cases demux_cases go with
      | accepted pc | refused pc => exact absurd pc put
      | _ => rfl
    rcases demuxRank_step fed.undisturbed fed.later (demux_cases go) with less | ⟨pc, -⟩
    · left
      simp only [rank, sender, queue]
      omega
    · exact absurd pc put

private theorem rank_get {garbage : AVRational} (h : Underway cfg es c)
    (go : step cfg c (.get garbage) = some (c', fs)) :
    rank cfg c' < rank cfg c ∨ Idle c (.get garbage) c' := by
  obtain ⟨waiting, later, fed, -⟩ := h.fed
  have count := fed.holds.count
  have counted : c.q.getVideo.1.nPacket = c.q.nPacket := nPacket_getVideo c.q
  obtain ⟨pc, ⟨silent, rfl⟩ | ⟨-, none_found, rfl⟩ | ⟨pkt, timeBase, -, -, rfl⟩⟩ := get_cases go
  · -- `GetVideo` is not called only for want of a context.
    have null : c.s.fmtCtx = .null := by
      by_contra context
      simp only [Channel.step, runGet, pc, if_neg context] at go
      split at go <;> simp [silent] at go
    exact .inr (.empty garbage _ pc rfl (h.context null).1)
  · have idle : out c.s.pc = none := by simp [out, pc]
    have none_left : c.q.nPacket ≤ 0 := by
      by_contra some_left
      obtain ⟨pkt, found⟩ := fed.next_video idle (not_le.mp some_left)
      rw [none_found] at found
      cases found
    have empty : waiting = [] := List.length_eq_zero_iff.mp (by omega)
    have held : Holds c.q false [] := by simpa [idle, empty] using fed.holds
    rw [getVideo_empty held]
    exact .inr (.empty garbage _ pc rfl none_left)
  · left
    simp [rank, senderRank, pc, counted]

/-- Every step brings the channel closer to having sent everything, or is idle. -/
private theorem rank_step (playable : Playable cfg) {a : Act} (plays : a.plays = true)
    (h : Underway cfg es c) (go : step cfg c a = some (c', fs)) :
    rank cfg c' < rank cfg c ∨ Idle c a c' := by
  obtain ⟨waiting, later, fed, finished⟩ := h.fed
  have count := fed.holds.count
  cases a with
  | demux => exact rank_demux playable h go
  | clock now₁ now₂ =>
    obtain ⟨pc, -, s, rfl, next, -⟩ := clock_cases go
    exact .inr (.clock now₁ now₂ s pc next)
  | get garbage => exact rank_get h go
  | send =>
    obtain ⟨pkt, s, pc, rfl, pc', -⟩ := send_cases go
    left
    simp [rank, senderRank, pc, pc']
  | ret =>
    obtain ⟨pkt, pc, -, rfl⟩ := ret_cases go
    left
    simp only [pc, out, Option.isSome_some, Bool.toNat_true] at count
    simp only [rank, senderRank, pc, CQueue.retVideo]
    omega
  | setMoveSec | storeSeekFrame | storeIsMove | setReverse | exit => simp [Act.plays] at plays

end Steps

section Endless

variable {cfg : Config} {run : Schedule (playing cfg)}

theorem taken (run : Schedule (playing cfg)) (n : ℕ) :
    (run.act n).plays = true ∧
      step cfg (run.state n) (run.act n) = some (run.state (n + 1), run.events n) :=
  (playing_eq_some.mp (run.moves n)).2

private theorem underway_of_run {as : List Act} {es : List Event} {c : State}
    (playable : Playable cfg)
    (run : Run (playing cfg) (.start cfg) as es c) : Underway cfg es c := by
  apply run.invariant (.start cfg)
  intro ds m a n gs h next
  obtain ⟨-, plays, go⟩ := playing_eq_some.mp next
  exact h.step playable plays go

private theorem underway_at (playable : Playable cfg) (start : run.state 0 = .start cfg) (n : ℕ) :
    Underway cfg (run.past n) (run.state n) :=
  underway_of_run playable (start ▸ run.run_past n)

theorem sinks (playable : Playable cfg) (start : run.state 0 = .start cfg) (n : ℕ) :
    rank cfg (run.state (n + 1)) ≤ rank cfg (run.state n) := by
  obtain ⟨plays, go⟩ := taken run n
  rcases rank_step playable plays (underway_at playable start n) go with less | idle
  · exact less.le
  · exact idle.rank_eq.le

private theorem asks_of_due {c c' : State} {fs : List Event} {now₁ now₂ : ℤ}
    (go : runHead cfg c now₁ now₂ = some (c', fs)) (clock : c.s.beginAt = 0)
    (epoch : c.s.seekPts = 0) (reached : (c.s.outPts.toNat : ℤ) ≤ now₁) (small : now₁ < 2 ^ 64) :
    c'.s.pc = .get := by
  have due : c.s.outPts ≤ UInt64.ofInt now₁ := by
    have kept := toNat_ofInt_of_lt (by omega) small
    rw [UInt64.le_iff_toNat_le]
    omega
  simp only [runHead] at go
  split at go
  · cases go
    simp [clock, epoch, due]
  · cases go

/-- A channel of which no step brings it further has no packet waiting: its sender would find
the time to take it. -/
private theorem nothing_waits (fair : Fair cfg run) (clock : ∀ n, (run.state n).s.beginAt = 0)
    (epoch : ∀ n, (run.state n).s.seekPts = 0) {n : ℕ}
    (idle : ∀ m ≥ n, Idle (run.state m) (run.act m) (run.state (m + 1))) :
    (run.state n).q.nPacket ≤ 0 := by
  by_contra some_left
  have waits : ∀ m ≥ n, 0 < (run.state m).q.nPacket := by
    intro m later
    induction m, later using Nat.le_induction with
    | base => exact not_le.mp some_left
    | succ m later ih => rwa [(idle m later).kept.2]
  obtain ⟨m, later, now₁, now₂, act, reached, small⟩ := fair.clock n
  have asks : (run.state (m + 1)).s.pc = .get := by
    have go := (taken run m).2
    rw [act] at go
    exact asks_of_due go (clock m) (epoch m) reached small
  -- It stays there, since it would be given a packet.
  have stays : ∀ k ≥ m + 1, (run.state k).s.pc = .get := by
    intro k beyond
    induction k, beyond using Nat.le_induction with
    | base => exact asks
    | succ k beyond ih =>
      have rests := idle k (by omega)
      generalize next : run.state (k + 1) = c' at rests ⊢
      generalize run.act k = a at rests
      cases rests with
      | refused => exact ih
      | clock now₁ now₂ s pc => exact absurd (pc.symm.trans ih) nofun
      | empty garbage s pc next none_left =>
        exact absurd (waits k (by omega)) (not_lt.mpr none_left)
  obtain ⟨k, beyond, now₁, now₂, act, -⟩ := fair.clock (m + 1)
  have go := (taken run k).2
  rw [act] at go
  simp [step, runHead, stays k beyond] at go

private theorem settled_of_rest (fair : Fair cfg run) (clock : ∀ n, (run.state n).s.beginAt = 0)
    (epoch : ∀ n, (run.state n).s.seekPts = 0) {n : ℕ}
    (idle : ∀ m ≥ n, Idle (run.state m) (run.act m) (run.state (m + 1))) :
    Settled (run.state n) := by
  have none_left := nothing_waits fair clock epoch idle
  refine ⟨?_, none_left⟩
  by_contra running
  obtain ⟨m, later, act⟩ := fair.demux n running
  have rests := idle m later
  have none_then := nothing_waits fair clock epoch fun k beyond => idle k (le_trans later beyond)
  generalize run.state (m + 1) = c' at rests
  rw [act] at rests
  cases rests with
  | refused some_left => exact absurd some_left (not_lt.mpr none_then)

private theorem sent_of_settled {es : List Event} {c : State} (h : Underway cfg es c)
    (settled : Settled c) : (sentPackets es).map contents = recording cfg := by
  obtain ⟨waiting, later, fed, finished⟩ := h.fed
  have count := fed.holds.count
  have none_left := settled.2
  have empty : waiting = [] := List.length_eq_zero_iff.mp (by omega)
  have given : (out c.s.pc).isSome = false := by
    cases taken : (out c.s.pc).isSome with
    | false => rfl
    | true =>
      rw [taken, Bool.toNat_true] at count
      omega
  have idle : unsent c.s.pc = [] := by
    cases pc : c.s.pc with
    | send pkt => simp [out, pc] at given
    | head | get | ret => rfl
  have offers : offered c.d = [] := by simp [offered, settled.1]
  have fifo := fed.fifo
  rwa [empty, idle, offers, finished settled.1, List.append_nil, List.append_nil, List.append_nil,
    List.append_nil] at fifo

theorem eventually_settled (playable : Playable cfg) {run : Schedule (playing cfg)}
    (start : run.state 0 = .start cfg) (fair : Fair cfg run) : ∃ n, Settled (run.state n) := by
  have underway := underway_at playable start
  have clock : ∀ n, (run.state n).s.beginAt = 0 := fun n => (underway n).beginAt
  have epoch : ∀ n, (run.state n).s.seekPts = 0 := by
    intro n
    obtain ⟨_, _, fed, -⟩ := (underway n).fed
    exact fed.undisturbed.senderEpoch
  refine @Schedule.eventually_of_rest _ _ _ _ run Settled (rank cfg) (sinks playable start) ?_
  intro n rest
  refine ⟨n, settled_of_rest fair clock epoch fun m later => ?_⟩
  obtain ⟨plays, go⟩ := taken run m
  exact (rank_step playable plays (underway m) go).resolve_left (rest m later).not_lt

theorem sent_after_settled (playable : Playable cfg) {run : Schedule (playing cfg)}
    (start : run.state 0 = .start cfg) {n m : ℕ} (settled : Settled (run.state n))
    (later : n ≤ m) : (sentPackets (run.past m)).map contents = recording cfg := by
  have underway := underway_at playable start
  have all := sent_of_settled (underway n) settled
  have more : (sentPackets (run.past n)).map contents <+: (sentPackets (run.past m)).map contents :=
    ((Schedule.past_prefix later).filterMap _).map _
  obtain ⟨_, _, fed, -⟩ := (underway m).fed
  rw [all] at more
  exact fed.isFifo.sent.eq_of_length (le_antisymm fed.isFifo.sent.length_le more.length_le)

structure AtRest (c : State) : Prop where
  settled : Settled c
  pc : c.s.pc = .head
  nowPts : c.s.nowPts = 0
  seekPts : c.s.seekPts = 0
  seekOldPts : c.s.seekOldPts = 0
  outPts : c.s.outPts = 0
  beginAt : c.s.beginAt = 0
  context : c.s.fmtCtx ≠ .null
  queue : c.q.getVideo = (c.q, 0, none)

variable {c : State}

theorem AtRest.clock (rest : AtRest c) :
    playing cfg c (.clock 0 0) = some ({ c with s := { c.s with pc := .get } }, []) := by
  obtain ⟨d, q, s, cmd⟩ := c
  obtain ⟨-, pc, nowPts, seekPts, seekOldPts, outPts, beginAt, -, -⟩ := rest
  cases s
  simp only at pc nowPts seekPts seekOldPts outPts beginAt
  subst pc nowPts seekPts seekOldPts outPts beginAt
  rfl

theorem AtRest.asked (rest : AtRest c) (garbage : AVRational) :
    playing cfg { c with s := { c.s with pc := .get } } (.get garbage) =
      some (c, [.polled 0 none]) := by
  obtain ⟨d, q, s, cmd⟩ := c
  obtain ⟨-, pc, -, seekPts, -, -, -, context, queue⟩ := rest
  simp only at pc seekPts context queue
  simp [playing, readsClosed, restrict, Act.plays, step, runGet, context, queue, ← pc, ← seekPts]

def AtRest.schedule (cfg : Config) (rest : AtRest c) : Schedule (playing cfg) where
  state n := if n % 2 = 0 then c else { c with s := { c.s with pc := .get } }
  act n := if n % 2 = 0 then .clock 0 0 else .get ⟨0, 0⟩
  events n := if n % 2 = 0 then [] else [.polled 0 none]
  moves n := by
    rcases Nat.mod_two_eq_zero_or_one n with even | odd
    · have next : (n + 1) % 2 = 1 := by omega
      simpa [even, next] using rest.clock
    · have next : (n + 1) % 2 = 0 := by omega
      simpa [odd, next] using rest.asked ⟨0, 0⟩

private theorem empty_queue {es : List Event} (h : Underway cfg es c) (none_left : c.q.nPacket = 0)
    (given : out c.s.pc = none) : c.q.getVideo = (c.q, 0, none) := by
  obtain ⟨waiting, later, fed, -⟩ := h.fed
  have count := fed.holds.count
  have empty : waiting = [] := List.length_eq_zero_iff.mp (by omega)
  have held : Holds c.q false [] := by simpa [given, empty] using fed.holds
  rw [getVideo_empty held, fed.undisturbed.queueEpoch]

private theorem fair_after {as : List Act} {es : List Event}
    (stem : Run (playing cfg) (.start cfg) (as ++ [.demux]) es c) (rest : AtRest c) :
    ∃ run : Schedule (playing cfg), run.state 0 = .start cfg ∧ Fair cfg run := by
  generalize whole : as ++ [.demux] = bs at stem
  cases stem with
  | nil => simp at whole
  | @snoc cs ds fs t _ a stem last =>
    obtain ⟨rfl, ends⟩ := List.append_inj' whole rfl
    obtain rfl := (List.cons.inj ends).1
    obtain ⟨run, start, same⟩ :=
      Schedule.exists_after (Schedule.cons (rest.schedule cfg) last) stem
    have final : ∀ n, run.state (as.length + (n + 1)) = (rest.schedule cfg).state n ∧
        run.act (as.length + (n + 1)) = (rest.schedule cfg).act n := fun n => same (n + 1)
    refine ⟨run, start, ?_, ?_⟩
    · intro n running
      rcases Nat.lt_or_ge as.length n with beyond | inside
      · obtain ⟨k, rfl⟩ : ∃ k, n = as.length + (k + 1) := ⟨n - as.length - 1, by omega⟩
        rw [(final k).1] at running
        simp only [AtRest.schedule] at running
        split at running <;> exact absurd rest.settled.1 running
      · exact ⟨as.length, inside, (same 0).2⟩
    · intro n
      obtain ⟨state, act⟩ := final (2 * n)
      refine ⟨as.length + (2 * n + 1), by omega, 0, 0, ?_, ?_, by omega⟩
      · simp [act, AtRest.schedule]
      · simp [state, AtRest.schedule, rest.outPts]

/-- The packet is sent before `Demux` closes its file. -/
def sentEarly : List Act :=
  List.replicate 6 .demux ++ [.clock 0 0, .get ⟨0, 0⟩, .send, .ret] ++ List.replicate 5 .demux

theorem playable_onePacket : Playable onePacket := ⟨by decide, by decide, by decide, by decide⟩

theorem exists_fair_onePacket :
    ∃ run : Schedule (playing onePacket), run.state 0 = .start onePacket ∧ Fair onePacket run := by
  have found : (exec (playing onePacket) (.start onePacket) (sentEarly ++ [.demux])).map (fun r =>
      decide (r.1.d.pc = .done ∧ r.1.q.nPacket = 0 ∧ r.1.s.pc = .head ∧ r.1.s.nowPts = 0 ∧
        r.1.s.seekPts = 0 ∧ r.1.s.seekOldPts = 0 ∧ r.1.s.outPts = 0 ∧ r.1.s.beginAt = 0 ∧
        r.1.s.fmtCtx = .ctx 0)) = some true := by decide +kernel
  obtain ⟨c, es, stem, seen⟩ := Run.exists_of_exec found
  obtain ⟨done, none_left, pc, nowPts, seekPts, seekOldPts, outPts, beginAt, context⟩ :=
    of_decide_eq_true seen
  have context : c.s.fmtCtx = .ctx 0 := context
  have queue := empty_queue (underway_of_run playable_onePacket stem) none_left (pc ▸ rfl)
  have rest : AtRest c := ⟨⟨done, none_left.le⟩, pc, nowPts, seekPts, seekOldPts, outPts, beginAt,
    by simp [context], queue⟩
  exact fair_after stem rest

end Endless

end Tsender.Channel.Completion
