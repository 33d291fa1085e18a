/- Tsender/Channel/FormatContext
   source: demuxer.cpp (Demux: open, SetAVFormatContext, avformat_close_input), sender.cpp (Run)
   digest: The sender's copy of the format context: what it reads through it at its first
   packet is open exactly when Demux then has a file with a video stream open. -/

import Tsender.Channel.Steps

set_option autoImplicit false
set_option relaxedAutoImplicit false

namespace Tsender.Channel.FormatContext

open Lib.Transition Queue

/-- A channel at a finer grain: `SetAVFormatContext` comes after the file is open, and the read
of the time base after `GetVideo`. -/
structure Split where
  c : State
  /-- The context that is opened and not yet handed to the sender. -/
  handover : Option CtxPtr
  /-- `GetVideo` has returned the first packet, and `pStream` is still `NULL`. -/
  due : Bool

inductive SplitAct where
  | demux
  /-- A step of another thread. -/
  | other (a : Act)
  /-- `SetAVFormatContext`. -/
  | setAVFormatContext
  /-- `pStream = m_fmt_ctx->streams[0]`, with what a closed context would yield. -/
  | deref (garbage : AVRational)
  deriving DecidableEq

/-- A read through `m_fmt_ctx`. -/
structure Dereferenced where
  fmtCtx : CtxPtr
  /-- The context is open. -/
  isOpen : Bool
  deriving DecidableEq

/-- The pointer names the context that `Demux` has open. -/
def namesOpen (c : State) : Bool := c.d.fmtCtx.any fun ctx => c.s.fmtCtx = .ctx ctx.id

def runs : Act → Bool
  | .clock _ _ | .get _ | .send | .ret => true
  | _ => false

def splitStep (cfg : Config) : Machine Split SplitAct Dereferenced
  | s, .demux =>
      match s.handover, demux cfg s.c with
      | none, some (c, _) =>
          if c.s.fmtCtx = s.c.s.fmtCtx then some ({ s with c := c }, [])
          else
            -- A file with a video stream is open; the sender learns of it in the next step.
            some ({ s with
              c := { c with s := { c.s with fmtCtx := s.c.s.fmtCtx } }
              handover := some c.s.fmtCtx }, [])
      | _, _ => none
  | s, .other a =>
      if a = .demux ∨ s.due = true ∧ runs a = true then none
      else
        match step cfg s.c a with
        | none => none
        | some (c, _) => some ({ s with c := c, due := s.due || c.s.pStream && !s.c.s.pStream }, [])
  | s, .setAVFormatContext =>
      match s.handover with
      | none => none
      | some fmtCtx =>
          some ({ s with
            c := { s.c with s := { s.c.s with fmtCtx := fmtCtx } }
            handover := none }, [])
  | s, .deref garbage =>
      if s.due then
        some ({ s with
          c := { s.c with s := { s.c.s with timeBase := derefTimeBase cfg s.c garbage } }
          due := false }, [⟨s.c.s.fmtCtx, namesOpen s.c⟩])
      else none

def Split.start (cfg : Config) : Split := ⟨.start cfg, none, false⟩

def ReadsOpen (es : List Dereferenced) (_ : Split) : Prop := ∀ e ∈ es, e.isOpen = true

/-- `Demux` has a file with a video stream open. -/
def videoOpen (cfg : Config) (c : State) : Bool :=
  c.d.fmtCtx.any fun ctx => (cfg.files[ctx.file]?).any File.hasVideo

/-- The sender comes to the time base while `Demux` has a file with a video stream open and has
handed it over. -/
def ReadsInTime (cfg : Config) (_ : List Dereferenced) (s : Split) (a : SplitAct) : Prop :=
  ∀ garbage, a = .deref garbage → videoOpen cfg s.c = true ∧ s.handover = none

/-- The pointer names no context from `n` on. -/
def Before (n : ℕ) (p : CtxPtr) : Prop := ∀ id, p = .ctx id → id < n

/-- The pointers of the two threads fit together: the sender names the file that is open if it
has a video stream and is handed over, and otherwise an earlier one or none. -/
structure Linked (cfg : Config) (s : Split) : Prop where
  before : Before s.c.d.opened s.c.s.fmtCtx
  last : ∀ ctx, s.c.d.fmtCtx = some ctx → ctx.id < s.c.d.opened
  due : ∀ p, s.handover = some p → ∃ ctx, s.c.d.fmtCtx = some ctx ∧ p = .ctx ctx.id ∧
    videoOpen cfg s.c = true ∧ Before ctx.id s.c.s.fmtCtx
  handed : ∀ ctx, s.c.d.fmtCtx = some ctx → s.handover = none →
    videoOpen cfg s.c = true ∧ s.c.s.fmtCtx = .ctx ctx.id ∨
      videoOpen cfg s.c = false ∧ Before ctx.id s.c.s.fmtCtx

private theorem linked_start (cfg : Config) : Linked cfg (.start cfg) where
  before := by
    intro id names
    simp only [Split.start, State.start] at names
    split at names <;> cases names
  last := nofun
  due := nofun
  handed := nofun

private theorem Before.names_other {n : ℕ} {p : CtxPtr} (before : Before n p) : p ≠ .ctx n :=
  fun same => absurd (before n same) (lt_irrefl n)

private theorem Linked.namesOpen_iff {cfg : Config} {s : Split} (h : Linked cfg s) :
    namesOpen s.c = true ↔ videoOpen cfg s.c = true ∧ s.handover = none := by
  cases open_now : s.c.d.fmtCtx with
  | none => simp [namesOpen, videoOpen, open_now]
  | some ctx =>
    cases waiting : s.handover with
    | none =>
      rcases h.handed ctx open_now waiting with ⟨video, same⟩ | ⟨bare, before⟩
      · simp [namesOpen, open_now, same, video]
      · simp [namesOpen, open_now, before.names_other, bare]
    | some p =>
      obtain ⟨ctx', again, -, -, before⟩ := h.due p waiting
      obtain rfl := Option.some.inj (open_now.symm.trans again)
      simp [namesOpen, open_now, before.names_other]

section Steps

variable {cfg : Config} {c c' : State} {es : List Event}

def opening (fmtCtx : Option AVFormatContext) : Option (ℕ × ℕ) :=
  fmtCtx.map fun ctx => (ctx.id, ctx.file)

private theorem stepBack_context {d d' : CDemuxer} {ok : Bool}
    (back : d.stepBack cfg = some (d', ok)) :
    opening d'.fmtCtx = opening d.fmtCtx ∧ d'.opened = d.opened := by
  simp only [CDemuxer.stepBack] at back
  split at back
  · cases back
  · rename_i ctx context
    split at back
    · cases back
    · split at back
      · cases back
      · split at back
        · split at back
          · cases back
            exact ⟨rfl, rfl⟩
          · split at back
            · cases back
            · cases back
              exact ⟨by rw [context]; rfl, rfl⟩
        · cases back
          exact ⟨rfl, rfl⟩

theorem reverse_context (step : reverse cfg c = some (c', es)) :
    opening c'.d.fmtCtx = opening c.d.fmtCtx ∧ c'.d.opened = c.d.opened ∧ c'.s = c.s := by
  simp only [reverse] at step
  split at step
  · split at step
    · cases step
    · rename_i d back
      cases step
      obtain ⟨same, count⟩ := stepBack_context back
      exact ⟨same, count, rfl⟩
    · rename_i d back
      cases step
      obtain ⟨same, count⟩ := stepBack_context back
      exact ⟨same, count, rfl⟩
  · cases step
    exact ⟨rfl, rfl, rfl⟩

private theorem file_of_fileAt {file : File} (found : fileAt cfg c.d.i = some file) :
    cfg.files[c.d.i.toNat]? = some file := by
  simp only [fileAt] at found
  split at found
  · cases found
  · exact found

theorem demux_context (step : demux cfg c = some (c', es)) :
    (opening c'.d.fmtCtx = opening c.d.fmtCtx ∨ c'.d.fmtCtx = none) ∧
        c'.d.opened = c.d.opened ∧ c'.s = c.s ∨
      ∃ file ctx, cfg.files[ctx.file]? = some file ∧ ctx.id = c.d.opened ∧
        c'.d.fmtCtx = some ctx ∧ c'.d.opened = c.d.opened + 1 ∧
        c'.s = { c.s with fmtCtx := if file.hasVideo then .ctx c.d.opened else c.s.fmtCtx } := by
  cases demux_cases step with
  | turned pc back d kept =>
    have turn : reverse cfg c = some ({ c with d := d }, []) := by
      rw [demux, pc] at step
      exact step
    obtain ⟨same, count, -⟩ := reverse_context turn
    exact .inl ⟨.inl same, count, rfl⟩
  | unfiltered pc file found first =>
    exact .inr ⟨file, _, file_of_fileAt found, rfl, rfl, rfl, rfl⟩
  | opened pc file found frames =>
    exact .inr ⟨file, _, file_of_fileAt found, rfl, rfl, rfl, rfl⟩
  | ended pc ctx context rest => exact .inl ⟨.inr rfl, rfl, rfl⟩
  | closed pc => exact .inl ⟨.inr rfl, rfl, rfl⟩
  | sought pc ctx file context found near => exact .inl ⟨.inl (by rw [context]; rfl), rfl, rfl⟩
  | dropped pc ctx payload rest first context next filtered =>
    exact .inl ⟨.inl (by rw [context]; rfl), rfl, rfl⟩
  | read pc ctx payload out rest first context next filtered =>
    exact .inl ⟨.inl (by rw [context]; rfl), rfl, rfl⟩
  | _ => exact .inl ⟨.inl rfl, rfl, rfl⟩

private theorem other_context {a : Act} (other : a ≠ .demux)
    (step : Channel.step cfg c a = some (c', es)) :
    c'.d.fmtCtx = c.d.fmtCtx ∧ c'.d.opened = c.d.opened ∧ c'.s.fmtCtx = c.s.fmtCtx := by
  have locals := other_locals other step
  refine ⟨by rw [locals], by rw [locals], ?_⟩
  cases a with
  | demux => exact absurd rfl other
  | clock now₁ now₂ =>
    simp only [Channel.step, runHead] at step
    split at step <;> cases step
    rfl
  | get garbage =>
    obtain ⟨-, ⟨-, rfl⟩ | ⟨-, -, rfl⟩ | ⟨pkt, timeBase, -, -, rfl⟩⟩ := get_cases step <;> rfl
  | send =>
    simp only [Channel.step, runSend] at step
    split at step
    · split at step <;> cases step
      rfl
    · cases step
  | ret =>
    obtain ⟨pkt, -, -, rfl⟩ := ret_cases step
    rfl
  | _ => rw [(command_kept rfl step).2.1]

private theorem videoOpen_eq (cfg : Config) (c : State) :
    videoOpen cfg c = (opening c.d.fmtCtx).any fun named =>
      (cfg.files[named.2]?).any File.hasVideo := by
  simp only [videoOpen, opening, Option.any_map]

theorem Linked.congr {s t : Split} (h : Linked cfg s)
    (context : opening t.c.d.fmtCtx = opening s.c.d.fmtCtx)
    (count : t.c.d.opened = s.c.d.opened) (copy : t.c.s.fmtCtx = s.c.s.fmtCtx)
    (handover : t.handover = s.handover) : Linked cfg t := by
  have video : videoOpen cfg t.c = videoOpen cfg s.c := by
    rw [videoOpen_eq, videoOpen_eq, context]
  have back : ∀ ctx, t.c.d.fmtCtx = some ctx →
      ∃ ctx', s.c.d.fmtCtx = some ctx' ∧ ctx'.id = ctx.id := by
    intro ctx here
    rw [here, opening, opening] at context
    obtain ⟨ctx', there, same⟩ := Option.map_eq_some_iff.mp context.symm
    exact ⟨ctx', there, (Prod.mk.inj same).1⟩
  refine ⟨by rw [count, copy]; exact h.before, fun ctx here => ?_, fun p waiting => ?_,
    fun ctx here waiting => ?_⟩
  · obtain ⟨ctx', there, same⟩ := back ctx here
    rw [count, ← same]
    exact h.last ctx' there
  · obtain ⟨ctx', there, named, seen, before⟩ := h.due p (handover.symm.trans waiting)
    rw [there, opening, opening] at context
    obtain ⟨ctx, here, same⟩ := Option.map_eq_some_iff.mp context
    obtain ⟨id, -⟩ := Prod.mk.inj same
    exact ⟨ctx, here, by rw [id]; exact named, video.trans seen, by rw [copy, id]; exact before⟩
  · obtain ⟨ctx', there, same⟩ := back ctx here
    rw [video, copy, ← same]
    exact h.handed ctx' there (handover.symm.trans waiting)

private theorem linked_demux {s t : Split} {ds : List Dereferenced} (h : Linked cfg s)
    (step : splitStep cfg s .demux = some (t, ds)) : Linked cfg t := by
  simp only [splitStep] at step
  split at step
  · rename_i c es handed next
    rcases demux_context next with ⟨stays | gone, count, same⟩ |
      ⟨file, ctx, found, fresh, context, count, copy⟩
    · rw [if_pos (by rw [same])] at step
      cases step
      exact h.congr stays count (by rw [same]) rfl
    · rw [if_pos (by rw [same])] at step
      cases step
      refine ⟨by rw [count, same]; exact h.before, ?_, ?_, ?_⟩
      · simp [gone]
      · simp [handed]
      · simp [gone]
    · have named : c.s.fmtCtx = if file.hasVideo then .ctx s.c.d.opened else s.c.s.fmtCtx := by
        rw [copy]
      have frontier : ∀ id, id < s.c.d.opened → id < c.d.opened := by
        rw [count]
        exact fun id older => older.trans (Nat.lt_succ_self _)
      have seen : videoOpen cfg c = file.hasVideo := by simp [videoOpen, context, found]
      cases video : file.hasVideo with
      | true =>
        rw [video, if_pos rfl] at named
        rw [if_neg (by rw [named]; exact fun same => h.before.names_other same.symm)] at step
        cases step
        refine ⟨fun id older => frontier id (h.before id older), ?_, ?_, ?_⟩
        · rintro ctx' here
          obtain rfl := Option.some.inj (context.symm.trans here)
          rw [count, fresh]
          exact Nat.lt_succ_self _
        · rintro p waiting
          obtain rfl := Option.some.inj waiting
          refine ⟨ctx, context, by rw [named, fresh], ?_, by rw [fresh]; exact h.before⟩
          exact seen.trans video
        · rintro ctx' here waiting
          cases waiting
      | false =>
        rw [video, if_neg (by simp)] at named
        rw [if_pos named] at step
        cases step
        refine ⟨fun id older => frontier id (h.before id (named ▸ older)), ?_, ?_, ?_⟩
        · rintro ctx' here
          obtain rfl := Option.some.inj (context.symm.trans here)
          rw [count, fresh]
          exact Nat.lt_succ_self _
        · simp [handed]
        · rintro ctx' here -
          obtain rfl := Option.some.inj (context.symm.trans here)
          refine .inr ⟨seen.trans video, ?_⟩
          rw [named, fresh]
          exact h.before
  · cases step

private theorem linked_step {s t : Split} {a : SplitAct} {ds : List Dereferenced} (h : Linked cfg s)
    (next : splitStep cfg s a = some (t, ds)) : Linked cfg t := by
  cases a with
  | demux => exact linked_demux h next
  | other a =>
    simp only [splitStep] at next
    split at next
    · cases next
    · rename_i other
      split at next
      · cases next
      · rename_i c es taken
        cases next
        obtain ⟨context, count, copy⟩ := other_context (fun demux => other (.inl demux)) taken
        exact h.congr (by rw [context]) count copy rfl
  | setAVFormatContext =>
    simp only [splitStep] at next
    split at next
    · cases next
    · rename_i p waiting
      cases next
      obtain ⟨ctx, here, rfl, video, before⟩ := h.due p waiting
      refine ⟨?_, h.last, nofun, fun ctx' again _ => .inl ⟨video, ?_⟩⟩
      · rintro id ⟨⟩
        exact h.last ctx here
      · obtain rfl := Option.some.inj (here.symm.trans again)
        rfl
  | deref garbage =>
    simp only [splitStep] at next
    split at next
    · cases next
      exact h.congr rfl rfl rfl rfl
    · cases next

private theorem reads_only_deref {s t : Split} {a : SplitAct} {ds : List Dereferenced}
    (next : splitStep cfg s a = some (t, ds)) (other : ∀ garbage, a ≠ .deref garbage) :
    ds = [] := by
  cases a with
  | deref garbage => exact absurd rfl (other garbage)
  | demux =>
    simp only [splitStep] at next
    split at next
    · split at next <;> cases next <;> rfl
    · cases next
  | other a =>
    simp only [splitStep] at next
    split at next
    · cases next
    · split at next <;> cases next
      rfl
  | setAVFormatContext =>
    simp only [splitStep] at next
    split at next <;> cases next
    rfl

/-- A read through the pointer is of an open context exactly when it comes in time. -/
private theorem readsOpen_step_iff {s t : Split} {a : SplitAct} {es ds : List Dereferenced}
    (h : Linked cfg s) (before : ReadsOpen es s) (next : splitStep cfg s a = some (t, ds)) :
    ReadsOpen (es ++ ds) t ↔ ReadsInTime cfg es s a := by
  cases a with
  | deref garbage =>
    simp only [splitStep] at next
    split at next
    · cases next
      have linked := h.namesOpen_iff
      constructor
      · intro after garbage' _
        exact linked.mp (after _ (List.mem_append_right es (List.mem_singleton_self _)))
      · intro in_time e here
        rcases List.mem_append.mp here with old | new
        · exact before e old
        · rw [List.mem_singleton.mp new]
          exact linked.mpr (in_time garbage rfl)
    · cases next
  | demux | other a | setAVFormatContext =>
    obtain rfl := reads_only_deref next nofun
    refine iff_of_true (by rw [List.append_nil]; exact before) ?_
    rintro garbage ⟨⟩

end Steps

/-- At every point of a run of the two threads, with any seeks, moves and reverse play, no closed
context has been read if and only if each read comes while `Demux` has a file with a video stream
open and handed over. -/
theorem format_context_open_iff (cfg : Config) (acts : List SplitAct) :
    Throughout (splitStep cfg) ReadsOpen (.start cfg) acts ↔
      Meets (splitStep cfg) (ReadsInTime cfg) (.start cfg) acts := by
  let fits : List Dereferenced → Split → Prop := fun _ s => Linked cfg s
  have start : fits [] (.start cfg) := linked_start cfg
  exact throughout_iff_meets start (fun _ none_yet => nomatch none_yet)
    (fun _ _ _ _ _ h next => linked_step h next)
    (fun _ _ _ _ _ h before next => readsOpen_step_iff h before next)

def onePacket : Config where
  files := [{
    frame := 1
    opens := true
    hasVideo := true
    initsFilter := true
    startTime := 0
    timeBase := ⟨1, 1000000⟩
    packets := [⟨[0], 0⟩]
    seekTm := fun _ => 0
    seekFile := fun _ => none }]
  filter := some
  nChannel := 0
  num := 1
  den := 1
  gop := 1
  stray := false

/-- The packet is enqueued and the file closed at its end before the sender asks. -/
def shortFile : List SplitAct :=
  [.demux, .setAVFormatContext] ++ List.replicate 9 .demux ++
    [.other (.clock 0 0), .other (.get ⟨0, 0⟩), .deref ⟨0, 0⟩]

theorem closed_context_read :
    ¬ ∀ (cfg : Config) (acts : List SplitAct) (es : List Dereferenced) (s : Split),
      Run (splitStep cfg) (.start cfg) acts es s → ReadsOpen es s := by
  intro claim
  have found : (exec (splitStep onePacket) (.start onePacket) shortFile).map (fun r =>
      decide (r.2 = [⟨.ctx 0, false⟩])) = some true := by decide +kernel
  obtain ⟨s, es, run, seen⟩ := Run.exists_of_exec found
  obtain rfl : es = [⟨.ctx 0, false⟩] := of_decide_eq_true seen
  exact absurd (claim _ _ _ _ run ⟨.ctx 0, false⟩ (List.mem_singleton_self _)) (by decide)

end Tsender.Channel.FormatContext
