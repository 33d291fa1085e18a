/- Tsender/Channel/Resources
   source: demuxer.cpp (Demux: the set-up of a file, its end, the return; open_codec_context)
   digest: The libav contexts that Demux takes from its first file to its return, whichever of the
   calls fail, and what it forgets on the way. -/

import Tsender.Channel.FormatContext
import Tsender.Channel.References

set_option autoImplicit false
set_option relaxedAutoImplicit false

namespace Tsender.Channel.Resources

open Lib.Transition Lib.Ledger
open References (onePacket)

/-- How far `open_codec_context` comes. -/
inductive CodecOpen where
  /-- It returns before it has allocated a codec context. -/
  | unallocated
  /-- It returns an error with the codec context allocated. -/
  | failed
  | opened
  deriving DecidableEq

/-- What the calls of libav return where `Demux` sets up a file. -/
structure Attempt where
  /-- `avformat_open_input`. -/
  opens : Bool
  codec : CodecOpen
  /-- `av_bsf_alloc`. -/
  allocs : Bool
  /-- `avcodec_parameters_copy`. -/
  copies : Bool
  /-- `av_bsf_init`. -/
  inits : Bool
  deriving DecidableEq

def Attempt.setsUp (attempt : Attempt) : Bool :=
  attempt.allocs && attempt.copies && attempt.inits

/-- An `AVFormatContext`, an `AVCodecContext` or an `AVBSFContext`. -/
inductive Resource where
  | format (id : ℕ)
  | codec (id : ℕ)
  | filter (id : ℕ)
  deriving DecidableEq

/-- A channel with the contexts behind `video_dec_ctx` and `m_bsfc`. -/
structure Codecs where
  c : State
  /-- `m_bsfc`. -/
  bsfc : Option ℕ
  /-- Codec contexts allocated so far. -/
  codecs : ℕ
  /-- Filters allocated so far. -/
  filters : ℕ

inductive CodecAct where
  /-- A statement of `Demux`; at the head of the file loop libav answers so. -/
  | demux (attempt : Attempt)
  /-- A step of another thread. -/
  | other (a : Act)

section Machine

def attemptedFile (attempt : Attempt) (file : File) : File :=
  { file with
    opens := attempt.opens
    hasVideo := attempt.codec = .opened
    initsFilter := attempt.setsUp }

def attempted (cfg : Config) (attempt : Attempt) : Config :=
  { cfg with files := cfg.files.map (attemptedFile attempt) }

def goesOn (cfg : Config) (d : CDemuxer) : Bool :=
  match fileAt cfg d.i with
  | none => false
  | some file => !d.bExit && file.frame ≠ 0

/-- The next statement of `Demux` is behind the last packet of a file or behind its loop. -/
def closes (d : CDemuxer) : Bool :=
  match d.pc with
  | .readFrame => d.fmtCtx.any fun ctx => ctx.rest = []
  | .fileEnd => true
  | _ => false

/-- The context behind `fmt_ctx`. -/
def formats (d : CDemuxer) : List Resource := d.fmtCtx.toList.map fun ctx => .format ctx.id

/-- The filter behind `m_bsfc`. -/
def filterOf (bsfc : Option ℕ) : List Resource := bsfc.toList.map .filter

/-- `avformat_close_input`. -/
def closeInput (d : CDemuxer) : List (Entry Resource) := (formats d).map .released

def openCodecContext (s : Codecs) (attempt : Attempt) : Codecs × List (Entry Resource) :=
  if attempt.codec = .unallocated then (s, [])
  else ({ s with codecs := s.codecs + 1 }, [.acquired (.codec s.codecs)])

/-- `av_bsf_alloc`, for the first file. -/
def bsfAlloc (s : Codecs) (attempt : Attempt) : Codecs × List (Entry Resource) :=
  if s.c.d.i = 0 ∧ attempt.allocs = true then
    ({ s with bsfc := some s.filters, filters := s.filters + 1 }, [.acquired (.filter s.filters)])
  else (s, [])

def bsfFree (s : Codecs) : Codecs × List (Entry Resource) :=
  ({ s with bsfc := none }, (filterOf s.bsfc).map .released)

def setUp (s : Codecs) (attempt : Attempt) : Codecs × List (Entry Resource) :=
  let codec := openCodecContext s attempt
  let filter := bsfAlloc codec.1 attempt
  (filter.1, .acquired (.format s.c.d.opened) :: (codec.2 ++ filter.2))

/-- What a statement of `Demux` does to the contexts. -/
def turn (cfg : Config) (s : Codecs) (attempt : Attempt) : Codecs × List (Entry Resource) :=
  match s.c.d.pc with
  | .fileTop =>
      if goesOn cfg s.c.d then if attempt.opens then setUp s attempt else (s, []) else bsfFree s
  | _ => (s, if closes s.c.d then closeInput s.c.d else [])

def demuxing (cfg : Config) : Machine Codecs CodecAct (Entry Resource)
  | s, .demux attempt =>
      match step (attempted cfg attempt) s.c .demux with
      | none => none
      | some (c, _) => some ({ (turn cfg s attempt).1 with c := c }, (turn cfg s attempt).2)
  | s, .other a =>
      if a = .demux then none
      else
        match step cfg s.c a with
        | none => none
        | some (c, _) => some ({ s with c := c }, [])

def Codecs.start (cfg : Config) : Codecs := ⟨.start cfg, none, 0, 0⟩

end Machine

section Held

/-- What `Demux` holds while it runs and is going to free. -/
def held (s : Codecs) : Multiset Resource :=
  if s.c.d.pc = .done then 0 else (formats s.c.d : Multiset Resource) + filterOf s.bsfc

/-- What the set-up of an open file forgets: the codec context, the filter of an earlier set-up,
and with a `return false` the file and the filter. -/
def lostSetUp (s : Codecs) (attempt : Attempt) : Multiset Resource :=
  (if attempt.codec = .unallocated then 0 else {Resource.codec s.codecs}) +
    if s.c.d.i = 0 then
      (filterOf s.bsfc : Multiset Resource) +
        if attempt.setsUp then 0
        else {Resource.format s.c.d.opened} +
          if attempt.allocs then {Resource.filter s.filters} else 0
    else 0

def lost (cfg : Config) (s : Codecs) : CodecAct → Multiset Resource
  | .demux attempt =>
      if s.c.d.pc = .fileTop ∧ goesOn cfg s.c.d then
        if attempt.opens then lostSetUp s attempt else filterOf s.bsfc
      else 0
  | .other _ => 0

/-- The set-up of a file leaves nothing behind that is not freed: no codec context is allocated, the
filter is set up for the first file once and without a failure, and a file that cannot be opened
comes before that. -/
def Frees (cfg : Config) (s : Codecs) : CodecAct → Prop
  | .demux attempt => s.c.d.pc = .fileTop → goesOn cfg s.c.d = true →
      if attempt.opens then
        attempt.codec = .unallocated ∧ (s.c.d.i = 0 → s.bsfc = none ∧ attempt.setsUp = true)
      else s.bsfc = none
  | .other _ => True

end Held

section FileTop

variable {cfg : Config} {s : Codecs} {attempt : Attempt} {c' : State} {events : List Event}

@[simp] theorem fileAt_attempted (cfg : Config) (attempt : Attempt) (i : ℤ) :
    fileAt (attempted cfg attempt) i = (fileAt cfg i).map (attemptedFile attempt) := by
  simp only [fileAt, attempted]
  split
  · rfl
  · rw [List.getElem?_map]

/-- The head of the file loop ends it, returns with an error or goes on with an open file. -/
inductive Headed (cfg : Config) (s : Codecs) (attempt : Attempt) (c' : State) : Prop
  | ended (stops : goesOn cfg s.c.d = false) (pc : c'.d.pc = .done)
  | unopened (goes : goesOn cfg s.c.d = true) (opens : attempt.opens = false)
      (pc : c'.d.pc = .done)
  | unfiltered (goes : goesOn cfg s.c.d = true) (opens : attempt.opens = true)
      (first : s.c.d.i = 0) (fails : attempt.setsUp = false) (pc : c'.d.pc = .done)
  | opened (goes : goesOn cfg s.c.d = true) (opens : attempt.opens = true)
      (filter : s.c.d.i = 0 → attempt.setsUp = true) (pc : c'.d.pc = .testMove)
      (format : formats c'.d = [.format s.c.d.opened])

private theorem openFile_headed
    (next : openFile (attempted cfg attempt) s.c = some (c', events)) :
    Headed cfg s attempt c' := by
  simp only [openFile, fileAt_attempted] at next
  cases found : fileAt cfg s.c.d.i with
  | none =>
    simp only [found, Option.map_none] at next
    cases next
    exact .ended (by simp [goesOn, found]) rfl
  | some file =>
    simp only [found, Option.map_some, attemptedFile] at next
    have goes : goesOn cfg s.c.d = (!s.c.d.bExit && file.frame ≠ 0) := by
      simp [goesOn, found]
    split at next
    · rename_i stops
      cases next
      rcases stops with exit | no_frame | closed
      · exact .ended (by simp [goes, exit]) rfl
      · exact .ended (by simp [goes, no_frame]) rfl
      · cases on : goesOn cfg s.c.d with
        | false => exact .ended on rfl
        | true => exact .unopened on closed rfl
    · rename_i runs
      simp only [not_or, Bool.not_eq_true, Bool.not_eq_false] at runs
      have on : goesOn cfg s.c.d = true := by simp [goes, runs.1, runs.2.1]
      split at next
      · rename_i bare
        cases next
        exact .unfiltered on runs.2.2 bare.1 bare.2 rfl
      · rename_i filtered
        cases next
        refine .opened on runs.2.2 (fun first => ?_) rfl rfl
        cases sets : attempt.setsUp with
        | false => exact absurd ⟨first, sets⟩ filtered
        | true => rfl

end FileTop

section SetUp

variable {cfg : Config} {s : Codecs} {attempt : Attempt} {c' : State}

private theorem formats_eq (d : CDemuxer) : formats d =
    (FormatContext.opening d.fmtCtx).toList.map fun named => .format named.1 := by
  cases context : d.fmtCtx <;> simp [formats, FormatContext.opening, context]

private theorem released_setUp (s : Codecs) (attempt : Attempt) : released
    (setUp s attempt).2 = 0 := by
  by_cases unallocated : attempt.codec = .unallocated <;>
    by_cases allocs : s.c.d.i = 0 ∧ attempt.allocs = true <;>
      simp [setUp, openCodecContext, bsfAlloc, unallocated, allocs]

private theorem acquired_setUp (s : Codecs) (attempt : Attempt) :
    acquired (setUp s attempt).2 =
        {Resource.format s.c.d.opened} +
          ((if attempt.codec = .unallocated then 0 else {Resource.codec s.codecs}) +
            if s.c.d.i = 0 ∧ attempt.allocs = true then {Resource.filter s.filters} else 0) ∧
      (setUp s attempt).1.bsfc =
        if s.c.d.i = 0 ∧ attempt.allocs = true then some s.filters else s.bsfc := by
  by_cases unallocated : attempt.codec = .unallocated <;>
    by_cases allocs : s.c.d.i = 0 ∧ attempt.allocs = true <;>
      simp [setUp, openCodecContext, bsfAlloc, unallocated, allocs]

private theorem held_fileTop (pc : s.c.d.pc = .fileTop) (closed : s.c.d.fmtCtx = none) :
    held s = filterOf s.bsfc := by
  simp [held, pc, formats, closed]

private theorem headed_accounts (pc : s.c.d.pc = .fileTop) (closed : s.c.d.fmtCtx = none)
    (headed : Headed cfg s attempt c') :
    held s + acquired (turn cfg s attempt).2 =
      released (turn cfg s attempt).2 + held { (turn cfg s attempt).1 with c := c' } +
        lost cfg s (.demux attempt) := by
  rw [held_fileTop pc closed]
  cases headed with
  | ended stops done =>
    have freed : (turn cfg s attempt).2 = (filterOf s.bsfc).map .released := by
      simp [turn, pc, stops, bsfFree]
    simp [freed, held, done, lost, stops]
  | unopened goes opens done =>
    have nothing : (turn cfg s attempt).2 = [] := by
      simp [turn, pc, goes, opens]
    simp [nothing, held, done, lost, pc, goes, opens]
  | unfiltered goes opens first fails done =>
    have turned : turn cfg s attempt = setUp s attempt := by
      simp [turn, pc, goes, opens]
    rw [turned, released_setUp, (acquired_setUp s attempt).1]
    simp only [held, done, if_true, lost, pc, goes, opens, lostSetUp, first, fails, and_self,
      true_and, Bool.false_eq_true, if_false, zero_add]
    abel
  | opened goes opens filter testMove format =>
    have turned : turn cfg s attempt = setUp s attempt := by
      simp [turn, pc, goes, opens]
    obtain ⟨taken, kept⟩ := acquired_setUp s attempt
    rw [turned, released_setUp, taken]
    simp only [held, testMove, reduceCtorEq, if_false, format, kept, lost, pc, goes, opens,
      lostSetUp, and_self, if_true, zero_add]
    by_cases first : s.c.d.i = 0
    · have allocs : attempt.allocs = true := by
        have sets := filter first
        simp only [Attempt.setsUp, Bool.and_eq_true] at sets
        exact sets.1.1
      simp only [first, allocs, filter first, and_self, if_true, add_zero, filterOf,
        Option.toList_some, List.map_cons, List.map_nil, Multiset.coe_singleton]
      abel
    · simp only [first, false_and, if_false, add_zero, Multiset.coe_singleton]
      abel

end SetUp

section Step

variable {cfg : Config} {s : Codecs} {attempt : Attempt} {c c' : State} {events : List Event}

private theorem inside_file (inside : c.d.pc ≠ .fileTop)
    (next : step cfg c .demux = some (c', events)) :
    c.d.pc ≠ .done ∧ c'.d.pc ≠ .done ∧ (c'.d.pc = .fileTop → c'.d.fmtCtx = none) ∧
      formats c'.d = if closes c.d then [] else formats c.d := by
  cases demux_cases next with
  | stopped pc | unfiltered pc | opened pc => exact absurd pc inside
  | ended pc ctx context rest => simp [pc, closes, context, rest, formats]
  | dropped pc ctx payload rest first context left filtered =>
    simp [pc, closes, context, left, formats]
  | read pc ctx payload out rest first context left filtered =>
    by_cases data : 0 < out.data.length <;> simp [pc, closes, context, left, formats, data]
  | closed pc => simp [pc, closes, formats]
  | sought pc ctx file context found near => simp [pc, closes, context, formats]
  | turned pc back d kept =>
    have turn : reverse cfg c = some ({ c with d := d }, []) := by
      simpa only [step, demux, pc] using next
    obtain ⟨same, -, -⟩ := FormatContext.reverse_context turn
    have formats_same : formats d = formats c.d := by
      rw [formats_eq, formats_eq]
      exact congrArg _ (congrArg _ same)
    obtain ⟨-, -, -, -, -, -, -, -, read | end_⟩ := kept
    · simp [pc, closes, formats_same, read]
    · simp [pc, closes, formats_same, end_]
  | left pc | foundMove pc | noMove pc | clearedMove pc | moved pc | foundSeek pc | passed pc
    | soughtFar pc | clearedSeek pc | forward pc | putExit pc | accepted pc | refused pc
    | stuck pc => simp [pc, closes, formats]

private theorem inside_accounts (inside : s.c.d.pc ≠ .fileTop)
    (next : step (attempted cfg attempt) s.c .demux = some (c', events)) :
    held s + acquired (turn cfg s attempt).2 =
      released (turn cfg s attempt).2 + held { (turn cfg s attempt).1 with c := c' } +
        lost cfg s (.demux attempt) := by
  obtain ⟨before, after, -, stays⟩ := inside_file inside next
  have turned : turn cfg s attempt = (s, if closes s.c.d then closeInput s.c.d else []) := by
    cases pc : s.c.d.pc with
    | fileTop => exact absurd pc inside
    | _ => simp only [turn, pc]
  rw [turned]
  simp only [held, before, after, if_false, lost, inside, false_and, add_zero, stays]
  by_cases closing : closes s.c.d = true
  · simp [closing, closeInput, add_comm]
  · simp [closing]

/-- A step of the books: a statement of `Demux` at the head of the file loop or behind it, or a
step of another thread. -/
inductive Kept (cfg : Config) (s : Codecs) :
    CodecAct → Codecs → List (Entry Resource) → Prop
  | headed (attempt : Attempt) (c : State) (events : List Event) (pc : s.c.d.pc = .fileTop)
      (top : openFile (attempted cfg attempt) s.c = some (c, events)) :
      Kept cfg s (.demux attempt) { (turn cfg s attempt).1 with c := c } (turn cfg s attempt).2
  | inside (attempt : Attempt) (c : State) (events : List Event) (pc : s.c.d.pc ≠ .fileTop)
      (next : step (attempted cfg attempt) s.c .demux = some (c, events)) :
      Kept cfg s (.demux attempt) { (turn cfg s attempt).1 with c := c } (turn cfg s attempt).2
  | other (a : Act) (c : State) (pc : c.d.pc = s.c.d.pc) (context : c.d.fmtCtx = s.c.d.fmtCtx) :
      Kept cfg s (.other a) { s with c := c } []

private theorem demuxing_cases {t : Codecs} {a : CodecAct} {es : List (Entry Resource)}
    (next : demuxing cfg s a = some (t, es)) : Kept cfg s a t es := by
  cases a with
  | demux attempt =>
    simp only [demuxing] at next
    split at next
    · cases next
    · rename_i c events taken
      cases next
      by_cases pc : s.c.d.pc = .fileTop
      · exact .headed attempt c events pc (by simpa only [step, demux, pc] using taken)
      · exact .inside attempt c events pc taken
  | other a =>
    simp only [demuxing] at next
    split at next
    · cases next
    · rename_i other
      split at next
      · cases next
      · rename_i c events taken
        cases next
        have locals := other_locals other taken
        exact .other a c (by rw [locals]) (by rw [locals])

def Closed (s : Codecs) : Prop := s.c.d.pc = .fileTop → s.c.d.fmtCtx = none

private theorem demuxing_accounts (cfg : Config) :
    Accounts (demuxing cfg) Closed held (lost cfg) := by
  intro s a t es inv next
  cases demuxing_cases next with
  | headed attempt c events pc top => exact headed_accounts pc (inv pc) (openFile_headed top)
  | inside attempt c events pc taken => exact inside_accounts pc taken
  | other a c pc context => simp [held, pc, context, formats, lost]

theorem Closed.step {s t : Codecs} {a : CodecAct} {es : List (Entry Resource)} (inv : Closed s)
    (next : demuxing cfg s a = some (t, es)) : Closed t := by
  cases demuxing_cases next with
  | headed attempt c events pc top =>
    intro at_top
    cases openFile_headed top with
    | ended _ done | unopened _ _ done | unfiltered _ _ _ _ done =>
      exact absurd (at_top.symm.trans done) DemuxPc.noConfusion
    | opened _ _ _ testMove => exact absurd (at_top.symm.trans testMove) DemuxPc.noConfusion
  | inside attempt c events pc taken => exact (inside_file pc taken).2.2.1
  | other a c pc context => simpa only [Closed, pc, context] using inv

theorem lost_eq_zero {a : CodecAct} : lost cfg s a = 0 ↔ Frees cfg s a := by
  cases a with
  | other a => exact iff_of_true rfl trivial
  | demux attempt =>
    simp only [lost, Frees]
    by_cases top : s.c.d.pc = .fileTop ∧ goesOn cfg s.c.d = true
    · cases opens : attempt.opens with
      | false => cases filter : s.bsfc <;> simp [top.1, top.2, filterOf]
      | true =>
        simp only [top, lostSetUp]
        cases attempt.codec <;> cases s.bsfc <;> cases attempt.setsUp <;>
          by_cases first : s.c.d.i = 0 <;> simp [first, filterOf]
    · simp only [top, if_false, true_iff]
      intro pc goes
      exact absurd ⟨pc, goes⟩ top

end Step

section Balance

/-- When `Demux` returns, its contexts have been freed once each exactly when every set-up of a
file left nothing behind that is not freed. -/
theorem contexts_even_iff {cfg : Config} {as : List CodecAct} {es : List (Entry Resource)}
    {t : Codecs} (run : Run (demuxing cfg) (.start cfg) as es t) (returned : t.c.d.pc = .done) :
    Even es ↔ Meets (demuxing cfg) (fun _ s a => Frees cfg s a) (.start cfg) as := by
  have nothing : held (.start cfg) = 0 := rfl
  have all_gone : held t = 0 := by simp [held, returned]
  have books := even_iff_meets run (fun _ => rfl) nothing
    (fun _ _ _ _ inv next => Closed.step inv next) (demuxing_accounts cfg) all_gone
  simpa only [lost_eq_zero] using books

/-- The file is played to its end, with one outcome of `open_codec_context`. -/
def toTheEnd (codec : CodecOpen) : List CodecAct :=
  List.replicate 12 (.demux ⟨true, codec, true, true, true⟩)

theorem contexts_even_iff_toTheEnd : ∃ t es,
    Run (demuxing onePacket) (.start onePacket) (toTheEnd .unallocated) es t ∧
      t.c.d.pc = .done ∧ Even es ∧
      (Even es ↔ Meets (demuxing onePacket) (fun _ s a => Frees onePacket s a)
        (.start onePacket) (toTheEnd .unallocated)) := by
  obtain ⟨t, es, run, facts⟩ := @Run.exists_of_exec _ _ _ (demuxing onePacket)
    (.start onePacket) (toTheEnd .unallocated)
    (fun next => decide (next.1.c.d.pc = .done) && decide (Even next.2)) (by decide +kernel)
  simp only [Bool.and_eq_true, decide_eq_true_eq] at facts
  exact ⟨t, es, run, facts.1, facts.2, contexts_even_iff run facts.1⟩

/-- No call fails, and the codec context is never freed. -/
theorem codec_context_leaks : ∃ t es,
    Run (demuxing onePacket) (.start onePacket) (toTheEnd .opened) es t ∧ t.c.d.pc = .done ∧
      acquired es = {.format 0} + {.codec 0} + {.filter 0} ∧
      released es = {.format 0} + {.filter 0} ∧ ¬ Even es := by
  obtain ⟨t, es, run, facts⟩ := @Run.exists_of_exec _ _ _ (demuxing onePacket)
    (.start onePacket) (toTheEnd .opened)
    (fun next => decide (next.1.c.d.pc = .done) && (decide (acquired next.2 =
      {.format 0} + {.codec 0} + {.filter 0}) && (decide (released next.2 =
        {.format 0} + {.filter 0}) && decide (¬ Even next.2)))) (by decide +kernel)
  simp only [Bool.and_eq_true, decide_eq_true_eq] at facts
  exact ⟨t, es, run, facts⟩

end Balance

end Tsender.Channel.Resources
