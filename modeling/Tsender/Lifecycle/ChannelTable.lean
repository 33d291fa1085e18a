/- Tsender/Lifecycle/ChannelTable
   source: comm.cpp (RX, Delete, ~CCommMgr), demuxer.cpp (Create, Play)
   digest: The manager's table of demuxers against the threads that may destroy one: commands
   reach live demuxers as long as none destroys itself and the destructor comes after them. -/

import Mathlib.Logic.Function.Basic
import Tsender.Lib.Transition

set_option autoImplicit false
set_option relaxedAutoImplicit false

namespace Tsender.Lifecycle.ChannelTable

open Lib.Transition

def maxNumChannel : ℕ := 8

structure Config where
  outputs : ℕ
  fits : outputs ≤ maxNumChannel

/-- An entry of `m_CDemuxer`, which no constructor sets. -/
inductive Entry where
  | unset
  | null
  | demuxer (id : ℕ)
  deriving DecidableEq

/-- The life of a `CDemuxer`. -/
inductive Life where
  | absent
  /-- Constructed, with no thread. -/
  | built
  /-- Its thread is on the way through `Play` to the files of the channel. -/
  | started
  /-- Its thread has found the directory and its `meta.json`. -/
  | playing
  | destroyed
  deriving DecidableEq

def Life.live : Life → Bool
  | .built | .started | .playing => true
  | .absent | .destroyed => false

inductive Command where
  | playStart
  | playReverse
  | playClose
  | playSpeedUp
  | playPause
  | playSeek
  /-- `get_thumbnail`, `get_play_list`, `play_delete`, or nothing that RX knows. -/
  | other
  deriving DecidableEq

inductive RxPc where
  /-- `while (!m_bExit)`. -/
  | head
  | recv
  /-- The head of the loop of `play_start` over the output channels. -/
  | new
  | setMutex
  | create
  /-- The loop of `play_start` while running: the test of an entry and its three calls. -/
  | resumeTest (i : ℕ)
  | resumeCall (i : ℕ) (left : ℕ)
  /-- The loop of the other commands, with its one call. -/
  | call (i : ℕ)
  /-- `SAFE_DELETE` in `Delete`: the test and the delete, then the store of `NULL`. -/
  | delete (i : ℕ)
  | clear (i : ℕ)
  | left
  deriving DecidableEq

/-- Where `~CCommMgr` stands. -/
inductive EndPc where
  | notYet
  | exitSet
  | delete (i : ℕ)
  | clear (i : ℕ)
  | terminate
  | done
  deriving DecidableEq

structure State where
  table : ℕ → Entry
  life : ℕ → Life
  /-- The number of demuxers constructed so far. -/
  built : ℕ
  nChannel : ℕ
  bIsRunning : Bool
  rx : RxPc
  dtor : EndPc

inductive Act where
  /-- The next statement of RX, with the command in the datagram if it receives one, and whether
  a `Create` it calls comes to start its thread. -/
  | rx (cmd : Option Command) (starts : Bool)
  | dtor
  /-- The thread of a demuxer finds its directory and its `meta.json`. -/
  | play (id : ℕ)
  /-- The thread of a demuxer does not: `delete this`. -/
  | deleteThis (id : ℕ)
  deriving DecidableEq

inductive Event where
  /-- A method call on, or the delete of, the demuxer in an entry, and whether it was live. -/
  | called (i : ℕ) (live : Bool)
  deriving DecidableEq

abbrev Step := Option (State × List Event)

/-- After `Open`. -/
def State.start : State where
  table := fun _ => .unset
  life := fun _ => .absent
  built := 0
  nChannel := 0
  bIsRunning := false
  rx := .head
  dtor := .notYet

def State.liveAt (s : State) (i : ℕ) : Bool :=
  match s.table i with
  | .demuxer id => (s.life id).live
  | .unset | .null => false

/-- `delete m_CDemuxer[i]`, whatever the pointer points to. -/
def State.destroy (s : State) (i : ℕ) : State :=
  match s.table i with
  | .demuxer id => { s with life := Function.update s.life id .destroyed }
  | .unset | .null => s

def State.setNull (s : State) (i : ℕ) : State :=
  { s with table := Function.update s.table i .null }

def dispatch (s : State) : Command → State
  | .playStart =>
      if s.bIsRunning then { s with rx := .resumeTest 0 }
      else { s with bIsRunning := true, nChannel := 0, rx := .new }
  | .playReverse | .playSpeedUp | .playPause | .playSeek =>
      { s with rx := if s.bIsRunning then .call 0 else .head }
  | .playClose => { s with rx := if s.bIsRunning then .delete 0 else .head }
  | .other => { s with rx := .head }

def rxStep (cfg : Config) (s : State) (cmd : Option Command) (starts : Bool) : Step :=
  match s.rx with
  | .head => some ({ s with rx := if s.dtor = .notYet then .recv else .left }, [])
  | .recv =>
      match cmd with
      | none => some ({ s with rx := .head }, [])
      | some cmd => some (dispatch s cmd, [])
  | .new =>
      if s.nChannel < cfg.outputs then
        some ({ s with
          table := Function.update s.table s.nChannel (.demuxer s.built)
          life := Function.update s.life s.built .built
          built := s.built + 1
          rx := .setMutex }, [])
      else some ({ s with rx := .head }, [])
  | .setMutex => some ({ s with rx := .create }, [.called s.nChannel (s.liveAt s.nChannel)])
  | .create =>
      let life :=
        match s.table s.nChannel with
        | .demuxer id => if starts then Function.update s.life id .started else s.life
        | .unset | .null => s.life
      some ({ s with life := life, nChannel := s.nChannel + 1, rx := .new },
        [.called s.nChannel (s.liveAt s.nChannel)])
  | .resumeTest i =>
      if i < s.nChannel then
        if s.table i = .null then some ({ s with rx := .resumeTest (i + 1) }, [])
        else some ({ s with rx := .resumeCall i 3 }, [])
      else some ({ s with rx := .head }, [])
  | .resumeCall i 0 => some ({ s with rx := .resumeTest (i + 1) }, [])
  | .resumeCall i (left + 1) =>
      some ({ s with rx := .resumeCall i left }, [.called i (s.liveAt i)])
  | .call i =>
      if i < s.nChannel then some ({ s with rx := .call (i + 1) }, [.called i (s.liveAt i)])
      else some ({ s with rx := .head }, [])
  | .delete i =>
      if i < s.nChannel then
        if s.table i = .null then some ({ s with rx := .clear i }, [])
        else some ({ s.destroy i with rx := .clear i }, [.called i (s.liveAt i)])
      else some ({ s with nChannel := 0, bIsRunning := false, rx := .head }, [])
  | .clear i => some ({ s.setNull i with rx := .delete (i + 1) }, [])
  | .left => none

/-- `~CCommMgr`, which sets `m_bExit` first.  `Terminate` waits for RX. -/
def dtorStep (s : State) : Step :=
  match s.dtor with
  | .notYet => some ({ s with dtor := .exitSet }, [])
  | .exitSet => some ({ s with dtor := .delete 0 }, [])
  | .delete i =>
      if i < s.nChannel then
        if s.table i = .null then some ({ s with dtor := .clear i }, [])
        else some ({ s.destroy i with dtor := .clear i }, [.called i (s.liveAt i)])
      else some ({ s with dtor := .terminate }, [])
  | .clear i => some ({ s.setNull i with dtor := .delete (i + 1) }, [])
  | .terminate => if s.rx = .left then some ({ s with dtor := .done }, []) else none
  | .done => none

def step (cfg : Config) : Machine State Act Event
  | s, .rx cmd starts => rxStep cfg s cmd starts
  | s, .dtor => dtorStep s
  | s, .play id =>
      if s.life id = .started then
        some ({ s with life := Function.update s.life id .playing }, [])
      else none
  | s, .deleteThis id =>
      if s.life id = .started then
        some ({ s with life := Function.update s.life id .destroyed }, [])
      else none

def ReachesLive (es : List Event) (_ : State) : Prop :=
  ∀ i live, .called i live ∈ es → i < maxNumChannel ∧ live = true

def RxPc.idle : RxPc → Bool
  | .head | .recv | .left => true
  | _ => false

/-- `~CCommMgr` has not come to `Delete`. -/
def EndPc.before : EndPc → Bool
  | .notYet | .exitSet => true
  | _ => false

/-- No demuxer destroys itself; the destructor begins to delete the demuxers between two commands,
and RX takes up no command for them any more after that. -/
def Orderly (_ : List Event) (s : State) : Act → Prop
  | .deleteThis _ => False
  | .dtor => s.dtor = .exitSet → s.rx.idle = true
  | .rx cmd _ => s.rx = .recv → cmd ≠ none → cmd ≠ some .other → s.dtor.before = true
  | .play _ => True

instance (es : List Event) (s : State) : (a : Act) → Decidable (Orderly es s a)
  | .deleteThis _ => inferInstanceAs (Decidable False)
  | .dtor => inferInstanceAs (Decidable (_ → _))
  | .rx .. => inferInstanceAs (Decidable (_ → _ → _ → _))
  | .play _ => inferInstanceAs (Decidable True)

section Entries

variable {s : State} {i j id : ℕ}

private theorem liveAt_iff : s.liveAt i = true ↔
    ∃ id, s.table i = .demuxer id ∧ (s.life id).live = true := by
  unfold State.liveAt
  split <;> simp_all

end Entries

/-- The first entry that `Delete` has not passed. -/
def State.passed (s : State) : ℕ :=
  match s.rx with
  | .delete i => i
  | .clear i => i + 1
  | _ =>
      match s.dtor with
      | .delete i => i
      | .clear i => i + 1
      | .terminate | .done => s.nChannel
      | .notYet | .exitSet => 0

def State.filled (s : State) : ℕ :=
  match s.rx with
  | .setMutex | .create => s.nChannel + 1
  | _ => s.nChannel

/-- Entries are different demuxers, and those of the channels that are not deleted are live. -/
structure Sound (cfg : Config) (s : State) : Prop where
  distinct : ∀ j k id, s.table j = .demuxer id → s.table k = .demuxer id → j = k
  fresh : ∀ j id, s.table j = .demuxer id → id < s.built
  bound : s.filled ≤ cfg.outputs
  live : ∀ j, s.passed ≤ j → j < s.filled → s.liveAt j = true
  resume : ∀ i left, s.rx = .resumeCall i left → i < s.nChannel
  apart : s.dtor.before = false → s.rx.idle = true

theorem sound_start (cfg : Config) : Sound cfg .start where
  distinct := by simp [State.start]
  fresh := by simp [State.start]
  bound := by simp [State.start, State.filled]
  live := by simp [State.start, State.filled]
  resume := by simp [State.start]
  apart := by simp [State.start, EndPc.before]

section Steps

variable {cfg : Config} {es fs : List Event} {s t : State}

private theorem Sound.control (h : Sound cfg s) {rx : RxPc} {dtor : EndPc} {bIsRunning : Bool}
    (passed : s.passed ≤ State.passed { s with rx := rx, dtor := dtor })
    (filled : State.filled { s with rx := rx, dtor := dtor } ≤ s.filled)
    (resume : ∀ i left, rx = .resumeCall i left → i < s.nChannel)
    (apart : dtor.before = false → rx.idle = true) :
    Sound cfg { s with rx := rx, dtor := dtor, bIsRunning := bIsRunning } where
  distinct := h.distinct
  fresh := h.fresh
  bound := Nat.le_trans filled h.bound
  live j low high := h.live j (Nat.le_trans passed low) (Nat.lt_of_lt_of_le high filled)
  resume := resume
  apart := apart

private theorem Sound.relive (h : Sound cfg s) (id : ℕ) {life : Life} (live : life.live = true) :
    Sound cfg { s with life := Function.update s.life id life } where
  distinct := h.distinct
  fresh := h.fresh
  bound := h.bound
  live j low high := by
    obtain ⟨id', entry, alive⟩ := liveAt_iff.mp (h.live j low high)
    refine liveAt_iff.mpr ⟨id', entry, ?_⟩
    rcases eq_or_ne id' id with rfl | other
    · simpa using live
    · simpa [other] using alive
  resume := h.resume
  apart := h.apart

private theorem Sound.destroy (h : Sound cfg s) {i id : ℕ} {rx : RxPc} {dtor : EndPc}
    (entry : s.table i = .demuxer id) (first : s.passed ≤ i)
    (passed : State.passed { s with rx := rx, dtor := dtor } = i + 1)
    (filled : State.filled { s with rx := rx, dtor := dtor } = s.filled)
    (resume : ∀ j left, rx = .resumeCall j left → j < s.nChannel)
    (apart : dtor.before = false → rx.idle = true) :
    Sound cfg { s with
      life := Function.update s.life id .destroyed, rx := rx, dtor := dtor } where
  distinct := h.distinct
  fresh := h.fresh
  bound := filled ▸ h.bound
  live j low high := by
    have later : i + 1 ≤ j := passed ▸ low
    have inside : j < s.filled := filled ▸ high
    obtain ⟨id', entry', alive⟩ := liveAt_iff.mp (h.live j (by omega) inside)
    have other : id' ≠ id := by
      rintro rfl
      have := h.distinct i j id' entry entry'
      omega
    exact liveAt_iff.mpr ⟨id', entry', by simpa [other] using alive⟩
  resume := resume
  apart := apart

private theorem Sound.setNull (h : Sound cfg s) {i : ℕ} {rx : RxPc} {dtor : EndPc}
    (behind : s.passed = i + 1)
    (passed : State.passed { s with rx := rx, dtor := dtor } = i + 1)
    (filled : State.filled { s with rx := rx, dtor := dtor } = s.filled)
    (resume : ∀ j left, rx = .resumeCall j left → j < s.nChannel)
    (apart : dtor.before = false → rx.idle = true) :
    Sound cfg { s with
      table := Function.update s.table i .null, rx := rx, dtor := dtor } where
  distinct j k id hj hk := by
    have kept : ∀ l, Function.update s.table i Entry.null l = .demuxer id →
        s.table l = .demuxer id := by
      intro l hl
      rcases eq_or_ne l i with rfl | other
      · simp at hl
      · simpa [other] using hl
    exact h.distinct j k id (kept j hj) (kept k hk)
  fresh j id hj := by
    rcases eq_or_ne j i with rfl | other
    · simp at hj
    · exact h.fresh j id (by simpa [other] using hj)
  bound := filled ▸ h.bound
  live j low high := by
    have later : i + 1 ≤ j := passed ▸ low
    have inside : j < s.filled := filled ▸ high
    obtain ⟨id, entry, alive⟩ := liveAt_iff.mp (h.live j (by omega) inside)
    have other : j ≠ i := by omega
    exact liveAt_iff.mpr ⟨id, by simpa [other] using entry, alive⟩
  resume := resume
  apart := apart

private theorem Sound.before (h : Sound cfg s) (busy : s.rx.idle = false) :
    s.dtor = .notYet ∨ s.dtor = .exitSet := by
  have early : s.dtor.before = true := by
    by_contra late
    have idle := h.apart (by simpa using late)
    rw [busy] at idle
    cases idle
  cases dtor : s.dtor <;> simp_all [EndPc.before]

def Fine (fs : List Event) : Prop :=
  ∀ i live, .called i live ∈ fs → i < maxNumChannel ∧ live = true

private theorem fine_nil : Fine [] := fun _ _ none_called => absurd none_called List.not_mem_nil

private theorem Sound.fine (h : Sound cfg s) {i : ℕ} (low : s.passed ≤ i) (high : i < s.filled) :
    Fine [.called i (s.liveAt i)] := by
  intro j live called
  obtain ⟨rfl, rfl⟩ := Event.called.inj (List.mem_singleton.mp called)
  have := h.bound
  have := cfg.fits
  exact ⟨by omega, h.live j low high⟩

private theorem sound_dispatch (h : Sound cfg s) (rx : s.rx = .recv) {cmd : Command}
    (early : cmd ≠ .other → s.dtor.before = true) : Sound cfg (dispatch s cmd) := by
  have unpassed : s.dtor.before = true → s.passed = 0 := by
    intro before
    cases dtor : s.dtor <;> simp_all [State.passed, EndPc.before]
  have idle : s.rx.idle = true := by rw [rx]; rfl
  cases cmd with
  | other =>
    exact h.control (by simp [State.passed, rx]) (by simp [State.filled, rx]) (by simp)
      fun _ => rfl
  | playStart =>
    have before := early (by simp)
    simp only [dispatch]
    split
    · exact h.control (by simp [unpassed before]) (by simp [State.filled, rx]) (by simp)
        fun late => by rw [before] at late; cases late
    · exact ⟨h.distinct, h.fresh, by simp [State.filled], by simp [State.filled], by simp,
        fun late => by rw [before] at late; cases late⟩
  | playReverse | playSpeedUp | playPause | playSeek =>
    have before := early (by simp)
    simp only [dispatch]
    split
    · exact h.control (by simp [unpassed before]) (by simp [State.filled, rx]) (by simp)
        fun late => by rw [before] at late; cases late
    · exact h.control (by simp [State.passed, rx]) (by simp [State.filled, rx]) (by simp)
        fun _ => rfl
  | playClose =>
    have before := early (by simp)
    simp only [dispatch]
    split
    · exact h.control (by simp [unpassed before]) (by simp [State.filled, rx]) (by simp)
        fun late => by rw [before] at late; cases late
    · exact h.control (by simp [State.passed, rx]) (by simp [State.filled, rx]) (by simp)
        fun _ => rfl

private theorem Sound.unpassed (h : Sound cfg s) (busy : s.rx.idle = false)
    (keeps : ∀ i, s.rx ≠ .delete i ∧ s.rx ≠ .clear i) : s.passed = 0 := by
  unfold State.passed
  split
  · exact absurd ‹_› (keeps _).1
  · exact absurd ‹_› (keeps _).2
  · rcases h.before busy with dtor | dtor <;> rw [dtor]

private theorem sound_new (h : Sound cfg s) (rx : s.rx = .new) (room : s.nChannel < cfg.outputs) :
    Sound cfg { s with
      table := Function.update s.table s.nChannel (.demuxer s.built)
      life := Function.update s.life s.built .built
      built := s.built + 1
      rx := .setMutex } where
  distinct j k id hj hk := by
    have other : ∀ l, l ≠ s.nChannel → Function.update s.table s.nChannel (.demuxer s.built) l =
        .demuxer id → id < s.built := by
      intro l away hl
      exact h.fresh l id (by simpa [away] using hl)
    rcases eq_or_ne j s.nChannel with rfl | hj' <;> rcases eq_or_ne k s.nChannel with rfl | hk'
    · rfl
    · have new : s.built = id := by simpa using hj
      have old := other k hk' hk
      omega
    · have new : s.built = id := by simpa using hk
      have old := other j hj' hj
      omega
    · exact h.distinct j k id (by simpa [hj'] using hj) (by simpa [hk'] using hk)
  fresh j id hj := by
    change id < s.built + 1
    rcases eq_or_ne j s.nChannel with rfl | other
    · have new : s.built = id := by simpa using hj
      omega
    · have old := h.fresh j id (by simpa [other] using hj)
      omega
  bound := room
  live j low high := by
    have inside : j < s.nChannel + 1 := high
    rcases eq_or_ne j s.nChannel with rfl | other
    · exact liveAt_iff.mpr ⟨s.built, by simp, by simp [Life.live]⟩
    · have unpassed : s.passed = 0 := h.unpassed (by rw [rx]; rfl) (by simp [rx])
      have old : j < s.filled := by simp only [State.filled, rx]; omega
      obtain ⟨id, entry, alive⟩ := liveAt_iff.mp (h.live j (by simp [unpassed]) old)
      have aged : id ≠ s.built := by
        have := h.fresh j id entry
        omega
      exact liveAt_iff.mpr ⟨id, by simpa [other] using entry, by simpa [aged] using alive⟩
  resume := by simp
  apart late := by
    rcases h.before (by rw [rx]; rfl) with dtor | dtor <;> simp [dtor, EndPc.before] at late

private theorem Sound.still_apart (h : Sound cfg s) (busy : s.rx.idle = false) {rx : RxPc} :
    s.dtor.before = false → rx.idle = true := by
  intro late
  have idle := h.apart late
  rw [busy] at idle
  cases idle

private theorem sound_created (h : Sound cfg s) (rx : s.rx = .create) {life : ℕ → Life}
    (lives : Sound cfg { s with life := life }) :
    Sound cfg { s with life := life, nChannel := s.nChannel + 1, rx := .new } where
  distinct := lives.distinct
  fresh := lives.fresh
  bound := by simpa [State.filled, rx] using lives.bound
  live j low high := by
    have unpassed : s.passed = 0 := h.unpassed (by rw [rx]; rfl) (by simp [rx])
    refine lives.live j ?_ (by simpa [State.filled, rx] using high)
    change s.passed ≤ j
    omega
  resume := by simp
  apart := h.still_apart (by rw [rx]; rfl)

private theorem sound_create {starts : Bool} (h : Sound cfg s) (rx : s.rx = .create)
    (go : rxStep cfg s none starts = some (t, fs)) : Sound cfg t ∧ Fine fs := by
  have unpassed : s.passed = 0 := h.unpassed (by rw [rx]; rfl) (by simp [rx])
  have last : s.nChannel < s.filled := by simp [State.filled, rx]
  obtain ⟨id, entry, alive⟩ := liveAt_iff.mp (h.live _ (by simp [unpassed]) last)
  simp only [rxStep, rx, entry] at go
  cases go
  refine ⟨?_, h.fine (by simp [unpassed]) last⟩
  cases starts with
  | true => exact sound_created h rx (h.relive id rfl)
  | false => exact sound_created h rx h

private theorem sound_resume {i : ℕ} (h : Sound cfg s)
    (rx : s.rx = .resumeTest i ∨ ∃ left, s.rx = .resumeCall i left)
    (go : rxStep cfg s none false = some (t, fs)) : Sound cfg t ∧ Fine fs := by
  rcases rx with rx | ⟨left, rx⟩
  · simp only [rxStep, rx] at go
    split at go
    · rename_i inside
      split at go
      · cases go
        exact ⟨h.control (by simp [State.passed, rx]) (by simp [State.filled, rx]) (by simp)
          (h.still_apart (by rw [rx]; rfl)), fine_nil⟩
      · cases go
        exact ⟨h.control (by simp [State.passed, rx]) (by simp [State.filled, rx])
          (fun j left same => by simp only [RxPc.resumeCall.injEq] at same; omega)
          (h.still_apart (by rw [rx]; rfl)), fine_nil⟩
    · cases go
      exact ⟨h.control (by simp [State.passed, rx]) (by simp [State.filled, rx]) (by simp)
        fun _ => rfl, fine_nil⟩
  · have inside := h.resume i left rx
    have unpassed : s.passed = 0 := h.unpassed (by rw [rx]; rfl) (by simp [rx])
    cases left with
    | zero =>
      simp only [rxStep, rx] at go
      cases go
      exact ⟨h.control (by simp [unpassed]) (by simp [State.filled, rx]) (by simp)
        (h.still_apart (by rw [rx]; rfl)), fine_nil⟩
    | succ left =>
      simp only [rxStep, rx] at go
      cases go
      exact ⟨h.control (by simp [unpassed]) (by simp [State.filled, rx])
        (fun j left same => by simp only [RxPc.resumeCall.injEq] at same; omega)
        (h.still_apart (by rw [rx]; rfl)),
        h.fine (by simp [unpassed]) (by simpa [State.filled, rx] using inside)⟩

private theorem sound_call {i : ℕ} (h : Sound cfg s) (rx : s.rx = .call i)
    (go : rxStep cfg s none false = some (t, fs)) : Sound cfg t ∧ Fine fs := by
  have unpassed : s.passed = 0 := h.unpassed (by rw [rx]; rfl) (by simp [rx])
  simp only [rxStep, rx] at go
  split at go
  · rename_i inside
    cases go
    exact ⟨h.control (by simp [unpassed]) (by simp [State.filled, rx]) (by simp)
      (h.still_apart (by rw [rx]; rfl)),
      h.fine (by simp [unpassed]) (by simpa [State.filled, rx] using inside)⟩
  · cases go
    exact ⟨h.control (by simp [unpassed]) (by simp [State.filled, rx]) (by simp)
      fun _ => rfl, fine_nil⟩

private theorem sound_close {i : ℕ} (h : Sound cfg s) (rx : s.rx = .delete i ∨ s.rx = .clear i)
    (go : rxStep cfg s none false = some (t, fs)) : Sound cfg t ∧ Fine fs := by
  rcases rx with rx | rx
  · simp only [rxStep, rx] at go
    have first : s.passed ≤ i := by simp [State.passed, rx]
    split at go
    · rename_i inside
      have within : i < s.filled := by simpa [State.filled, rx] using inside
      obtain ⟨id, entry, -⟩ := liveAt_iff.mp (h.live i first within)
      simp only [entry, reduceCtorEq, if_false, State.destroy] at go
      cases go
      exact ⟨h.destroy entry first (by simp [State.passed]) (by simp [State.filled, rx])
        (by simp) (h.still_apart (by rw [rx]; rfl)), h.fine first within⟩
    · cases go
      exact ⟨⟨h.distinct, h.fresh, by simp [State.filled], by simp [State.filled], by simp,
        fun _ => rfl⟩, fine_nil⟩
  · simp only [rxStep, rx, State.setNull] at go
    cases go
    exact ⟨Sound.setNull h (by simp [State.passed, rx]) (by simp [State.passed])
      (by simp [State.filled, rx]) (by simp) (h.still_apart (by rw [rx]; rfl)), fine_nil⟩

private theorem sound_rx {cmd : Option Command} {starts : Bool} (h : Sound cfg s)
    (orderly : Orderly es s (.rx cmd starts)) (go : rxStep cfg s cmd starts = some (t, fs)) :
    Sound cfg t ∧ Fine fs := by
  cases rx : s.rx with
  | head =>
    simp only [rxStep, rx] at go
    cases go
    refine ⟨h.control ?_ ?_ ?_ ?_, fine_nil⟩
    · split <;> simp [State.passed, rx]
    · split <;> simp [State.filled, rx]
    · split <;> simp
    · split <;> exact fun _ => rfl
  | recv =>
    simp only [rxStep, rx] at go
    cases cmd with
    | none =>
      cases go
      exact ⟨h.control (by simp [State.passed, rx]) (by simp [State.filled, rx]) (by simp)
        fun _ => rfl, fine_nil⟩
    | some cmd =>
      cases go
      exact ⟨sound_dispatch h rx fun known => orderly rx (by simp) (by simpa using known),
        fine_nil⟩
  | new =>
    simp only [rxStep, rx] at go
    split at go
    · rename_i room
      cases go
      exact ⟨sound_new h rx room, fine_nil⟩
    · cases go
      exact ⟨h.control (by simp [State.passed, rx]) (by simp [State.filled, rx]) (by simp)
        fun _ => rfl, fine_nil⟩
  | setMutex =>
    have unpassed : s.passed = 0 := h.unpassed (by rw [rx]; rfl) (by simp [rx])
    simp only [rxStep, rx] at go
    cases go
    exact ⟨h.control (by simp [unpassed]) (by simp [State.filled, rx]) (by simp)
      (h.still_apart (by rw [rx]; rfl)), h.fine (by simp [unpassed]) (by simp [State.filled, rx])⟩
  | create => exact sound_create h rx (by simpa only [rxStep, rx] using go)
  | resumeTest i => exact sound_resume h (.inl rx) (by simpa only [rxStep, rx] using go)
  | resumeCall i left =>
    refine sound_resume h (.inr ⟨left, rx⟩) ?_
    cases left <;> simpa only [rxStep, rx] using go
  | call i => exact sound_call h rx (by simpa only [rxStep, rx] using go)
  | delete i => exact sound_close h (.inl rx) (by simpa only [rxStep, rx] using go)
  | clear i => exact sound_close h (.inr rx) (by simpa only [rxStep, rx] using go)
  | left => simp only [rxStep, rx] at go; cases go

private theorem sound_dtor (h : Sound cfg s) (orderly : Orderly es s .dtor)
    (go : dtorStep s = some (t, fs)) : Sound cfg t ∧ Fine fs := by
  -- From `delete` on, RX is between two commands, so that only the destructor passes entries.
  have quiet : ∀ {dtor : EndPc}, s.dtor = dtor → dtor.before = false →
      s.rx = .head ∨ s.rx = .recv ∨ s.rx = .left := by
    rintro _ rfl late
    have idle := h.apart late
    cases rx : s.rx <;> simp_all [RxPc.idle]
  cases dtor : s.dtor with
  | notYet =>
    simp only [dtorStep, dtor] at go
    cases go
    refine ⟨h.control ?_ ?_ h.resume (by simp [EndPc.before]), fine_nil⟩
    · cases rx : s.rx <;> simp [State.passed, dtor, rx]
    · simp [State.filled]
  | exitSet =>
    simp only [dtorStep, dtor] at go
    cases go
    have idle := orderly dtor
    refine ⟨h.control ?_ ?_ h.resume fun _ => idle, fine_nil⟩
    · cases rx : s.rx <;> simp [State.passed, dtor, rx]
    · simp [State.filled]
  | delete i =>
    have at_rest := quiet dtor rfl
    have first : s.passed ≤ i := by
      rcases at_rest with rx | rx | rx <;> simp [State.passed, dtor, rx]
    simp only [dtorStep, dtor] at go
    split at go
    · rename_i inside
      have within : i < s.filled := by
        rcases at_rest with rx | rx | rx <;> simpa [State.filled, rx] using inside
      obtain ⟨id, entry, -⟩ := liveAt_iff.mp (h.live i first within)
      simp only [entry, reduceCtorEq, if_false, State.destroy] at go
      cases go
      refine ⟨h.destroy entry first ?_ (by simp [State.filled]) h.resume
        fun _ => h.apart (by rw [dtor]; rfl), h.fine first within⟩
      rcases at_rest with rx | rx | rx <;> simp [State.passed, rx]
    · cases go
      refine ⟨⟨h.distinct, h.fresh, h.bound, fun j low high => ?_, h.resume,
        fun _ => h.apart (by rw [dtor]; rfl)⟩, fine_nil⟩
      -- All entries have been passed.
      rcases at_rest with rx | rx | rx <;>
        simp only [State.passed, State.filled, rx] at low high <;> omega
  | clear i =>
    have at_rest := quiet dtor rfl
    simp only [dtorStep, dtor, State.setNull] at go
    cases go
    refine ⟨Sound.setNull h ?_ ?_ (by simp [State.filled]) h.resume
      fun _ => h.apart (by rw [dtor]; rfl), fine_nil⟩
    · rcases at_rest with rx | rx | rx <;> simp [State.passed, dtor, rx]
    · rcases at_rest with rx | rx | rx <;> simp [State.passed, rx]
  | terminate =>
    simp only [dtorStep, dtor] at go
    split at go
    · rename_i rx
      cases go
      exact ⟨h.control (by simp [State.passed, dtor, rx]) (by simp [State.filled]) h.resume
        fun _ => h.apart (by rw [dtor]; rfl), fine_nil⟩
    · cases go
  | done => simp only [dtorStep, dtor] at go; cases go

theorem sound_step {a : Act} (h : Sound cfg s) (orderly : Orderly es s a)
    (go : step cfg s a = some (t, fs)) : Sound cfg t ∧ Fine fs := by
  cases a with
  | rx cmd starts => exact sound_rx h orderly go
  | dtor => exact sound_dtor h orderly go
  | play id =>
    simp only [step] at go
    split at go
    · cases go
      exact ⟨h.relive id rfl, fine_nil⟩
    · cases go
  | deleteThis id => exact orderly.elim

end Steps

structure Served (cfg : Config) (es : List Event) (s : State) : Prop where
  sound : Sound cfg s
  reaches : ReachesLive es s

/-- In every orderly run RX and `Delete` reach live demuxers only. -/
theorem orderly_commands_reach_live (cfg : Config) (acts : List Act)
    (orderly : Meets (step cfg) Orderly .start acts) :
    Throughout (step cfg) ReachesLive .start acts := by
  refine Throughout.of_meets (fun bs ds s run orderly => ?_) orderly
  have served : Served cfg ds s := by
    apply run.guarded_invariant orderly
    · exact ⟨sound_start cfg, fun _ _ called => absurd called List.not_mem_nil⟩
    · intro ds m a n gs h own go
      obtain ⟨sound, fine⟩ := sound_step h.sound own go
      exact ⟨sound, fun i live called =>
        (List.mem_append.mp called).elim (h.reaches i live) (fine i live)⟩
  exact served.reaches

def pausedAndClosed : List Act :=
  [.rx none false, .rx (some .playStart) false] ++ List.replicate 4 (.rx none true) ++
    [.play 0, .rx none false, .rx (some .playPause) false,
      .rx none false, .rx none false, .rx none false, .rx (some .playClose) false] ++
    List.replicate 3 (.rx none false) ++ List.replicate 3 .dtor ++
    [.rx none false, .dtor]

theorem orderly_commands_reach_live_until_close :
    Throughout (step ⟨1, by decide⟩) ReachesLive .start pausedAndClosed :=
  orderly_commands_reach_live ⟨1, by decide⟩ pausedAndClosed
    (Meets.of_check (fun _ _ _ => of_decide_eq_true) (by decide))

/-- The directory of the only channel is missing: its thread destroys the demuxer, and the next
`play_pause` calls `SetPause` on it. -/
theorem pause_after_delete_this :
    ¬ ∀ (cfg : Config) (acts : List Act), Throughout (step cfg) ReachesLive .start acts := by
  intro claim
  have found : (exec (step ⟨1, by decide⟩) .start
      ([.rx none false, .rx (some .playStart) false] ++ List.replicate 4 (.rx none true) ++
        [.deleteThis 0, .rx none false, .rx (some .playPause) false, .rx none false])).map
      (fun r : State × List Event => decide (.called 0 false ∈ r.2)) = some true := by decide
  obtain ⟨s, es, run, seen⟩ := Run.exists_of_exec found
  have live := (claim _ _ _ [] es s (List.append_nil _).symm run 0 false (of_decide_eq_true seen)).2
  cases live

end Tsender.Lifecycle.ChannelTable
