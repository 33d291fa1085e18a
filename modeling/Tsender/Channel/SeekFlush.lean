/- Tsender/Channel/SeekFlush
   digest: A seek flushes the queue and makes the sender restart its clock whenever its m_seek_pts
   tells it apart from what is queued and from what the sender was last told. -/

import Mathlib.Data.List.Basic
import Tsender.Channel.Steps

set_option autoImplicit false
set_option relaxedAutoImplicit false

namespace Tsender.Channel.SeekFlush

open Lib.Transition Queue

structure Watch where
  /-- The packets read so far. -/
  reads : List AVPacket
  /-- The `start_pts` that `GetVideo` reported last. -/
  last : Option UInt64
  /-- A move was taken and `m_nSeekFrame` not yet looked at. -/
  taken : Bool
  /-- A seek was carried out and no packet enqueued since. -/
  pending : Bool
  /-- The packets read before the last seek that was carried out. -/
  before : List AVPacket
  /-- What was reported last before each pending seek. -/
  due : List UInt64
  /-- The packets that `GetVideo` must not return any more. -/
  stale : List AVPacket
  /-- What the next report must differ from. -/
  differ : List UInt64

def Watch.first : Watch := ⟨[], none, false, false, [], [], [], []⟩

/-- `Demux` has carried out a seek. -/
def Watch.carry (w : Watch) : Watch :=
  { w with taken := false, pending := true, before := w.reads, due := w.due ++ w.last.toList }

/-- The first packet enqueued after a seek ends the time of the packets read before it.  A seek
to frame 0 is carried out when the move is taken and `m_nSeekFrame` is found not positive. -/
def Watch.observe (w : Watch) : Event → Watch
  | .moved _ => { w with taken := true }
  | .passed => if w.taken then w.carry else w
  | .sought _ => w.carry
  | .read pkt => { w with reads := w.reads ++ [pkt] }
  | .accepted _ =>
      if w.pending then
        { w with pending := false, stale := w.before, differ := w.differ ++ w.due, due := [] }
      else w
  | .polled startPts _ => { w with last := some startPts, differ := [] }
  | _ => w

def watch (es : List Event) : Watch := es.foldl Watch.observe .first

@[simp] theorem watch_append (es fs : List Event) :
    watch (es ++ fs) = fs.foldl Watch.observe (watch es) := List.foldl_append

/-- Every seek flushes: once a packet read after it is enqueued, `GetVideo` returns no packet
read before it, and first reports another `start_pts` than it did last before it. -/
def Flushes (es : List Event) : Prop :=
  ∀ (front back : List Event) (startPts : UInt64) (pkt : Option AVPacket),
    es = front ++ .polled startPts pkt :: back →
      startPts ∉ (watch front).differ ∧ ∀ p, pkt = some p → p ∉ (watch front).stale

/-- The `m_seek_pts` of a seek to the frame in `m_nSeekFrame`. -/
def seekTarget (cfg : Config) (d : CDemuxer) : UInt64 :=
  match d.fmtCtx with
  | none => d.seekPts
  | some ctx =>
      match cfg.files[ctx.file]? with
      | none => d.seekPts
      | some file =>
          if cfg.nChannel < 6 then seekPtsOf file.timeBase (file.seekTm d.nSeekFrame)
          else d.seekPts

/-- A value of `m_seek_pts` that is new to the queue, unless that is empty, and to the sender. -/
def IsNews (es : List Event) (q : CQueue) (pts : UInt64) : Prop :=
  (pts = q.startPts → ∀ i, (q.pkt i).size = 0) ∧
    pts ∉ (watch es).last.toList ++ (watch es).due ++ (watch es).differ

instance (es : List Event) (q : CQueue) (pts : UInt64) : Decidable (IsNews es q pts) :=
  inferInstanceAs (Decidable (_ ∧ _))

/-- Whenever `Demux` completes a seek, the value it has for `m_seek_pts` is news: the position
of the target frame, or the old value when the frame is 0. -/
def SeeksAreNews (cfg : Config) (es : List Event) (c : State) (a : Act) : Prop :=
  a = .demux →
    (c.d.pc = .doSeek → IsNews es c.q (seekTarget cfg c.d)) ∧
    (c.d.pc = .testSeek → ¬0 < c.d.nSeekFrame → (watch es).taken = true →
      IsNews es c.q c.d.seekPts)

instance (cfg : Config) (es : List Event) (c : State) (a : Act) :
    Decidable (SeeksAreNews cfg es c a) :=
  inferInstanceAs (Decidable (_ → _ ∧ _))

section Flushes

variable {es fs : List Event}

theorem Flushes.append (h : Flushes es) (quiet : ∀ startPts pkt, .polled startPts pkt ∉ fs) :
    Flushes (es ++ fs) := by
  intro front back startPts pkt whole
  rcases List.append_eq_append_iff.mp whole with ⟨between, -, rfl⟩ | ⟨between, rfl, rest⟩
  · exact absurd (by simp) (quiet startPts pkt)
  · cases between with
    | nil =>
      rw [List.nil_append] at rest
      exact absurd (rest ▸ List.mem_cons_self) (quiet startPts pkt)
    | cons e between =>
      obtain ⟨rfl, -⟩ := List.cons.inj rest
      exact h front between startPts pkt rfl

theorem Flushes.polled (h : Flushes es) {startPts : UInt64} {pkt : Option AVPacket}
    (differs : startPts ∉ (watch es).differ) (fresh : ∀ p, pkt = some p → p ∉ (watch es).stale) :
    Flushes (es ++ [.polled startPts pkt]) := by
  intro front back startPts' pkt' whole
  rcases List.eq_nil_or_concat back with rfl | ⟨back, e, rfl⟩
  · obtain ⟨rfl, same⟩ := List.append_inj' whole rfl
    obtain ⟨rfl, rfl⟩ := Event.polled.inj (List.cons.inj same).1
    exact ⟨differs, fresh⟩
  · rw [List.concat_eq_append, ← List.cons_append, ← List.append_assoc] at whole
    obtain ⟨rfl, -⟩ := List.append_inj' whole rfl
    exact h front back startPts' pkt' rfl

end Flushes

/-- What the watch knows about the queue and about what `Demux` is going to enqueue. -/
structure Aware (es : List Event) (c : State) : Prop where
  flushes : Flushes es
  numbered : ∀ p ∈ (watch es).reads, ∃ n < c.d.reads, p.buf = some n
  before : ∀ p ∈ (watch es).before, p ∈ (watch es).reads
  stale : ∀ p ∈ (watch es).stale, p ∈ (watch es).reads
  offer : c.d.pc = .put → 0 < c.d.pkt.size ∧ c.d.pkt ∉ (watch es).stale ∧
    ((watch es).pending = true → c.d.pkt ∉ (watch es).before)
  slots : ∀ i, 0 < (c.q.pkt i).size → c.q.pkt i ∉ (watch es).stale
  report : c.q.startPts ∉ (watch es).differ
  settled : (watch es).pending = false → c.d.seekPts = c.q.startPts ∧ (watch es).due = []
  apart : (watch es).pending = true →
    c.d.seekPts ∉ (watch es).due ++ (watch es).differ ∧
      (c.d.seekPts = c.q.startPts → ∀ i, (c.q.pkt i).size = 0)

private theorem aware_start (cfg : Config) : Aware [] (.start cfg) where
  flushes := by
    intro front back startPts pkt whole
    simp at whole
  numbered := by simp [watch, Watch.first]
  before := by simp [watch, Watch.first]
  stale := by simp [watch, Watch.first]
  offer := by simp [State.start]
  slots := by simp [watch, Watch.first]
  report := by simp [watch, Watch.first]
  settled := fun _ => ⟨rfl, rfl⟩
  apart := by simp [watch, Watch.first]

section Steps

variable {cfg : Config} {es fs : List Event} {c c' : State}

private theorem Aware.keep (h : Aware es c) (taken : Bool)
    (seen : watch (es ++ fs) = { watch es with taken := taken })
    (quiet : ∀ startPts pkt, .polled startPts pkt ∉ fs)
    (queue : c'.q.pkt = c.q.pkt ∧ c'.q.startPts = c.q.startPts)
    (demux : c'.d.seekPts = c.d.seekPts ∧ c.d.reads ≤ c'.d.reads)
    (offer : c'.d.pc = .put → c.d.pc = .put ∧ c'.d.pkt = c.d.pkt) : Aware (es ++ fs) c' where
  flushes := h.flushes.append quiet
  numbered p hp := by
    rw [seen] at hp
    obtain ⟨n, below, number⟩ := h.numbered p hp
    exact ⟨n, lt_of_lt_of_le below demux.2, number⟩
  before := by rw [seen]; exact h.before
  stale := by rw [seen]; exact h.stale
  offer pc := by
    obtain ⟨old, same⟩ := offer pc
    rw [seen, same]
    exact h.offer old
  slots := by rw [seen, queue.1]; exact h.slots
  report := by rw [seen, queue.2]; exact h.report
  settled := by rw [seen, queue.2, demux.1]; exact h.settled
  apart := by rw [seen, queue.1, queue.2, demux.1]; exact h.apart

private theorem Aware.carry (h : Aware es c) (seen : watch (es ++ fs) = (watch es).carry)
    (quiet : ∀ startPts pkt, .polled startPts pkt ∉ fs) (queue : c'.q = c.q)
    (reads : c'.d.reads = c.d.reads) (pc : c'.d.pc ≠ .put) (news : IsNews es c.q c'.d.seekPts) :
    Aware (es ++ fs) c' where
  flushes := h.flushes.append quiet
  numbered p hp := by
    rw [seen] at hp
    rw [reads]
    exact h.numbered p hp
  before := by rw [seen]; exact fun _ hp => hp
  stale := by rw [seen]; exact h.stale
  offer at_put := absurd at_put pc
  slots := by rw [seen, queue]; exact h.slots
  report := by rw [seen, queue]; exact h.report
  settled := by rw [seen]; simp [Watch.carry]
  apart _ := by
    obtain ⟨empty, unheard⟩ := news
    rw [seen, queue]
    refine ⟨?_, empty⟩
    simp only [Watch.carry, List.mem_append, not_or] at unheard ⊢
    exact ⟨⟨unheard.1.2, unheard.1.1⟩, unheard.2⟩

private theorem Aware.fresh (h : Aware es c) {pkt : AVPacket} (number : pkt.buf = some c.d.reads) :
    pkt ∉ (watch es).reads := by
  intro old
  obtain ⟨n, below, same⟩ := h.numbered pkt old
  obtain rfl := Option.some.inj (number.symm.trans same)
  exact absurd below (lt_irrefl _)

private theorem aware_read (h : Aware es c) {d : CDemuxer} {pkt : AVPacket}
    (number : pkt.buf = some c.d.reads)
    (demux : d.seekPts = c.d.seekPts ∧ d.reads = c.d.reads + 1 ∧ d.pkt = pkt)
    (offer : d.pc = .put → 0 < pkt.size) :
    Aware (es ++ [.read pkt]) { c with d := d } where
  flushes := h.flushes.append (by simp)
  numbered p hp := by
    simp only [watch_append, List.foldl_cons, List.foldl_nil, Watch.observe, List.mem_append,
      List.mem_singleton] at hp
    change ∃ n < d.reads, p.buf = some n
    rw [demux.2.1]
    rcases hp with old | rfl
    · obtain ⟨n, below, same⟩ := h.numbered p old
      exact ⟨n, by omega, same⟩
    · exact ⟨c.d.reads, by omega, number⟩
  before p hp := by
    simp only [watch_append, List.foldl_cons, List.foldl_nil, Watch.observe] at hp ⊢
    exact List.mem_append_left _ (h.before p hp)
  stale p hp := by
    simp only [watch_append, List.foldl_cons, List.foldl_nil, Watch.observe] at hp ⊢
    exact List.mem_append_left _ (h.stale p hp)
  offer pc := by
    simp only [watch_append, List.foldl_cons, List.foldl_nil, Watch.observe, demux.2.2]
    exact ⟨offer pc, fun old => h.fresh number (h.stale _ old),
      fun _ old => h.fresh number (h.before _ old)⟩
  slots := by simpa [Watch.observe] using h.slots
  report := by simpa [Watch.observe] using h.report
  settled := by simpa [Watch.observe, demux.1] using h.settled
  apart := by simpa [Watch.observe, demux.1] using h.apart

private theorem putVideo_pending (h : Aware es c) (pc : c.d.pc = .put)
    (pending : (watch es).pending = true)
    (size : 0 < (c.q.putVideo c.d.pkt c.d.seekPts).2) (i : Fin maxNumQueue)
    (filled : 0 < ((c.q.putVideo c.d.pkt c.d.seekPts).1.pkt i).size) :
    (c.q.putVideo c.d.pkt c.d.seekPts).1.pkt i = c.d.pkt := by
  have data := (h.offer pc).1
  by_cases same : c.q.startPts = c.d.seekPts
  · rcases putVideo_same same data with full | stored
    · rw [full] at size
      exact absurd size (lt_irrefl 0)
    · rw [stored] at filled ⊢
      exact slots_store_empty ((h.apart pending).2 same.symm) filled
  · rw [(putVideo_changed same data).1] at filled ⊢
    refine slots_store_empty (fun j => ?_) filled
    rw [slots_restart_changed same, AVPacket.size_blank]

private theorem aware_accepted (h : Aware es c) (pc : c.d.pc = .put)
    (size : 0 < (c.q.putVideo c.d.pkt c.d.seekPts).2) :
    Aware (es ++ [.accepted c.d.pkt])
      { c with
        d := { c.d with pc := .testMove }
        q := (c.q.putVideo c.d.pkt c.d.seekPts).1 } := by
  obtain ⟨data, fresh, new⟩ := h.offer pc
  have flushes : Flushes (es ++ [.accepted c.d.pkt]) := h.flushes.append (by simp)
  cases pending : (watch es).pending with
  | true =>
    have seen : watch (es ++ [.accepted c.d.pkt]) = { watch es with
        pending := false, stale := (watch es).before
        differ := (watch es).differ ++ (watch es).due, due := [] } := by
      simp [Watch.observe, pending]
    refine ⟨flushes, ?_, ?_, ?_, by simp, ?_, ?_, ?_, ?_⟩
    · rw [seen]; exact h.numbered
    · rw [seen]; exact h.before
    · rw [seen]; exact h.before
    · intro i filled
      rw [seen, putVideo_pending h pc pending size i filled]
      exact new pending
    · have unheard := (h.apart pending).1
      rw [seen, startPts_putVideo]
      simp only [List.mem_append, not_or] at unheard ⊢
      exact ⟨unheard.2, unheard.1⟩
    · rw [seen, startPts_putVideo]
      exact fun _ => ⟨rfl, rfl⟩
    · rw [seen]; simp
  | false =>
    have seen : watch (es ++ [.accepted c.d.pkt]) = watch es := by
      simp [Watch.observe, pending]
    obtain ⟨same, none_due⟩ := h.settled pending
    rcases putVideo_same same.symm data with full | stored
    · rw [full] at size
      exact absurd size (lt_irrefl 0)
    · rw [stored]
      refine ⟨flushes, ?_, ?_, ?_, by simp, ?_, ?_, ?_, ?_⟩
      · rw [seen]; exact h.numbered
      · rw [seen]; exact h.before
      · rw [seen]; exact h.stale
      · intro i filled
        rw [seen]
        simp only [CQueue.store] at filled ⊢
        rcases eq_or_ne i c.q.nWritePos with rfl | other
        · rwa [Function.update_self]
        · rw [Function.update_of_ne other] at filled ⊢
          exact h.slots i filled
      · rw [seen]; exact h.report
      · rw [seen]; exact h.settled
      · rw [seen, pending]; simp

private theorem aware_refused (h : Aware es c) (pc : c.d.pc = .put)
    (size : ¬0 < (c.q.putVideo c.d.pkt c.d.seekPts).2) :
    Aware (es ++ [.refused]) { c with q := (c.q.putVideo c.d.pkt c.d.seekPts).1 } := by
  have data := (h.offer pc).1
  have positive : (0 : ℤ) < c.d.pkt.size := by exact_mod_cast data
  have unchanged : (c.q.putVideo c.d.pkt c.d.seekPts).1 = c.q := by
    by_cases same : c.q.startPts = c.d.seekPts
    · rcases putVideo_same same data with full | stored
      · rw [full]
      · rw [stored] at size
        exact absurd positive size
    · rw [(putVideo_changed same data).1] at size
      exact absurd positive size
  rw [unchanged]
  exact h.keep (watch es).taken (by simp [Watch.observe]) (by simp) ⟨rfl, rfl⟩ ⟨rfl, le_refl _⟩
    fun at_put => ⟨at_put, rfl⟩

private theorem Aware.goOn (h : Aware es c) (seen : watch (es ++ fs) = watch es)
    (quiet : ∀ startPts pkt, .polled startPts pkt ∉ fs) (queue : c'.q = c.q)
    (seekPts : c'.d.seekPts = c.d.seekPts) (reads : c.d.reads ≤ c'.d.reads)
    (pc : c'.d.pc ≠ .put) : Aware (es ++ fs) c' :=
  h.keep (watch es).taken seen quiet ⟨by rw [queue], by rw [queue]⟩ ⟨seekPts, reads⟩
    fun at_put => absurd at_put pc

private theorem aware_demux (h : Aware es c) (news : SeeksAreNews cfg es c .demux)
    (go : Demuxed cfg c c' fs) : Aware (es ++ fs) c' := by
  obtain ⟨news_sought, news_passed⟩ := news rfl
  cases go with
  | stopped | left | foundMove | noMove | clearedMove | foundSeek | clearedSeek | forward
  | putExit | closed =>
    exact h.goOn (by simp) (by simp) rfl rfl (le_refl _) (by simp)
  | unfiltered | opened | ended =>
    exact h.goOn (by simp [Watch.observe]) (by simp) rfl rfl (le_refl _) (by simp)
  | dropped => exact h.goOn (by simp) (by simp) rfl rfl (Nat.le_succ _) (by simp)
  | turned pc back d kept =>
    obtain ⟨-, -, -, -, seekPts, -, reads, -, pc'⟩ := kept
    exact h.goOn (by simp) (by simp) rfl seekPts reads.ge
      (by rcases pc' with pc' | pc' <;> simp [pc'])
  | stuck pc => simpa using h
  | moved pc i index =>
    exact h.keep true (by simp [Watch.observe]) (by simp) ⟨rfl, rfl⟩ ⟨rfl, le_refl _⟩ (by simp)
  | passed pc no_seek =>
    cases taken : (watch es).taken with
    | true =>
      exact h.carry (by simp [Watch.observe, taken]) (by simp) rfl rfl (by simp)
        (news_passed pc no_seek taken)
    | false => exact h.goOn (by simp [Watch.observe, taken]) (by simp) rfl rfl (le_refl _) (by simp)
  | sought pc ctx file context found near =>
    have target := news_sought pc
    simp only [seekTarget, context, found, if_pos near] at target
    exact h.carry (by simp [Watch.observe]) (by simp) rfl rfl (by simp) target
  | soughtFar pc far =>
    have target := news_sought pc
    have stays : seekTarget cfg c.d = c.d.seekPts := by
      unfold seekTarget
      split
      · rfl
      · split
        · rfl
        · rw [if_neg far]
    rw [stays] at target
    exact h.carry (by simp [Watch.observe]) (by simp) rfl rfl (by simp) target
  | read pc ctx payload out rest first context next filtered =>
    refine aware_read h rfl ⟨rfl, rfl, rfl⟩ fun offered => ?_
    by_contra empty
    rw [AVPacket.size] at empty
    simp [empty] at offered
  | accepted pc size => exact aware_accepted h pc size
  | refused pc size => exact aware_refused h pc size

private theorem aware_get {garbage : AVRational} (h : Aware es c)
    (go : runGet cfg c garbage = some (c', fs)) : Aware (es ++ fs) c' := by
  obtain ⟨-, cases⟩ := get_cases go
  have polled : ∀ (pkt : Option AVPacket) (s : CSender), c.q.getVideo.2.2 = pkt →
      Aware (es ++ [.polled c.q.startPts pkt]) { c with q := c.q.getVideo.1, s := s } := by
    intro pkt s got
    have seen : watch (es ++ [.polled c.q.startPts pkt]) =
        { watch es with last := some c.q.startPts, differ := [] } := by simp [Watch.observe]
    refine ⟨h.flushes.polled h.report ?_, ?_, ?_, ?_, ?_, ?_, ?_, ?_, ?_⟩
    · rintro p rfl
      obtain ⟨data, rfl⟩ := getVideo_slot got
      exact h.slots _ data
    · rw [seen]; exact h.numbered
    · rw [seen]; exact h.before
    · rw [seen]; exact h.stale
    · rw [seen]; exact h.offer
    · intro i filled
      rw [seen]
      rcases slots_getVideo c.q i with same | blank
      · change c.q.getVideo.1.pkt i ∉ (watch es).stale
        rw [same] at filled ⊢
        exact h.slots i filled
      · rw [blank] at filled
        simp at filled
    · rw [seen]; simp
    · rw [seen, startPts_getVideo]; exact h.settled
    · intro pending
      rw [seen] at pending ⊢
      obtain ⟨unheard, empty⟩ := h.apart pending
      refine ⟨fun old => unheard (List.mem_append_left _ (by simpa using old)), fun same i => ?_⟩
      rcases slots_getVideo c.q i with unchanged | blank
      · rw [unchanged]
        exact empty (same.trans (startPts_getVideo c.q)) i
      · rw [blank, AVPacket.size_blank]
  rcases cases with ⟨rfl, rfl⟩ | ⟨rfl, none_got, rfl⟩ | ⟨pkt, timeBase, rfl, some_got, rfl⟩
  · rw [List.append_nil]
    exact ⟨h.flushes, h.numbered, h.before, h.stale, h.offer, h.slots, h.report, h.settled,
      h.apart⟩
  · exact polled none _ none_got
  · exact polled (some pkt) _ some_got

private theorem Aware.beside (h : Aware es c) (seen : watch (es ++ fs) = watch es)
    (quiet : ∀ startPts pkt, .polled startPts pkt ∉ fs)
    (queue : c'.q.pkt = c.q.pkt ∧ c'.q.startPts = c.q.startPts)
    (demux : c'.d.seekPts = c.d.seekPts ∧ c'.d.reads = c.d.reads ∧ c'.d.pc = c.d.pc ∧
      c'.d.pkt = c.d.pkt) : Aware (es ++ fs) c' :=
  h.keep (watch es).taken seen quiet queue ⟨demux.1, demux.2.1.ge⟩ fun at_put =>
    ⟨demux.2.2.1 ▸ at_put, demux.2.2.2⟩

private theorem aware_step {a : Act} (h : Aware es c) (news : SeeksAreNews cfg es c a)
    (go : step cfg c a = some (c', fs)) : Aware (es ++ fs) c' := by
  cases a with
  | demux => exact aware_demux h news (demux_cases go)
  | clock now₁ now₂ =>
    obtain ⟨-, rfl, s, rfl, -⟩ := clock_cases go
    exact h.beside (by simp) (by simp) ⟨rfl, rfl⟩ ⟨rfl, rfl, rfl, rfl⟩
  | get garbage => exact aware_get h go
  | send =>
    obtain ⟨pkt, s, -, rfl, -, -, -, ⟨-, rfl, -⟩ | ⟨-, rfl, -⟩⟩ := send_cases go
    · exact h.beside (by simp [Watch.observe]) (by simp) ⟨rfl, rfl⟩ ⟨rfl, rfl, rfl, rfl⟩
    · exact h.beside (by simp [Watch.observe]) (by simp) ⟨rfl, rfl⟩ ⟨rfl, rfl, rfl, rfl⟩
  | ret =>
    obtain ⟨pkt, -, rfl, rfl⟩ := ret_cases go
    exact h.beside (by simp [Watch.observe]) (by simp) ⟨rfl, rfl⟩ ⟨rfl, rfl, rfl, rfl⟩
  | setMoveSec nSec =>
    obtain ⟨nFrame, -, -, rfl, rfl⟩ := setMoveSec_cases go
    exact h.beside (by simp) (by simp) ⟨rfl, rfl⟩ ⟨rfl, rfl, rfl, rfl⟩
  | storeSeekFrame =>
    obtain ⟨nFrame, frame, -, -, rfl, rfl⟩ := storeSeekFrame_cases go
    exact h.beside (by simp) (by simp) ⟨rfl, rfl⟩ ⟨rfl, rfl, rfl, rfl⟩
  | storeIsMove =>
    obtain ⟨nFrame, -, rfl, rfl⟩ := storeIsMove_cases go
    exact h.beside (by simp [Watch.observe]) (by simp) ⟨rfl, rfl⟩ ⟨rfl, rfl, rfl, rfl⟩
  | setReverse state =>
    simp only [step, Option.some.injEq, Prod.mk.injEq] at go
    obtain ⟨rfl, rfl⟩ := go
    exact h.beside (by simp) (by simp) ⟨rfl, rfl⟩ ⟨rfl, rfl, rfl, rfl⟩
  | exit =>
    simp only [step, Option.some.injEq, Prod.mk.injEq] at go
    obtain ⟨rfl, rfl⟩ := go
    exact h.beside (by simp) (by simp) ⟨rfl, rfl⟩ ⟨rfl, rfl, rfl, rfl⟩

end Steps

/-- In a run in which every seek that is carried out is news, every seek flushes. -/
theorem seeks_flush (cfg : Config) (acts : List Act)
    (news : Meets (step cfg) (SeeksAreNews cfg) (.start cfg) acts) :
    Throughout (step cfg) (fun es _ => Flushes es) (.start cfg) acts := by
  refine Throughout.of_meets (fun bs ds m run news => ?_) news
  have aware : Aware ds m := by
    apply run.guarded_invariant news (aware_start cfg)
    intro ds m a n gs h own go
    exact aware_step h own go
  exact aware.flushes

/-- One file of four frames at one frame per second, whose time base is in microseconds. -/
def fourSeconds : Config where
  files := [{
    frame := 4
    opens := true
    hasVideo := true
    initsFilter := true
    startTime := 0
    timeBase := ⟨1, 1000000⟩
    packets := [⟨[0], 0⟩, ⟨[1], 1000000⟩, ⟨[2], 2000000⟩, ⟨[3], 3000000⟩]
    seekTm := fun frame => 1000000 * frame
    seekFile := fun tm =>
      some ([⟨[0], 0⟩, ⟨[1], 1000000⟩, ⟨[2], 2000000⟩, ⟨[3], 3000000⟩].drop (tm / 1000000).toNat) }]
  filter := some
  nChannel := 0
  num := 1
  den := 1
  gop := 1
  stray := false

/-- Two packets are enqueued and the first is handed out; a seek is taken and its first packet
enqueued; the sender asks again. -/
def seekTo (nSec : ℤ) (statements : ℕ) : List Act :=
  List.replicate 11 .demux ++ [.clock 0 0, .get ⟨0, 0⟩, .send, .ret] ++
    [.setMoveSec nSec, .storeSeekFrame, .storeIsMove] ++ List.replicate statements .demux ++
    [.clock 0 0, .get ⟨0, 0⟩]

theorem seeks_flush_two_seconds :
    Throughout (step fourSeconds) (fun es _ => Flushes es) (.start fourSeconds) (seekTo 2 12) :=
  seeks_flush fourSeconds (seekTo 2 12)
    (Meets.of_check (fun _ _ _ => of_decide_eq_true) (by decide))

/-- A seek to second 0 leaves `m_seek_pts` as it is: the packets of before stay queued, and the
sender is told nothing new. -/
theorem seek_to_zero_keeps_stale_packets :
    ¬ ∀ acts : List Act, Throughout (restrict Act.seeks (step fourSeconds))
      (fun es _ => Flushes es) (.start fourSeconds) acts := by
  intro claim
  have found : (exec (restrict Act.seeks (step fourSeconds)) (.start fourSeconds)
      (seekTo 0 10)).map (fun r : State × List Event => decide (
        ⟨some 1, [1], 1000000⟩ ∈ (watch r.2.dropLast).stale ∧
          r.2.getLast? = some (.polled 0 (some ⟨some 1, [1], 1000000⟩)))) = some true := by decide
  obtain ⟨c, es, run, seen⟩ := Run.exists_of_exec found
  obtain ⟨stale, last⟩ := of_decide_eq_true seen
  have whole : es = es.dropLast ++ .polled 0 (some ⟨some 1, [1], 1000000⟩) :: [] :=
    (List.dropLast_append_getLast? _ last).symm
  have flushes := claim (seekTo 0 10) (seekTo 0 10) [] es c (by simp) run
  exact (flushes _ _ _ _ whole).2 _ rfl stale

end Tsender.Channel.SeekFlush
