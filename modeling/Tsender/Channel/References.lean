/- Tsender/Channel/References
   source: demuxer.cpp (the local packet of Demux, ~CDemuxer), queue.cpp (PutVideo, GetVideo,
   RetVideo, Clear, ~CQueue), sender.cpp (Run, ~CSender)
   digest: The books of a video channel: the references to packet buffers that it has taken when
   it is gone were given back once each exactly when no step on the way forgot one. -/

import Mathlib.Algebra.BigOperators.Fin
import Tsender.Channel.CutCalls

set_option autoImplicit false
set_option relaxedAutoImplicit false

namespace Tsender.Channel.References

open Lib.Transition Lib.Ledger Queue CutCalls

/-- The step forgets no reference: `Demux` leaves a file with an empty packet, `PutVideo` writes an
empty slot, `GetVideo` refers to a slot with a packet, `Run` finds its queue when it has a packet to
give back, and the slots are empty when the queue is freed. -/
def Tidy (s : Holding) : HoldAct → Prop
  | .run .demux =>
      (s.c.d.pc = .fileEnd → s.c.d.pkt.buf = none) ∧
        (s.c.d.pc = .put → s.put = .store → 0 < s.c.d.pkt.size →
          (s.c.q.pkt s.c.q.nWritePos).buf = none)
  | .run (.get _) => s.get = .ref → (s.c.q.pkt s.c.q.nReadPos).buf ≠ none
  | .run .ret => s.get = .idle → s.queue = .null → senderRefs s = []
  | .freeQueue => ∀ i, (s.c.q.pkt i).buf = none
  | _ => True

section Slots

variable {slots : Fin maxNumQueue → AVPacket}

private theorem coe_flatMap {ι ρ : Type} (l : List ι) (f : ι → List ρ) :
    ((l.flatMap f : List ρ) : Multiset ρ) = (l.map fun i => (f i : Multiset ρ)).sum := by
  induction l with
  | nil => rfl
  | cons i l ih =>
    rw [List.flatMap_cons, ← Multiset.coe_add, ih, List.map_cons, List.sum_cons]

private theorem coe_slotRefs (slots : Fin maxNumQueue → AVPacket) :
    (slotRefs slots : Multiset Ref) = ∑ i, (refs .slot (slots i) : Multiset Ref) := by
  rw [slotRefs, coe_flatMap, Fin.sum_univ_def]

private theorem slotRefs_update (slots : Fin maxNumQueue → AVPacket) (i : Fin maxNumQueue)
    (pkt : AVPacket) :
    (slotRefs (Function.update slots i pkt) : Multiset Ref) + refs .slot (slots i) =
      slotRefs slots + refs .slot pkt := by
  have others : ∑ j ∈ Finset.univ.erase i,
      (refs .slot (Function.update slots i pkt j) : Multiset Ref) =
        ∑ j ∈ Finset.univ.erase i, (refs .slot (slots j) : Multiset Ref) := by
    apply Finset.sum_congr rfl
    intro j mem
    rw [Function.update_of_ne (Finset.ne_of_mem_erase mem)]
  rw [coe_slotRefs, coe_slotRefs, ← Finset.sum_erase_add _ _ (Finset.mem_univ i), others,
    Function.update_self, ← Finset.sum_erase_add Finset.univ _ (Finset.mem_univ i)]
  abel

private theorem refs_blank (holder : Holder) : refs holder .blank = [] := rfl

private theorem refs_emptyPkt (holder : Holder) : refs holder emptyPkt = [] := rfl

private theorem refs_eq_nil {holder : Holder} {pkt : AVPacket} :
    refs holder pkt = [] ↔ pkt.buf = none := by
  simp [refs]

private theorem slotRefs_eq_nil : slotRefs slots = [] ↔ ∀ i, (slots i).buf = none := by
  simp [slotRefs, refs_eq_nil]

private theorem slotRefs_emptied (slots : Fin maxNumQueue → AVPacket) (i : Fin maxNumQueue) :
    (slotRefs slots : Multiset Ref) =
      refs .slot (slots i) + slotRefs (Function.update slots i .blank) := by
  have written := slotRefs_update slots i .blank
  rw [refs_blank, Multiset.coe_nil, add_zero] at written
  rw [← written, add_comm]

@[simp] theorem acquired_packetRef {holder : Holder} {pkt : AVPacket} (full : pkt.buf ≠ none) :
    acquired (packetRef holder pkt) = refs holder pkt := by
  obtain ⟨n, buf⟩ := Option.ne_none_iff_exists'.mp full
  simp [packetRef, refs, buf]

@[simp] theorem released_packetRef (holder : Holder) (pkt : AVPacket) :
    released (packetRef holder pkt) = 0 := rfl

@[simp] theorem acquired_packetUnref (holder : Holder) (pkt : AVPacket) :
    acquired (packetUnref holder pkt) = 0 := acquired_map_released

@[simp] theorem released_packetUnref (holder : Holder) (pkt : AVPacket) :
    released (packetUnref holder pkt) = refs holder pkt := released_map_released

end Slots

section Outside

variable {cfg : Config} {c c' : State} {es : List Event}

private theorem localRefs_of_inScope {d : CDemuxer} (scope : inScope d.pc = true) :
    localRefs d = refs .demux d.pkt := if_pos scope

/-- What a statement of `Demux` outside `PutVideo` gives up when it leaves a file. -/
def left (c : State) : List Ref := if c.d.pc = .fileEnd then refs .demux c.d.pkt else []

private theorem readFrame_accounts (pc : c.d.pc = .readFrame)
    (next : step cfg c .demux = some (c', es)) :
    (localRefs c.d : Multiset Ref) + acquired (entries cfg c .demux) =
      released (entries cfg c .demux) + localRefs c'.d ∧ c'.q = c.q ∧ c'.s = c.s ∧
      (c'.d.pc = .put → c'.d.pkt.buf ≠ none) := by
  have here : localRefs c.d = refs .demux c.d.pkt := localRefs_of_inScope (by rw [pc]; rfl)
  cases demux_cases next with
  | ended _ ctx context rest =>
    refine ⟨?_, rfl, rfl, nofun⟩
    rw [here, localRefs_of_inScope rfl]
    simp only [entries, pc, if_true, readEntries, context, Option.map_some, rest, List.append_nil,
      acquired_packetUnref, released_packetUnref, refs_emptyPkt, Multiset.coe_nil, add_zero]
  | dropped _ ctx payload rest first context left filtered =>
    refine ⟨?_, rfl, rfl, nofun⟩
    rw [here, localRefs_of_inScope rfl]
    simp only [entries, pc, readEntries, context, Option.map_some, left, filtered, if_true,
      acquired_append, released_append, acquired_packetUnref, released_packetUnref, refs_blank,
      acquired_cons_acquired, released_cons_acquired, acquired_cons_released,
      released_cons_released, acquired_nil, released_nil, Multiset.coe_nil, zero_add, add_zero]
  | read _ ctx payload out rest first context left filtered =>
    refine ⟨?_, rfl, rfl, fun _ => Option.some_ne_none _⟩
    have scope : inScope (if 0 < out.data.length then .put else .testMove) = true := by
      split <;> rfl
    rw [here, localRefs_of_inScope scope]
    simp only [entries, pc, if_true, readEntries, context, Option.map_some, left, filtered,
      reduceCtorEq, if_false, acquired_append, released_append, acquired_packetUnref,
      released_packetUnref, acquired_cons_acquired, released_cons_acquired, acquired_nil,
      released_nil, zero_add, add_zero]
    rfl
  | _ h => exact absurd (h.symm.trans pc) (by decide)

private theorem quiet_accounts (put : c.d.pc ≠ .put) (readFrame : c.d.pc ≠ .readFrame)
    (next : step cfg c .demux = some (c', es)) :
    (localRefs c.d : Multiset Ref) = localRefs c'.d + left c ∧ c'.q = c.q ∧ c'.s.pc = c.s.pc ∧
      c'.d.pc ≠ .put := by
  cases demux_cases next with
  | turned pc back d kept =>
    obtain ⟨-, -, -, -, -, pkt, -, -, at_read | at_end⟩ := kept
    · simp [localRefs, left, inScope, pc, pkt, at_read]
    · simp [localRefs, left, inScope, pc, pkt, at_end]
  | ended pc | dropped pc | read pc => exact absurd pc readFrame
  | putExit pc | accepted pc | refused pc | stuck pc => exact absurd pc put
  | stopped pc | unfiltered pc | opened pc | closed pc =>
    simp [localRefs, left, inScope, pc, refs_emptyPkt]
  | left pc | foundMove pc | noMove pc | clearedMove pc | moved pc | foundSeek pc | passed pc
    | sought pc | soughtFar pc | clearedSeek pc | forward pc =>
    simp [localRefs, References.left, inScope, pc]

structure Outside (cfg : Config) (c : State) (a : Act) (c' : State) : Prop where
  books : (localRefs c.d : Multiset Ref) + acquired (entries cfg c a) =
    released (entries cfg c a) + localRefs c'.d + if a = .demux then (left c : Multiset Ref) else 0
  queue : c'.q = c.q
  reading : c'.d.pc = .put → c.d.pc = .put ∧ c'.d.pkt = c.d.pkt ∨ c'.d.pkt.buf ≠ none
  sender : c'.s.pc = c.s.pc ∨ (∃ now₁ now₂, a = .clock now₁ now₂) ∧ c'.s.pc = .get ∧
    c.s.pc = .head ∨ ∃ pkt, c.s.pc = .send pkt ∧ c'.s.pc = .ret pkt

private theorem demux_outside (put : c.d.pc ≠ .put) (next : step cfg c .demux = some (c', es)) :
    Outside cfg c .demux c' := by
  by_cases readFrame : c.d.pc = .readFrame
  · obtain ⟨books, queue, sender, reading⟩ := readFrame_accounts readFrame next
    have stays : left c = [] := by simp [left, readFrame]
    exact ⟨by simpa [stays] using books, queue, fun at_put => .inr (reading at_put),
      .inl (by rw [sender])⟩
  · obtain ⟨books, queue, sender, elsewhere⟩ := quiet_accounts put readFrame next
    have quiet : entries cfg c .demux = [] := if_neg readFrame
    exact ⟨by simpa [quiet] using books, queue, fun at_put => absurd at_put elsewhere, .inl sender⟩

theorem step_outside {a : Act} (put : a = .demux → c.d.pc ≠ .put)
    (get : ∀ garbage, a ≠ .get garbage) (ret : a ≠ .ret)
    (next : step cfg c a = some (c', es)) : Outside cfg c a c' := by
  by_cases demux : a = .demux
  · subst demux
    exact demux_outside (put rfl) next
  · have locals := other_locals demux next
    have same : localRefs c'.d = localRefs c.d := by
      rw [locals]
      rfl
    have none_made : entries cfg c a = [] := by
      cases a with
      | demux => exact absurd rfl demux
      | _ => rfl
    have books : (localRefs c.d : Multiset Ref) + acquired (entries cfg c a) =
        released (entries cfg c a) + localRefs c'.d +
          if a = .demux then (left c : Multiset Ref) else 0 := by simp [none_made, same, demux]
    have reading : c'.d.pc = .put → c.d.pc = .put ∧ c'.d.pkt = c.d.pkt ∨ c'.d.pkt.buf ≠ none := by
      intro at_put
      rw [locals] at at_put ⊢
      exact .inl ⟨at_put, rfl⟩
    cases a with
    | demux => exact absurd rfl demux
    | get garbage => exact absurd rfl (get garbage)
    | ret => exact absurd rfl ret
    | clock now₁ now₂ =>
      obtain ⟨pc, -, s, rfl, asks | waits, -⟩ := clock_cases next
      · exact ⟨books, rfl, reading, .inr (.inl ⟨⟨now₁, now₂, rfl⟩, asks, pc⟩)⟩
      · exact ⟨books, rfl, reading, .inl (waits.trans pc.symm)⟩
    | send =>
      obtain ⟨pkt, s, pc, rfl, sent, -⟩ := send_cases next
      exact ⟨books, rfl, reading, .inr (.inr ⟨pkt, pc, sent⟩)⟩
    | _ =>
      obtain ⟨queue, sender, -⟩ := command_kept rfl next
      exact ⟨books, queue, reading, .inl (by rw [sender])⟩

end Outside

section Invariant

variable {cfg : Config} {s t : Holding} {a : HoldAct} {es : List (Entry Ref)}

structure Winding (s : Holding) : Prop where
  senderExit : s.senderExit = true → s.c.d.bExit = true
  queue : s.queue ≠ .set → s.senderExit = true
  slots : s.queue.alive = false → ∀ i, (s.c.q.pkt i).buf = none
  senderDone : s.senderDone = true → s.senderExit = true ∧ s.c.s.pc = .head
  destroyed : s.destroyed = true → s.queue = .null ∧ s.senderDone = true ∧ s.c.d.pc = .done

structure Packed (s : Holding) : Prop where
  filled : ∀ i, (s.c.q.pkt i).buf ≠ none → 0 < (s.c.q.pkt i).size
  reading : s.c.d.pc = .put → s.c.d.pkt.buf ≠ none
  taken : ∀ pkt, s.get = .unref pkt → s.c.s.pc = .get ∧ (pkt.buf ≠ none → 0 < pkt.size)
  sending : ∀ pkt, s.c.s.pc = .send pkt → s.get = .idle

private theorem winding_start (cfg : Config) : Winding (.start cfg) where
  senderExit := nofun
  queue := fun gone => absurd rfl gone
  slots := nofun
  senderDone := nofun
  destroyed := nofun

private theorem packed_start (cfg : Config) : Packed (.start cfg) where
  filled := fun _ full => absurd rfl full
  reading := nofun
  taken := nofun
  sending := nofun

private theorem filled_update {slots : Fin maxNumQueue → AVPacket} {i : Fin maxNumQueue}
    {pkt : AVPacket} (filled : ∀ j, (slots j).buf ≠ none → 0 < (slots j).size)
    (written : pkt.buf ≠ none → 0 < pkt.size) (j : Fin maxNumQueue)
    (full : (Function.update slots i pkt j).buf ≠ none) :
    0 < (Function.update slots i pkt j).size := by
  by_cases here : j = i
  · subst here
    rw [Function.update_self] at full ⊢
    exact written full
  · rw [Function.update_of_ne here] at full ⊢
    exact filled j full

private theorem blank_filled : AVPacket.blank.buf ≠ none → 0 < AVPacket.blank.size :=
  fun full => absurd rfl full

theorem Packed.turn (h : Packed s) (turned : Turned cfg s a t es) : Packed t := by
  cases turned with
  | ran a c events next put clock get ret =>
    obtain ⟨-, queue, reading, sender⟩ := step_outside put get ret next
    refine ⟨by rw [queue]; exact h.filled, fun at_put => ?_, fun pkt unref => ?_,
      fun pkt send => ?_⟩
    · rcases reading at_put with ⟨before, same⟩ | full
      · rw [same]
        exact h.reading before
      · exact full
    · obtain ⟨asking, data⟩ := h.taken pkt unref
      rcases sender with same | ⟨-, -, head⟩ | ⟨pkt', sending, -⟩
      · exact ⟨same.trans asking, data⟩
      · exact absurd (head.symm.trans asking) SenderPc.noConfusion
      · exact absurd (sending.symm.trans asking) SenderPc.noConfusion
    · rcases sender with same | ⟨-, asking, -⟩ | ⟨pkt', -, returning⟩
      · exact h.sending pkt (same.symm.trans send)
      · exact absurd (asking.symm.trans send) SenderPc.noConfusion
      · exact absurd (returning.symm.trans send) SenderPc.noConfusion
  | called a t quiet kept =>
    refine ⟨by rw [quiet.slots]; exact h.filled, fun at_put => ?_, fun pkt unref => ?_,
      fun pkt send => ?_⟩
    · rw [quiet.d]
      rcases quiet.turn with same | ⟨-, elsewhere⟩
      · exact h.reading (same.symm.trans at_put)
      · exact absurd (elsewhere.symm.trans at_put) (by decide)
    · rcases quiet.get with ⟨get, sender⟩ | ⟨outside, -⟩
      · rw [sender]
        exact h.taken pkt (get.symm.trans unref)
      · exact absurd unref (outside pkt)
    · rcases quiet.get with ⟨get, sender⟩ | ⟨-, outside⟩
      · exact get.trans (h.sending pkt (by rw [← sender, send]))
      · exact absurd send (outside pkt)
  | cleared a i put queue alive down kept =>
    exact ⟨filled_update h.filled blank_filled, h.reading, h.taken, h.sending⟩
  | stored pc put alive data =>
    exact ⟨filled_update h.filled fun _ => data, h.reading, h.taken, h.sending⟩
  | referred garbage pc get alive =>
    refine ⟨h.filled, h.reading, ?_, fun pkt send => ?_⟩
    · rintro pkt ⟨⟩
      exact ⟨pc, h.filled _⟩
    · exact absurd (pc.symm.trans send) SenderPc.noConfusion
  | handed garbage pkt sender pc get alive returned =>
    exact ⟨filled_update h.filled blank_filled, h.reading, nofun, fun _ _ => rfl⟩
  | gaveBack pkt pc get alive => exact ⟨h.filled, h.reading, nofun, nofun⟩
  | noRet pkt pc get null =>
    refine ⟨h.filled, h.reading, fun pkt' unref => ?_, nofun⟩
    exact absurd (get.symm.trans unref) GetPc.noConfusion
  | freeQueue behind => exact ⟨fun _ full => absurd rfl full, h.reading, h.taken, h.sending⟩
  | _ => exact ⟨h.filled, h.reading, h.taken, h.sending⟩

theorem Winding.turn (h : Winding s) (here : s.destroyed = false)
    (turned : Turned cfg s a t es) : Winding t := by
  have not_gone : ¬ s.destroyed = true := Bool.eq_false_iff.mp here
  -- A call that goes on has its queue.
  have has_queue : s.queue.alive = true → ¬ s.queue.alive = false := Bool.eq_false_iff.not_left.mpr
  have busy : ∀ {pc : SenderPc}, s.c.s.pc = pc → pc ≠ .head → ¬ s.senderDone = true :=
    fun at_pc other done => other (at_pc.symm.trans (h.senderDone done).2)
  cases turned with
  | ran a c events next put clock get ret =>
    obtain ⟨-, queue, -, sender⟩ := step_outside put get ret next
    refine ⟨fun exit => bExit_kept next (h.senderExit exit), h.queue,
      fun gone => by rw [queue]; exact h.slots gone, fun done => ?_,
      fun gone => absurd gone not_gone⟩
    obtain ⟨exit, head⟩ := h.senderDone done
    refine ⟨exit, ?_⟩
    rcases sender with same | ⟨⟨now₁, now₂, ticked⟩, -⟩ | ⟨pkt, sending, -⟩
    · exact same.trans head
    · exact absurd (exit.symm.trans (clock now₁ now₂ ticked)) (by decide)
    · exact absurd (sending.symm.trans head) SenderPc.noConfusion
  | called a t quiet kept =>
    rw [quiet.rest]
    refine ⟨fun exit => quiet.bExit.trans (h.senderExit exit), fun unset => ?_, fun gone => ?_,
      fun done => ⟨(h.senderDone done).1, quiet.head (h.senderDone done).2⟩,
      fun gone => absurd gone not_gone⟩
    · rcases quiet.queue with same | ⟨before, -⟩
      · exact h.queue (by rwa [← same])
      · exact h.queue before
    · rw [quiet.slots]
      rcases quiet.queue with same | ⟨-, -, alive, -⟩
      · exact h.slots (by rwa [← same])
      · exact absurd (alive.symm.trans gone) (by decide)
  | cleared a i put queue alive down kept =>
    refine ⟨h.senderExit, fun unset => ?_, fun gone => ?_, h.senderDone,
      fun gone => absurd gone not_gone⟩
    · rcases down with rfl | ⟨before, -⟩
      · exact h.queue unset
      · exact h.queue before
    · rcases down with rfl | ⟨-, lives, -⟩
      · exact absurd gone (has_queue alive)
      · exact absurd (lives.symm.trans gone) (by decide)
  | stored pc put alive data =>
    exact ⟨h.senderExit, h.queue, fun gone => absurd gone (has_queue alive), h.senderDone,
      fun gone => absurd gone not_gone⟩
  | referred garbage pc get alive =>
    exact ⟨h.senderExit, h.queue, h.slots, h.senderDone, fun gone => absurd gone not_gone⟩
  | handed garbage pkt sender pc get alive returned =>
    exact ⟨h.senderExit, h.queue, fun gone => absurd gone (has_queue alive),
      fun done => absurd done (busy pc nofun), fun gone => absurd gone not_gone⟩
  | gaveBack pkt pc get alive =>
    exact ⟨h.senderExit, h.queue, h.slots, fun done => absurd done (busy pc nofun),
      fun gone => absurd gone not_gone⟩
  | noRet pkt pc get null =>
    exact ⟨h.senderExit, h.queue, h.slots, fun done => absurd done (busy pc nofun),
      fun gone => absurd gone not_gone⟩
  | senderExit exit =>
    exact ⟨fun _ => exit, fun _ => rfl, h.slots, fun done => ⟨rfl, (h.senderDone done).2⟩,
      fun gone => absurd gone not_gone⟩
  | deleteQueue exit set =>
    exact ⟨h.senderExit, fun _ => exit, nofun, h.senderDone, fun gone => absurd gone not_gone⟩
  | freeQueue behind =>
    have unset : s.queue ≠ .set := by
      rw [behind]
      exact QueuePtr.noConfusion
    exact ⟨h.senderExit, fun _ => h.queue unset, fun _ _ => rfl, h.senderDone,
      fun gone => absurd gone not_gone⟩
  | nullQueue deleted =>
    have unset : s.queue ≠ .set := by
      rw [deleted]
      exact QueuePtr.noConfusion
    have gone : s.queue.alive = false := by
      rw [deleted]
      rfl
    exact ⟨h.senderExit, fun _ => h.queue unset, fun _ => h.slots gone, h.senderDone,
      fun gone => absurd gone not_gone⟩
  | senderReturn exit pc =>
    exact ⟨h.senderExit, h.queue, h.slots, fun _ => ⟨exit, pc⟩, fun gone => absurd gone not_gone⟩
  | destroy null done pc =>
    exact ⟨h.senderExit, h.queue, h.slots, h.senderDone, fun _ => ⟨null, done, pc⟩⟩

structure Sound (s : Holding) : Prop where
  winding : Winding s
  packed : Packed s

theorem sound_start (cfg : Config) : Sound (.start cfg) := ⟨winding_start cfg, packed_start cfg⟩

theorem Sound.step (h : Sound s) (next : holding cfg s a = some (t, es)) : Sound t := by
  obtain ⟨here, turned⟩ := holding_cases next
  exact ⟨h.winding.turn here turned, h.packed.turn turned⟩

private theorem Sound.held_nil (h : Sound s) (gone : s.destroyed = true) : held s = 0 := by
  obtain ⟨null, done, pc⟩ := h.winding.destroyed gone
  have slots := slotRefs_eq_nil.mpr (h.winding.slots (by rw [null]; rfl))
  have head := (h.winding.senderDone done).2
  have sender : senderRefs s = [] := by simp [senderRefs, head]
  simp [held, localRefs, inScope, pc, slots, sender]

/-- Every step of a channel on its way down keeps the books, up to what it forgets. -/
theorem accounts (cfg : Config) : Accounts (holding cfg) Sound held lost := by
  intro s a t es inv next
  cases (holding_cases next).2 with
  | ran a c events taken put clock get ret =>
    obtain ⟨books, queue, -, sender⟩ := step_outside put get ret taken
    have same : senderRefs { s with c := c } = senderRefs s := by
      rcases sender with same | ⟨-, asking, head⟩ | ⟨pkt, sending, returning⟩
      · simp only [senderRefs, same]
      · cases get : s.get with
        | unref pkt =>
          exact absurd (head.symm.trans (inv.packed.taken pkt get).1) SenderPc.noConfusion
        | _ => simp [senderRefs, asking, head, get]
      · simp [senderRefs, sending, returning, inv.packed.sending pkt sending]
    have forgets : lost s (.run a) = if a = .demux then (left s.c : Multiset Ref) else 0 := by
      cases a with
      | demux =>
        cases pc : s.c.d.pc with
        | put => exact absurd pc (put rfl)
        | _ => simp [lost, lostDemux, left, pc]
      | get garbage => exact absurd rfl (get garbage)
      | ret => exact absurd rfl ret
      | _ => rfl
    simp only [held, same, queue, forgets]
    calc (localRefs s.c.d + slotRefs s.c.q.pkt + senderRefs s : Multiset Ref) +
          acquired (entries cfg s.c a)
        = localRefs s.c.d + acquired (entries cfg s.c a) + slotRefs s.c.q.pkt + senderRefs s := by
          abel
      _ = _ := by
          rw [books]
          abel
  | called a t quiet kept =>
    have locals : localRefs t.c.d = localRefs s.c.d := by
      rcases quiet.turn with same | ⟨before, after⟩
      · rw [quiet.d, same]
      · rw [localRefs_of_inScope (by rw [after]; rfl), localRefs_of_inScope (by rw [before]; rfl),
          quiet.d]
    simp [held, locals, quiet.slots, quiet.sender, kept]
  | cleared a i put queue alive down kept =>
    have emptied := slotRefs_emptied s.c.q.pkt i
    have same : senderRefs { s with
        put := put
        queue := queue
        c := { s.c with q := { s.c.q with pkt := Function.update s.c.q.pkt i .blank } } } =
      senderRefs s := rfl
    simp only [held, same, kept, acquired_packetUnref, released_packetUnref, add_zero]
    rw [emptied]
    abel
  | stored pc put alive data =>
    have written := slotRefs_update s.c.q.pkt s.c.q.nWritePos s.c.d.pkt
    have forgets : lost s (.run .demux) = refs .slot (s.c.q.pkt s.c.q.nWritePos) := by
      simp [lost, lostDemux, pc, put, data]
    have same : senderRefs { s with
        put := .advance
        c := { s.c with q := { s.c.q with
          pkt := Function.update s.c.q.pkt s.c.q.nWritePos s.c.d.pkt } } } = senderRefs s := rfl
    simp only [held, forgets, same, acquired_packetRef (inv.packed.reading pc), released_packetRef,
      zero_add]
    rw [add_right_comm, add_assoc (localRefs s.c.d : Multiset Ref), ← written]
    abel
  | referred garbage pc get alive =>
    have before : senderRefs s = [] := by simp [senderRefs, pc, get]
    have after : senderRefs { s with get := .unref (s.c.q.pkt s.c.q.nReadPos) } =
        refs .sender (s.c.q.pkt s.c.q.nReadPos) := by simp [senderRefs, pc]
    simp only [held, before, after, released_packetRef, Multiset.coe_nil, add_zero, zero_add]
    by_cases emptied : (s.c.q.pkt s.c.q.nReadPos).buf = none
    · simp [lost, get, emptied, packetRef, refs]
    · simp [lost, get, emptied, acquired_packetRef emptied]
  | handed garbage pkt sender pc get alive returned =>
    have emptied := slotRefs_emptied s.c.q.pkt s.c.q.nReadPos
    have before : senderRefs s = refs .sender pkt := by simp [senderRefs, pc, get]
    have forgets : lost s (.run (.get garbage)) = 0 := by simp [lost, get]
    have after : senderRefs { s with
        get := .idle
        c := { s.c with
          s := sender
          q := { s.c.q with pkt := Function.update s.c.q.pkt s.c.q.nReadPos .blank } } } =
        refs .sender pkt := by
      rcases returned with ⟨-, send⟩ | ⟨none_left, head⟩
      · simp [senderRefs, send]
      · have empty : pkt.buf = none := by
          by_contra full
          exact absurd ((inv.packed.taken pkt get).2 full) (by omega)
        simp [senderRefs, head, refs, empty]
    simp only [held, before, after, forgets, acquired_packetUnref, released_packetUnref, add_zero]
    rw [emptied]
    abel
  | gaveBack pkt pc get alive =>
    have before : senderRefs s = refs .sender pkt := by simp [senderRefs, pc, get]
    have forgets : lost s (.run .ret) = 0 := by
      refine if_neg ?_
      rintro ⟨-, null⟩
      rw [null] at alive
      exact absurd alive (by decide)
    have after : senderRefs { s with
        get := .advance
        c := { s.c with s := { s.c.s with pc := .ret .blank } } } = [] := by simp [senderRefs]
    simp only [held, before, after, forgets, acquired_packetUnref, released_packetUnref,
      Multiset.coe_nil, add_zero]
    abel
  | noRet pkt pc get null => simp [held, lost, null, get, senderRefs]
  | freeQueue behind =>
    have empty : slotRefs (fun _ => AVPacket.blank) = [] := slotRefs_eq_nil.mpr fun _ => rfl
    have same : senderRefs { s with
        queue := .deleted
        c := { s.c with q := { s.c.q with pkt := fun _ => .blank } } } = senderRefs s := rfl
    simp only [held, lost, empty, same, acquired_nil, released_nil, Multiset.coe_nil, add_zero,
      zero_add]
    abel
  | senderExit | deleteQueue | nullQueue | senderReturn | destroy => simp [held, lost, senderRefs]

private theorem lostDemux_eq_zero : lostDemux s = 0 ↔
    (s.c.d.pc = .fileEnd → s.c.d.pkt.buf = none) ∧
      (s.c.d.pc = .put → s.put = .store → 0 < s.c.d.pkt.size →
        (s.c.q.pkt s.c.q.nWritePos).buf = none) := by
  cases pc : s.c.d.pc with
  | fileEnd => simp [lostDemux, pc, refs_eq_nil]
  | put => simp [lostDemux, pc, refs_eq_nil]
  | _ => simp [lostDemux, pc]

theorem lost_eq_zero : lost s a = 0 ↔ Tidy s a := by
  cases a with
  | run a =>
    cases a with
    | demux => exact lostDemux_eq_zero
    | get garbage => simp [lost, Tidy]
    | ret => simp [lost, Tidy]
    | _ => exact iff_of_true rfl trivial
  | freeQueue => simp [lost, Tidy, slotRefs_eq_nil]
  | _ => exact iff_of_true rfl trivial

instance (s : Holding) (a : HoldAct) : Decidable (Tidy s a) := decidable_of_iff _ lost_eq_zero

private theorem held_start (cfg : Config) : held (.start cfg) = 0 := by
  have empty : slotRefs CQueue.new.pkt = [] := slotRefs_eq_nil.mpr fun _ => rfl
  simp [held, Holding.start, State.start, localRefs, inScope, empty, senderRefs]

end Invariant

section References

/-- The references of a channel are given back once each exactly when no step on the way forgets
one. -/
theorem references_even_iff {cfg : Config} {as : List HoldAct} {es : List (Entry Ref)}
    {t : Holding} (run : Run (holding cfg) (.start cfg) as es t) (gone : t.destroyed = true) :
    Even es ↔ Meets (holding cfg) (fun _ s a => Tidy s a) (.start cfg) as := by
  have down : Sound t := by
    apply @Run.invariant _ _ _ _ _ _ _ _ (fun _ s => Sound s) run (sound_start cfg)
    exact fun _ _ _ _ _ inv next => inv.step next
  have books := even_iff_meets run (sound_start cfg) (held_start cfg)
    (fun _ _ _ _ inv next => inv.step next) (accounts cfg) (down.held_nil gone)
  simpa only [lost_eq_zero] using books

def onePacket : Config where
  files := [{
    frame := 1
    opens := true
    hasVideo := true
    initsFilter := true
    startTime := 0
    timeBase := ⟨1, 90000⟩
    packets := [⟨[0], 0⟩]
    seekTm := fun _ => 0
    seekFile := fun _ => none }]
  filter := some
  nChannel := 0
  num := 1
  den := 30
  gop := 30
  stray := false

def enqueued : List HoldAct := List.replicate 13 (.run .demux)

/-- `~CDemuxer` behind its first statement. -/
def takenDown : List HoldAct :=
  [.senderExit, .deleteQueue] ++ List.replicate 125 .clearQueue ++
    [.freeQueue, .nullQueue, .senderReturn, .destroy]

/-- The packet is sent and the file read to its end before the channel is deleted. -/
def playedOut : List HoldAct :=
  enqueued ++ .run (.clock 0 0) :: List.replicate 5 (.run (.get ⟨0, 0⟩)) ++
    .run .send :: List.replicate 3 (.run .ret) ++
    List.replicate 6 (.run .demux) ++ .run .exit :: takenDown

def cutShort : List HoldAct :=
  enqueued ++ .run .exit :: List.replicate 3 (.run .demux) ++ takenDown

theorem references_even_iff_playedOut : ∃ t es,
    Run (holding onePacket) (.start onePacket) playedOut es t ∧ t.destroyed = true ∧
      Even es ∧
      (Even es ↔
        Meets (holding onePacket) (fun _ s a => Tidy s a) (.start onePacket) playedOut) := by
  obtain ⟨t, es, run, facts⟩ := @Run.exists_of_exec _ _ _ (holding onePacket) (.start onePacket)
    playedOut (fun next => next.1.destroyed && decide (Even next.2)) (by decide +kernel)
  simp only [Bool.and_eq_true, decide_eq_true_eq] at facts
  exact ⟨t, es, run, facts.1, facts.2, references_even_iff run facts.1⟩

/-- The packet that `Demux` holds when the channel is deleted is never unreferenced. -/
theorem cutShort_leaks : ∃ t es,
    Run (holding onePacket) (.start onePacket) cutShort es t ∧ t.destroyed = true ∧
      acquired es = {⟨.demux, .read 0⟩} + {⟨.slot, .read 0⟩} ∧ released es = {⟨.slot, .read 0⟩} ∧
      ¬ Even es := by
  obtain ⟨t, es, run, facts⟩ := @Run.exists_of_exec _ _ _ (holding onePacket) (.start onePacket)
    cutShort (fun next => next.1.destroyed && (decide (acquired next.2 =
      {⟨.demux, .read 0⟩} + {⟨.slot, .read 0⟩}) && (decide (released next.2 =
        {⟨.slot, .read 0⟩}) && decide (¬ Even next.2)))) (by decide +kernel)
  simp only [Bool.and_eq_true, decide_eq_true_eq] at facts
  exact ⟨t, es, run, facts⟩

end References

end Tsender.Channel.References
