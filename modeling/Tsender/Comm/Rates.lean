/- Tsender/Comm/Rates
   source: comm.cpp (RX), demuxer.cpp (SetMoveSec, Reverse, Demux), sender.cpp (Run)
   digest: No run of the program divides by zero exactly when the rates in its settings that can be
   reached are fractions. -/

import Mathlib.Data.List.Forall2
import Tsender.Comm.Divisions
import Tsender.Comm.Service

set_option autoImplicit false
set_option relaxedAutoImplicit false

namespace Tsender.Comm.Rates

open Json Lib.Fallible Lib.Transition Service

section Statements

variable {R : Type} [Doubles R]

def NeverDividesByZero (s : CCommMgr R) : Prop :=
  ∀ (as : List (Act R)) (faults : List Fault) (t : Option (Program R)),
    Run step (some (.start s)) as faults t → Fault.divideByZero ∉ faults

/-- `play_start` can create channels for all these entries. -/
def Creatables (w : World) (ttl : Value R) (bitState : ℤ) (infos : List (Value R)) : Prop :=
  infos.length ≤ maxNumChannel ∧
    ∀ n info, infos[n]? = some info → Creatable w ttl bitState n info

/-- The rates that can be reached: where `play_start` can create all channels none has a `num` that
is 0, and none that is started for video and gets to its files a `den` that is 0; and where it comes
to a channel that is started for audio, and the sender gets its socket and to its loop, the `den` is
not 0. -/
def RatesOk (s : CCommMgr R) : Prop :=
  ∀ (w : World) (bitState : Value R) (infos : List (Value R)) (n : ℕ) (info : Value R),
    bitState.inRange minInt maxInt = true →
    elements (getMember s.attr "output_channels".toList) = .ok infos →
    infos[n]? = some info →
      let ttl := getMember s.attr "udp_sender_ttl".toList
      let codec := getMember s.attr "codec".toList
      let type := (info.get "type".toList).toStr
      let started := Starts bitState.toInteger n
      (Creatables w ttl bitState.toInteger infos →
        (info.get "num".toList).toInteger ≠ 0 ∧
          (started → codec.inRange minInt maxInt = true → type = "video".toList →
            (info.get "den".toList).toInteger ≠ 0)) ∧
      (Creatables w ttl bitState.toInteger (infos.take (n + 1)) → started → Sends w ttl n info →
        type = "audio".toList → (info.get "gop".toList).inRange 0 maxUInt = true →
          (info.get "den".toList).toInteger ≠ 0)

end Statements

section Channels

variable {R : Type} [Doubles R] {w : World} {s t : CCommMgr R} {root : Value R}

/-- What a channel keeps, whatever is done with it: without a `den` also the frame to seek. -/
structure Kin (d e : CDemuxer R) : Prop where
  info : e.info = d.info
  codec : getMember e.attr "codec".toList = getMember d.attr "codec".toList
  started : e.started = d.started
  sends : e.sends = d.sends
  seek : (d.info.get "den".toList).toInteger = 0 → d.nSeekFrame = 0 → e.nSeekFrame = 0

theorem Kin.refl (d : CDemuxer R) : Kin d d := ⟨rfl, rfl, rfl, rfl, fun _ same => same⟩

def Related (ds es : List (CDemuxer R)) : Prop := List.Forall₂ Kin ds es

theorem Related.refl (ds : List (CDemuxer R)) : Related ds ds :=
  List.forall₂_same.mpr fun d _ => .refl d

theorem Related.map {f : CDemuxer R → CDemuxer R} (kin : ∀ d, Kin d (f d))
    (ds : List (CDemuxer R)) : Related ds (ds.map f) :=
  List.forall₂_map_right_iff.mpr (List.forall₂_same.mpr fun d _ => kin d)

theorem Related.set {ds : List (CDemuxer R)} {i : ℕ} {d e : CDemuxer R}
    (found : ds[i]? = some d) (kin : Kin d e) : Related ds (ds.set i e) := by
  induction ds generalizing i with
  | nil => cases found
  | cons d' ds ih =>
    cases i with
    | zero =>
      obtain rfl := Option.some.inj found
      exact .cons kin (Related.refl ds)
    | succ i => exact .cons (.refl d') (ih (by simpa using found))

theorem Related.found {ds es : List (CDemuxer R)} (related : Related ds es) {n : ℕ}
    {e : CDemuxer R} (found : es[n]? = some e) : ∃ d, ds[n]? = some d ∧ Kin d e := by
  induction related generalizing n with
  | nil => cases found
  | @cons d e' ds es kin _ ih =>
    cases n with
    | zero =>
      obtain rfl := Option.some.inj found
      exact ⟨d, rfl, kin⟩
    | succ n => simpa using ih (by simpa using found)

private theorem seekFrameOf_still (nSec num : UInt64) :
    Channel.seekFrameOf (nSec * UInt64.ofInt 0 / num) = 0 := by
  have zero : UInt64.ofInt 0 = 0 := rfl
  rw [zero, UInt64.mul_zero, UInt64.zero_div]
  decide

private theorem kin_setMoveSec {nSec : ℤ} {d e : CDemuxer R} (done : setMoveSec nSec d = .ok e) :
    Kin d e := by
  have yields : Yields (setMoveSec nSec d) fun x => x = e := ⟨e, done, rfl⟩
  simp only [setMoveSec, yields_bind, yields_member, yields_asUInt64, yields_ite, yields_error,
    imp_false, yields_pure] at yields
  obtain ⟨-, -, -, -, num, moved⟩ := yields
  obtain ⟨_, -, _, -, rfl⟩ := moved num
  refine ⟨rfl, rfl, rfl, rfl, fun den _ => ?_⟩
  simp only [den, seekFrameOf_still]

/-- What a command that creates no channels leaves of the manager and the channels. -/
structure After (s t : CCommMgr R) : Prop where
  attr : ∀ key, key ≠ "target".toList → key ≠ "bit_state".toList →
    getMember t.attr key = getMember s.attr key
  demuxers : t.bIsRunning = s.bIsRunning ∧ Related s.demuxers t.demuxers ∨
    t.bIsRunning = false ∧ t.demuxers = []

theorem After.refl (s : CCommMgr R) : After s s where
  attr := fun _ _ _ => rfl
  demuxers := .inl ⟨rfl, .refl s.demuxers⟩

private theorem After.of_map {f : CDemuxer R → CDemuxer R} (attr : t.attr = s.attr)
    (bIsRunning : t.bIsRunning = s.bIsRunning) (demuxers : t.demuxers = s.demuxers.map f)
    (kin : ∀ d, Kin d (f d)) : After s t where
  attr := fun _ _ _ => by rw [attr]
  demuxers := .inl ⟨bIsRunning, demuxers ▸ .map kin s.demuxers⟩

private theorem After.of_touch {key : Str} (attr : t.attr = touchMember s.attr key)
    (bIsRunning : t.bIsRunning = s.bIsRunning) (demuxers : t.demuxers = s.demuxers) :
    After s t where
  attr := fun _ _ _ => by rw [attr, getMember_touchMember]
  demuxers := .inl ⟨bIsRunning, demuxers ▸ .refl s.demuxers⟩

private theorem After.of_did {called : CCommMgr R} {es : List (Effect R)} (did : Did s t es called)
    (after : After s called) : After s t := by
  cases running : s.bIsRunning with
  | true => exact (did.running running).2 ▸ after
  | false => exact did.stopped running ▸ .refl s

private theorem after_run {cmd : Command} {es : List (Effect R)}
    (resumes : cmd = .playStart → s.bIsRunning = true) (done : run w s root cmd = .ok (t, es)) :
    After s t := by
  cases cmd with
  | playStart =>
    rcases Agreement.playStart_cases done with ⟨-, -, rfl⟩ | ⟨stopped, -⟩
    · refine ⟨fun key target bitState => ?_, .inl ⟨rfl, .map (fun d => ?_) s.demuxers⟩⟩
      · exact getMember_startAttr_other target bitState
      · exact ⟨rfl, rfl, rfl, rfl, fun _ same => same⟩
    · rw [resumes rfl] at stopped
      cases stopped
  | playReverse =>
    exact .of_did (playReverse_did done) <|
      .of_map rfl rfl rfl fun d => ⟨rfl, rfl, rfl, rfl, fun _ same => same⟩
  | playClose => exact .of_did (playClose_did done) ⟨fun _ _ _ => rfl, .inr ⟨rfl, rfl⟩⟩
  | playPause =>
    exact .of_did (playPause_did done) <|
      .of_map rfl rfl rfl fun d => ⟨rfl, rfl, rfl, rfl, fun _ same => same⟩
  | playSpeedUp =>
    exact .of_did (playSpeedUp_did done) <|
      .of_map rfl rfl rfl fun d => ⟨rfl, rfl, rfl, rfl, fun _ same => same⟩
  | playSeek =>
    cases running : s.bIsRunning with
    | true =>
      obtain ⟨nMoveSec, moved, all, rfl⟩ := playSeek_running running done
      refine ⟨fun _ _ _ => rfl, .inl ⟨rfl, ?_⟩⟩
      exact (forall₂_of_mapM all).imp fun d e sought => kin_setMoveSec (onEntry_eq_ok.mp sought).2
    | false => exact playSeek_stopped running done ▸ .refl s
  | getThumbnail => exact (getThumbnail_cases done).1 ▸ .refl s
  | getPlayList =>
    simp only [run, getPlayList, bind_eq_ok] at done
    obtain ⟨_, -, _, -, done⟩ := done
    cases done
    exact .of_touch rfl rfl rfl
  | playDelete =>
    simp only [run, playDelete, bind_eq_ok] at done
    obtain ⟨_, -, _, -, _, -, _, -, _, -, done⟩ := done
    cases done
    exact .of_touch rfl rfl rfl

end Channels

section Invariant

variable {R : Type} [Doubles R] {s₀ : CCommMgr R} {p q : Program R} {bitState : Value R}
  {infos : List (Value R)}

/-- A channel, any time after its creation: without a `den` it is never to seek a frame. -/
structure Stays (w : World) (attr : List (Str × Value R)) (bitState : ℤ) (n : ℕ) (info : Value R)
    (d : CDemuxer R) : Prop where
  entry : d.info = info
  codec : getMember d.attr "codec".toList = getMember attr "codec".toList
  started : d.started = true → Starts bitState n
  sends : d.sends = true → Sends w (getMember attr "udp_sender_ttl".toList) n info
  seek : (info.get "den".toList).toInteger = 0 → d.nSeekFrame = 0

/-- The channels that `play_start` has created with a `bit_state` from the entries so far. -/
structure Playing (s₀ : CCommMgr R) (p : Program R) (bitState : Value R)
    (infos : List (Value R)) : Prop where
  entries : elements (getMember s₀.attr "output_channels".toList) = .ok infos
  length : p.manager.demuxers.length ≤ infos.length
  complete : p.rest = none → p.manager.demuxers.length = infos.length
  creating : ∀ rest, p.rest = some rest →
    infos.drop p.manager.demuxers.length = rest ∧
      getMember p.manager.attr "bit_state".toList = bitState ∧
      ∀ d ∈ p.manager.demuxers, d.bIsRerverse = false
  read : p.manager.demuxers ≠ [] → bitState.inRange minInt maxInt = true
  creatables : Creatables p.world (getMember s₀.attr "udp_sender_ttl".toList) bitState.toInteger
    (infos.take p.manager.demuxers.length)
  stays : ∀ n d, p.manager.demuxers[n]? = some d → ∃ info, infos[n]? = some info ∧
    Stays p.world s₀.attr bitState.toInteger n info d

structure Sound (s₀ : CCommMgr R) (p : Program R) : Prop where
  attr : ∀ key, key ≠ "target".toList → key ≠ "bit_state".toList →
    getMember p.manager.attr key = getMember s₀.attr key
  stopped : p.manager.bIsRunning = false → p.manager.demuxers = [] ∧ p.rest = none
  running : p.manager.bIsRunning = true → ∃ bitState infos, Playing s₀ p bitState infos

theorem sound_start {s : CCommMgr R} (idle : s.bIsRunning = false) (empty : s.demuxers = []) :
    Sound s (.start s) where
  attr := fun _ _ _ => rfl
  stopped := fun _ => ⟨empty, rfl⟩
  running := fun running => absurd (idle.symm.trans running) (by decide)

private theorem Stays.kin {w : World} {attr : List (Str × Value R)} {bitState : ℤ} {n : ℕ}
    {info : Value R} {d e : CDemuxer R} (stays : Stays w attr bitState n info d) (kin : Kin d e) :
    Stays w attr bitState n info e where
  entry := kin.info.trans stays.entry
  codec := kin.codec.trans stays.codec
  started := fun started => stays.started (kin.started.symm.trans started)
  sends := fun sends => stays.sends (kin.sends.symm.trans sends)
  seek := fun den => kin.seek (by rw [stays.entry, den]) (stays.seek den)

theorem Playing.related (h : Playing s₀ p bitState infos) {t : CCommMgr R}
    (related : Related p.manager.demuxers t.demuxers)
    (creating : p.rest = none ∨ getMember t.attr "bit_state".toList =
        getMember p.manager.attr "bit_state".toList ∧
      ((∀ d ∈ p.manager.demuxers, d.bIsRerverse = false) →
        ∀ e ∈ t.demuxers, e.bIsRerverse = false)) :
    Playing s₀ { p with manager := t } bitState infos := by
  have same : t.demuxers.length = p.manager.demuxers.length := related.length_eq.symm
  exact {
    entries := h.entries
    length := same ▸ h.length
    complete := fun rest => same ▸ h.complete rest
    creating := fun rest more => by
      obtain ⟨drop, bit, forward⟩ := h.creating rest more
      rcases creating with none_left | ⟨bit', forward'⟩
      · exact absurd (none_left.symm.trans more) (by simp)
      · exact ⟨same ▸ drop, bit'.trans bit, forward' forward⟩
    read := fun some_made => h.read fun none_made => some_made <|
      List.length_eq_zero_iff.mp (same.trans (List.length_eq_zero_iff.mpr none_made))
    creatables := same ▸ h.creatables
    stays := fun n e found => by
      obtain ⟨d, was, kin⟩ := related.found found
      obtain ⟨info, here, stays⟩ := h.stays n d was
      exact ⟨info, here, stays.kin kin⟩ }

theorem Sound.after (h : Sound s₀ p) (waits : p.rest = none) {t : CCommMgr R}
    (after : After p.manager t) : Sound s₀ { p with manager := t } where
  attr := fun key target bit => (after.attr key target bit).trans (h.attr key target bit)
  stopped := fun stopped => by
    refine ⟨?_, waits⟩
    rcases after.demuxers with ⟨same, related⟩ | ⟨-, empty⟩
    · have nothing := (h.stopped (same.symm.trans stopped)).1
      rw [nothing] at related
      exact List.forall₂_nil_left_iff.mp related
    · exact empty
  running := fun running => by
    rcases after.demuxers with ⟨same, related⟩ | ⟨stopped, -⟩
    · obtain ⟨bitState, infos, playing⟩ := h.running (same.symm.trans running)
      exact ⟨bitState, infos, playing.related related (.inl waits)⟩
    · exact absurd (stopped.symm.trans running) (by decide)

end Invariant

section Soundness

variable {R : Type} [Doubles R] {s₀ : CCommMgr R} {p q : Program R} {w : World}
  {root : Value R}

theorem Sound.started (h : Sound s₀ p) {t : CCommMgr R} {infos : List (Value R)}
    (done : startHead p.manager root = .ok (t, infos)) : Sound s₀ ⟨t, w, some infos⟩ := by
  obtain ⟨read, rfl⟩ := startHead_cases done
  rw [h.attr _ (by decide) (by decide)] at read
  refine ⟨fun key target bit => ?_, fun stopped => absurd stopped (by simp), fun _ => ?_⟩
  · rw [getMember_touchMember, getMember_startAttr_other target bit]
    exact h.attr key target bit
  · refine ⟨(root.get "info".toList).get "bit_state".toList, infos, read, Nat.zero_le _,
      fun none_left => absurd none_left (by simp), ?_, fun none_made => absurd rfl none_made,
      ⟨Nat.zero_le _, ?_⟩, ?_⟩
    · rintro rest ⟨⟩
      refine ⟨rfl, ?_, by simp⟩
      rw [getMember_touchMember, getMember_startAttr_bit_state]
    · intro n info found
      simp at found
    · intro n d found
      simp at found

private theorem sound_command (h : Sound s₀ p) (waits : p.rest = none)
    (done : command p w root = .ok q) : Sound s₀ q := by
  obtain ⟨cmd, -, done⟩ := bind_eq_ok.mp done
  cases cmd with
  | none =>
    cases done
    exact h
  | some cmd =>
    simp only at done
    split at done
    · obtain ⟨⟨t, infos⟩, head, done⟩ := bind_eq_ok.mp done
      cases done
      exact h.started head
    · rename_i other
      obtain ⟨⟨t, effects⟩, ran, done⟩ := bind_eq_ok.mp done
      cases done
      refine h.after waits (after_run (fun start => ?_) ran)
      by_contra stopped
      exact other ⟨start, Bool.eq_false_iff.mpr stopped⟩

theorem Creatables.succ {ttl : Value R} {bitState : ℤ} {infos : List (Value R)} {n : ℕ}
    {info : Value R} (h : Creatables w ttl bitState (infos.take n)) (room : n < maxNumChannel)
    (found : infos[n]? = some info) (creatable : Creatable w ttl bitState n info) :
    Creatables w ttl bitState (infos.take (n + 1)) := by
  refine ⟨?_, fun k other here => ?_⟩
  · rw [List.length_take]
    omega
  · by_cases last : k = n
    · subst last
      rw [List.getElem?_take_of_lt (Nat.lt_succ_self k), found] at here
      exact Option.some.inj here ▸ creatable
    · have inside : k < n + 1 := by
        by_contra outside
        rw [List.getElem?_take_eq_none (by omega)] at here
        cases here
      have before : k < n := by omega
      rw [List.getElem?_take_of_lt inside] at here
      exact h.2 k other (by rw [List.getElem?_take_of_lt before]; exact here)

theorem Creatables.take {ttl : Value R} {bitState : ℤ} {infos : List (Value R)} {m n : ℕ}
    (h : Creatables w ttl bitState (infos.take n)) (le : m ≤ n) :
    Creatables w ttl bitState (infos.take m) := by
  refine ⟨?_, fun k info here => h.2 k info ?_⟩
  · have whole := h.1
    rw [List.length_take] at whole ⊢
    omega
  · have inside : k < m := by
      by_contra outside
      rw [List.getElem?_take_eq_none (by omega)] at here
      cases here
    rw [List.getElem?_take_of_lt inside] at here
    rw [List.getElem?_take_of_lt (by omega)]
    exact here

/-- One turn of the loop of `play_start`. -/
private theorem sound_createNext (h : Sound s₀ p) {info : Value R} {rest : List (Value R)}
    (more : p.rest = some (info :: rest)) (done : createNext p info rest = .ok q) :
    Sound s₀ q := by
  simp only [createNext] at done
  split at done
  · rename_i room
    obtain ⟨d, created, done⟩ := bind_eq_ok.mp done
    cases done
    obtain ⟨read, creatable, fresh⟩ := create_cases created
    have runs : p.manager.bIsRunning = true := by
      by_contra stopped
      have idle := (h.stopped (Bool.eq_false_iff.mpr stopped)).2
      exact absurd (idle.symm.trans more) (by simp)
    obtain ⟨bitState, infos, playing⟩ := h.running runs
    obtain ⟨drop, bit, forward⟩ := playing.creating _ more
    rw [h.attr _ (by decide) (by decide), bit] at creatable
    rw [bit] at read fresh
    have here : infos[p.manager.demuxers.length]? = some info := by
      rw [← List.head?_drop, drop]
      rfl
    have behind : infos.drop (p.manager.demuxers.length + 1) = rest := by
      rw [← List.tail_drop, drop]
      rfl
    refine ⟨h.attr, fun stopped => absurd (runs.symm.trans stopped) (by decide), fun _ => ?_⟩
    refine ⟨bitState, infos, playing.entries, ?_, fun none_left => absurd none_left (by simp),
      ?_, fun _ => read, ?_, ?_⟩
    · have inside := (List.getElem?_eq_some_iff.mp here).1
      rw [List.length_append]
      exact inside
    · rintro _ ⟨⟩
      refine ⟨by simpa using behind, bit, fun e mem => ?_⟩
      rcases List.mem_append.mp mem with mem | mem
      · exact forward e mem
      · rw [List.mem_singleton.mp mem]
        exact fresh.bIsRerverse
    · simpa using playing.creatables.succ room here creatable
    · intro n e found
      by_cases last : n < p.manager.demuxers.length
      · rw [List.getElem?_append_left last] at found
        exact playing.stays n e found
      · rw [List.getElem?_append_right (by omega)] at found
        have index : n = p.manager.demuxers.length := by
          by_contra other
          rw [List.getElem?_eq_none (by simp; omega)] at found
          cases found
        subst index
        simp only [Nat.sub_self, List.getElem?_cons_zero, Option.some.injEq] at found
        subst found
        refine ⟨info, here, fresh.entry, ?_, fresh.started.mp, fun sends => ?_,
          fun _ => fresh.nSeekFrame⟩
        · rw [fresh.settings, h.attr _ (by decide) (by decide)]
        · rw [← h.attr _ (by decide) (by decide)]
          exact (fresh.sends.mp sends).2
  · cases done

theorem sound_created (h : Sound s₀ p) (more : p.rest = some []) :
    Sound s₀ { p with rest := none } := by
  refine ⟨h.attr, fun stopped => ⟨(h.stopped stopped).1, rfl⟩, fun runs => ?_⟩
  obtain ⟨bitState, infos, playing⟩ := h.running runs
  obtain ⟨drop, -⟩ := playing.creating _ more
  have whole := List.drop_eq_nil_iff.mp drop
  exact ⟨bitState, infos, {
    entries := playing.entries
    length := playing.length
    complete := fun _ => le_antisymm playing.length whole
    creating := fun rest none_left => absurd none_left (by simp)
    read := playing.read
    creatables := playing.creatables
    stays := playing.stays }⟩

private theorem sound_channelStep (h : Sound s₀ p) {i : ℕ} {here : CDemuxer R → Bool}
    {f : CDemuxer R → Except Fault (CDemuxer R)}
    (kin : ∀ d e, f d = .ok e → Kin d e ∧ e.bIsRerverse = d.bIsRerverse)
    (next : channelStep p i here f = some (.ok q)) : Sound s₀ q := by
  obtain ⟨d, found, -, -, -, ⟨e, result, same⟩ | ⟨fault, -, wrong⟩⟩ := channelStep_cases next
  · obtain rfl := Except.ok.inj same
    obtain ⟨related, direction⟩ := kin d e result
    refine ⟨h.attr, fun stopped => ?_, fun runs => ?_⟩
    · obtain ⟨empty, idle⟩ := h.stopped stopped
      rw [empty] at found
      cases found
    · obtain ⟨bitState, infos, playing⟩ := h.running runs
      refine ⟨bitState, infos, playing.related (.set found related) (.inr ⟨rfl, ?_⟩)⟩
      intro forward e' mem
      rcases List.mem_or_eq_of_mem_set mem with mem | rfl
      · exact forward e' mem
      · exact direction.trans (forward d (List.mem_of_getElem? found))
  · cases wrong

end Soundness

section Safety

variable {R : Type} [Doubles R] {s₀ : CCommMgr R} {p q : Program R} {a : Act R}

private theorem eq_of_readDen {d : CDemuxer R} {den : ℤ} (done : readDen d = .ok den) :
    (d.info.get "den".toList).toInteger = den := by
  obtain ⟨num, -, done⟩ := bind_eq_ok.mp done
  obtain ⟨_, -, done⟩ := bind_eq_ok.mp done
  obtain ⟨value, read, converted⟩ := bind_eq_ok.mp done
  rw [← eq_of_member read]
  exact (eq_of_asUInt64 converted).symm

private theorem avoids_readDen {d : CDemuxer R} : Avoids .divideByZero (readDen d) := by
  simp only [readDen, Value.asUInt64, avoids_bind, avoids_member, avoids_asInteger, implies_true,
    and_self]

omit [Doubles R] in
private theorem avoids_divideBy {den : ℤ} : Avoids .divideByZero (divideBy den) ↔ den ≠ 0 := by
  unfold divideBy
  split <;> simp [*]

private theorem avoids_seek {d : CDemuxer R} : Avoids .divideByZero (seek d) := by
  simp only [seek, seekFrame, Value.asInt, avoids_bind, avoids_member, avoids_asInteger,
    avoids_pure, implies_true, and_self]

private theorem avoids_demux {files : Value R} {d : CDemuxer R} :
    Avoids .divideByZero (demux files d) := by
  simp only [demux, Value.asInt, avoids_bind, avoids_asInteger, avoids_pure, implies_true, and_self]

/-- What `Reverse` and the seek of an audio channel divide by. -/
private theorem den_of_divides {d e : CDemuxer R} (failed : (do
      let den ← readDen d
      divideBy den
      return e : Except Fault (CDemuxer R)) = .error .divideByZero) :
    (d.info.get "den".toList).toInteger = 0 := by
  by_contra rate
  have avoids : Avoids .divideByZero (do
      let den ← readDen d
      divideBy den
      return e : Except Fault (CDemuxer R)) := by
    simp only [avoids_bind, avoids_readDen, avoids_divideBy, avoids_pure, true_and, implies_true,
      and_true]
    intro den done
    rwa [← eq_of_readDen done]
  exact avoids failed

private theorem den_of_audioRun {d : CDemuxer R} (failed : audioRun d = .error .divideByZero) :
    (d.info.get "gop".toList).inRange 0 maxUInt = true ∧
      (d.info.get "den".toList).toInteger = 0 := by
  by_contra rate
  have avoids : Avoids .divideByZero (audioRun d) := by
    simp only [audioRun, Value.asUInt, avoids_bind, avoids_readDen, avoids_member,
      avoids_asInteger, avoids_divideBy, avoids_pure, true_and, implies_true, and_true]
    intro den done gop read n converted zero
    have yields : Yields gop.asUInt fun _ => True := ⟨n, converted, trivial⟩
    obtain ⟨range, -⟩ := yields_asUInt.mp yields
    rw [eq_of_member read] at range
    exact rate ⟨range, (eq_of_readDen done).trans zero⟩
  exact avoids failed

private theorem avoids_createNext {p : Program R} {info : Value R} {rest : List (Value R)} :
    Avoids .divideByZero (createNext p info rest) := by
  simp only [createNext, avoids_ite, avoids_bind, avoids_create, avoids_pure, avoids_error,
    implies_true, and_self, ne_eq, reduceCtorEq, not_false_eq_true]

private theorem sound_act (h : Sound s₀ p) (next : act p a = some (.ok q)) : Sound s₀ q := by
  cases a with
  | command w root =>
    simp only [act] at next
    split at next
    · rename_i waits
      exact sound_command h (Option.isNone_iff_eq_none.mp waits) (Option.some.inj next)
    · cases next
  | create =>
    simp only [act] at next
    split at next
    · cases next
    · rename_i more
      obtain rfl := Except.ok.inj (Option.some.inj next)
      exact sound_created h more
    · rename_i info rest more
      exact sound_createNext h more (Option.some.inj next)
  | play i =>
    refine sound_channelStep h (fun d e done => ?_) next
    obtain rfl := Except.ok.inj done
    exact ⟨⟨rfl, by simp [Agreement.play], rfl, rfl, fun _ same => same⟩, rfl⟩
  | deleteThis i | move i =>
    refine sound_channelStep h (fun d e done => ?_) next
    obtain rfl := Except.ok.inj done
    exact ⟨⟨rfl, rfl, rfl, rfl, fun _ same => same⟩, rfl⟩
  | demux i files =>
    refine sound_channelStep h (fun d e done => ?_) next
    obtain ⟨_, -, done⟩ := bind_eq_ok.mp done
    obtain rfl := Except.ok.inj done
    exact ⟨⟨rfl, by simp [Agreement.demux], rfl, rfl, fun _ same => same⟩, rfl⟩
  | seek i =>
    refine sound_channelStep h (fun d e done => ?_) next
    obtain ⟨_, -, done⟩ := bind_eq_ok.mp done
    obtain rfl := Except.ok.inj done
    exact ⟨⟨rfl, rfl, rfl, rfl, fun _ _ => rfl⟩, rfl⟩
  | reverse i =>
    refine sound_channelStep h (fun d e done => ?_) next
    simp only [reverse, bind_eq_ok] at done
    obtain ⟨_, -, _, -, done⟩ := done
    obtain rfl := Except.ok.inj done
    exact ⟨.refl _, rfl⟩
  | audioRun i =>
    refine sound_channelStep h (fun d e done => ?_) next
    simp only [audioRun, bind_eq_ok] at done
    obtain ⟨_, -, _, -, _, -, _, -, done⟩ := done
    obtain rfl := Except.ok.inj done
    exact ⟨.refl _, rfl⟩
  | audioSeek i =>
    refine sound_channelStep h (fun d e done => ?_) next
    simp only [audioSeek, bind_eq_ok] at done
    obtain ⟨_, -, _, -, done⟩ := done
    obtain rfl := Except.ok.inj done
    exact ⟨⟨rfl, rfl, rfl, rfl, fun _ _ => rfl⟩, rfl⟩

omit [Doubles R] in
private theorem channelStep_failed {i : ℕ} {here : CDemuxer R → Bool}
    {f : CDemuxer R → Except Fault (CDemuxer R)} {fault : Fault}
    (next : channelStep p i here f = some (.error fault)) :
    ∃ d, p.manager.demuxers[i]? = some d ∧ d.started = true ∧ here d = true ∧
      f d = .error fault := by
  obtain ⟨d, found, started, -, there, ⟨e, -, wrong⟩ | ⟨fault', failed, same⟩⟩ :=
    channelStep_cases next
  · cases wrong
  · obtain rfl := Except.error.inj same
    exact ⟨d, found, started, there, failed⟩

theorem Sound.playing (h : Sound s₀ p) {i : ℕ} {d : CDemuxer R}
    (found : p.manager.demuxers[i]? = some d) : ∃ bitState infos info,
      Playing s₀ p bitState infos ∧ bitState.inRange minInt maxInt = true ∧
        infos[i]? = some info ∧ Stays p.world s₀.attr bitState.toInteger i info d := by
  have runs : p.manager.bIsRunning = true := by
    by_contra stopped
    rw [(h.stopped (Bool.eq_false_iff.mpr stopped)).1] at found
    cases found
  obtain ⟨bitState, infos, playing⟩ := h.running runs
  obtain ⟨info, here, stays⟩ := playing.stays i d found
  refine ⟨bitState, infos, info, playing, playing.read fun none_made => ?_, here, stays⟩
  rw [none_made] at found
  cases found

theorem Playing.all {bitState : Value R} {infos : List (Value R)}
    (h : Playing s₀ p bitState infos) (waits : p.rest = none) :
    Creatables p.world (getMember s₀.attr "udp_sender_ttl".toList) bitState.toInteger infos := by
  have whole := h.creatables
  rwa [h.complete waits, List.take_length] at whole

private theorem command_avoids (h : Sound s₀ p) (rates : RatesOk s₀) (waits : p.rest = none)
    {w : World} {root : Value R} : Avoids .divideByZero (command p w root) := by
  simp only [command, commandOf, avoids_bind, avoids_member, avoids_pure, true_and,
    implies_true]
  intro cmd _
  cases cmd with
  | none => exact avoids_pure
  | some cmd =>
    simp only [avoids_ite, avoids_bind, avoids_pure, implies_true, and_true]
    refine ⟨fun _ => ?_, fun other => ?_⟩
    · simp only [startHead, avoids_bind, avoids_member, avoids_asString, avoids_elements,
        avoids_pure, implies_true, and_self]
    · by_cases seek : cmd = .playSeek
      · subst seek
        intro failed
        obtain ⟨-, d, mem, num⟩ := num_of_playSeek failed
        obtain ⟨i, found⟩ := List.mem_iff_getElem?.mp mem
        obtain ⟨bitState, infos, info, playing, read, here, stays⟩ := h.playing found
        rw [stays.entry] at num
        exact ((rates p.world bitState infos i info read playing.entries here).1
          (playing.all waits)).1 num
      · by_cases start : cmd = .playStart
        · subst start
          have runs : p.manager.bIsRunning = true := by simpa using other
          simp only [run, playStart, runs, if_true, avoids_bind, avoids_member, avoids_asString,
            avoids_onEntries, avoids_pure, implies_true, and_self]
        · exact avoids_run start seek

private theorem act_avoids (h : Sound s₀ p) (rates : RatesOk s₀) :
    act p a ≠ some (.error .divideByZero) := by
  intro next
  cases a with
  | command w root =>
    simp only [act] at next
    split at next
    · rename_i waits
      exact command_avoids h rates (Option.isNone_iff_eq_none.mp waits) (Option.some.inj next)
    · cases next
  | create =>
    simp only [act] at next
    split at next
    · cases next
    · cases next
    · exact avoids_createNext (Option.some.inj next)
  | play i | deleteThis i | move i =>
    obtain ⟨d, -, -, -, failed⟩ := channelStep_failed next
    cases failed
  | demux i files =>
    obtain ⟨d, -, -, -, failed⟩ := channelStep_failed next
    exact avoids_demux failed
  | seek i =>
    obtain ⟨d, -, -, -, failed⟩ := channelStep_failed next
    exact avoids_seek failed
  | reverse i =>
    obtain ⟨d, found, started, there, failed⟩ := channelStep_failed next
    have den := den_of_divides failed
    obtain ⟨bitState, infos, info, playing, read, here, stays⟩ := h.playing found
    simp only [Bool.and_eq_true, decide_eq_true_eq, typeOf, getsToFiles, stays.entry,
      stays.codec] at there
    rw [stays.entry] at den
    have waits : p.rest = none := by
      cases more : p.rest with
      | none => rfl
      | some rest =>
        have forward := (playing.creating rest more).2.2 d (List.mem_of_getElem? found)
        rw [forward] at there
        exact absurd there.2 Bool.false_ne_true
    exact ((rates p.world bitState infos i info read playing.entries here).1
      (playing.all waits)).2 (stays.started started) there.1.1 there.1.2 den
  | audioSeek i =>
    obtain ⟨d, found, started, there, failed⟩ := channelStep_failed next
    have den := den_of_divides failed
    obtain ⟨bitState, infos, info, playing, read, here, stays⟩ := h.playing found
    simp only [Bool.and_eq_true, decide_eq_true_eq] at there
    rw [stays.entry] at den
    rw [stays.seek den] at there
    exact absurd there.2 (lt_irrefl 0)
  | audioRun i =>
    obtain ⟨d, found, started, there, failed⟩ := channelStep_failed next
    obtain ⟨gop, den⟩ := den_of_audioRun failed
    obtain ⟨bitState, infos, info, playing, read, here, stays⟩ := h.playing found
    simp only [Bool.and_eq_true, decide_eq_true_eq, typeOf, stays.entry] at there
    rw [stays.entry] at den gop
    have made : i + 1 ≤ p.manager.demuxers.length := (List.getElem?_eq_some_iff.mp found).1
    exact (rates p.world bitState infos i info read playing.entries here).2
      (playing.creatables.take made) (stays.started started) (stays.sends there.1) there.2 gop den

theorem sound_step {a : Act R} {t : Option (Program R)} {faults : List Fault}
    (h : Sound s₀ p) (rates : RatesOk s₀) (next : step (some p) a = some (t, faults)) :
    (∀ q, t = some q → Sound s₀ q) ∧ Fault.divideByZero ∉ faults := by
  simp only [step] at next
  split at next
  · cases next
  · rename_i q taken
    cases next
    refine ⟨fun r same => ?_, by simp⟩
    obtain rfl := Option.some.inj same
    exact sound_act h taken
  · rename_i fault taken
    cases next
    refine ⟨fun r same => absurd same (by simp), fun mem => ?_⟩
    rw [← List.mem_singleton.mp mem] at taken
    exact act_avoids h rates taken

private theorem never_of_ratesOk {s : CCommMgr R} (idle : s.bIsRunning = false)
    (empty : s.demuxers = []) (rates : RatesOk s) : NeverDividesByZero s := by
  intro as faults t run
  have kept : (∀ q, t = some q → Sound s q) ∧ Fault.divideByZero ∉ faults := by
    apply @Run.invariant _ _ _ _ _ _ _ _
      (fun ds t => (∀ q, t = some q → Sound s q) ∧ Fault.divideByZero ∉ ds) run
    · refine ⟨fun q same => ?_, by simp⟩
      obtain rfl := Option.some.inj same
      exact sound_start idle empty
    · rintro ds m a n gs ⟨sound, clean⟩ next
      cases m with
      | none => cases next
      | some p =>
        obtain ⟨sound', clean'⟩ := sound_step (sound p rfl) rates next
        exact ⟨sound', by simp [clean, clean']⟩
  exact kept.2

end Safety

section Necessity

variable {R : Type} [Doubles R] {s : CCommMgr R} {w : World} {bitState : Value R}
  {infos front back : List (Value R)}

def startRoot (bitState : Value R) : Value R :=
  .object [("cmd".toList, .string "play_start".toList), ("info".toList,
    .object [("target".toList, .string []), ("bit_state".toList, bitState)])]

def reverseRoot (R : Type) : Value R :=
  .object [("cmd".toList, .string "play_reverse".toList)]

def seekRoot (R : Type) : Value R :=
  .object [("cmd".toList, .string "play_seek".toList), ("info".toList,
    .object [("move_sec".toList, .int 0)])]

private theorem startHead_startRoot
    (entries : elements (getMember s.attr "output_channels".toList) = .ok infos)
    (bitState : Value R) : ∃ t, startHead s (startRoot bitState) = .ok (t, infos) ∧
      getMember t.attr "bit_state".toList = bitState ∧ t.bIsRunning = true ∧
      ∀ key, key ≠ "target".toList → key ≠ "bit_state".toList →
        getMember t.attr key = getMember s.attr key := by
  have channels : getMember (setMember (setMember s.attr "target".toList (.string []))
      "bit_state".toList bitState) "output_channels".toList =
        getMember s.attr "output_channels".toList := by
    rw [getMember_setMember_other (by decide), getMember_setMember_other (by decide)]
  have yields : Yields (startHead s (startRoot bitState)) fun r => r.2 = infos := by
    simp only [startHead, yields_bind, yields_member, yields_asString, yields_pure]
    refine ⟨rfl, rfl, rfl, rfl, infos, ?_, rfl⟩
    rw [getMember_touchMember, ← entries, ← channels]
    rfl
  obtain ⟨⟨t, infos'⟩, head, rfl⟩ := yields
  obtain ⟨-, same⟩ := startHead_cases head
  refine ⟨t, head, ?_, by rw [same], fun key target bit => ?_⟩
  · rw [same, getMember_touchMember, getMember_startAttr_bit_state]
    rfl
  · rw [same, getMember_touchMember, getMember_startAttr_other target bit]

private theorem channels_created (stopped : s.bIsRunning = false)
    (entries : elements (getMember s.attr "output_channels".toList) = .ok (front ++ back))
    (read : bitState.inRange minInt maxInt = true)
    (creatables : Creatables w (getMember s.attr "udp_sender_ttl".toList) bitState.toInteger
      front) :
    ∃ as t, Run step (some (.start s)) as [] (some ⟨t, w, some back⟩) ∧ t.bIsRunning = true ∧
      t.demuxers.length = front.length ∧
      (∀ key, key ≠ "target".toList → key ≠ "bit_state".toList →
        getMember t.attr key = getMember s.attr key) ∧
      ∀ n info, front[n]? = some info →
        ∃ d, t.demuxers[n]? = some d ∧ Fresh w t.attr bitState.toInteger n info d := by
  obtain ⟨t, head, bit, runs, others⟩ := startHead_startRoot entries bitState
  have yields : Yields (createAll w t.attr t.built 0 front) fun _ => True := by
    rw [yields_createAll (by rw [bit]; exact read), bit, others _ (by decide) (by decide)]
    refine ⟨.inr (by simpa using creatables.1), fun n info found => ?_⟩
    rw [Nat.zero_add]
    exact creatables.2 n info found
  obtain ⟨ds, created, -⟩ := yields
  obtain ⟨length, fresh⟩ := createAll_fresh created
  refine ⟨_, _, start_run stopped rfl head created, runs, length, others, fun n info found => ?_⟩
  obtain ⟨d, here, made⟩ := fresh n info found
  rw [bit, Nat.zero_add] at made
  exact ⟨d, here, made⟩

private theorem readDen_zero {n : ℕ} {ttl info : Value R} {bit : ℤ} {d : CDemuxer R}
    (creatable : Creatable w ttl bit n info) (entry : d.info = info)
    (zero : (info.get "den".toList).toInteger = 0) : readDen d = .ok 0 := by
  obtain ⟨members, num, den, -⟩ := creatable
  simp only [readDen, entry, member_eq members, ok_bind, asUInt64_eq num, asUInt64_eq den, zero]

private theorem setMoveSec_fresh {n : ℕ} {ttl info : Value R} {bit : ℤ}
    {attr : List (Str × Value R)}
    {d : CDemuxer R} {nSec : ℤ} (creatable : Creatable w ttl bit n info)
    (fresh : Fresh w attr bit n info d) :
    if (info.get "num".toList).toInteger = 0 then
      onEntry (setMoveSec nSec) d = .error .divideByZero
    else Yields (onEntry (setMoveSec nSec) d) fun _ => True := by
  obtain ⟨members, num, den, -⟩ := creatable
  split
  · rename_i zero
    simp only [onEntry, fresh.freed, Bool.false_eq_true, if_false, setMoveSec, fresh.entry,
      member_eq members, ok_bind, asUInt64_eq num, asUInt64_eq den, zero, if_true]
  · rename_i rate
    rw [yields_onEntry, yields_setMoveSec]
    simp only [Seekable, fresh.entry, fresh.files]
    exact ⟨fresh.freed, members, num, den, rate, trivial⟩

private theorem seek_divides {t : CCommMgr R} {ttl : Value R} {bit : ℤ}
    {attr : List (Str × Value R)} (runs : t.bIsRunning = true)
    (length : t.demuxers.length = infos.length)
    (creatables : ∀ n info, infos[n]? = some info → Creatable w ttl bit n info)
    (fresh : ∀ n info, infos[n]? = some info → ∃ d, t.demuxers[n]? = some d ∧
      Fresh w attr bit n info d)
    {n : ℕ} {info : Value R} (found : infos[n]? = some info)
    (zero : (info.get "num".toList).toInteger = 0) :
    act ⟨t, w, none⟩ (.command w (seekRoot R)) = some (.error .divideByZero) := by
  have each : ∀ d ∈ t.demuxers, Yields (onEntry (setMoveSec 0) d) (fun _ => True) ∨
      onEntry (setMoveSec 0) d = .error .divideByZero := by
    intro d mem
    obtain ⟨k, here⟩ := List.mem_iff_getElem?.mp mem
    have inside : k < infos.length := by
      rw [← length]
      exact (List.getElem?_eq_some_iff.mp here).1
    obtain ⟨d', here', made⟩ := fresh k infos[k] (List.getElem?_eq_getElem inside)
    obtain rfl : d = d' := Option.some.inj (here.symm.trans here')
    have sought := @setMoveSec_fresh R _ w k ttl infos[k] bit attr d 0
      (creatables k infos[k] (List.getElem?_eq_getElem inside)) made
    split at sought
    · exact .inr sought
    · exact .inl sought
  obtain ⟨d, here, made⟩ := fresh n info found
  have fails := @setMoveSec_fresh R _ w n ttl info bit attr d 0 (creatables n info found) made
  rw [if_pos zero] at fails
  have all := mapM_eq_error each ⟨d, List.mem_of_getElem? here, fails⟩
  have cmd : commandOf (seekRoot R) = .ok (some .playSeek) := rfl
  have sought : playSeek t (seekRoot R) = .error .divideByZero := by
    have members : (seekRoot R).hasMembers = true := rfl
    have inner : ((seekRoot R).get "info".toList).hasMembers = true := rfl
    have read : (((seekRoot R).get "info".toList).get "move_sec".toList).asInt = .ok 0 := rfl
    simp only [playSeek, runs, if_true, member_eq members, member_eq inner, ok_bind, read, all]
    rfl
  simp only [act, Option.isNone_none, if_true, command, cmd, ok_bind, reduceCtorEq, false_and,
    if_false, run, sought]
  rfl

private theorem reverse_divides {t : CCommMgr R} {d : CDemuxer R} {n : ℕ}
    (runs : t.bIsRunning = true)
    (live : Live t) (found : t.demuxers[n]? = some d) (started : d.started = true)
    (files : getsToFiles d = true) (video : typeOf d = "video".toList)
    (forward : d.bIsRerverse = false) (den : readDen d = .ok 0) :
    ∃ u, act ⟨t, w, none⟩ (.command w (reverseRoot R)) = some (.ok u) ∧
      act u (.reverse n) = some (.error .divideByZero) := by
  have cmd : commandOf (reverseRoot R) = .ok (some .playReverse) := rfl
  obtain ⟨v, turned, reversed⟩ : Yields (playReverse t) fun r => r.1.demuxers[n]? =
      some { d with bIsRerverse := true } := by
    simp only [playReverse, runs, if_true, yields_bind, yields_onEntries, yields_pure]
    exact ⟨live, by simp [found, forward]⟩
  refine ⟨⟨v.1, w, none⟩, ?_, ?_⟩
  · simp only [act, Option.isNone_none, if_true, command, cmd, ok_bind, reduceCtorEq, false_and,
      if_false, run, turned]
    rfl
  · have there : typeOf { d with bIsRerverse := true } = "video".toList := video
    have past : getsToFiles { d with bIsRerverse := true } = true := files
    have failing : readDen { d with bIsRerverse := true } = .ok 0 := den
    exact channelStep_fails reversed started (live d (List.mem_of_getElem? found))
      (by simp [there, past]) (by rw [reverse, failing]; rfl)

private theorem audio_divides {t : CCommMgr R} {d : CDemuxer R} {n : ℕ}
    (found : t.demuxers[n]? = some d) (started : d.started = true) (live : d.freed = false)
    (sends : d.sends = true) (audio : typeOf d = "audio".toList)
    (members : d.info.hasMembers = true)
    (gop : (d.info.get "gop".toList).inRange 0 maxUInt = true) (den : readDen d = .ok 0)
    {rest : Option (List (Value R))} :
    act ⟨t, w, rest⟩ (.audioRun n) = some (.error .divideByZero) := by
  have read : (d.info.get "gop".toList).asUInt = .ok (d.info.get "gop".toList).toInteger :=
    if_pos gop
  refine channelStep_fails found started live (by simp [audio, sends]) ?_
  simp only [audioRun, den, ok_bind, member_eq members, read]
  rfl

private theorem ratesOk_of_never (stopped : s.bIsRunning = false) (never : NeverDividesByZero s) :
    RatesOk s := by
  intro w bitState infos n info read entries found
  refine ⟨fun creatables => ?_, fun creatables starts sends audio gop zero => ?_⟩
  · rw [← List.append_nil infos] at entries
    obtain ⟨as, t, run, runs, length, others, fresh⟩ :=
      channels_created (w := w) stopped entries read creatables
    have whole := run.snoc (step_of_ok (a := .create) rfl)
    refine ⟨fun zero => ?_, fun starts codec video zero => ?_⟩
    · have fails := seek_divides runs length creatables.2 fresh found zero
      have ends := never _ _ _ (whole.snoc (step_of_error fails))
      exact ends (by simp)
    · obtain ⟨d, here, made⟩ := fresh n info found
      have type : typeOf d = "video".toList := by rw [typeOf, made.entry, video]
      have files : getsToFiles d = true := by
        rw [getsToFiles, made.settings, others _ (by decide) (by decide)]
        exact codec
      have live : Live t := by
        intro e mem
        obtain ⟨k, there⟩ := List.mem_iff_getElem?.mp mem
        have inside : k < infos.length := by
          rw [← length]
          exact (List.getElem?_eq_some_iff.mp there).1
        obtain ⟨e', there', made'⟩ := fresh k infos[k] (List.getElem?_eq_getElem inside)
        obtain rfl : e = e' := Option.some.inj (there.symm.trans there')
        exact made'.freed
      obtain ⟨u, turned, fails⟩ := reverse_divides (w := w) runs live here
        (made.started.mpr starts) files type made.bIsRerverse
        (readDen_zero (creatables.2 n info found) made.entry zero)
      have ends := never _ _ _ ((whole.snoc (step_of_ok turned)).snoc (step_of_error fails))
      exact ends (by simp)
  · rw [← List.take_append_drop (n + 1) infos] at entries
    obtain ⟨as, t, run, -, -, others, fresh⟩ :=
      channels_created (w := w) stopped entries read creatables
    have front : (infos.take (n + 1))[n]? = some info := by
      rw [List.getElem?_take_of_lt (Nat.lt_succ_self n), found]
    obtain ⟨d, here, made⟩ := fresh n info front
    have type : typeOf d = "audio".toList := by rw [typeOf, made.entry, audio]
    have creatable := creatables.2 n info front
    have sending : d.sends = true :=
      made.sends.mpr ⟨starts, by rw [others _ (by decide) (by decide)]; exact sends⟩
    have fails := @audio_divides R _ w t d n here (made.started.mpr starts) made.freed sending type
      (by rw [made.entry]; exact creatable.1) (by rw [made.entry]; exact gop)
      (readDen_zero creatable made.entry zero) (some (infos.drop (n + 1)))
    have ends := never _ _ _ (run.snoc (step_of_error fails))
    exact ends (by simp)

end Necessity

section Settings

variable {R : Type} [Doubles R]

def settings (channel : String) : Str :=
  ("\x7b\x22version\x22:\x221.0.0\x22,\x22file_dst\x22:\x22output\x22," ++
    "\x22udp_sender_port\x22:5016,\x22output_channels\x22:[\x7b" ++
    "\x22ip\x22:\x22228.67.45.91\x22,\x22port\x22:19262" ++ channel ++ "\x7d]\x7d").toList

def managerOf (text : Str) : Option (CCommMgr Empty) :=
  match (createCore text true : Except Fault (Option (CCommMgr Empty) × List (Effect Empty))) with
  | .ok (s, _) => s
  | .error _ => none

theorem createCore_of_managerOf {text : Str} {s : CCommMgr Empty} (made : managerOf text = some s) :
    ∃ es, createCore text true = .ok (some s, es) := by
  unfold managerOf at made
  split at made
  · rename_i s' es created
    subst made
    exact ⟨es, created⟩
  · cases made

/-- What `RX` reads from a datagram. -/
def rootOf (d : Datagram) : Value Empty :=
  match (parse (Delete.cStr d.buff) : Except Fault (Option (Value Empty))) with
  | .ok (some root) => root
  | _ => .null

def seek : Datagram where
  bytes := ("\x7b\x22cmd\x22:\x22play_seek\x22,\x22info\x22:\x7b" ++
    "\x22move_sec\x22:0\x7d\x7d").toList
  nonempty := by decide
  fits := by decide

end Settings

end Tsender.Comm.Rates
