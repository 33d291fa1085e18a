/- Tsender/Comm/Commands
   source: comm.cpp (RX)
   digest: What each command that returns has done to the manager and its channels, which none of
   those that it calls may have deleted. -/

import Tsender.Comm.Dispatch
import Tsender.Lib.Fallible

set_option autoImplicit false
set_option relaxedAutoImplicit false

namespace Tsender.Comm

open Json Lib.Fallible

section Entries

variable {R : Type} {s : CCommMgr R}

def Live (s : CCommMgr R) : Prop := ∀ d ∈ s.demuxers, d.freed = false

theorem yields_onEntry {method : CDemuxer R → Except Fault (CDemuxer R)} {d : CDemuxer R}
    {P : CDemuxer R → Prop} :
    Yields (onEntry method d) P ↔ d.freed = false ∧ Yields (method d) P := by
  unfold onEntry
  cases d.freed <;> simp

theorem onEntry_eq_ok {method : CDemuxer R → Except Fault (CDemuxer R)} {d e : CDemuxer R} :
    onEntry method d = .ok e ↔ d.freed = false ∧ method d = .ok e := by
  unfold onEntry
  cases d.freed <;> simp

private theorem onEntries_eq_ok {f : CDemuxer R → CDemuxer R} {ds es : List (CDemuxer R)} :
    onEntries f ds = .ok es ↔ (∀ d ∈ ds, d.freed = false) ∧ es = ds.map f := by
  induction ds generalizing es with
  | nil =>
    simp only [onEntries, List.mapM_nil, List.map_nil]
    exact ⟨fun done => ⟨nofun, (Except.ok.inj done).symm⟩, fun h => congrArg _ h.2.symm⟩
  | cons d ds ih =>
    simp only [onEntries] at ih ⊢
    simp only [List.mapM_cons, bind_eq_ok, onEntry_eq_ok, List.forall_mem_cons, List.map_cons]
    constructor
    · rintro ⟨_, ⟨here, same⟩, rest, others, done⟩
      cases same
      cases done
      obtain ⟨live, rfl⟩ := ih.mp others
      exact ⟨⟨here, live⟩, rfl⟩
    · rintro ⟨⟨here, live⟩, rfl⟩
      exact ⟨_, ⟨here, rfl⟩, _, ih.mpr ⟨live, rfl⟩, rfl⟩

theorem yields_onEntries {f : CDemuxer R → CDemuxer R} {P : List (CDemuxer R) → Prop} :
    Yields (onEntries f s.demuxers) P ↔ Live s ∧ P (s.demuxers.map f) := by
  simp only [Yields, onEntries_eq_ok, Live]
  constructor
  · rintro ⟨_, ⟨live, rfl⟩, holds⟩
    exact ⟨live, holds⟩
  · rintro ⟨live, holds⟩
    exact ⟨_, ⟨live, rfl⟩, holds⟩

end Entries

section Cases

variable {R : Type} {s t : CCommMgr R} {root : Value R} {es : List (Effect R)}

def Did (s t : CCommMgr R) (es : List (Effect R)) (called : CCommMgr R) : Prop :=
  es = [] ∧ if s.bIsRunning then Live s ∧ t = called else t = s

theorem Did.running {called : CCommMgr R} (h : Did s t es called) (running : s.bIsRunning = true) :
    Live s ∧ t = called := by
  have did := h.2
  rwa [if_pos running] at did

theorem Did.stopped {called : CCommMgr R} (h : Did s t es called)
    (stopped : s.bIsRunning = false) : t = s := by
  have did := h.2
  rwa [if_neg (by simp [stopped])] at did

private theorem did_of_ok {f : CDemuxer R → CDemuxer R} {k : List (CDemuxer R) → CCommMgr R}
    (done : (if s.bIsRunning then do
        let ds ← onEntries f s.demuxers
        return (k ds, [])
      else .ok (s, []) : Except Fault (CCommMgr R × List (Effect R))) = .ok (t, es)) :
    Did s t es (k (s.demuxers.map f)) := by
  unfold Did
  split at done
  · rename_i running
    obtain ⟨ds, called, done⟩ := bind_eq_ok.mp done
    cases done
    obtain ⟨live, rfl⟩ := onEntries_eq_ok.mp called
    exact ⟨rfl, by rw [if_pos running]; exact ⟨live, rfl⟩⟩
  · rename_i stopped
    cases done
    exact ⟨rfl, by rw [if_neg stopped]⟩

theorem playReverse_did (done : playReverse s = .ok (t, es)) :
    let reversed := s.demuxers.map fun d => { d with bIsRerverse := !d.bIsRerverse }
    Did s t es { s with
      demuxers := reversed
      bIsRerverse := (reversed.getLast?.map CDemuxer.bIsRerverse).getD s.bIsRerverse } :=
  did_of_ok done

theorem playClose_did (done : playClose s = .ok (t, es)) :
    Did s t es { s with demuxers := [], bIsRunning := false } :=
  @did_of_ok R s t es id (fun _ => { s with demuxers := [], bIsRunning := false }) done

theorem playPause_did (done : playPause s = .ok (t, es)) :
    Did s t es { s with
      demuxers := s.demuxers.map fun d => { d with isPause := !d.isPause } } :=
  did_of_ok done

variable [Doubles R]

theorem playSpeedUp_did (done : playSpeedUp s root = .ok (t, es)) :
    let nSpeed := ((root.get "info".toList).get "speed".toList).toInteger
    Did s t es { s with
      nSpeed := nSpeed, demuxers := s.demuxers.map fun d => { d with nSpeed := nSpeed } } := by
  have yields : Yields (playSpeedUp s root) fun r => r = (t, es) := ⟨_, done, rfl⟩
  simp only [playSpeedUp, yields_ite, yields_bind, yields_member, yields_asInt, yields_onEntries,
    yields_pure, yields_ok] at yields
  unfold Did
  by_cases running : s.bIsRunning = true
  · obtain ⟨-, -, -, live, same⟩ := yields.1 running
    cases same
    exact ⟨rfl, by rw [if_pos running]; exact ⟨live, rfl⟩⟩
  · have same := yields.2 running
    cases same
    exact ⟨rfl, by rw [if_neg running]⟩

theorem playSeek_stopped (stopped : s.bIsRunning = false)
    (done : playSeek s root = .ok (t, es)) : t = s := by
  simp only [playSeek, stopped, Bool.false_eq_true, if_false] at done
  cases done
  rfl

theorem playSeek_running (running : s.bIsRunning = true) (done : playSeek s root = .ok (t, es)) :
    ∃ nMoveSec moved, s.demuxers.mapM (onEntry (setMoveSec nMoveSec)) = .ok moved ∧
      t = { s with nMoveSec := nMoveSec, demuxers := moved } := by
  simp only [playSeek, running, if_true, bind_eq_ok] at done
  obtain ⟨_, -, _, -, nMoveSec, -, moved, all, done⟩ := done
  cases done
  exact ⟨nMoveSec, moved, all, by rw [running]⟩

private theorem playSeek_silent (done : playSeek s root = .ok (t, es)) : es = [] := by
  unfold playSeek at done
  split_ifs at done
  · simp only [bind_eq_ok] at done
    obtain ⟨_, -, _, -, _, -, _, -, done⟩ := done
    cases done
    rfl
  · cases done
    rfl

theorem getThumbnail_cases (done : getThumbnail s root = .ok (t, es)) : t = s ∧
    es = [.reply (.object (setMember [] "cmd".toList (.string "get_thumbnail".toList)))] := by
  simp only [getThumbnail] at done
  split at done
  · simp only [bind_eq_ok] at done
    obtain ⟨_, -, _, -, _, -, _, -, _, -, done⟩ := done
    cases done
    exact ⟨rfl, rfl⟩
  · cases done
    exact ⟨rfl, rfl⟩

private theorem playStart_silent {w : World} (done : playStart w s root = .ok (t, es)) : es =
    [] := by
  simp only [playStart, bind_eq_ok] at done
  obtain ⟨info, -, target, -, text, -, bitState, -, done⟩ := done
  split_ifs at done
  · obtain ⟨resumed, -, done⟩ := bind_eq_ok.mp done
    cases done
    rfl
  · obtain ⟨infos, -, done⟩ := bind_eq_ok.mp done
    obtain ⟨demuxers, -, done⟩ := bind_eq_ok.mp done
    cases done
    rfl

def Command.silent : Command → Bool
  | .getThumbnail | .getPlayList | .playDelete => false
  | _ => true

theorem effects_of_silent {w : World} {cmd : Command} (silent : cmd.silent = true)
    (done : run w s root cmd = .ok (t, es)) : es = [] := by
  cases cmd with
  | playStart => exact playStart_silent done
  | playReverse => exact (playReverse_did done).1
  | playClose => exact (playClose_did done).1
  | playSpeedUp => exact (playSpeedUp_did done).1
  | playPause => exact (playPause_did done).1
  | playSeek => exact playSeek_silent done
  | getThumbnail | getPlayList | playDelete => cases silent

end Cases

end Tsender.Comm
