/- Tsender/Comm/Divisions
   source: comm.cpp (RX), demuxer.cpp (SetMoveSec), jsoncpp.cpp (Value accessors)
   digest: Of all that a command does only a seek divides, and only by the rate of a channel. -/

import Tsender.Comm.Dispatch

set_option autoImplicit false
set_option relaxedAutoImplicit false

namespace Tsender.Comm

open Json Lib.Fallible

section Faults

variable {R : Type}

@[simp]
theorem avoids_member {v : Value R} {key : Str} : Avoids .divideByZero (v.member key) := by
  cases v <;> simp [Value.member]

@[simp]
theorem avoids_elements {v : Value R} : Avoids .divideByZero (elements v) := by
  cases v with
  | object ms => cases ms <;> simp [elements]
  | _ => simp [elements]

@[simp]
theorem avoids_assign {v x : Value R} {key : Str} : Avoids .divideByZero (v.assign key x) := by
  cases v <;> simp [Value.assign]

@[simp]
theorem avoids_appendTo {v x : Value R} {key : Str} :
    Avoids .divideByZero (v.appendTo key x) := by
  simp only [Value.appendTo, avoids_bind, avoids_member, true_and]
  intro list _
  cases list <;> simp

@[simp]
theorem avoids_clear {v : Value R} : Avoids .divideByZero v.clear := by
  cases v <;> simp [Value.clear]

variable [Doubles R] {w : World} {s : CCommMgr R} {root : Value R}

@[simp]
theorem avoids_asInteger {v : Value R} {lo hi : ℤ} :
    Avoids .divideByZero (v.asInteger lo hi) := by
  simp [Value.asInteger]

@[simp]
theorem avoids_asString {v : Value R} : Avoids .divideByZero v.asString := by
  simp [Value.asString]

@[simp]
theorem avoids_parse {text : Str} :
    Avoids .divideByZero (parse text : Except Fault (Option (Value R))) := by
  unfold parse
  split <;> simp

@[simp]
theorem avoids_totalFrame {files : List (Value R)} : Avoids .divideByZero (totalFrame files) := by
  induction files with
  | nil => simp [totalFrame]
  | cons file files ih => simp [totalFrame, Value.asInt64, ih]

private theorem avoids_channelRound {metabase : Str} {v : Locals R} {ent : Dirent} :
    Avoids .divideByZero (channelRound w metabase v ent) := by
  simp only [channelRound, avoids_ite, avoids_bind, avoids_parse, true_and]
  refine ⟨fun _ parsed _ => ?_, fun _ => avoids_ok⟩
  cases parsed <;>
    simp only [setChannel, avoids_bind, avoids_ok, avoids_pure, avoids_member, avoids_elements,
      avoids_totalFrame, avoids_assign, avoids_appendTo, avoids_clear, implies_true, and_self]

private theorem avoids_recordingEntry {basepath : Str} {v : Locals R} {ent : Dirent} :
    Avoids .divideByZero (recordingEntry w basepath v ent) := by
  simp only [recordingEntry, avoids_bind, avoids_assign, avoids_parse, true_and]
  intro _ _ _ _ parsed _
  have told : Avoids .divideByZero (getFormatedErrorMessages R
      (w.content (basepath ++ "/".toList ++ ent.d_name ++ "/".toList ++ "info.json".toList))) := by
    simp only [getFormatedErrorMessages, avoids_ite, avoids_error, avoids_ok, implies_true, ne_eq,
      reduceCtorEq, not_false_eq_true, and_self]
  cases parsed <;> cases w.readdir (basepath ++ "/".toList ++ ent.d_name ++ "/".toList) <;>
    simp only [setBitState, told, avoids_bind, avoids_pure, avoids_error, avoids_member,
      avoids_assign, avoids_appendTo, avoids_clear, avoids_foldlM fun _ _ => avoids_channelRound,
      implies_true, and_self, ne_eq, reduceCtorEq, not_false_eq_true]

private theorem avoids_recordingRound {basepath : Str} {v : Locals R} {ent : Dirent} :
    Avoids .divideByZero (recordingRound w basepath v ent) := by
  simp only [recordingRound, avoids_ite, avoids_bind, avoids_recordingEntry, avoids_ok,
    avoids_pure, implies_true, and_self]

@[simp]
theorem avoids_outputFileList {basepath : Str} :
    Avoids .divideByZero (outputFileList (R := R) w basepath) := by
  simp only [outputFileList, getOutputFileList]
  cases w.readdir basepath with
  | none => simp
  | some ents =>
    simp only [avoids_bind, avoids_foldlM fun _ _ => avoids_recordingRound, avoids_pure,
      implies_true, and_self]

@[simp]
theorem avoids_create {info : Value R} {attr : List (Str × Value R)} {id nChannel : ℕ} :
    Avoids .divideByZero (Comm.create w id info attr nChannel) := by
  simp only [Comm.create, createSender, setSocket, Value.asInt, Value.asUInt, Value.asUInt64,
    avoids_bind, avoids_member, avoids_asInteger, avoids_asString, avoids_ite, avoids_pure,
    implies_true, and_self]

omit [Doubles R] in
theorem avoids_onEntries {f : CDemuxer R → CDemuxer R} {ds : List (CDemuxer R)} :
    Avoids .divideByZero (onEntries f ds) := by
  intro failed
  obtain ⟨d, -, divides⟩ := mem_of_mapM_error failed
  unfold onEntry at divides
  cases freed : d.freed <;> simp [freed] at divides

theorem avoids_run {cmd : Command} (start : cmd ≠ .playStart) (seek : cmd ≠ .playSeek) :
    Avoids .divideByZero (run w s root cmd) := by
  cases cmd with
  | playStart => exact absurd rfl start
  | playSeek => exact absurd rfl seek
  | playReverse | playClose | playPause =>
    simp only [run, playReverse, playClose, playPause, avoids_ite, avoids_bind, avoids_onEntries,
      avoids_ok, avoids_pure, implies_true, and_self]
  | playSpeedUp =>
    simp only [run, playSpeedUp, Value.asInt, avoids_ite, avoids_bind, avoids_member,
      avoids_asInteger, avoids_onEntries, avoids_ok, avoids_pure, implies_true, and_self]
  | getThumbnail =>
    simp only [run, getThumbnail, Value.asInt, avoids_ite, avoids_bind, avoids_member,
      avoids_asInteger, avoids_pure, implies_true, and_self]
  | getPlayList =>
    simp only [run, getPlayList, avoids_bind, avoids_asString, avoids_outputFileList,
      avoids_pure, implies_true, and_self]
  | playDelete =>
    simp only [run, playDelete, avoids_bind, avoids_member, avoids_asString,
      avoids_outputFileList, avoids_pure, implies_true, and_self]

@[simp]
theorem avoids_fileIndex {files : List (Value R)} {nFrame : UInt64} :
    Avoids .divideByZero (fileIndex files nFrame) := by
  induction files generalizing nFrame with
  | nil => simp [fileIndex]
  | cons file files ih =>
    simp only [fileIndex, Value.asInt, avoids_bind, avoids_member, avoids_asInteger, avoids_ite,
      avoids_pure, ih, implies_true, and_self]

/-- The only division of `SetMoveSec` is by `num`. -/
private theorem num_of_setMoveSec {nSec : ℤ} {d : CDemuxer R}
    (failed : setMoveSec nSec d = .error .divideByZero) :
    (d.info.get "num".toList).toInteger = 0 := by
  by_contra rate
  have avoids : Avoids .divideByZero (setMoveSec nSec d) := by
    simp only [setMoveSec, Value.asUInt64, avoids_bind, avoids_member, avoids_asInteger,
      avoids_ite, avoids_elements, avoids_fileIndex, avoids_pure, implies_true, and_self,
      and_true, true_and]
    intro num read n converted _ _ _ _ zero
    rw [eq_of_asUInt64 converted, eq_of_member read] at zero
    exact absurd zero rate
  exact avoids failed

private theorem num_of_onEntry {nSec : ℤ} {d : CDemuxer R}
    (failed : onEntry (setMoveSec nSec) d = .error .divideByZero) :
    (d.info.get "num".toList).toInteger = 0 := by
  unfold onEntry at failed
  split at failed
  · cases failed
  · exact num_of_setMoveSec failed

theorem num_of_playSeek (failed : playSeek s root = .error .divideByZero) :
    s.bIsRunning = true ∧ ∃ d ∈ s.demuxers, (d.info.get "num".toList).toInteger = 0 := by
  cases running : s.bIsRunning with
  | false =>
    simp only [playSeek, running, Bool.false_eq_true, if_false] at failed
    cases failed
  | true =>
    refine ⟨rfl, ?_⟩
    by_contra rates
    have avoids : Avoids .divideByZero (playSeek s root) := by
      simp only [playSeek, running, if_true, Value.asInt, avoids_bind, avoids_member,
        avoids_asInteger, avoids_pure, implies_true, and_true, true_and]
      intro _ _ _ _ nMoveSec _ out
      obtain ⟨d, mem, zero⟩ := mem_of_mapM_error out
      exact rates ⟨d, mem, num_of_onEntry zero⟩
    exact avoids failed

end Faults

end Tsender.Comm
