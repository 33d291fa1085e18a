/- Tsender/Comm/Reply
   source: comm.cpp (RX: get_thumbnail, get_play_list, play_delete; TX), jsoncpp.cpp (writeString)
   digest: The replies as they go out: text without a NUL, which a manager at the other end takes
   for the command again, or for the start of something longer than its buffer. -/

import Mathlib.Data.List.TakeWhile
import Tsender.Comm.Commands
import Tsender.Comm.Echo
import Tsender.Comm.PlayList
import Tsender.Json.RoundTrip

set_option autoImplicit false
set_option relaxedAutoImplicit false

namespace Tsender.Comm.Reply

open Json Lib.Fallible Echo

section Sent

variable {R : Type} [Doubles R] {hasComment : Value R → Bool} {root : Value R}

private theorem cStr_eq_self {t : Str} (printable : AllPrintable t) : Delete.cStr t = t := by
  unfold Delete.cStr
  rw [List.takeWhile_eq_self_iff]
  intro c inside
  have bounds := printable c inside
  exact decide_eq_true fun nul => by
    rw [nul] at bounds
    exact absurd bounds.1 (by decide)

theorem sent_reply (printed : ∀ r ∈ reals root, PrintsBack r) :
    sent (writeString (compact hasComment)) (.reply root) = some (render (inOrder root)) := by
  have printable := allPrintable_render (inOrder root) fun r inside =>
    (printed r (reals_inOrder root r inside)).numeral
  have text : writeString (compact hasComment) root = render (inOrder root) :=
    write_eq_render root _
  rw [sent, text, cStr_eq_self printable]

end Sent

section Asked

variable {R : Type} [Doubles R] {w : World} {s t : CCommMgr R} {d : Datagram}
  {effects : List (Effect R)} {root : Value R}

/-- A reply is an object of ASCII names that names a command, its own but for `play_delete`. -/
structure Answers (root : Value R) (cmd : Command) (name : Str) : Prop where
  members : ∃ ms, root = .object (setMember ms "cmd".toList (.string name)) ∧
    ∀ m ∈ ms, m.1 = "files".toList
  names : (cmd = .getThumbnail ∧ name = "get_thumbnail".toList) ∨
    (cmd = .getPlayList ∧ name = "get_play_list".toList) ∨
    (cmd = .playDelete ∧ name = "get_play_delete".toList)

private theorem outputFileList_names {basepath : Str} {list : List (Str × Value R)}
    (done : outputFileList w basepath = .ok list) : ∀ m ∈ list, m.1 = "files".toList := by
  obtain ⟨root, listed, done⟩ := bind_eq_ok.mp done
  cases done
  cases opened : w.readdir basepath with
  | none => simp [getOutputFileList, opened] at listed
  | some ents =>
    rw [(isPlayList_of_done opened listed).1]
    unfold rootOf
    split_ifs
    · intro m inside
      exact absurd inside List.not_mem_nil
    · intro m inside
      rw [Value.members_object, List.mem_singleton] at inside
      rw [inside]

private theorem answers_of_run {cmd : Command} {r : CCommMgr R × List (Effect R)} {asked : Value R}
    (done : run w s asked cmd = .ok r) (replied : Effect.reply root ∈ r.2) :
    ∃ name, Answers root cmd name := by
  have answered : cmd.silent = false := by
    by_contra silent
    rw [effects_of_silent (Bool.eq_true_of_not_eq_false silent) done] at replied
    exact List.not_mem_nil replied
  cases cmd with
  | playStart | playReverse | playClose | playSpeedUp | playPause | playSeek => cases answered
  | getThumbnail =>
    rw [(getThumbnail_cases done).2, List.mem_singleton] at replied
    cases replied
    exact ⟨_, ⟨[], rfl, List.forall_mem_nil _⟩, .inl ⟨rfl, rfl⟩⟩
  | getPlayList =>
    obtain ⟨fileDst, -, done⟩ := bind_eq_ok.mp done
    obtain ⟨list, listed, done⟩ := bind_eq_ok.mp done
    cases done
    rw [List.mem_singleton] at replied
    cases replied
    exact ⟨_, ⟨list, rfl, outputFileList_names listed⟩, .inr (.inl ⟨rfl, rfl⟩)⟩
  | playDelete =>
    obtain ⟨fileDst, -, done⟩ := bind_eq_ok.mp done
    obtain ⟨info, -, done⟩ := bind_eq_ok.mp done
    obtain ⟨target, -, done⟩ := bind_eq_ok.mp done
    obtain ⟨text, -, done⟩ := bind_eq_ok.mp done
    obtain ⟨list, listed, done⟩ := bind_eq_ok.mp done
    cases done
    have last : Effect.reply root = Effect.reply
        (.object (setMember list "cmd".toList (.string "get_play_delete".toList))) := by
      simpa using replied
    cases last
    exact ⟨_, ⟨list, rfl, outputFileList_names listed⟩, .inr (.inr ⟨rfl, rfl⟩)⟩

omit [Doubles R] in
private theorem commandOf_reread {cmd : Command} {name : Str} (h : Answers root cmd name) :
    commandOf (reread (inOrder root)) = .ok ((some cmd).filter (· ≠ .playDelete)) := by
  obtain ⟨ms, rfl, files⟩ := h.members
  have ascii : WellFormed "files".toList ∧ WellFormed "cmd".toList :=
    ⟨(repair_eq_self_iff _).mp rfl, (repair_eq_self_iff _).mp rfl⟩
  have named : ∀ m ∈ membersInOrder (setMember ms "cmd".toList (.string name)),
      WellFormed m.1 := by
    intro m inside
    obtain ⟨n, below, same⟩ := name_membersInOrder inside
    rw [same]
    rcases mem_setMember below with cmd | other
    · exact cmd ▸ ascii.2
    · exact files n other ▸ ascii.1
  have found := lookup_rereadMembers (ascending_membersInOrder _) named [] "cmd".toList
  rw [lookup_membersInOrder, lookup_setMember_same] at found
  have member : (reread (inOrder (.object (setMember ms "cmd".toList (.string name))))).member
      "cmd".toList = .ok (.string (repair name)) := by
    rw [inOrder, reread, Value.member, getMember, found]
    rfl
  rw [commandOf, member]
  rcases h.names with ⟨rfl, rfl⟩ | ⟨rfl, rfl⟩ | ⟨rfl, rfl⟩ <;> rfl

theorem rx_cases (done : rx w s d = .ok (t, effects)) :
    (dispatch R d = none ∧ effects = [.echo d.bytes]) ∨ ∃ asked cmd more,
      dispatch R d = some cmd ∧ run w s asked cmd = .ok (t, more) ∧
        effects = .echo d.bytes :: more := by
  obtain ⟨strbuf, text, done⟩ := bind_eq_ok.mp done
  obtain ⟨parsed, parses, done⟩ := bind_eq_ok.mp done
  cases parsed with
  | none =>
    cases done
    exact .inl ⟨by simp only [dispatch, text, parses], rfl⟩
  | some asked =>
    obtain ⟨cmd, found, done⟩ := bind_eq_ok.mp done
    have dispatched : dispatch R d = cmd := by simp only [dispatch, text, parses, found]
    cases cmd with
    | none =>
      cases done
      exact .inl ⟨dispatched, rfl⟩
    | some cmd =>
      obtain ⟨⟨u, more⟩, ran, done⟩ := bind_eq_ok.mp done
      cases done
      exact .inr ⟨asked, cmd, more, dispatched, ran, rfl⟩

private theorem dispatched_of_reply (done : rx w s d = .ok (t, effects))
    (replied : Effect.reply root ∈ effects) :
    ∃ cmd name, dispatch R d = some cmd ∧ Answers root cmd name := by
  rcases rx_cases done with ⟨-, rfl⟩ | ⟨asked, cmd, more, dispatched, ran, rfl⟩
  · simp at replied
  · have behind : Effect.reply root ∈ more := by simpa using replied
    obtain ⟨name, answers⟩ := answers_of_run ran behind
    exact ⟨cmd, name, dispatched, answers⟩

private theorem received_text {text : Str} (filled : text ≠ []) (printable : AllPrintable text)
    (short : text.length < readSize) :
    ∃ d, recvfrom text = some d ∧ stringAt d.buff = .ok text := by
  have whole : text.take readSize = text := List.take_of_length_le (Nat.le_of_lt short)
  have no_nul : '\x00' ∉ text := fun inside =>
    absurd (printable '\x00' inside).1 (by decide)
  have room : readSize - text.length = (readSize - text.length - 1) + 1 := by omega
  have behind : Delete.cStr (List.replicate (readSize - text.length) '\x00') = [] := by
    rw [room, List.replicate_succ]
    rfl
  refine ⟨_, dif_neg filled, ?_⟩
  have buff : Datagram.buff ⟨text.take readSize, by simp [filled, readSize],
      List.length_take_le readSize text⟩ =
        text ++ List.replicate (readSize - text.length) '\x00' := by
    simp only [Datagram.buff, whole]
  have nul : '\x00' ∈ text ++ List.replicate (readSize - text.length) '\x00' := by
    rw [room, List.replicate_succ]
    simp
  rw [buff, stringAt, if_pos nul, Delete.cStr_append no_nul, behind, List.append_nil]

/-- Of a longer text nothing but the text is in the buffer, and `strbuf` goes on behind it. -/
private theorem received_long {text : Str} (printable : AllPrintable text)
    (long : readSize ≤ text.length) :
    ∃ d, recvfrom text = some d ∧ ∀ (w : World) (s : CCommMgr R), rx w s d = .error .outOfBounds := by
  have filled : text ≠ [] := by
    rintro rfl
    exact absurd long (by decide)
  have full : (text.take readSize).length = readSize := by simp [long]
  have no_nul : '\x00' ∉ text.take readSize := fun inside =>
    absurd (printable '\x00' (List.mem_of_mem_take inside)).1 (by decide)
  refine ⟨_, dif_neg filled, fun w s => ?_⟩
  have buff : Datagram.buff ⟨text.take readSize, by simp [filled, readSize],
      List.length_take_le readSize text⟩ = text.take readSize := by
    simp only [Datagram.buff, full, Nat.sub_self, List.replicate_zero, List.append_nil]
  rw [rx, buff, stringAt, if_neg no_nul]
  rfl

private theorem shallow_of_short {v : Value R} (short : (render v).length < readSize) :
    height v < stackLimit := by
  have brackets := height_le_length v
  unfold readSize at short
  unfold stackLimit
  omega

theorem received_answer {cmd : Command} {name : Str} (answers : Answers root cmd name)
    (printed : ∀ r ∈ reals root, PrintsBack r) (hasComment : Value R → Bool) :
    ∃ bytes, sent (writeString (compact hasComment)) (.reply root) = some bytes ∧
      AllPrintable bytes ∧
      (bytes.length < readSize →
        (recvfrom bytes).bind (dispatch R) = (some cmd).filter (· ≠ .playDelete)) ∧
      (readSize ≤ bytes.length → ∃ d', recvfrom bytes = some d' ∧
        ∀ (w' : World) (s' : CCommMgr R), rx w' s' d' = .error .outOfBounds) := by
  have finite := fun r inside => printed r (reals_inOrder root r inside)
  have printable := allPrintable_render (inOrder root) fun r inside => (finite r inside).numeral
  refine ⟨_, sent_reply printed, printable, fun short => ?_, received_long printable⟩
  have filled : render (inOrder root) ≠ [] := by
    obtain ⟨c, cs, text, -⟩ := (readsBack (inOrder root) finite).front
    simp [text]
  obtain ⟨d', received, text⟩ := received_text filled printable short
  have parses : (parse (render (inOrder root)) : Except Fault (Option (Value R))) =
      .ok (some (reread (inOrder root))) := by
    have back := @parse_write _ _ hasComment _ printed ⟨[], [], [], false, false⟩
    rwa [if_pos (shallow_of_short short), write_eq_render] at back
  rw [received, Option.bind_some]
  simp only [dispatch, text, parses, commandOf_reread answers]

/-- What `TX` sends in reply is, to a manager that receives it, the command once more that it
answers; only the reply to `play_delete` is none.  A reply that fills the buffer is read behind
its end. -/
theorem reply_is_command (done : rx w s d = .ok (t, effects))
    (replied : Effect.reply root ∈ effects) (printed : ∀ r ∈ reals root, PrintsBack r)
    (hasComment : Value R → Bool) :
    ∃ bytes, sent (writeString (compact hasComment)) (.reply root) = some bytes ∧
      AllPrintable bytes ∧
      (bytes.length < readSize →
        (recvfrom bytes).bind (dispatch R) = (dispatch R d).filter (· ≠ .playDelete)) ∧
      (readSize ≤ bytes.length → ∃ d', recvfrom bytes = some d' ∧
        ∀ (w' : World) (s' : CCommMgr R), rx w' s' d' = .error .outOfBounds) := by
  obtain ⟨cmd, name, asked, answers⟩ := dispatched_of_reply done replied
  rw [asked]
  exact received_answer answers printed hasComment

end Asked

section Thumbnail

def thumbnail : Datagram where
  bytes := "\x7b\x22cmd\x22:\x22get_thumbnail\x22\x7d".toList
  nonempty := by decide
  fits := by decide

def onlyReply {R : Type} : Except Fault (CCommMgr R × List (Effect R)) → Option (Value R)
  | .ok (_, [.echo _, .reply root]) => some root
  | _ => none

private theorem rx_of_onlyReply {R : Type} {r : Except Fault (CCommMgr R × List (Effect R))}
    {root : Value R} (h : onlyReply r = some root) :
    ∃ t effects, r = .ok (t, effects) ∧ Effect.reply root ∈ effects := by
  unfold onlyReply at h
  split at h
  · cases h
    exact ⟨_, _, rfl, by simp⟩
  · cases h

theorem reply_is_command_thumbnail : ∃ bytes : Str, bytes.length < readSize ∧
    (recvfrom bytes).bind (dispatch Empty) = some .getThumbnail := by
  have found : ((onlyReply (rx emptyWorld (opened (R := Empty) []) thumbnail)).any fun root =>
      decide ((render (inOrder root)).length < readSize)) = true := by decide +kernel
  have asked : dispatch Empty thumbnail = some .getThumbnail := by decide +kernel
  obtain ⟨root, only, fits⟩ := Option.any_eq_true _ _ |>.mp found
  have short := of_decide_eq_true fits
  obtain ⟨t, effects, done, replied⟩ := rx_of_onlyReply only
  have absent : ∀ r ∈ reals root, PrintsBack r := fun r _ => r.elim
  obtain ⟨bytes, answer, -, again, -⟩ := reply_is_command done replied absent fun _ => false
  rw [sent_reply absent, Option.some.injEq] at answer
  rw [asked, ← answer] at again
  exact ⟨_, short, again short⟩

end Thumbnail

end Tsender.Comm.Reply
