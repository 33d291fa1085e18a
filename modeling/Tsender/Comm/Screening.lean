/- Tsender/Comm/Screening
   source: misc.cpp (GetOutputFileList), comm.cpp (RX: get_play_list, play_start), demuxer.cpp
   (Play, GetChannelFiles, Demux), sender.cpp (Run, send_bitstream)
   digest: A recording from the play list to the network: what the threads of a channel make of
   the files that its meta.json names, and that a receiver gets what the list has counted. -/

import Tsender.Channel.Completion
import Tsender.Channel.Wire
import Tsender.Comm.Startup

set_option autoImplicit false
set_option relaxedAutoImplicit false

namespace Tsender.Comm.Screening

open Json Lib.Fallible Lib.Transition PlayTree Startup
open Channel (Config File Payload State)
open Channel.Completion (Playable playing Fair exists_fair_onePacket playable_onePacket)
open Channel.FormatContext (onePacket)
open Channel.Playback (contents delivered recording sentPackets)
open Channel.Wire (received wire)
open Sender.Bitstream (Stream)

/-- What libav makes of the files, and the pointer that the sender finds in its memory. -/
structure Media where
  /-- Of the file of a name.  Its `frame` is not looked at. -/
  file : Str → File
  filter : Payload → Option Payload
  stray : Bool

section Channels

variable {R : Type} [Doubles R]

/-- An element of `files` with what libav makes of it. -/
def fileOf (media : Media) (value : Value R) : File :=
  { media.file (value.get "name".toList).toStr with
    frame := (value.get "frame".toList).toInteger }

/-- What the threads of a video channel play: what `Demux` and `Run` have before their loops. -/
def configOf (media : Media) (d : CDemuxer R) (demuxing : Demuxing R) : Config where
  files := demuxing.files.map (fileOf media)
  filter := media.filter
  nChannel := d.nChannel
  num := .ofInt demuxing.num
  den := .ofInt demuxing.den
  gop := .ofInt (d.info.get "gop".toList).toInteger
  stray := media.stray

/-- The turns of the loop for `n` files, from file `k` on, that no move and no seek disturbs. -/
def turns (k n : ℕ) : List Visit := (List.range' k n).map fun i => ⟨i, false⟩

/-- A channel of a play list is started, with the settings and the disk of the list. -/
structure Screened (w : World) (disk : Disk) (s u t : CCommMgr R) (asked list info : Value R)
    (ent sub : Dirent) (d : CDemuxer R) : Prop where
  same : SameDisk w disk
  listed : ∃ s', getPlayList w s = .ok (s', [.reply list])
  found : IsChannelOf w (getMember s.attr "file_dst".toList).toStr ent sub info
  settings : getMember u.attr "file_dst".toList = getMember s.attr "file_dst".toList
  stopped : u.bIsRunning = false
  ran : ∃ es, playStart w u asked = .ok (t, es)
  target : ((asked.get "info".toList).get "target".toList).toStr = ent.d_name
  inside : d ∈ t.demuxers
  started : d.started = true
  sends : d.sends = true
  number : Nat.toDigits 10 d.nChannel = sub.d_name
  video : (d.info.get "type".toList).toStr = "video".toList

end Channels

section Files

variable {R : Type} [Doubles R] {media : Media} {d : CDemuxer R} {demuxing : Demuxing R}

private theorem packets_of_fileLoop (cfg : Config) {front rest : List (Value R)}
    {opened : List (Str × Str)}
    (done : fileLoop d (front ++ rest) (turns front.length rest.length) = .ok opened) :
    ((rest.map (fileOf media)).takeWhile fun file => file.frame ≠ 0).flatMap
        (fun file => delivered cfg file.packets) =
      opened.flatMap fun file => delivered cfg (media.file file.1).packets := by
  induction rest generalizing front opened with
  | nil =>
    cases done
    rfl
  | cons value rest ih =>
    have yields : Yields (fileLoop d (front ++ value :: rest)
        (turns front.length (value :: rest).length)) (· = opened) := ⟨_, done, rfl⟩
    have found : (front ++ value :: rest)[front.length]? = some value := by simp
    rw [turns, List.length_cons, List.range'_succ, List.map_cons, fileLoop, found] at yields
    simp only [yields_bind, Bool.false_and, Bool.false_eq_true, if_false] at yields
    obtain ⟨file, read, yields⟩ := yields
    obtain rfl := eq_of_readFile read
    by_cases empty : (value.get "frame".toList).toInteger = 0
    · have stops : (fileOf media value).frame = 0 := empty
      simp only [if_pos empty, yields_pure] at yields
      simp [← yields, stops]
    · have goes : (fileOf media value).frame ≠ 0 := empty
      simp only [if_neg empty, yields_bind, yields_pure] at yields
      obtain ⟨others, later, rfl⟩ := yields
      have further : fileLoop d ((front ++ [value]) ++ rest)
          (turns (front ++ [value]).length rest.length) = .ok others := by
        simpa [turns] using later
      rw [List.map_cons, List.takeWhile_cons_of_pos (by simpa using goes), List.flatMap_cons,
        List.flatMap_cons, ih further]
      rfl

private theorem recording_eq {opened : List (Str × Str)}
    (done : fileLoop d demuxing.files (turns 0 demuxing.files.length) = .ok opened) :
    recording (configOf media d demuxing) =
      opened.flatMap fun file =>
        delivered (configOf media d demuxing) (media.file file.1).packets := by
  have whole : fileLoop d ([] ++ demuxing.files)
      (turns ([] : List (Value R)).length demuxing.files.length) = .ok opened := done
  exact packets_of_fileLoop (configOf media d demuxing) whole

end Files

section Counts

variable {cfg : Config}

def Recorded (cfg : Config) (file : File) : Prop :=
  file.frame = (delivered cfg file.packets).length

private theorem sum_frames {files : List File} (recorded : ∀ file ∈ files, Recorded cfg file) :
    (files.map File.frame).sum =
      ((files.flatMap fun file => delivered cfg file.packets).length : ℤ) := by
  induction files with
  | nil => rfl
  | cons file files ih =>
    obtain ⟨first, others⟩ := List.forall_mem_cons.mp recorded
    unfold Recorded at first
    rw [List.map_cons, List.sum_cons, List.flatMap_cons, List.length_append, Nat.cast_add,
      ih others, first]

def unplayed (cfg : Config) : List ℤ :=
  (cfg.files.dropWhile fun file => file.frame ≠ 0).map File.frame

private theorem sum_eq_recording (recorded : ∀ file ∈ cfg.files, Recorded cfg file) :
    (cfg.files.map File.frame).sum = (recording cfg).length + (unplayed cfg).sum := by
  have split : (cfg.files.takeWhile fun file => file.frame ≠ 0) ++
      (cfg.files.dropWhile fun file => file.frame ≠ 0) = cfg.files :=
    List.takeWhile_append_dropWhile
  have played : ∀ file ∈ cfg.files.takeWhile fun file => file.frame ≠ 0, Recorded cfg file :=
    fun file inside => recorded file ((List.takeWhile_sublist _).subset inside)
  calc (cfg.files.map File.frame).sum
      = ((cfg.files.takeWhile fun file => file.frame ≠ 0).map File.frame).sum +
          (unplayed cfg).sum := by
        conv_lhs => rw [← split]
        rw [List.map_append, List.sum_append]
        rfl
    _ = (recording cfg).length + (unplayed cfg).sum := by
        rw [sum_frames played]
        rfl

end Counts

section Shown

variable {R : Type} [Doubles R] {w : World} {disk : Disk} {s u t : CCommMgr R}
  {asked list info : Value R} {ent sub : Dirent} {d : CDemuxer R} {demuxing : Demuxing R}
  {opened : List (Str × Str)}

theorem Screened.counts (screened : Screened w disk s u t asked list info ent sub d)
    (played : play disk d = .ok (some demuxing)) (media : Media) :
    Shows list ent sub (.ofInt ((configOf media d demuxing).files.map File.frame).sum) := by
  obtain ⟨same, ⟨s', listed⟩, found, settings, stopped, ⟨es, ran⟩, target, inside, started, -,
    number, -⟩ := screened
  obtain ⟨checked, -, shown, -, plays⟩ :=
    play_of_shown same listed found settings stopped ran target inside started number
  have yields : Yields (play disk d) (· = some demuxing) := ⟨_, played, rfl⟩
  simp only [plays, yields_bind, yields_ok, yields_demux checked, Option.some.injEq] at yields
  obtain ⟨-, -, rfl⟩ := yields
  simpa [configOf, framesOf, fileOf, List.map_map, Function.comp_def] using shown

private theorem ofInt_natCast (n : ℕ) : UInt64.ofInt n = .ofNat n := by
  rw [← UInt64.toNat_inj, UInt64.ofInt, UInt64.toNat_ofNat', UInt64.toNat_ofNat']
  omega

private theorem received_recording {cfg : Config} {sent : List Queue.AVPacket}
    (all : sent.map contents = recording cfg) {streams : List Stream}
    (same : streams.map Stream.bytes = sent.map Queue.AVPacket.data) (e : Lib.Fragments.Endian)
    {net : ℕ → ℕ → ℤ} (ok : ∀ k i, 0 ≤ net k i) :
    received e (wire e net streams) = (recording cfg).map Payload.data := by
  have bytes : streams.map Stream.bytes = (recording cfg).map Payload.data := by
    rw [same, ← all, List.map_map]
    rfl
  have data : ∀ stream ∈ streams, 0 < stream.size := by
    intro stream inside
    obtain ⟨p, recorded, read⟩ : ∃ p ∈ recording cfg, p.data = stream.bytes :=
      List.mem_map.mp (bytes ▸ List.mem_map_of_mem inside)
    have some_left := Channel.Wire.data_of_mem_recording recorded
    rwa [read] at some_left
  rw [Channel.Wire.received_wire data net, Channel.Wire.completed_all ok, bytes]

end Shown

section OnePacket

def oneFrame : World :=
  { oneRecording [⟨"0".toList, true⟩]
      "\x7b\x22info\x22:\x7b\x22bit_state\x22:3\x7d\x7d".toList
      "\x7b\x22files\x22:[\x7b\x22frame\x22:1,\x22name\x22:\x22f\x22\x7d]\x7d".toList with
    binds := fun _ => true
    joins := fun _ => true }

private theorem sameDisk_oneFrame : SameDisk oneFrame (diskOf oneFrame) :=
  ⟨(sameDisk_oneRecording _ _).content, (sameDisk_oneRecording _ _).dirs⟩

def videoInfo : Value Empty := .object [("den".toList, .int 1), ("gop".toList, .int 1),
  ("ip".toList, .string "239.0.0.1".toList), ("num".toList, .int 1),
  ("type".toList, .string "video".toList)]

def videoSettings : List (Str × Value Empty) :=
  [("file_dst".toList, .string "d".toList), ("output_channels".toList, .array [videoInfo])]

def videoChannel : CDemuxer Empty :=
  { smallChannel with
    sends := true
    info := videoInfo
    attr := setMember (setMember videoSettings "target".toList (.string "r".toList))
      "bit_state".toList .null }

def oneMedia : Media where
  file _ := onePacket.files.head (List.cons_ne_nil _ _)
  filter := some
  stray := false

def comesToFile : Bool :=
  match play (diskOf oneFrame) videoChannel with
  | .ok (some demuxing) =>
      decide (demuxing.files.map (fun file => (file.get "frame".toList).toInteger) = [1] ∧
        demuxing.num = 1 ∧ demuxing.den = 1) &&
      match fileLoop videoChannel demuxing.files (turns 0 demuxing.files.length) with
      | .ok _ => true
      | .error _ => false
  | _ => false

private theorem exists_of_comesToFile (h : comesToFile = true) : ∃ demuxing opened,
    play (diskOf oneFrame) videoChannel = .ok (some demuxing) ∧
      fileLoop videoChannel demuxing.files (turns 0 demuxing.files.length) = .ok opened ∧
      onePacket = configOf oneMedia videoChannel demuxing := by
  unfold comesToFile at h
  split at h
  · rename_i demuxing played
    rw [Bool.and_eq_true] at h
    obtain ⟨known, loops⟩ := h
    obtain ⟨frames, num, den⟩ := of_decide_eq_true known
    split at loops
    · rename_i opened done
      refine ⟨demuxing, opened, played, done, ?_⟩
      have files : demuxing.files.map (fileOf oneMedia) = onePacket.files := by
        obtain ⟨value, alone, frame⟩ := List.map_eq_singleton_iff.mp frames
        rw [alone, List.map_singleton, fileOf, frame]
        rfl
      rw [configOf, files, num, den]
      rfl
    · cases loops
  · cases h

private theorem playStart_oneFrame :
    playStart oneFrame (opened videoSettings) smallStart = .ok ({
      opened videoChannel.attr with
      bIsRunning := true, demuxers := [videoChannel], built := 1 }, []) := by
  have group : isGroup "239.0.0.1".toList = true := by decide +kernel
  have ran : playStart oneFrame (opened videoSettings) smallStart = .ok ({
      opened videoChannel.attr with
      bIsRunning := true
      demuxers := [{ videoChannel with
        sends := takesTtl 0 && isGroup "239.0.0.1".toList && true }]
      built := 1 }, []) := by
    rfl
  rw [ran, group]
  rfl

end OnePacket

end Tsender.Comm.Screening
