/- Tsender/Comm/Dispatch
   source: comm.h, comm.cpp (RX, TX), demuxer.cpp (Create, SetMoveSec, FindFileIndexFromFrame,
   SetSpeed, SetPause, SetReverse), sender.cpp (Create, SetSocket), misc.cpp (GetOutputFileList)
   digest: One round of the loop that receives commands: the datagram, the reader and the nine
   commands, with everything on the way that can throw. -/

import Tsender.Channel.Model
import Tsender.Comm.Delete
import Tsender.Json.Reader
import Tsender.Lib.InetAddr

set_option autoImplicit false
set_option relaxedAutoImplicit false

namespace Tsender.Comm

open Json

def readSize : ℕ := 1500

def maxNumChannel : ℕ := 8

/-- What `recvfrom` can put into the buffer. -/
structure Datagram where
  bytes : Str
  nonempty : bytes ≠ []
  fits : bytes.length ≤ readSize

/-- `buff`, cleared before it is filled. -/
def Datagram.buff (d : Datagram) : Str :=
  d.bytes ++ List.replicate (readSize - d.bytes.length) '\x00'

/-- The string at the start of an array.  Without a NUL it goes on behind the end. -/
def stringAt (buff : Str) : Except Fault Str :=
  if '\x00' ∈ buff then .ok (Delete.cStr buff) else .error .outOfBounds

structure Dirent where
  d_name : Str
  isDir : Bool

structure World where
  /-- The entries of a directory, if it can be opened. -/
  readdir : Str → Option (List Dirent)
  /-- The text that `Reader::parse` gets of a file; empty if it cannot be opened. -/
  content : Str → Str
  /-- `SetSocket` of a sender comes as far as the time to live. -/
  binds : ℕ → Bool
  /-- The socket of a sender can join a group and be given its timeout. -/
  joins : ℕ → Bool

/-- A `CDemuxer` as the thread of the commands uses it. -/
structure CDemuxer (R : Type) where
  /-- Which object it is. -/
  id : ℕ
  info : Value R
  attr : List (Str × Value R)
  nChannel : ℕ
  /-- `m_files`, a number until the thread of the channel has read its files. -/
  files : Value R
  nSpeed : ℤ
  isPause : Bool
  bIsRerverse : Bool
  isMove : Bool
  nMoveIdx : ℕ
  nSeekFrame : ℤ
  /-- `Create` came to `Start`. -/
  started : Bool
  /-- `Create` of its sender came to `Start`. -/
  sends : Bool
  /-- It has deleted itself, and `m_CDemuxer` still points to where it was. -/
  freed : Bool

/-- The fields of `CCommMgr`; `demuxers` are the first `m_nChannel` entries of `m_CDemuxer`. -/
structure CCommMgr (R : Type) where
  attr : List (Str × Value R)
  bIsRunning : Bool
  bIsRerverse : Bool
  nSpeed : ℤ
  nMoveSec : ℤ
  demuxers : List (CDemuxer R)
  /-- Demuxers constructed so far. -/
  built : ℕ

def CCommMgr.nChannel {R : Type} (s : CCommMgr R) : ℕ := s.demuxers.length

inductive Command where
  | playStart
  | playReverse
  | playClose
  | playSpeedUp
  | playPause
  | playSeek
  | getThumbnail
  | getPlayList
  | playDelete
  deriving DecidableEq

def commands : List (Str × Command) :=
  [("play_start".toList, .playStart), ("play_reverse".toList, .playReverse),
    ("play_close".toList, .playClose), ("play_speed_up".toList, .playSpeedUp),
    ("play_pause".toList, .playPause), ("play_seek".toList, .playSeek),
    ("get_thumbnail".toList, .getThumbnail), ("get_play_list".toList, .getPlayList),
    ("play_delete".toList, .playDelete)]

inductive Effect (R : Type) where
  | echo (bytes : Str)
  | reply (root : Value R)
  | system (line : Str)

variable {R : Type}

/-- The command that `root["cmd"]` equals, if any. -/
def commandOf (root : Value R) : Except Fault (Option Command) := do
  let cmd ← root.member "cmd".toList
  return (commands.find? fun p => cmd.isText p.1).map Prod.snd

section Lists

variable [Doubles R]

/-- The frames of the files of a channel. -/
def totalFrame : List (Value R) → Except Fault ℤ
  | [] => .ok 0
  | file :: files => do
      let frame ← file.member "frame".toList
      let n ← frame.asInt64
      let rest ← totalFrame files
      return n + rest

/-- The elements that a loop up to `size()` with `operator[](int)` comes to. -/
def elements (v : Value R) : Except Fault (List (Value R)) :=
  match v with
  | .array vs => .ok vs
  | .object (_ :: _) => .error .logicError
  | _ => .ok []

def notDots (ent : Dirent) : Bool := ent.d_name ∉ [".".toList, "..".toList]

/-- The variables of `GetOutputFileList` that outlive a round of its loops.  `info` and `meta` do
too, and are read only where they have just been parsed. -/
structure Locals (R : Type) where
  root : Value R
  b : Value R
  channel : Value R
  idx : ℕ
  sstm : Str

/-- What a `meta.json` sets in `channel`. -/
def setChannel (metapath : Str) (ent : Dirent) (channel info : Value R) :
    Except Fault (Value R) := do
  let files ← info.member "files".toList
  let files ← elements files
  let total ← totalFrame files
  let channel ← channel.assign "total_frame".toList (.uint (.ofInt total))
  let channel ← channel.assign "filename".toList (.string metapath)
  let channel ← channel.assign "idx".toList (.string ent.d_name)
  let num ← info.member "num".toList
  let channel ← channel.assign "num".toList num
  let den ← info.member "den".toList
  channel.assign "den".toList den

def channelRound (w : World) (metabase : Str) (v : Locals R) (ent : Dirent) :
    Except Fault (Locals R) :=
  if notDots ent && ent.isDir then do
    let metapath := v.sstm ++ metabase ++ ent.d_name ++ "/meta.json".toList
    let parsed ← parse (w.content metapath)
    let channel ← match parsed with
      | none => Except.ok v.channel
      | some info => setChannel metapath ent v.channel info
    let b ← v.b.appendTo "channels".toList channel
    let channel ← channel.clear
    return { v with b := b, channel := channel, sstm := [] }
  else .ok v

/-- What an `info.json` sets in `b`. -/
def setBitState (b root : Value R) : Except Fault (Value R) := do
  let info ← root.member "info".toList
  let bitState ← info.member "bit_state".toList
  b.assign "bit_state".toList bitState

/-- `getFormatedErrorMessages` of a reader that has got a stream with this text: the text was a local
of `parse`. -/
def getFormatedErrorMessages (R : Type) [Doubles R] (text : Str) : Except Fault Unit :=
  if errorsReadText R text then .error .useAfterFree else .ok ()

/-- What is done for a recording, with a string stream of its own.  That a `meta.json` is not parsed
is told with the errors of the `info.json`, too, which have been told by then. -/
def recordingEntry (w : World) (basepath : Str) (v : Locals R) (ent : Dirent) :
    Except Fault (Locals R) := do
  let b ← v.b.assign "idx".toList (.int (.ofNat v.idx))
  let b ← b.assign "path".toList (.string ent.d_name)
  let metabase := basepath ++ "/".toList ++ ent.d_name ++ "/".toList
  let text := w.content (metabase ++ "info.json".toList)
  let parsed ← parse text
  let b ← match parsed with
    | none => do
        getFormatedErrorMessages R text
        pure b
    | some root => setBitState b root
  match w.readdir metabase with
  | none => .error .nullPointer
  | some subs =>
      let v ← subs.foldlM (channelRound w metabase) { v with b := b, sstm := [] }
      let root ← v.root.appendTo "files".toList v.b
      let b ← v.b.clear
      return { v with root := root, b := b }

def recordingRound (w : World) (basepath : Str) (v : Locals R) (ent : Dirent) :
    Except Fault (Locals R) :=
  if notDots ent then do
    let v ← if ent.isDir then recordingEntry w basepath v ent else .ok v
    return { v with idx := v.idx + 1 }
  else .ok v

def getOutputFileList (w : World) (basepath : Str) : Except Fault (Value R) :=
  match w.readdir basepath with
  | none => .error .nullPointer
  | some ents => do
      let v ← ents.foldlM (recordingRound w basepath) ⟨.null, .null, .null, 0, []⟩
      return v.root

/-- `GetOutputFileList`, as the members of what it returns. -/
def outputFileList (w : World) (basepath : Str) : Except Fault (List (Str × Value R)) := do
  let root ← getOutputFileList w basepath
  return root.members

end Lists

section Channels

variable [Doubles R]

/-- What `IP_MULTICAST_TTL` takes: a byte, or -1 as an `int`. -/
def takesTtl (ttl : ℤ) : Bool := ttl ≤ 255 ∨ ttl = maxUInt

/-- What `IP_ADD_MEMBERSHIP` takes. -/
def isGroup (ip : Str) : Bool := (Lib.InetAddr.inetAddr (Delete.cStr ip)).any Lib.InetAddr.isMulticast

def setSocket (w : World) (info : Value R) (attr : List (Str × Value R)) (nChannel : ℕ) :
    Except Fault Bool := do
  let port ← info.member "port".toList
  let _ ← port.asInt
  let ip ← info.member "ip".toList
  let ip ← ip.asString
  if w.binds nChannel then
    let ttl ← (getMember attr "udp_sender_ttl".toList).asUInt
    return takesTtl ttl && isGroup ip && w.joins nChannel
  else return false

/-- `CSender::Create`, and whether it comes to `Start`. -/
def createSender (w : World) (info : Value R) (attr : List (Str × Value R)) (nChannel : ℕ) :
    Except Fault Bool := do
  let type ← info.member "type".toList
  let _ ← type.asString
  setSocket w info attr nChannel

def create (w : World) (id : ℕ) (info : Value R) (attr : List (Str × Value R)) (nChannel : ℕ) :
    Except Fault (CDemuxer R) := do
  let num ← info.member "num".toList
  let _ ← num.asUInt64
  let den ← info.member "den".toList
  let _ ← den.asUInt64
  let bitState ← (getMember attr "bit_state".toList).asInt
  let result := bitState.toNat &&& (1 <<< nChannel)
  let demuxer : CDemuxer R := {
    id := id, info := info, attr := attr, nChannel := nChannel, files := .int 0, nSpeed := 1
    isPause := false, bIsRerverse := false, isMove := false, nMoveIdx := 0, nSeekFrame := 0
    started := false, sends := false, freed := false }
  if 0 < bitState ∧ result < 1 then return demuxer
  else
    let type ← info.member "type".toList
    let _ ← type.asString
    let sends ← createSender w info attr nChannel
    return { demuxer with started := true, sends := sends }

/-- The loop of `play_start`, from entry `nChannel` on. -/
def createAll (w : World) (attr : List (Str × Value R)) : ℕ → ℕ → List (Value R) →
    Except Fault (List (CDemuxer R))
  | _, _, [] => .ok []
  | built, nChannel, info :: infos =>
      if nChannel < maxNumChannel then do
        let demuxer ← create w built info attr nChannel
        let rest ← createAll w attr (built + 1) (nChannel + 1) infos
        return demuxer :: rest
      else .error .outOfBounds

/-- A method called through an entry of `m_CDemuxer`. -/
def onEntry (method : CDemuxer R → Except Fault (CDemuxer R)) (d : CDemuxer R) :
    Except Fault (CDemuxer R) :=
  if d.freed then .error .useAfterFree else method d

/-- A method called through every entry. -/
def onEntries (f : CDemuxer R → CDemuxer R) (ds : List (CDemuxer R)) :
    Except Fault (List (CDemuxer R)) :=
  ds.mapM (onEntry fun d => .ok (f d))

/-- `FindFileIndexFromFrame`. -/
def fileIndex : List (Value R) → UInt64 → Except Fault ℕ
  | [], _ => .ok 0
  | file :: files, nFrame => do
      let frame ← file.member "frame".toList
      let frame ← frame.asInt
      if nFrame < UInt64.ofInt frame then return 0
      else
        let rest ← fileIndex files (nFrame - UInt64.ofInt frame)
        return rest + 1

def setMoveSec (nSec : ℤ) (d : CDemuxer R) : Except Fault (CDemuxer R) := do
  let num ← d.info.member "num".toList
  let num ← num.asUInt64
  let den ← d.info.member "den".toList
  let den ← den.asUInt64
  if num = 0 then .error .divideByZero
  else
    let nFrame := UInt64.ofInt nSec * UInt64.ofInt den / UInt64.ofInt num
    let files ← elements d.files
    let nMoveIdx ← fileIndex files nFrame
    return { d with
      nMoveIdx := nMoveIdx, nSeekFrame := Channel.seekFrameOf nFrame, isMove := true }

/-- What `SeekFrame` reads of the rate, as two numbers of type `int` that it does not use. -/
def seekFrame (d : CDemuxer R) : Except Fault Unit := do
  let num ← d.info.member "num".toList
  let _ ← num.asInt
  let den ← d.info.member "den".toList
  let _ ← den.asInt
  return ()

end Channels

section Commands

variable [Doubles R] (w : World) (s : CCommMgr R) (root : Value R)

def playStart : Except Fault (CCommMgr R × List (Effect R)) := do
  let info ← root.member "info".toList
  let target ← info.member "target".toList
  let target ← target.asString
  let bitState ← info.member "bit_state".toList
  let attr := setMember (setMember s.attr "target".toList (.string target))
    "bit_state".toList bitState
  if s.bIsRunning then
    let resumed ← onEntries (fun d =>
      { d with isPause := false, bIsRerverse := false, nSpeed := 1 }) s.demuxers
    return ({ s with attr := attr, demuxers := resumed }, [])
  else
    let attr := touchMember attr "output_channels".toList
    let infos ← elements (getMember attr "output_channels".toList)
    let demuxers ← createAll w attr s.built 0 infos
    return ({ s with
      attr := attr, bIsRunning := true, demuxers := demuxers
      built := s.built + demuxers.length }, [])

def playReverse : Except Fault (CCommMgr R × List (Effect R)) :=
  if s.bIsRunning then do
    let reversed ← onEntries (fun d => { d with bIsRerverse := !d.bIsRerverse }) s.demuxers
    let last := (reversed.getLast?.map CDemuxer.bIsRerverse).getD s.bIsRerverse
    return ({ s with demuxers := reversed, bIsRerverse := last }, [])
  else .ok (s, [])

/-- `Delete` calls the destructors. -/
def playClose : Except Fault (CCommMgr R × List (Effect R)) :=
  if s.bIsRunning then do
    let _ ← onEntries id s.demuxers
    return ({ s with demuxers := [], bIsRunning := false }, [])
  else .ok (s, [])

def playSpeedUp : Except Fault (CCommMgr R × List (Effect R)) :=
  if s.bIsRunning then do
    let info ← root.member "info".toList
    let speed ← info.member "speed".toList
    let nSpeed ← speed.asInt
    let paced ← onEntries (fun d => { d with nSpeed := nSpeed }) s.demuxers
    return ({ s with nSpeed := nSpeed, demuxers := paced }, [])
  else .ok (s, [])

def playPause : Except Fault (CCommMgr R × List (Effect R)) :=
  if s.bIsRunning then do
    let paused ← onEntries (fun d => { d with isPause := !d.isPause }) s.demuxers
    return ({ s with demuxers := paused }, [])
  else .ok (s, [])

def playSeek : Except Fault (CCommMgr R × List (Effect R)) :=
  if s.bIsRunning then do
    let info ← root.member "info".toList
    let moveSec ← info.member "move_sec".toList
    let nMoveSec ← moveSec.asInt
    let moved ← s.demuxers.mapM (onEntry (setMoveSec nMoveSec))
    return ({ s with nMoveSec := nMoveSec, demuxers := moved }, [])
  else .ok (s, [])

def getThumbnail : Except Fault (CCommMgr R × List (Effect R)) := do
  let reply := Effect.reply (.object [("cmd".toList, .string "get_thumbnail".toList)])
  if s.bIsRunning then
    let info ← root.member "info".toList
    let channel ← info.member "channel".toList
    let _ ← channel.asInt
    let sec ← info.member "sec".toList
    let _ ← sec.asInt
    return (s, [reply])
  else return (s, [reply])

def getPlayList : Except Fault (CCommMgr R × List (Effect R)) := do
  let attr := touchMember s.attr "file_dst".toList
  let fileDst ← (getMember attr "file_dst".toList).asString
  let list ← outputFileList w fileDst
  let root := Value.object (setMember list "cmd".toList (.string "get_play_list".toList))
  return ({ s with attr := attr }, [.reply root])

def playDelete : Except Fault (CCommMgr R × List (Effect R)) := do
  let attr := touchMember s.attr "file_dst".toList
  let fileDst ← (getMember attr "file_dst".toList).asString
  let info ← root.member "info".toList
  let target ← info.member "target".toList
  let target ← target.asString
  let called := (Delete.deleteCommand fileDst target).map Effect.system
  let list ← outputFileList w fileDst
  let root := Value.object (setMember list "cmd".toList (.string "get_play_delete".toList))
  return ({ s with attr := attr }, called.toList ++ [.reply root])

def run : Command → Except Fault (CCommMgr R × List (Effect R))
  | .playStart => playStart w s root
  | .playReverse => playReverse s
  | .playClose => playClose s
  | .playSpeedUp => playSpeedUp s root
  | .playPause => playPause s
  | .playSeek => playSeek s root
  | .getThumbnail => getThumbnail s root
  | .getPlayList => getPlayList w s
  | .playDelete => playDelete w s root

/-- One round of `RX` with a datagram. -/
def rx (d : Datagram) : Except Fault (CCommMgr R × List (Effect R)) := do
  let strbuf ← stringAt d.buff
  let parsed ← parse strbuf
  match parsed with
  | none => return (s, [.echo d.bytes])
  | some root =>
      let cmd ← commandOf root
      match cmd with
      | none => return (s, [.echo d.bytes])
      | some cmd =>
          let (t, effects) ← run w s root cmd
          return (t, .echo d.bytes :: effects)

end Commands

end Tsender.Comm
