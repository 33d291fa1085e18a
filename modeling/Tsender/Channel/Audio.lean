/- Tsender/Channel/Audio
   source: demuxer.cpp (Demux audio loop, SetMoveSec, SetPause, SetReverse, SetSpeed)
   digest: A running audio channel: the demux thread, a consumer of its queue and the stores
   of the command thread. -/

import Mathlib.Algebra.Ring.Int.Defs
import Tsender.Channel.Model
import Tsender.Queue.AudioDelivery

set_option autoImplicit false
set_option relaxedAutoImplicit false

namespace Tsender.Channel.Audio

open Lib.Transition Queue Queue.AudioDelivery

/-- An element of `files` in a `meta.json` and the file that it names. -/
structure AudioFile where
  /-- Its `frame`. -/
  frame : ℤ
  /-- `ifs.open` succeeds. -/
  opens : Bool
  content : List UInt8

structure Config where
  files : List AudioFile
  num : UInt64
  den : UInt64

/-- `ifs`, with its two error flags. -/
structure Ifstream where
  content : List UInt8
  pos : ℕ
  eof : Bool
  fail : Bool

def Ifstream.of (file : AudioFile) : Ifstream := ⟨file.content, 0, false, false⟩

/-- `read` of `audioBlockSize` bytes: the stream and what it wrote to the buffer.  A stream in
an error state writes nothing. -/
def Ifstream.read (ifs : Ifstream) : Ifstream × List UInt8 :=
  if ifs.eof ∨ ifs.fail then ({ ifs with fail := true }, [])
  else
    let got := (ifs.content.drop ifs.pos).take audioBlockSize
    let short : Bool := got.length < audioBlockSize
    ({ ifs with pos := ifs.pos + got.length, eof := short, fail := short }, got)

/-- `seekg` clears the end-of-file flag first; a position before the file is an error, one behind
its end is not. -/
def Ifstream.seekg (ifs : Ifstream) (pos : ℤ) : Ifstream :=
  let ifs := { ifs with eof := false }
  if ifs.fail then ifs
  else if pos < 0 then { ifs with fail := true }
  else { ifs with pos := pos.toNat }

/-- `audio_buf` after a read: what was read, and beyond it what was there. -/
def fill (buf : Block) (got : List UInt8) : Block :=
  ⟨(got ++ buf.1.drop got.length).take audioBlockSize, by
    have whole := buf.2
    simp only [List.length_take, List.length_append, List.length_drop]
    omega⟩

inductive DemuxPc where
  /-- The head of the loop over the files, up to the open file. -/
  | fileTop
  /-- `while (!m_bExit)`, the buffer of the turn and the test of `m_IsMove`. -/
  | testMove
  | clearMove
  | readMove
  | testSeek
  | countSeek
  | offsetSeek
  | seekg
  | clearSeek
  /-- The test of `m_IsPause` and `m_IsAudioRead`. -/
  | testRead
  | read
  | testEof
  | testPause
  /-- The tests of `m_bIsRerverse`, `m_nSpeed` and, once more, `m_IsAudioRead`. -/
  | testForward
  | put
  /-- Behind the loop over the blocks of a file. -/
  | fileEnd
  | done
  deriving DecidableEq

/-- The fields of `CDemuxer` that the audio branch uses, and the locals of `Demux`. -/
structure CDemuxer where
  pc : DemuxPc
  bExit : Bool
  isMove : Bool
  isPause : Bool
  isAudioRead : Bool
  bIsRerverse : Bool
  nSpeed : ℤ
  nMoveIdx : ℤ
  nSeekFrame : ℤ
  nAudioCount : UInt64
  seekPts : UInt64
  i : ℤ
  lastFrame : UInt64
  ifs : Ifstream
  audioBuf : Block

structure State where
  d : CDemuxer
  feed : Feed

inductive Act where
  /-- The next statement of `Demux`; a new turn of its loop finds `garbage` in `audio_buf`. -/
  | demux (garbage : Block)
  /-- A call of another thread on the queue. -/
  | queue (a : FeedAct)
  | storeMoveIdx (nMoveIdx : ℤ)
  | storeSeekFrame (nSeekFrame : ℤ)
  | storeIsMove
  | setPause (state : Bool)
  | setReverse (state : Bool)
  | setSpeed (speed : ℤ)
  | exit

abbrev Step := Option (State × List FeedEvent)

section Demux

def fileAt (cfg : Config) (i : ℤ) : Option AudioFile :=
  if i < 0 then none else cfg.files[i.toNat]?

def openFile (cfg : Config) (c : State) : Step :=
  let stop := some ({ c with d := { c.d with pc := .done } }, [])
  match fileAt cfg c.d.i with
  | none => stop
  | some file =>
      if c.d.bExit = true ∨ file.frame = 0 ∨ file.opens = false then stop
      else some ({ c with d := { c.d with
        lastFrame := UInt64.ofInt file.frame
        ifs := .of file
        pc := .testMove } }, [])

/-- The conversion to the `int` field `m_nSeekFrame`. -/
def toInt32 (n : UInt64) : ℤ := Int.bmod n.toNat (2 ^ 32)

/-- `m_nSeekFrame - (last_frame * m_nMoveIdx)`, without sign in 64 bits. -/
def offsetFrame (d : CDemuxer) : ℤ :=
  toInt32 (UInt64.ofInt d.nSeekFrame - d.lastFrame * UInt64.ofInt d.nMoveIdx)

/-- One turn of the call of `PutAudio`, with its test of the return value. -/
def put (c : State) : Step :=
  let size := (c.feed.q.putAudio c.d.audioBuf.1 c.d.seekPts).2
  let d := { c.d with
    isAudioRead := if 0 < size then false else c.d.isAudioRead
    pc := .testMove }
  match feedStep c.feed (.put c.d.audioBuf c.d.seekPts) with
  | none => none
  | some (feed, es) => some (⟨d, feed⟩, es)

def demux (cfg : Config) (c : State) (garbage : Block) : Step :=
  match c.d.pc with
  | .fileTop => openFile cfg c
  | .testMove =>
      let pc := if c.d.bExit then .fileEnd else if c.d.isMove then .clearMove else .testSeek
      some ({ c with d := { c.d with audioBuf := garbage, pc := pc } }, [])
  | .clearMove => some ({ c with d := { c.d with isMove := false, pc := .readMove } }, [])
  | .readMove => some ({ c with d := { c.d with i := c.d.nMoveIdx - 1, pc := .fileEnd } }, [])
  | .testSeek =>
      let pc := if 0 < c.d.nSeekFrame then .countSeek else .testRead
      some ({ c with d := { c.d with pc := pc } }, [])
  | .countSeek =>
      let count := UInt64.ofInt c.d.nSeekFrame
      some ({ c with d := { c.d with nAudioCount := count, pc := .offsetSeek } }, [])
  | .offsetSeek =>
      some ({ c with d := { c.d with nSeekFrame := offsetFrame c.d, pc := .seekg } }, [])
  | .seekg =>
      let ifs := c.d.ifs.seekg (c.d.nSeekFrame * audioBlockSize)
      some ({ c with d := { c.d with ifs := ifs, pc := .clearSeek } }, [])
  | .clearSeek =>
      -- A zero `den` divides by zero.
      if cfg.den = 0 then none
      else some ({ c with d := { c.d with
        nSeekFrame := 0
        seekPts := c.d.nAudioCount * UInt64.ofInt avTimeBase * cfg.num / cfg.den
        pc := .testRead } }, [])
  | .testRead =>
      let pc := if c.d.isPause = false ∧ c.d.isAudioRead = false then .read else .testEof
      some ({ c with d := { c.d with pc := pc } }, [])
  | .read =>
      let (ifs, got) := c.d.ifs.read
      some ({ c with d := { c.d with
        ifs := ifs
        audioBuf := fill c.d.audioBuf got
        nAudioCount := c.d.nAudioCount + 1
        isAudioRead := true
        pc := .testEof } }, [])
  | .testEof =>
      some ({ c with d := { c.d with pc := if c.d.ifs.eof then .fileEnd else .testPause } }, [])
  | .testPause =>
      let pc := if c.d.isPause = false then .testForward else .testMove
      some ({ c with d := { c.d with pc := pc } }, [])
  | .testForward =>
      let ahead := c.d.bIsRerverse = false ∧ c.d.nSpeed = 1 ∧ c.d.isAudioRead = true
      some ({ c with d := { c.d with pc := if ahead then .put else .testMove } }, [])
  | .put => put c
  | .fileEnd => some ({ c with d := { c.d with i := c.d.i + 1, pc := .fileTop } }, [])
  | .done => none

end Demux

def consumes : FeedAct → Bool
  | .put _ _ => false
  | .get | .ret | .enable | .disable => true

def step (cfg : Config) : Machine State Act FeedEvent
  | c, .demux garbage => demux cfg c garbage
  | c, .queue a =>
      match restrict consumes feedStep c.feed a with
      | none => none
      | some (feed, es) => some ({ c with feed := feed }, es)
  | c, .storeMoveIdx nMoveIdx => some ({ c with d := { c.d with nMoveIdx := nMoveIdx } }, [])
  | c, .storeSeekFrame nSeekFrame =>
      some ({ c with d := { c.d with nSeekFrame := nSeekFrame } }, [])
  | c, .storeIsMove => some ({ c with d := { c.d with isMove := true } }, [])
  | c, .setPause state => some ({ c with d := { c.d with isPause := state } }, [])
  | c, .setReverse state => some ({ c with d := { c.d with bIsRerverse := state } }, [])
  | c, .setSpeed speed => some ({ c with d := { c.d with nSpeed := speed } }, [])
  | c, .exit => some ({ c with d := { c.d with bExit := true } }, [])

/-- A buffer of zeros, which nothing reads before the first turn replaces it. -/
def noBlock : Block := ⟨List.replicate audioBlockSize (UInt8.ofNat 0), rfl⟩

def State.start : State where
  d := {
    pc := .fileTop
    bExit := false
    isMove := false
    isPause := false
    isAudioRead := false
    bIsRerverse := false
    nSpeed := 1
    nMoveIdx := 0
    nSeekFrame := 0
    nAudioCount := 0
    seekPts := 0
    i := 0
    lastFrame := 0
    ifs := ⟨[], 0, false, false⟩
    audioBuf := noBlock }
  feed := .start

/-- The steps of a channel that only plays: no seek, pause, reverse or change of speed. -/
def Act.plays : Act → Bool
  | .demux _ | .queue _ | .exit => true
  | .storeMoveIdx _ | .storeSeekFrame _ | .storeIsMove | .setPause _ | .setReverse _
    | .setSpeed _ => false

end Tsender.Channel.Audio
