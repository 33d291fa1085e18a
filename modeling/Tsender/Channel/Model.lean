/- Tsender/Channel/Model
   source: demuxer.cpp (Demux video loop, SetMoveSec, SeekFrame, Reverse,
   FindFileIndexFromFrame), sender.cpp (Run video branch, SetAVFormatContext)
   digest: A running video channel: the demux thread, the sender thread and the stores of the
   command thread, interleaved over one queue. -/

import Tsender.Lib.Transition
import Tsender.Queue.Model

set_option autoImplicit false
set_option relaxedAutoImplicit false

namespace Tsender.Channel

open Lib.Transition Queue

def avTimeBase : ℤ := 1000000

structure AVRational where
  num : ℤ
  den : ℤ
  deriving DecidableEq

/-- What a file holds of a packet. -/
structure Payload where
  data : List UInt8
  pts : ℤ
  deriving DecidableEq

/-- An element of `files` in a `meta.json` and what libav makes of the file it names. -/
structure File where
  /-- Its `frame`. -/
  frame : ℤ
  /-- `avformat_open_input` succeeds. -/
  opens : Bool
  /-- `open_codec_context` finds a video stream. -/
  hasVideo : Bool
  /-- The bitstream filter can be allocated and initialised for it. -/
  initsFilter : Bool
  startTime : UInt64
  timeBase : AVRational
  packets : List Payload
  /-- The position `SeekFrame` computes for a frame, in floating point. -/
  seekTm : ℤ → ℤ
  /-- What `avformat_seek_file` leaves to be read from a position on, if it succeeds. -/
  seekFile : ℤ → Option (List Payload)

structure Config where
  files : List File
  /-- The packet `av_bsf_receive_packet` gives for the one sent, if any. -/
  filter : Payload → Option Payload
  nChannel : ℕ
  num : UInt64
  den : UInt64
  gop : UInt32
  /-- The pointer that `CSender`'s constructor leaves unset happens not to be `NULL`. -/
  stray : Bool

/-- An open format context.  `sought` is the frame `SeekFrame` last sought in it. -/
structure AVFormatContext where
  id : ℕ
  file : ℕ
  rest : List Payload
  sought : Option ℤ
  deriving DecidableEq

/-- Where `Demux` stands.  A name stands for the statement that is next. -/
inductive DemuxPc where
  /-- The head of the loop over the files, up to the open file. -/
  | fileTop
  /-- `while (!m_bExit)` and the test of `m_IsMove`. -/
  | testMove
  | clearMove
  | readMove
  | testSeek
  | doSeek
  | clearSeek
  | reverse
  | readFrame
  /-- The loop around `PutVideo`. -/
  | put
  /-- Behind the loop over the packets of a file. -/
  | fileEnd
  | done
  deriving DecidableEq

/-- The fields of `CDemuxer` that the video branch uses, and the locals of `Demux`. -/
structure CDemuxer where
  pc : DemuxPc
  bExit : Bool
  isMove : Bool
  bIsRerverse : Bool
  nMoveIdx : ℤ
  nSeekFrame : ℤ
  i : ℤ
  fmtCtx : Option AVFormatContext
  pkt : AVPacket
  fileFirstPts : UInt64
  seekPts : UInt64
  reverseCount : UInt32
  reversePts : UInt64
  /-- Format contexts opened so far. -/
  opened : ℕ
  /-- Packets read so far; each read has a buffer of its own. -/
  reads : ℕ

/-- `m_fmt_ctx` of the sender. -/
inductive CtxPtr where
  | null
  | stray
  | ctx (id : ℕ)
  deriving DecidableEq

/-- Where `Run` stands.  `send` and `ret` hold the packet that `GetVideo` filled. -/
inductive SenderPc where
  | head
  | get
  | send (pkt : AVPacket)
  | ret (pkt : AVPacket)
  deriving DecidableEq

/-- The fields of `CSender` that the video branch uses, and the locals of `Run`. -/
structure CSender where
  pc : SenderPc
  fmtCtx : CtxPtr
  nowPts : UInt64
  seekPts : UInt64
  seekOldPts : UInt64
  outPts : UInt64
  /-- `m_begin`, in microseconds. -/
  beginAt : ℤ
  skipCnt : ℤ
  /-- `pStream` is no longer `NULL`. -/
  pStream : Bool
  timeBase : AVRational
  oldPts : UInt64

/-- How far the command thread is in `SetMoveSec`, with its `nFrame`. -/
inductive MoveSec where
  | idle
  | storedIdx (nFrame : UInt64)
  | storedFrame (nFrame : UInt64)
  deriving DecidableEq

structure State where
  d : CDemuxer
  q : CQueue
  s : CSender
  cmd : MoveSec

inductive Act where
  /-- The next statement of `Demux`. -/
  | demux
  /-- The head of `Run`, with its first two readings of the clock. -/
  | clock (now₁ now₂ : ℤ)
  /-- `GetVideo`; `garbage` is what a closed context would yield as its time base. -/
  | get (garbage : AVRational)
  | send
  | ret
  /-- `SetMoveSec(nSec)` up to its first store. -/
  | setMoveSec (nSec : ℤ)
  | storeSeekFrame
  | storeIsMove
  | setReverse (state : Bool)
  | exit
  deriving DecidableEq

inductive Event where
  | opened (file : ℕ)
  /-- The move flag was taken and the file index set. -/
  | moved (i : ℤ)
  /-- `m_nSeekFrame` was tested and not positive. -/
  | passed
  /-- `SeekFrame` was called. -/
  | sought (frame : ℤ)
  | eof
  /-- A packet was read and came out of the filter. -/
  | read (pkt : AVPacket)
  | accepted (pkt : AVPacket)
  | refused
  /-- `GetVideo` reported `startPts` and filled a packet or did not. -/
  | polled (startPts : UInt64) (pkt : Option AVPacket)
  /-- A packet was handed to `send_bitstream`. -/
  | sent (pkt : AVPacket)
  | skipped (pkt : AVPacket)
  | released (pkt : AVPacket)
  /-- A `SetMoveSec` is complete. -/
  | commanded (nFrame : UInt64)
  deriving DecidableEq

abbrev Step := Option (State × List Event)

section SetMoveSec

/-- The loop of `FindFileIndexFromFrame`; a frame count is converted to 64 bits without sign. -/
def fileIndexFrom : List File → UInt64 → ℕ
  | [], _ => 0
  | file :: files, nFrame =>
      if nFrame < UInt64.ofInt file.frame then 0
      else fileIndexFrom files (nFrame - UInt64.ofInt file.frame) + 1

def findFileIndexFromFrame (cfg : Config) (nFrame : UInt64) : ℕ := fileIndexFrom cfg.files nFrame

/-- `nFrame` of `SetMoveSec`.  A zero `num` divides by zero. -/
def moveFrame (cfg : Config) (nSec : ℤ) : Option UInt64 :=
  if cfg.num = 0 then none else some (UInt64.ofInt nSec * cfg.den / cfg.num)

/-- The conversion to the `int` field `m_nSeekFrame`. -/
def seekFrameOf (nFrame : UInt64) : ℤ := Int.bmod nFrame.toNat (2 ^ 32)

def setMoveSec (cfg : Config) (c : State) (nSec : ℤ) : Step :=
  match c.cmd, moveFrame cfg nSec with
  | .idle, some nFrame =>
      some ({ c with
        d := { c.d with nMoveIdx := findFileIndexFromFrame cfg nFrame }
        cmd := .storedIdx nFrame }, [])
  | _, _ => none

def storeSeekFrame (c : State) : Step :=
  match c.cmd with
  | .storedIdx nFrame =>
      some ({ c with
        d := { c.d with nSeekFrame := seekFrameOf nFrame }
        cmd := .storedFrame nFrame }, [])
  | _ => none

def storeIsMove (c : State) : Step :=
  match c.cmd with
  | .storedFrame nFrame =>
      some ({ c with d := { c.d with isMove := true }, cmd := .idle }, [.commanded nFrame])
  | _ => none

end SetMoveSec

section Seek

/-- 64-bit signed multiplication, as far as it has a value at all. -/
def mul64 (a b : ℤ) : ℤ := Int.bmod (a * b) (2 ^ 64)

/-- `m_seek_pts` for a position `tm` in a stream. -/
def seekPtsOf (timeBase : AVRational) (tm : ℤ) : UInt64 :=
  UInt64.ofInt ((mul64 tm avTimeBase).tdiv timeBase.den)

/-- `SeekFrame`.  Channels from 6 on are left where they are; a time base with denominator 0
divides by zero. -/
def CDemuxer.seekFrame (cfg : Config) (d : CDemuxer) (nFrame : ℤ) : Option CDemuxer :=
  match d.fmtCtx with
  | none => none
  | some ctx =>
      match cfg.files[ctx.file]? with
      | none => none
      | some file =>
          if cfg.nChannel < 6 then
            if file.timeBase.den = 0 then none
            else
              let tm := file.seekTm nFrame
              some { d with
                fmtCtx := some { ctx with
                  rest := (file.seekFile tm).getD ctx.rest
                  sought := some nFrame }
                seekPts := seekPtsOf file.timeBase tm }
          else some d

/-- `Reverse`, with its return value. -/
def CDemuxer.stepBack (cfg : Config) (d : CDemuxer) : Option (CDemuxer × Bool) :=
  match d.fmtCtx with
  | none => none
  | some ctx =>
      match cfg.files[ctx.file]? with
      | none => none
      | some file =>
          if cfg.den = 0 then none
          else if cfg.nChannel < 6 then
            let den := UInt64.ofInt file.timeBase.den
            let reversePts := d.reversePts - den / cfg.den * cfg.num
            let d := { d with reversePts := reversePts }
            match file.seekFile (Int.bmod reversePts.toNat (2 ^ 64)) with
            | none => some (d, false)
            | some rest =>
                if den = 0 then none
                else
                  let d := { d with fmtCtx := some { ctx with rest := rest } }
                  some (d, ¬ reversePts / den * UInt64.ofInt avTimeBase < d.fileFirstPts)
          else some (d, true)

end Seek

section Demux

/-- The packet with its pts set to 0 that `Demux` starts a file and a read with. -/
def emptyPkt : AVPacket := ⟨none, [], 0⟩

/-- The file at an index.  The comparison with the number of files has no sign, so that an
index below 0 is past the end. -/
def fileAt (cfg : Config) (i : ℤ) : Option File :=
  if i < 0 then none else cfg.files[i.toNat]?

/-- From the head of the file loop to the head of the packet loop.  The filter is set up for the
first file only. -/
def openFile (cfg : Config) (c : State) : Step :=
  let stop := some ({ c with d := { c.d with pc := .done } }, [])
  match fileAt cfg c.d.i with
  | none => stop
  | some file =>
      if c.d.bExit = true ∨ file.frame = 0 ∨ file.opens = false then stop
      else
        let index := c.d.i.toNat
        let d := { c.d with
          fmtCtx := some ⟨c.d.opened, index, file.packets, none⟩
          opened := c.d.opened + 1 }
        let s := { c.s with fmtCtx := if file.hasVideo then .ctx c.d.opened else c.s.fmtCtx }
        if c.d.i = 0 ∧ file.initsFilter = false then
          some ({ c with d := { d with pc := .done }, s := s }, [.opened index])
        else
          some ({ c with
            d := { d with pkt := emptyPkt, fileFirstPts := 0, pc := .testMove }
            s := s }, [.opened index])

def testMove (c : State) : Step :=
  let pc := if c.d.bExit then .fileEnd else if c.d.isMove then .clearMove else .testSeek
  some ({ c with d := { c.d with pc := pc } }, [])

def clearMove (c : State) : Step :=
  some ({ c with d := { c.d with isMove := false, pc := .readMove } }, [])

def readMove (c : State) : Step :=
  let i := if c.d.bIsRerverse = false then c.d.nMoveIdx - 1 else c.d.nMoveIdx
  some ({ c with d := { c.d with i := i, pc := .fileEnd } }, [.moved i])

def testSeek (c : State) : Step :=
  if 0 < c.d.nSeekFrame then some ({ c with d := { c.d with pc := .doSeek } }, [])
  else some ({ c with d := { c.d with pc := .reverse } }, [.passed])

def doSeek (cfg : Config) (c : State) : Step :=
  match c.d.seekFrame cfg c.d.nSeekFrame with
  | none => none
  | some d => some ({ c with d := { d with pc := .clearSeek } }, [.sought c.d.nSeekFrame])

def clearSeek (c : State) : Step :=
  some ({ c with d := { c.d with nSeekFrame := 0, pc := .reverse } }, [])

def reverse (cfg : Config) (c : State) : Step :=
  if c.d.bIsRerverse then
    let d := { c.d with
      reversePts := if 0 < c.d.reverseCount then c.d.reversePts else UInt64.ofInt c.d.pkt.pts
      reverseCount := c.d.reverseCount + 1 }
    match d.stepBack cfg with
    | none => none
    | some (d, true) => some ({ c with d := { d with pc := .readFrame } }, [])
    | some (d, false) => some ({ c with d := { d with i := d.i - 2, pc := .fileEnd } }, [])
  else some ({ c with d := { c.d with reverseCount := 0, pc := .readFrame } }, [])

/-- `av_read_frame` and the filter.  Without data the packet loop starts over. -/
def readFrame (cfg : Config) (c : State) : Step :=
  match c.d.fmtCtx with
  | none => none
  | some ctx =>
      match ctx.rest with
      | [] => some ({ c with d := { c.d with pkt := emptyPkt, fmtCtx := none, pc := .fileEnd } },
          [.eof])
      | payload :: rest =>
          match cfg.files[ctx.file]? with
          | none => none
          | some file =>
              let first := if c.d.fileFirstPts = 0 then file.startTime else c.d.fileFirstPts
              let d := { c.d with
                fmtCtx := some { ctx with rest := rest }
                fileFirstPts := first
                reads := c.d.reads + 1 }
              match cfg.filter payload with
              | none => some ({ c with d := { d with pkt := .blank, pc := .testMove } }, [])
              | some out =>
                  let pkt : AVPacket := ⟨some c.d.reads, out.data, out.pts⟩
                  let pc := if 0 < pkt.size then .put else .testMove
                  some ({ c with d := { d with pkt := pkt, pc := pc } }, [.read pkt])

/-- One turn of the loop around `PutVideo`. -/
def put (c : State) : Step :=
  if c.d.bExit then some ({ c with d := { c.d with pc := .testMove } }, [])
  else if -1 < c.d.pkt.pts then
    let (q, size) := c.q.putVideo c.d.pkt c.d.seekPts
    if 0 < size then
      some ({ c with d := { c.d with pc := .testMove }, q := q }, [.accepted c.d.pkt])
    else some ({ c with q := q }, [.refused])
  else some (c, [])

def fileEnd (c : State) : Step :=
  some ({ c with d := { c.d with fmtCtx := none, i := c.d.i + 1, pc := .fileTop } }, [])

def demux (cfg : Config) (c : State) : Step :=
  match c.d.pc with
  | .fileTop => openFile cfg c
  | .testMove => testMove c
  | .clearMove => clearMove c
  | .readMove => readMove c
  | .testSeek => testSeek c
  | .doSeek => doSeek cfg c
  | .clearSeek => clearSeek c
  | .reverse => reverse cfg c
  | .readFrame => readFrame cfg c
  | .put => put c
  | .fileEnd => fileEnd c
  | .done => none

end Demux

section Run

/-- The head of the loop of `Run`: a changed `m_seek_pts` restarts the clock and makes the next
`gop` packets skipped, and the queue is asked once the media clock has reached `m_out_pts`. -/
def runHead (cfg : Config) (c : State) (now₁ now₂ : ℤ) : Step :=
  match c.s.pc with
  | .head =>
      let rebase := c.s.seekPts ≠ c.s.seekOldPts
      let nowPts := c.s.seekPts + UInt64.ofInt (now₁ - c.s.beginAt)
      some ({ c with s := { c.s with
        beginAt := if rebase then now₂ else c.s.beginAt
        skipCnt := if rebase then Int.bmod cfg.gop.toNat (2 ^ 32) else c.s.skipCnt
        nowPts := nowPts
        seekOldPts := c.s.seekPts
        pc := if c.s.outPts ≤ nowPts then .get else .head } }, [])
  | _ => none

/-- `m_fmt_ctx->streams[0]->time_base`. -/
def derefTimeBase (cfg : Config) (c : State) (garbage : AVRational) : AVRational :=
  match c.d.fmtCtx with
  | none => garbage
  | some ctx =>
      if c.s.fmtCtx = .ctx ctx.id then ((cfg.files[ctx.file]?).map File.timeBase).getD garbage
      else garbage

def runGet (cfg : Config) (c : State) (garbage : AVRational) : Step :=
  match c.s.pc with
  | .get =>
      if c.s.fmtCtx = .null then some ({ c with s := { c.s with pc := .head } }, [])
      else
        match c.q.getVideo with
        | (q, startPts, none) =>
            some ({ c with q := q, s := { c.s with seekPts := startPts, pc := .head } },
              [.polled startPts none])
        | (q, startPts, some pkt) =>
            some ({ c with
              q := q
              s := { c.s with
                seekPts := startPts
                timeBase := if c.s.pStream then c.s.timeBase else derefTimeBase cfg c garbage
                pStream := true
                pc := .send pkt } }, [.polled startPts (some pkt)])
  | _ => none

/-- `m_out_pts` for a packet. -/
def outPtsOf (timeBase : AVRational) (pts : ℤ) : UInt64 :=
  UInt64.ofInt ((mul64 (mul64 pts timeBase.num) avTimeBase).tdiv timeBase.den)

/-- The packet is skipped or sent, and its time becomes the next time to wait for. -/
def runSend (c : State) : Step :=
  match c.s.pc with
  | .send pkt =>
      let moved := 0 < UInt64.ofInt pkt.pts - c.s.oldPts
      if moved ∧ c.s.timeBase.den = 0 then none
      else
        some ({ c with s := { c.s with
          skipCnt := if 0 < c.s.skipCnt then c.s.skipCnt - 1 else c.s.skipCnt
          outPts := if moved then outPtsOf c.s.timeBase pkt.pts else c.s.outPts
          oldPts := UInt64.ofInt pkt.pts
          pc := .ret pkt } }, [if 0 < c.s.skipCnt then .skipped pkt else .sent pkt])
  | _ => none

def runRet (c : State) : Step :=
  match c.s.pc with
  | .ret pkt =>
      some ({ c with q := c.q.retVideo, s := { c.s with pc := .head } }, [.released pkt])
  | _ => none

end Run

def step (cfg : Config) : Machine State Act Event
  | c, .demux => demux cfg c
  | c, .clock now₁ now₂ => runHead cfg c now₁ now₂
  | c, .get garbage => runGet cfg c garbage
  | c, .send => runSend c
  | c, .ret => runRet c
  | c, .setMoveSec nSec => setMoveSec cfg c nSec
  | c, .storeSeekFrame => storeSeekFrame c
  | c, .storeIsMove => storeIsMove c
  | c, .setReverse state => some ({ c with d := { c.d with bIsRerverse := state } }, [])
  | c, .exit => some ({ c with d := { c.d with bExit := true } }, [])

def State.start (cfg : Config) : State where
  d := {
    pc := .fileTop
    bExit := false
    isMove := false
    bIsRerverse := false
    nMoveIdx := 0
    nSeekFrame := 0
    i := 0
    fmtCtx := none
    pkt := emptyPkt
    fileFirstPts := 0
    seekPts := 0
    reverseCount := 0
    reversePts := 0
    opened := 0
    reads := 0 }
  q := .new
  s := {
    pc := .head
    fmtCtx := if cfg.stray then .stray else .null
    nowPts := 0
    seekPts := 0
    seekOldPts := 0
    outPts := 0
    beginAt := 0
    skipCnt := 0
    pStream := false
    timeBase := ⟨0, 0⟩
    oldPts := 0 }
  cmd := .idle

def Act.plays : Act → Bool
  | .demux | .clock .. | .get .. | .send | .ret => true
  | _ => false

/-- The steps of a channel that plays forward and obeys `play_seek`. -/
def Act.seeks : Act → Bool
  | .setMoveSec .. | .storeSeekFrame | .storeIsMove => true
  | a => a.plays

end Tsender.Channel
