/- Tsender/Channel/Wire
   source: sender.cpp (Run, send_bitstream)
   digest: From the recording over the two threads and the fragmentation to a receiver of the
   datagrams: which pictures come out where calls of sendto fail, and why datagrams lost on
   their way cannot be noticed. -/

import Tsender.Channel.Playback
import Tsender.Lib.Framing
import Tsender.Sender.Bitstream

set_option autoImplicit false
set_option relaxedAutoImplicit false

namespace Tsender.Channel.Wire

open Lib.Transition Lib.Framing Lib.Fragments Queue Sender.Bitstream
open Playback
open scoped List

def datagramLabel (e : Endian) : Label Datagram UInt8 := ⟨intAt e 8, intAt e 12, payload⟩

/-- The datagrams of some streams sent one after the other; `net k` are the results of `sendto`
for the `k`-th of them. -/
def wire (e : Endian) (net : ℕ → ℕ → ℤ) (streams : List Stream) : List Datagram :=
  streams.zipIdx.flatMap fun (stream, k) => (sendBitstream e stream (net k)).2

/-- The streams for which `send_bitstream` returned `true`. -/
def completed (e : Endian) (net : ℕ → ℕ → ℤ) (streams : List Stream) : List (List UInt8) :=
  (streams.zipIdx.filter fun (stream, k) => (sendBitstream e stream (net k)).1).map
    fun (stream, _) => stream.bytes

def received (e : Endian) (datagrams : List Datagram) : List (List UInt8) :=
  ((datagramLabel e).collect none datagrams).2

section Sends

variable {e : Endian} {stream : Stream} {sendto : ℕ → ℤ}

private theorem sendBitstream_cases :
    sendBitstream e stream sendto = (true, fragments e stream) ∨
      ∃ k < (fragments e stream).length,
        sendBitstream e stream sendto = (false, (fragments e stream).take k) := by
  by_cases failing : ∃ k, k < (fragments e stream).length ∧ sendto (1 + k) < 0
  · classical
    obtain ⟨called, fails⟩ := Nat.find_spec failing
    refine .inr ⟨_, called, sendBitstream_fails e stream called (fun j before => ?_) fails⟩
    have not_yet := Nat.find_min failing before
    by_contra negative
    exact not_yet ⟨before.trans called, not_le.mp negative⟩
  · refine .inl (sendBitstream_all e stream fun j below => ?_)
    by_contra negative
    exact failing ⟨j, below, not_le.mp negative⟩

private theorem consecutive_fragments :
    (datagramLabel e).Consecutive (fragments e stream).length 1 (fragments e stream) := by
  refine Label.consecutive_of_getElem fun i below => ?_
  have reads := decodes_fragments e stream i below
  refine ⟨reads.totPacket, reads.curPacket.trans ?_⟩
  push_cast
  exact add_comm _ _

private theorem loads_fragments : ((fragments e stream).map payload).flatten = stream.bytes := by
  rw [fragments, map_payload_numbered, flatten_pieces packetSize_pos]

private theorem fragments_ne_nil (data : 0 < stream.size) : fragments e stream ≠ [] := by
  intro nothing
  have whole : stream.bytes = [] := by rw [← loads_fragments (e := e), nothing]; rfl
  rw [Stream.size, whole] at data
  exact lt_irrefl 0 data

private theorem sends_sendBitstream (data : 0 < stream.size) :
    (datagramLabel e).Sends (sendBitstream e stream sendto).2 (sendBitstream e stream sendto).1
      stream.bytes := by
  rcases @sendBitstream_cases e stream sendto with
    all | ⟨k, called, cut⟩
  · rw [all]
    exact ⟨⟨_, consecutive_fragments, fragments_ne_nil data, rfl⟩, fun _ => loads_fragments⟩
  · rw [cut]
    refine ⟨⟨_, consecutive_fragments.take k, ?_⟩, nofun⟩
    simpa using called

theorem received_wire {streams : List Stream} (data : ∀ stream ∈ streams, 0 < stream.size)
    (net : ℕ → ℕ → ℤ) : received e (wire e net streams) = completed e net streams := by
  refine Label.collect_flatMap (fun x mem => ?_) none
  exact sends_sendBitstream (data x.1 (List.fst_mem_of_mem_zipIdx mem))

private theorem completed_sublist (net : ℕ → ℕ → ℤ) (streams : List Stream) :
    completed e net streams <+ streams.map Stream.bytes := by
  have all : streams.map Stream.bytes = streams.zipIdx.map fun x => x.1.bytes := by
    conv_lhs => rw [← List.zipIdx_map_fst 0 streams, List.map_map]
    rfl
  rw [all]
  exact List.filter_sublist.map _

theorem completed_all {net : ℕ → ℕ → ℤ} (ok : ∀ k n, 0 ≤ net k n) (streams : List Stream) :
    completed e net streams = streams.map Stream.bytes := by
  have all : streams.map Stream.bytes = streams.zipIdx.map fun x => x.1.bytes := by
    conv_lhs => rw [← List.zipIdx_map_fst 0 streams, List.map_map]
    rfl
  rw [completed, all, List.filter_eq_self.mpr]
  rintro ⟨stream, k⟩ -
  simp only
  rw [sendBitstream_all e stream fun j _ => ok k (1 + j)]

end Sends

section Run

variable {cfg : Config} {acts : List Act} {es : List Event} {c : State}

private theorem data_of_mem_delivered {packets : List Payload} {p : Payload}
    (mem : p ∈ delivered cfg packets) : 0 < p.data.length := by
  simpa using (List.mem_filter.mp mem).2

theorem data_of_mem_recording {p : Payload} (mem : p ∈ recording cfg) : 0 < p.data.length := by
  obtain ⟨file, -, inside⟩ := List.mem_flatMap.mp mem
  exact data_of_mem_delivered inside

private theorem sent_of_run (run : Run (restrict Act.plays (step cfg)) (.start cfg) acts es c) :
    (sentPackets es).map contents <+: recording cfg := by
  have fed : Fed cfg es c := by
    apply run.invariant
    · exact ⟨[], _, feeding_start cfg⟩
    · intro ds m a n gs held go
      obtain ⟨plays, taken⟩ := restrict_eq_some.mp go
      exact fed_step plays held taken
  obtain ⟨_, _, feeding⟩ := fed
  exact feeding.isFifo.sent

private theorem bytes_prefix (run : Run (restrict Act.plays (step cfg)) (.start cfg) acts es c)
    {streams : List Stream}
    (sent : streams.map Stream.bytes = (sentPackets es).map AVPacket.data) :
    streams.map Stream.bytes <+: (recording cfg).map Payload.data := by
  have carried := (sent_of_run run).map Payload.data
  rwa [List.map_map, show Payload.data ∘ contents = AVPacket.data from rfl, ← sent] at carried

/-- Whatever the interleaving of the two threads and whichever calls of `sendto` fail, what comes
out at a receiver is the pictures whose calls all succeeded, in the order of the recording; none
is torn, none joined to the next, and where no call fails none is missing. -/
theorem recording_reaches_receiver
    (run : Run (restrict Act.plays (step cfg)) (.start cfg) acts es c) {streams : List Stream}
    (sent : streams.map Stream.bytes = (sentPackets es).map AVPacket.data) (e : Endian)
    (net : ℕ → ℕ → ℤ) :
    received e (wire e net streams) = completed e net streams ∧
      completed e net streams <+ (recording cfg).map Payload.data ∧
        ((∀ k n, 0 ≤ net k n) →
          received e (wire e net streams) = (sentPackets es).map AVPacket.data ∧
            (sentPackets es).map AVPacket.data <+: (recording cfg).map Payload.data) := by
  have front := bytes_prefix run sent
  have data : ∀ stream ∈ streams, 0 < stream.size := by
    intro stream mem
    obtain ⟨p, recorded, same⟩ := List.mem_map.mp (front.subset (List.mem_map_of_mem mem))
    have some_left := data_of_mem_recording recorded
    rwa [same] at some_left
  refine ⟨received_wire data net, (completed_sublist net streams).trans front.sublist,
    fun ok => ⟨?_, sent ▸ front⟩⟩
  rw [received_wire data net, completed_all ok, sent]

def twoPictures : Config where
  files := [{
    frame := 2
    opens := true
    hasVideo := true
    initsFilter := true
    startTime := 0
    timeBase := ⟨1, 1000000⟩
    packets := [⟨[5], 0⟩, ⟨[7], 10⟩]
    seekTm := fun _ => 0
    seekFile := fun _ => none }]
  filter := some
  nChannel := 0
  num := 1
  den := 1
  gop := 1
  stray := false

def bothSent : List Act :=
  List.replicate 11 .demux ++ [.clock 0 0, .get ⟨0, 0⟩, .send, .ret, .clock 0 0, .get ⟨0, 0⟩, .send]

def pictures : List Stream := [⟨[5], by decide⟩, ⟨[7], by decide⟩]

theorem recording_reaches_receiver_twoPictures :
    ∃ es c, Run (restrict Act.plays (step twoPictures)) (.start twoPictures) bothSent es c ∧
      received .little (wire .little (fun k _ => -k) pictures) =
        completed .little (fun k _ => -k) pictures ∧
      completed .little (fun k _ => -k) pictures <+ (recording twoPictures).map Payload.data := by
  have found : (exec (restrict Act.plays (step twoPictures)) (.start twoPictures) bothSent).map
      (fun r => decide ((sentPackets r.2).map AVPacket.data = [[5], [7]])) = some true := by
    decide +kernel
  obtain ⟨c, es, run, seen⟩ := Run.exists_of_exec found
  have sent : (sentPackets es).map AVPacket.data = [[5], [7]] := of_decide_eq_true seen
  have same : pictures.map Stream.bytes = (sentPackets es).map AVPacket.data := sent.symm
  obtain ⟨arrives, ordered, -⟩ := recording_reaches_receiver run same .little fun k _ => -k
  exact ⟨es, c, run, arrives, ordered⟩

end Run

section Loss

variable {e : Endian} {a b : Stream}

def spliced (a b : Stream) (same : a.size = b.size) (k : ℕ) : Stream where
  bytes := a.bytes.take (packetSize * k) ++ b.bytes.drop (packetSize * k)
  fits := by
    have fits := a.fits
    have same : a.bytes.length = b.bytes.length := same
    simp only [List.length_append, List.length_take, List.length_drop]
    omega

private theorem size_spliced (same : a.size = b.size) (k : ℕ) :
    (spliced a b same k).size = a.size := by
  have same' : a.bytes.length = b.bytes.length := same
  simp only [Stream.size, spliced, List.length_append, List.length_take, List.length_drop]
  omega

private theorem pieces_spliced (same : a.size = b.size) (k : ℕ) :
    pieces packetSize (spliced a b same k).bytes =
      (pieces packetSize a.bytes).take k ++ (pieces packetSize b.bytes).drop k := by
  have same' : a.bytes.length = b.bytes.length := same
  rw [← pieces_take packetSize_pos, ← pieces_drop packetSize_pos]
  rcases Nat.le_total (packetSize * k) a.bytes.length with inside | beyond
  · exact pieces_append packetSize_pos (by rw [List.length_take, Nat.min_eq_left inside]) _
  · have gone : b.bytes.drop (packetSize * k) = [] :=
      List.drop_of_length_le (same' ▸ beyond)
    simp only [spliced, gone, List.append_nil, pieces_nil]

private theorem numbered_append (size total : ℕ) (cut cut' : List (List UInt8)) (first : ℕ) :
    numbered e size total (cut ++ cut') first =
      numbered e size total cut first ++ numbered e size total cut' (first + cut.length) := by
  simp only [numbered, List.zipIdx_append, List.map_append]

private theorem take_numbered (size total : ℕ) (cut : List (List UInt8)) (first k : ℕ) :
    (numbered e size total cut first).take k = numbered e size total (cut.take k) first := by
  induction cut generalizing first k with
  | nil => simp [numbered]
  | cons data cut ih =>
    cases k with
    | zero => rfl
    | succ k => rw [numbered_cons, List.take_succ_cons, ih, List.take_succ_cons, numbered_cons]

private theorem drop_numbered (size total : ℕ) (cut : List (List UInt8)) (first k : ℕ) :
    (numbered e size total cut first).drop k =
      numbered e size total (cut.drop k) (first + k) := by
  induction cut generalizing first k with
  | nil => simp [numbered]
  | cons data cut ih =>
    cases k with
    | zero => rfl
    | succ k =>
      have shift : first + 1 + k = first + (k + 1) := by omega
      rw [numbered_cons, List.drop_succ_cons, ih, List.drop_succ_cons, shift]

/-- The datagrams of a spliced picture are datagrams of the two it is spliced from. -/
private theorem fragments_spliced (same : a.size = b.size) (k : ℕ) :
    fragments e (spliced a b same k) = (fragments e a).take k ++ (fragments e b).drop k := by
  have pieces_b : (pieces packetSize b.bytes).length = (pieces packetSize a.bytes).length := by
    rw [length_pieces packetSize_pos, length_pieces packetSize_pos]
    exact congrArg (· ⌈/⌉ packetSize) same.symm
  simp only [fragments]
  rw [size_spliced, pieces_spliced, numbered_append, take_numbered, drop_numbered, same]
  rcases Nat.le_total k (pieces packetSize a.bytes).length with inside | beyond
  · rw [List.length_take, Nat.min_eq_left inside]
  · rw [List.drop_of_length_le (pieces_b ▸ beyond)]
    simp [numbered]

/-- Whichever way a receiver puts datagrams together, if it gets each picture sent alone right,
then with the datagrams behind the `k`-th of one picture and the first `k` of the next one of its
size lost, it shows the front of the one with the back of the other. -/
theorem lost_datagrams_splice {receiver : List Datagram → List (List UInt8)}
    (right : ∀ stream : Stream, 0 < stream.size →
      receiver (fragments e stream) = [stream.bytes])
    (same : a.size = b.size) {k : ℕ}
    (fronts : a.bytes.take (packetSize * k) ≠ b.bytes.take (packetSize * k))
    (backs : a.bytes.drop (packetSize * k) ≠ b.bytes.drop (packetSize * k)) :
    wire e (fun _ _ => 0) [a, b] = fragments e a ++ fragments e b ∧
      receiver ((fragments e a).take k ++ (fragments e b).drop k) =
        [a.bytes.take (packetSize * k) ++ b.bytes.drop (packetSize * k)] ∧
      a.bytes.take (packetSize * k) ++ b.bytes.drop (packetSize * k) ≠ a.bytes ∧
      a.bytes.take (packetSize * k) ++ b.bytes.drop (packetSize * k) ≠ b.bytes := by
  have some_left : 0 < a.size := by
    by_contra none_left
    have same' : a.bytes.length = b.bytes.length := same
    have empty_a : a.bytes = [] := List.length_eq_zero_iff.mp (Nat.eq_zero_of_not_pos none_left)
    have empty_b : b.bytes = [] := List.length_eq_zero_iff.mp (by rw [← same', empty_a]; rfl)
    exact fronts (by rw [empty_a, empty_b])
  refine ⟨by simp [wire, sendBitstream_all], ?_, fun equal => backs ?_, fun equal => fronts ?_⟩
  · rw [← fragments_spliced same k]
    exact right _ (by rwa [size_spliced])
  · conv_rhs at equal => rw [← List.take_append_drop (packetSize * k) a.bytes]
    exact (List.append_cancel_left equal).symm
  · conv_rhs at equal => rw [← List.take_append_drop (packetSize * k) b.bytes]
    exact List.append_cancel_right equal

def plain (byte : UInt8) : Stream where
  bytes := List.replicate (packetSize + 1) byte
  fits := by rw [List.length_replicate]; decide

private theorem size_plain (byte : UInt8) :
    (plain byte).size = packetSize + 1 := List.length_replicate

theorem lost_datagrams_splice_plain :
    wire .little (fun _ _ => 0) [plain 0, plain 1] =
        fragments .little (plain 0) ++ fragments .little (plain 1) ∧
      received .little ((fragments .little (plain 0)).take 1 ++
          (fragments .little (plain 1)).drop 1) =
        [(plain 0).bytes.take (packetSize * 1) ++ (plain 1).bytes.drop (packetSize * 1)] ∧
      (plain 0).bytes.take (packetSize * 1) ++ (plain 1).bytes.drop (packetSize * 1) ≠
        (plain 0).bytes ∧
      (plain 0).bytes.take (packetSize * 1) ++ (plain 1).bytes.drop (packetSize * 1) ≠
        (plain 1).bytes := by
  refine @lost_datagrams_splice .little (plain 0) (plain 1) (received .little)
    (fun stream data => ?_) (by rw [size_plain, size_plain]) 1 ?_ ?_
  · have sends := @sends_sendBitstream .little stream (fun _ => 0) data
    rw [sendBitstream_all .little stream fun _ _ => le_refl 0] at sends
    exact sends.collect none
  · simp only [plain, List.take_replicate, ne_eq, List.replicate_inj]
    decide
  · simp only [plain, List.drop_replicate, ne_eq, List.replicate_inj]
    decide

end Loss

end Tsender.Channel.Wire
