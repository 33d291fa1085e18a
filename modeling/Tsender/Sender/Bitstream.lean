/- Tsender/Sender/Bitstream
   source: sender.cpp (send_bitstream), main.h (PACKET_HEADER_SIZE, PACKET_SIZE)
   digest: The fragmentation of one coded packet into numbered datagrams, what a receiver reads
   from them in any order, and what is on the wire when a sendto fails. -/

import Tsender.Lib.Fragments

set_option autoImplicit false
set_option relaxedAutoImplicit false

namespace Tsender.Sender.Bitstream

open Lib.Fragments

def packetHeaderSize : ℕ := 24

def packetSize : ℕ := 4096

/-- A byte string whose size is an `int`. -/
structure Stream where
  bytes : List UInt8
  fits : bytes.length < 2 ^ 31

def Stream.size (stream : Stream) : ℕ := stream.bytes.length

abbrev Datagram := List UInt8

/-- `buffer` as one turn of the loop fills it: four `int` fields, the three type bytes and the
five reserved ones, all of them 0, and the payload. -/
def buffer (e : Endian) (totSize curSize totPacket curPacket : ℕ) (payload : List UInt8) :
    Datagram :=
  intBytes e totSize ++ intBytes e curSize ++ intBytes e totPacket ++ intBytes e curPacket ++
    [0, 0, 0] ++ [0, 0, 0, 0, 0] ++ payload

/-- The loop of `send_bitstream`: `remain` bytes stay to be sent from `p` on.  `sendto n` is the
result of the `n`-th call, and a call with a negative result puts nothing on the wire. -/
def sendLoop (e : Endian) (sendto : ℕ → ℤ) (totSize totPacket : ℕ)
    (remain : ℕ) (p : List UInt8) (curPacket : ℕ) : Bool × List Datagram :=
  if 0 < remain then
    let curSize := if packetSize < remain then packetSize else remain
    let buffer := buffer e totSize curSize totPacket curPacket (p.take curSize)
    if sendto curPacket < 0 then (false, [])
    else
      let (sent, later) :=
        sendLoop e sendto totSize totPacket (remain - curSize) (p.drop curSize) (curPacket + 1)
      (sent, buffer :: later)
  else (true, [])
termination_by remain
decreasing_by
  have shrinks : 0 < packetSize := by decide
  split <;> omega

def totPacket (totSize : ℕ) : ℕ :=
  if totSize % packetSize = 0 then totSize / packetSize else totSize / packetSize + 1

/-- The result of `send_bitstream` and the datagrams it put on the wire. -/
def sendBitstream (e : Endian) (stream : Stream) (sendto : ℕ → ℤ) : Bool × List Datagram :=
  sendLoop e sendto stream.size (totPacket stream.size) stream.size stream.bytes 1

section Receiver

/-- The `int` at an offset of a datagram. -/
def intAt (e : Endian) (offset : ℕ) (d : Datagram) : ℤ :=
  ofIntBytes e ((d.drop offset).take 4)

def payload (d : Datagram) : List UInt8 := d.drop packetHeaderSize

def reassemble (e : Endian) (received : List Datagram) : List UInt8 :=
  ((sortBy (intAt e 12) received).map payload).flatten

/-- What a receiver of `total` fragments of a stream of `size` bytes reads from one of them. -/
structure Decodes (e : Endian) (size total number : ℕ) (d : Datagram) : Prop where
  header : packetHeaderSize ≤ d.length
  nonempty : 1 ≤ (payload d).length
  bounded : (payload d).length ≤ packetSize
  totSize : intAt e 0 d = size
  curSize : intAt e 4 d = (payload d).length
  totPacket : intAt e 8 d = total
  curPacket : intAt e 12 d = number

structure Fragmented (e : Endian) (stream : Stream) (sent : List Datagram) : Prop where
  count : sent.length = stream.size ⌈/⌉ packetSize
  decodes : ∀ (i : ℕ) (h : i < sent.length),
    Decodes e stream.size sent.length (i + 1) sent[i]
  reassembles : ∀ received : List Datagram, received.Perm sent →
    reassemble e received = stream.bytes

end Receiver

section Buffer

variable {e : Endian} {totSize curSize totPacket curPacket : ℕ} {data : List UInt8}

private theorem length_buffer :
    (buffer e totSize curSize totPacket curPacket data).length =
      packetHeaderSize + data.length := by
  simp only [buffer, List.length_append, length_intBytes, List.length_cons, List.length_nil,
    packetHeaderSize]

@[simp] theorem payload_buffer :
    payload (buffer e totSize curSize totPacket curPacket data) = data := by
  unfold payload
  apply List.drop_left'
  simp [packetHeaderSize]

private theorem intAt_append {front back : List UInt8} {v offset : ℕ}
    (place : front.length = offset) (small : v < 2 ^ 31) :
    intAt e offset (front ++ (intBytes e v ++ back)) = v := by
  rw [intAt, List.drop_left' place, List.take_left' (length_intBytes e v)]
  exact ofIntBytes_intBytes e (by omega) (by exact_mod_cast small)

private theorem intAt_totSize (small : totSize < 2 ^ 31) :
    intAt e 0 (buffer e totSize curSize totPacket curPacket data) = totSize := by
  simp only [buffer, List.append_assoc]
  rw [intAt, List.drop_zero, List.take_left' (length_intBytes e totSize)]
  exact ofIntBytes_intBytes e (by omega) (by exact_mod_cast small)

private theorem intAt_curSize (small : curSize < 2 ^ 31) :
    intAt e 4 (buffer e totSize curSize totPacket curPacket data) = curSize := by
  simp only [buffer, List.append_assoc]
  exact intAt_append (by simp) small

private theorem intAt_totPacket (small : totPacket < 2 ^ 31) :
    intAt e 8 (buffer e totSize curSize totPacket curPacket data) = totPacket := by
  have front : buffer e totSize curSize totPacket curPacket data =
      (intBytes e totSize ++ intBytes e curSize) ++ (intBytes e totPacket ++
        (intBytes e curPacket ++ ([0, 0, 0] ++ ([0, 0, 0, 0, 0] ++ data)))) := by
    simp only [buffer, List.append_assoc]
  rw [front]
  exact intAt_append (by simp) small

private theorem intAt_curPacket (small : curPacket < 2 ^ 31) :
    intAt e 12 (buffer e totSize curSize totPacket curPacket data) = curPacket := by
  have front : buffer e totSize curSize totPacket curPacket data =
      (intBytes e totSize ++ intBytes e curSize ++ intBytes e totPacket) ++
        (intBytes e curPacket ++ ([0, 0, 0] ++ ([0, 0, 0, 0, 0] ++ data))) := by
    simp only [buffer, List.append_assoc]
  rw [front]
  exact intAt_append (by simp) small

end Buffer

section Loop

variable {e : Endian} {sendto : ℕ → ℤ} {totSize total : ℕ}

/-- The datagrams for some pieces, numbered from `first` on. -/
def numbered (e : Endian) (totSize total : ℕ) (cut : List (List UInt8)) (first : ℕ) :
    List Datagram :=
  (cut.zipIdx first).map fun (data, number) => buffer e totSize data.length total number data

@[simp] theorem length_numbered (cut : List (List UInt8)) (first : ℕ) :
    (numbered e totSize total cut first).length = cut.length := by
  simp [numbered]

theorem numbered_cons (data : List UInt8) (cut : List (List UInt8)) (first : ℕ) :
    numbered e totSize total (data :: cut) first =
      buffer e totSize data.length total first data ::
        numbered e totSize total cut (first + 1) := by
  simp only [numbered, List.zipIdx_cons, List.map_cons]

theorem map_payload_numbered (cut : List (List UInt8)) (first : ℕ) :
    (numbered e totSize total cut first).map payload = cut := by
  induction cut generalizing first with
  | nil => rfl
  | cons data cut ih => rw [numbered_cons, List.map_cons, payload_buffer, ih]

private theorem curSize_eq (p : List UInt8) :
    (if packetSize < p.length then packetSize else p.length) = (p.take packetSize).length := by
  rw [List.length_take]
  split <;> omega

private theorem take_curSize (p : List UInt8) :
    p.take (p.take packetSize).length = p.take packetSize := by
  rw [List.length_take, ← List.take_take, List.take_length]

private theorem drop_curSize (p : List UInt8) :
    p.drop (p.take packetSize).length = p.drop packetSize := by
  rw [List.length_take]
  rcases Nat.le_total packetSize p.length with more | last
  · rw [min_eq_left more]
  · rw [min_eq_right last, List.drop_length, List.drop_of_length_le last]

private theorem remain_eq (p : List UInt8) :
    p.length - (p.take packetSize).length = (p.drop packetSize).length := by
  rw [List.length_take, List.length_drop]
  omega

@[simp] theorem sendLoop_nil (n : ℕ) : sendLoop e sendto totSize total 0 [] n = (true, []) := by
  rw [sendLoop]
  simp

private theorem sendLoop_turn {p : List UInt8} (some_left : 0 < p.length) (n : ℕ) :
    sendLoop e sendto totSize total p.length p n =
      if sendto n < 0 then (false, [])
      else
        let rest := sendLoop e sendto totSize total (p.drop packetSize).length
          (p.drop packetSize) (n + 1)
        (rest.1, buffer e totSize (p.take packetSize).length total n (p.take packetSize) ::
          rest.2) := by
  conv_lhs => rw [sendLoop]
  rw [if_pos some_left]
  simp only [curSize_eq, take_curSize, drop_curSize, remain_eq]

theorem packetSize_pos : 0 < packetSize := by decide

private theorem sendLoop_all {p : List UInt8} {n : ℕ}
    (ok : ∀ j < (pieces packetSize p).length, 0 ≤ sendto (n + j)) :
    sendLoop e sendto totSize total p.length p n =
      (true, numbered e totSize total (pieces packetSize p) n) := by
  induction p using pieces_induction packetSize_pos generalizing n with
  | empty => simp [numbered]
  | cut p some_left ih =>
    rw [pieces_step packetSize_pos some_left, List.length_cons] at ok
    have called : ¬sendto n < 0 := by simpa using ok 0 (by omega)
    have shift : ∀ j, n + 1 + j = n + (j + 1) := by omega
    have rest := ih (n := n + 1) fun j below => shift j ▸ ok (j + 1) (by omega)
    rw [sendLoop_turn some_left, if_neg called, rest, pieces_step packetSize_pos some_left,
      numbered_cons]

private theorem sendLoop_fails {p : List UInt8} {n k : ℕ}
    (called : k < (pieces packetSize p).length)
    (before : ∀ j < k, 0 ≤ sendto (n + j)) (fails : sendto (n + k) < 0) :
    sendLoop e sendto totSize total p.length p n =
      (false, (numbered e totSize total (pieces packetSize p) n).take k) := by
  induction p using pieces_induction packetSize_pos generalizing n k with
  | empty => simp at called
  | cut p some_left ih =>
    rw [pieces_step packetSize_pos some_left] at called ⊢
    rw [sendLoop_turn some_left, numbered_cons]
    cases k with
    | zero => rw [if_pos (by simpa using fails), List.take_zero]
    | succ k =>
      have first : ¬sendto n < 0 := by have := before 0 (by omega); simp at this; omega
      have shift : ∀ j, n + 1 + j = n + (j + 1) := by omega
      have rest := ih (n := n + 1) (k := k) (by simpa using called)
        (fun j below => shift j ▸ before (j + 1) (by omega)) (shift k ▸ fails)
      rw [if_neg first, rest, List.take_succ_cons]

end Loop

private theorem totPacket_eq (size : ℕ) : totPacket size = size ⌈/⌉ packetSize := by
  rw [Nat.ceilDiv_eq_add_pred_div]
  unfold totPacket packetSize
  split <;> omega

section Whole

variable (e : Endian) (stream : Stream)

def fragments : List Datagram :=
  numbered e stream.size (totPacket stream.size) (pieces packetSize stream.bytes) 1

private theorem length_fragments : (fragments e stream).length = stream.size ⌈/⌉ packetSize := by
  rw [fragments, length_numbered, length_pieces packetSize_pos, Stream.size]

private theorem totPacket_fits : totPacket stream.size < 2 ^ 31 := by
  have fits : stream.size < 2 ^ 31 := stream.fits
  unfold totPacket packetSize
  split <;> omega

private theorem getElem_fragments {i : ℕ} (h : i < (fragments e stream).length) :
    ∃ data ∈ pieces packetSize stream.bytes, (fragments e stream)[i] =
      buffer e stream.size data.length (totPacket stream.size) (i + 1) data := by
  have cut : i < (pieces packetSize stream.bytes).length := by
    simpa only [fragments, length_numbered] using h
  refine ⟨(pieces packetSize stream.bytes)[i], List.getElem_mem cut, ?_⟩
  simp only [fragments, numbered, List.getElem_map, List.getElem_zipIdx, Nat.add_comm 1 i]

theorem decodes_fragments (i : ℕ) (h : i < (fragments e stream).length) :
    Decodes e stream.size (fragments e stream).length (i + 1) (fragments e stream)[i] := by
  obtain ⟨data, from_stream, shape⟩ := getElem_fragments e stream h
  obtain ⟨nonempty, bounded⟩ := length_mem_pieces packetSize_pos from_stream
  have total : totPacket stream.size = (fragments e stream).length := by
    rw [length_fragments, totPacket_eq]
  have total_fits := totPacket_fits stream
  rw [shape, ← total]
  exact {
    header := by rw [length_buffer]; omega
    nonempty := by rw [payload_buffer]; exact nonempty
    bounded := by rw [payload_buffer]; exact bounded
    totSize := intAt_totSize stream.fits
    curSize := by
      rw [payload_buffer]
      exact intAt_curSize (by simp only [packetSize] at bounded; omega)
    totPacket := intAt_totPacket total_fits
    curPacket := intAt_curPacket (by omega) }

private theorem reassemble_fragments {received : List Datagram}
    (perm : received.Perm (fragments e stream)) : reassemble e received = stream.bytes := by
  have increasing : (fragments e stream).Pairwise (intAt e 12 · < intAt e 12 ·) := by
    rw [List.pairwise_iff_getElem]
    intro i j hi hj below
    rw [(decodes_fragments e stream i hi).curPacket, (decodes_fragments e stream j hj).curPacket]
    exact_mod_cast Nat.add_lt_add_right below 1
  rw [reassemble, sortBy_perm increasing perm, fragments, map_payload_numbered,
    flatten_pieces packetSize_pos]

private theorem fragmented_fragments : Fragmented e stream (fragments e stream) where
  count := length_fragments e stream
  decodes := decodes_fragments e stream
  reassembles _ perm := reassemble_fragments e stream perm

theorem sendBitstream_all {sendto : ℕ → ℤ}
    (ok : ∀ j < (fragments e stream).length, 0 ≤ sendto (1 + j)) :
    sendBitstream e stream sendto = (true, fragments e stream) := by
  refine sendLoop_all fun j below => ok j ?_
  simpa only [fragments, length_numbered] using below

theorem sendBitstream_fails {sendto : ℕ → ℤ} {k : ℕ} (called : k < (fragments e stream).length)
    (before : ∀ j < k, 0 ≤ sendto (1 + j)) (fails : sendto (1 + k) < 0) :
    sendBitstream e stream sendto = (false, (fragments e stream).take k) := by
  refine sendLoop_fails ?_ before fails
  simpa only [fragments, length_numbered] using called

/-- A stream sent without a failure arrives as numbered fragments that can be put together
again from any order; the first failing `sendto` leaves exactly the datagrams before it. -/
theorem sendBitstream_round_trip (sendto : ℕ → ℤ) :
    ((∀ n, 1 ≤ n → n ≤ stream.size ⌈/⌉ packetSize → 0 ≤ sendto n) →
      (sendBitstream e stream sendto).1 = true ∧
        Fragmented e stream (sendBitstream e stream sendto).2) ∧
    ∀ k, 1 ≤ k → k ≤ stream.size ⌈/⌉ packetSize →
      (∀ j, 1 ≤ j → j < k → 0 ≤ sendto j) → sendto k < 0 →
      sendBitstream e stream sendto =
        (false, (sendBitstream e stream fun _ => 0).2.take (k - 1)) := by
  have count := length_fragments e stream
  constructor
  · intro ok
    rw [sendBitstream_all e stream fun j below => ok (1 + j) (by omega) (by omega)]
    exact ⟨rfl, fragmented_fragments e stream⟩
  · intro k first last before fails
    have place : 1 + (k - 1) = k := by omega
    have all : sendBitstream e stream (fun _ => 0) = (true, fragments e stream) :=
      sendBitstream_all e stream fun _ _ => le_refl 0
    rw [all]
    exact sendBitstream_fails e stream (by omega)
      (fun j below => before (1 + j) (by omega) (by omega)) (by rwa [place])

end Whole

end Tsender.Sender.Bitstream
