import SdnController.Refinement

/-!
# The bytes received

The controller reads a message through three buffers, of which the last is put together from the
other two. The statements about the controller speak of the bytes that its peer sent instead, by the
decoders of `OpenFlow.lean`: the first message on a stream (`firstMessage`), whether it is a whole
one (`WellFormed`), and the packet-in that it is (`Input.packetIn`, `Input.sighting`).

`WellFormed.rawPktInMem_eq` says that the buffer holds the message received, and `msg_sighting` and
`msg_eq` that the controller acts on the message received: on the source address and the port for
any packet-in whose frame has its addresses, and on all of it when `total_len` counts no more bytes
than were received.
-/

namespace SdnController

open Memory Exec

/-- The message that a call reads. -/
def Input.msg (i : Input) : Msg := parse i.env i.stream

/-- The first message on a stream: as many bytes as its header says. -/
def firstMessage (stream : List UInt8) : List UInt8 := stream.take (header stream).length.toNat

/-- A stream that starts with a whole message. A packet-in carries at least `frame` bytes of its
frame. -/
structure WellFormed (frame : ℕ) (stream : List UInt8) : Prop where
  whole : (header stream).length.toNat ≤ stream.length
  least : 8 ≤ (header stream).length.toNat
  packetIn : (header stream).type = ofptPacketIn → 18 + frame ≤ (header stream).length.toNat

instance (frame : ℕ) (stream : List UInt8) : Decidable (WellFormed frame stream) :=
  decidable_of_iff ((header stream).length.toNat ≤ stream.length ∧
      8 ≤ (header stream).length.toNat ∧
      ((header stream).type = ofptPacketIn → 18 + frame ≤ (header stream).length.toNat))
    ⟨fun h => ⟨h.1, h.2.1, h.2.2⟩, fun h => ⟨h.whole, h.least, h.packetIn⟩⟩

/-- The packet-in that a call is given to act on: one with another reason than `OFPR_NO_MATCH`. -/
def Input.packetIn (i : Input) : Option OfpPacketIn :=
  (OfpPacketIn.decode (firstMessage i.stream)).filter (·.reason ≠ 0)

/-- The address and the port that a call is shown. -/
def Input.sighting (i : Input) : Option PathNode :=
  i.packetIn.map fun p => ⟨p.src, p.inPort⟩

/-- A byte of a shortened message. -/
theorem ofBytes_take {b : List UInt8} {n k : ℕ} (h : k < n) :
    ofBytes (b.take n) k = ofBytes b k := by
  unfold ofBytes
  rw [List.getD_eq_getElem?_getD, List.getD_eq_getElem?_getD, List.getElem?_take_of_lt h]

/-- Memory after a copy to its start, where the copy reaches. -/
theorem memcpy_start (m : Mem) {b : List UInt8} {k : ℕ} (hk : k < b.length) :
    memcpy m 0 b k = ofBytes b k := by
  rw [memcpy_of_mem _ _ (Nat.zero_le k) (by omega), Nat.sub_zero]
  rfl

/-- Cleared memory after a copy to its start holds the bytes copied. -/
theorem memcpy_zero (m : Mem) (b : List UInt8) {k : ℕ} (hm : m k = 0) :
    memcpy m 0 b k = ofBytes b k := by
  by_cases hk : k < b.length
  · exact memcpy_start m hk
  · rw [memcpy_of_ge _ _ (by omega), hm]
    unfold ofBytes
    rw [List.getD_eq_getElem?_getD, List.getElem?_eq_none (by omega), Option.getD_none]

/-- The header, as it was received. -/
theorem headerMem_eq (stream : List UInt8) {k : ℕ} (hk : k < 8) :
    headerMem stream k = ofBytes stream k := by
  unfold headerMem
  rw [memcpy_zero _ _ rfl, ofBytes_take (show k < ofpHdrLen from hk)]

/-- The length in the header, as it was received. -/
theorem packetLen_eq (stream : List UInt8) : packetLen stream = (header stream).length.toNat := by
  unfold packetLen
  rw [field16_congr (fun _ hk => headerMem_eq stream hk) (show 2 + 2 ≤ 8 by decide)]
  rfl

/-- The length in the header, as the controller converts it. -/
theorem ntohs_headerMem (stream : List UInt8) :
    (ntohs (load16 (headerMem stream) 2)).toNat = (header stream).length.toNat := by
  rw [← packetLen_eq, ntohs_load16]
  rfl

/-- The header of a stream that has one is received whole. -/
theorem recv_header (s : Socket) {e : Env} {stream : List UInt8} (st : State)
    (hf : e.recvFails .packet = false) (hlen : 8 ≤ stream.length) :
    recv s ⟨.packet, ofpHdrLen, zeros, 0⟩ ofpHdrLen stream e st =
      ⟨.ok ⟨8, headerMem stream, stream.drop ofpHdrLen⟩, st, [.recv s .packet ofpHdrLen 8]⟩ := by
  have htake : (stream.take ofpHdrLen).length = 8 := by
    rw [List.length_take, ofpHdrLen]
    omega
  rw [recv_stores s e hf (by simp), htake]
  rfl

/-- `packet` and `payload` of `recvData` hold a message. -/
structure InBuffers (b : List UInt8) (hm pm : Mem) : Prop where
  header : ∀ k, k < 8 → hm k = ofBytes b k
  payload : ∀ k, 8 + k < b.length → pm k = ofBytes b (8 + k)

/-- A message in the two buffers is in the third one when it is put together. -/
theorem repacked_eq {b : List UInt8} {hm pm : Mem} (h : InBuffers b hm pm) (e : Env) {k : ℕ}
    (hk : k < b.length) : repacked e hm pm b.length k = ofBytes b k := by
  unfold repacked
  by_cases h8 : k < 8
  · rw [memcpy_of_lt _ _ (by simpa [ofpHdrLen] using h8),
      memcpy_bytesAt _ _ (Nat.zero_le k) (by simpa [ofpHdrLen] using h8), ← h.header k h8]
    simp
  obtain ⟨j, rfl⟩ : ∃ j, k = 8 + j := ⟨k - 8, by omega⟩
  rw [memcpy_bytesAt _ _ (by simp [ofpHdrLen]) (by simp only [ofpHdrLen]; omega), ← h.payload j hk]
  simp [ofpHdrLen]

section Received

variable {frame : ℕ} {stream : List UInt8}

/-- What is asked for after the header of a whole message is the rest of it. -/
theorem WellFormed.payloadAsked_eq (h : WellFormed frame stream) :
    payloadAsked stream = (header stream).length.toNat - 8 := by
  have hwhole := h.whole
  have hleast := h.least
  unfold payloadAsked
  rw [packetLen_eq, List.length_take, ofpHdrLen, Nat.min_eq_left (by omega)]
  rfl

/-- The first message is as long as its header says. -/
theorem WellFormed.length_firstMessage (h : WellFormed frame stream) :
    (firstMessage stream).length = (header stream).length.toNat := by
  rw [firstMessage, List.length_take, Nat.min_eq_left h.whole]

/-- A message that was received whole is in the two buffers. -/
theorem WellFormed.inBuffers (h : WellFormed frame stream) (e : Env) :
    InBuffers (firstMessage stream) (headerMem stream) (payloadMem e stream) := by
  have hleast := h.least
  have hasked := h.payloadAsked_eq
  constructor
  · intro k hk
    rw [headerMem_eq stream hk, firstMessage, ofBytes_take (by omega)]
  · intro k hk
    rw [h.length_firstMessage] at hk
    -- The payload was asked for, since the message goes on after its header.
    have hgot : k < ((stream.drop ofpHdrLen).take (payloadAsked stream).toNat).length := by
      have hwhole := h.whole
      rw [hasked, List.length_take, List.length_drop, ofpHdrLen]
      omega
    have hstored : payloadMem e stream k =
        ofBytes ((stream.drop ofpHdrLen).take (payloadAsked stream).toNat) k := by
      unfold payloadMem
      rw [if_pos (by omega), memcpy_start _ hgot]
    calc payloadMem e stream k
        = ofBytes ((stream.drop ofpHdrLen).take (payloadAsked stream).toNat) k := hstored
      _ = ofBytes (stream.drop ofpHdrLen) k := ofBytes_take (by omega)
      _ = ofBytes stream (8 + k) := (ofBytes_add stream ofpHdrLen k).symm
      _ = ofBytes (firstMessage stream) (8 + k) := (ofBytes_take hk).symm

/-- The message put together in one buffer is the message received. -/
theorem WellFormed.rawPktInMem_eq (h : WellFormed frame stream) (e : Env) {k : ℕ}
    (hk : k < (header stream).length.toNat) :
    rawPktInMem e stream k = ofBytes (firstMessage stream) k := by
  have hrepacked := repacked_eq (h.inBuffers e) e (k := k)
  rw [h.length_firstMessage, ← packetLen_eq] at hrepacked
  rw [← packetLen_eq] at hk
  exact hrepacked hk

/-- The type in the buffer, as it was received. -/
theorem WellFormed.type_eq (h : WellFormed frame stream) (e : Env) :
    rawPktInMem e stream 1 = (header (firstMessage stream)).type := by
  have hleast := h.least
  rw [h.rawPktInMem_eq e (by omega)]
  rfl

/-- A whole message is not the end of the stream. -/
theorem WellFormed.parse_eq (h : WellFormed frame stream) (e : Env) :
    parse e stream = Msg.ofMem (rawPktInMem e stream) := by
  have hne : stream ≠ [] := by
    rintro rfl
    exact absurd h.least (by decide)
  exact if_neg hne

/-- The header of the first message is the header of the stream. -/
theorem WellFormed.header_eq (h : WellFormed frame stream) :
    header (firstMessage stream) = header stream := by
  have hleast := h.least
  have hb : ∀ k, k < 8 → ofBytes (firstMessage stream) k = ofBytes stream k := by
    intro k hk
    exact ofBytes_take (by omega)
  exact OfpHeader.decode_congr hb le_rfl

/-- The addresses and the port that the controller reads, as they were received. -/
theorem WellFormed.fields_eq (h : WellFormed frame stream) (e : Env) (hframe : 12 ≤ frame)
    (htype : (header stream).type = ofptPacketIn) :
    rawPktInMem e stream 16 = ofBytes (firstMessage stream) 16 ∧
      field16 (rawPktInMem e stream) 14 = field16 (ofBytes (firstMessage stream)) 14 ∧
      Mac.at (rawPktInMem e stream) 18 = Mac.at (ofBytes (firstMessage stream)) 18 ∧
      Mac.at (rawPktInMem e stream) 24 = Mac.at (ofBytes (firstMessage stream)) 24 := by
  have hlen := h.packetIn htype
  have hb : ∀ k, k < 30 → rawPktInMem e stream k = ofBytes (firstMessage stream) k :=
    fun k hk => h.rawPktInMem_eq e (by omega)
  exact ⟨hb 16 (by decide), field16_congr hb (by decide), Mac.at_congr hb (by decide),
    Mac.at_congr hb (by decide)⟩

end Received

/-- A message that the controller has whole: it is well-formed, and the `total_len` of a packet-in
is the length of the frame in it. -/
structure Whole (i : Input) : Prop where
  wellFormed : WellFormed 22 i.stream
  totalLen : ∀ p, i.packetIn = some p → p.totalLen.toNat = p.data.length

instance (i : Input) : Decidable (Whole i) :=
  decidable_of_iff
    (WellFormed 22 i.stream ∧ ∀ p ∈ i.packetIn, p.totalLen.toNat = p.data.length)
    ⟨fun h => ⟨h.1, h.2⟩, fun h => ⟨h.wellFormed, h.totalLen⟩⟩

/-! ## Messages as a switch sends them -/

/-- A packet-in with the reason `OFPR_ACTION` and a whole frame. -/
def packetInBytes (inPort : UInt16) (frame : List UInt8) : List UInt8 :=
  [1, 10] ++ be16Bytes (UInt16.ofNat (18 + frame.length)) ++ [0, 0, 0, 0, 0xff, 0xff, 0xff, 0xff] ++
    be16Bytes (UInt16.ofNat frame.length) ++ be16Bytes inPort ++ [1, 0] ++ frame

/-- The Ethernet frame of an ARP packet, with its operation. -/
def arpFrame (operation : UInt8) (dst src : Mac) : List UInt8 :=
  dst.bytes ++ src.bytes ++ [0x08, 0x06, 0, 1, 0x08, 0, 6, 4, 0, operation] ++
    src.bytes ++ [10, 0, 0, 2] ++ dst.bytes ++ [10, 0, 0, 1]

/-- Two hosts. -/
def hostA : Mac := ⟨2, 0, 0, 0, 0, 1⟩

@[inherit_doc hostA]
def hostB : Mac := ⟨2, 0, 0, 0, 0, 2⟩

/-- The environment of a call that no failure disturbs, in memory that holds a page of zeros. -/
def Env.plain : Env := ⟨fun _ => zeros, fun _ => false, fun _ => false, fun _ => 4096, by decide⟩

@[inherit_doc Env.plain]
def Input.plain (socket : Socket) (stream : List UInt8) : Input := ⟨socket, stream, Env.plain⟩

/-- Host A asks for host B, from port 1. -/
def request (s : Socket) : Input := Input.plain s (packetInBytes 1 (arpFrame 1 hostB hostA))

/-- Host B answers host A, from port 2. -/
def reply (s : Socket) : Input := Input.plain s (packetInBytes 2 (arpFrame 2 hostA hostB))

/-- An ARP request and its reply on one switch. -/
def conversation (s : Socket) : List Input := [request s, reply s]

/-! ## The message that is acted on -/

/-- The fields of the packet-in that a call is given to act on, by their offsets in the message. -/
theorem Input.packetIn_eq (i : Input) :
    let m := ofBytes (firstMessage i.stream)
    i.packetIn = if m 1 = ofptPacketIn ∧ m 16 ≠ 0 then
      some ⟨field16 m 12, field16 m 14, m 16, (firstMessage i.stream).drop 18⟩ else none := by
  intro m
  unfold Input.packetIn OfpPacketIn.decode
  have htype : (header (firstMessage i.stream)).type = m 1 := rfl
  rw [htype]
  by_cases h1 : m 1 = ofptPacketIn
  · by_cases h16 : m 16 = 0
    · rw [if_pos h1, if_neg (by simp [h16]), Option.filter_some, if_neg (by simpa using h16)]
    · rw [if_pos h1, if_pos ⟨h1, h16⟩, Option.filter_some, if_pos (by simpa using h16)]
  · rw [if_neg h1, if_neg (by simp [h1])]
    rfl

/-- What a call that is given a packet-in to act on is sent. -/
theorem Input.eq_of_packetIn {i : Input} {p : OfpPacketIn} (hp : i.packetIn = some p) :
    let m := ofBytes (firstMessage i.stream)
    m 1 = ofptPacketIn ∧ m 16 ≠ 0 ∧
      p = ⟨field16 m 12, field16 m 14, m 16, (firstMessage i.stream).drop 18⟩ := by
  intro m
  have hfields := i.packetIn_eq
  simp only [hp] at hfields
  split_ifs at hfields with hc
  exact ⟨hc.1, hc.2, Option.some.inj hfields⟩

/-- The frame of a whole packet-in is what comes after the first 18 bytes. -/
theorem WellFormed.packetIn_length {frame : ℕ} {i : Input} {p : OfpPacketIn}
    (h : WellFormed frame i.stream) (hp : i.packetIn = some p) :
    (header i.stream).type = ofptPacketIn ∧
      (header i.stream).length.toNat = 18 + p.data.length := by
  obtain ⟨h1, -, hfields⟩ := Input.eq_of_packetIn hp
  have htype : (header i.stream).type = ofptPacketIn := by
    rw [← h.header_eq]
    exact h1
  have hlen := h.packetIn htype
  refine ⟨htype, ?_⟩
  rw [hfields, List.length_drop, h.length_firstMessage]
  omega

/-- The fields of a frame, by their offsets in the message. -/
theorem frame_fields (b : List UInt8) (off : ℕ) :
    Mac.at (ofBytes (b.drop 18)) off = Mac.at (ofBytes b) (18 + off) ∧
      field16 (ofBytes (b.drop 18)) off = field16 (ofBytes b) (18 + off) := by
  unfold Mac.at field16
  simp only [Nat.add_assoc, ofBytes_add, and_self]

/-- The bytes from an offset of a message to its end. -/
theorem bytesAt_ofBytes_drop (b : List UInt8) (off : ℕ) :
    bytesAt (ofBytes b) off (b.drop off).length = b.drop off := by
  apply List.ext_getElem?
  intro k
  rw [bytesAt_getElem?]
  split_ifs with h
  · rw [ofBytes_add, List.getElem?_eq_getElem h]
    unfold ofBytes
    rw [List.getD_eq_getElem?_getD, List.getElem?_eq_getElem h, Option.getD_some]
  · rw [List.getElem?_eq_none (by omega)]

/-- The sighting in a message, by the offsets of its fields. -/
theorem Msg.ofMem_sighting (m : Mem) :
    (Msg.ofMem m).sighting =
      if m 1 = ofptPacketIn ∧ m 16 ≠ 0 then some ⟨Mac.at m 24, field16 m 14⟩ else none := by
  by_cases h1 : m 1 = ofptPacketIn
  · rw [Msg.ofMem_packetIn h1]
    by_cases h16 : m 16 = 0
    · rw [if_pos h16, if_neg (by simp [h16])]
      rfl
    · rw [if_neg h16, if_pos ⟨h1, h16⟩]
      rfl
  · have hne : m 1 ≠ ofPacketIn := h1
    have hnone : ¬(m 1 = ofptPacketIn ∧ m 16 ≠ 0) := fun h => h1 h.1
    unfold Msg.ofMem
    rw [if_neg hnone, if_neg hne]
    split_ifs <;> rfl

/-- The packet-in that memory holds. -/
theorem Msg.ofMem_eq_packetIn {m : Mem} {p : PacketIn} :
    Msg.ofMem m = .packetIn p ↔ m 1 = ofPacketIn ∧ m 16 ≠ 0 ∧ PacketIn.ofMem m = p := by
  by_cases h1 : m 1 = ofPacketIn
  · rw [Msg.ofMem_packetIn h1]
    by_cases h16 : m 16 = 0 <;> simp [h1, h16]
  · unfold Msg.ofMem
    rw [if_neg h1]
    split_ifs <;> simp [h1]

section MsgEq

variable {frame : ℕ} {i : Input}

/-- The controller learns from a message what the message shows. -/
theorem msg_sighting (h : WellFormed frame i.stream) (hframe : 12 ≤ frame) :
    i.msg.sighting = i.sighting := by
  have htype := h.type_eq i.env
  unfold Input.msg Input.sighting
  rw [h.parse_eq, Msg.ofMem_sighting, i.packetIn_eq, htype]
  by_cases h1 : (header (firstMessage i.stream)).type = ofptPacketIn
  · have h1' : ofBytes (firstMessage i.stream) 1 = ofptPacketIn := h1
    rw [h.header_eq] at h1
    obtain ⟨h16, hport, -, hsrc⟩ := h.fields_eq i.env hframe h1
    rw [h.header_eq, h16, hport, hsrc]
    simp only [h1, h1', true_and]
    split_ifs
    · have hoff := (frame_fields (firstMessage i.stream) 6).1
      rw [Option.map_some, OfpPacketIn.src, hoff]
    · rfl
  · have h1' : ofBytes (firstMessage i.stream) 1 ≠ ofptPacketIn := h1
    rw [if_neg (by simp [h1]), if_neg (by simp [h1'])]
    rfl

/-- Two memories that agree on a whole packet-in hold the same message. -/
theorem PacketIn.ofMem_congr {m m' : Mem} {n : ℕ} (h : ∀ k, k < n → m k = m' k) (hn : 40 ≤ n)
    (hdata : 18 + (field16 m' 12).toNat ≤ n) : PacketIn.ofMem m = PacketIn.ofMem m' := by
  have h12 : field16 m 12 = field16 m' 12 := field16_congr h (by omega)
  have hbytes : bytesAt m 18 (field16 m 12).toNat = bytesAt m' 18 (field16 m' 12).toNat := by
    rw [h12]
    exact bytesAt_congr fun k hk => h (18 + k) (by omega)
  unfold PacketIn.ofMem
  rw [hbytes, field16_congr h (show 14 + 2 ≤ n by omega), Mac.at_congr h (show 18 + 6 ≤ n by omega),
    Mac.at_congr h (show 24 + 6 ≤ n by omega), field16_congr h (show 30 + 2 ≤ n by omega),
    field16_congr h (show 38 + 2 ≤ n by omega)]

/-- The controller acts on the message received, when the frame of a packet-in has its fields and
`total_len` counts no more bytes than were received. -/
theorem msg_eq (h : WellFormed 22 i.stream)
    (hdata : ∀ p, i.packetIn = some p → p.totalLen.toNat ≤ p.data.length) :
    i.msg = Msg.ofMem (ofBytes (firstMessage i.stream)) := by
  have hleast := h.least
  have hb : ∀ k, k < (header i.stream).length.toNat →
      rawPktInMem i.env i.stream k = ofBytes (firstMessage i.stream) k :=
    fun k hk => h.rawPktInMem_eq i.env hk
  have hxid : field32 (rawPktInMem i.env i.stream) 4 =
      field32 (ofBytes (firstMessage i.stream)) 4 := field32_congr hb hleast
  have h1 := hb 1 (by omega)
  have hhdr : (header i.stream).type = ofBytes (firstMessage i.stream) 1 := by
    rw [← h.header_eq]
    rfl
  unfold Input.msg
  rw [h.parse_eq]
  unfold Msg.ofMem
  rw [h1, hxid]
  by_cases ht : ofBytes (firstMessage i.stream) 1 = ofPacketIn
  · -- Only a packet-in is looked at past its header.
    have hlen := h.packetIn (hhdr.trans ht)
    have h16 := hb 16 (by omega)
    rw [h16]
    by_cases h0 : ofBytes (firstMessage i.stream) 16 = 0
    · rw [if_pos h0, if_pos h0]
    have hp := i.packetIn_eq
    simp only at hp
    rw [if_pos ⟨ht, h0⟩] at hp
    have hfit := hdata _ hp
    simp only [List.length_drop, h.length_firstMessage] at hfit
    rw [if_neg h0, if_neg h0, PacketIn.ofMem_congr hb hlen (by omega)]
  · rw [if_neg ht, if_neg ht]

/-- The packet-in that the controller acts on. -/
theorem msg_packetIn {p : OfpPacketIn} (h : WellFormed 22 i.stream) (hp : i.packetIn = some p)
    (hdata : p.totalLen.toNat = p.data.length) :
    i.msg = .packetIn ⟨p.inPort, p.dst, p.src, p.arpReply, p.data⟩ := by
  have hle : ∀ q, i.packetIn = some q → q.totalLen.toNat ≤ q.data.length := by
    intro q hq
    rw [hp, Option.some.injEq] at hq
    rw [← hq]
    exact hdata.le
  rw [msg_eq h hle]
  obtain ⟨h1, h16, rfl⟩ := Input.eq_of_packetIn hp
  rw [Msg.ofMem_packetIn h1, if_neg h16]
  have hdst := (frame_fields (firstMessage i.stream) 0).1
  have hsrc := (frame_fields (firstMessage i.stream) 6).1
  have hcode := (frame_fields (firstMessage i.stream) 12).2
  have hopcode := (frame_fields (firstMessage i.stream) 20).2
  unfold PacketIn.ofMem OfpPacketIn.dst OfpPacketIn.src OfpPacketIn.arpReply
  rw [hdst, hsrc, hcode, hopcode]
  simp only [hdata]
  rw [bytesAt_ofBytes_drop]

/-- The packet-in that a call acts on has the port, the addresses and the ARP fields of the one that
it is given, whatever `total_len` counts. -/
theorem msg_fields (h : WellFormed 22 i.stream) :
    (i.packetIn = none ∧ ∀ q, i.msg ≠ .packetIn q) ∨ ∃ p q, i.packetIn = some p ∧
      i.msg = .packetIn q ∧ q.inPort = p.inPort ∧ q.dst = p.dst ∧ q.src = p.src ∧
      q.arpReply = p.arpReply := by
  have htype := h.type_eq i.env
  have hgiven := i.packetIn_eq
  have hheader : (header (firstMessage i.stream)).type = ofBytes (firstMessage i.stream) 1 := rfl
  rw [hheader] at htype
  simp only at hgiven
  have hmsg : ∀ q, i.msg = .packetIn q ↔ rawPktInMem i.env i.stream 1 = ofPacketIn ∧
      rawPktInMem i.env i.stream 16 ≠ 0 ∧ PacketIn.ofMem (rawPktInMem i.env i.stream) = q := by
    intro q
    unfold Input.msg
    rw [h.parse_eq, Msg.ofMem_eq_packetIn]
  by_cases h1 : ofBytes (firstMessage i.stream) 1 = ofptPacketIn
  · -- A well-formed packet-in has the fields that are looked at.
    have hlen := h.packetIn (h.header_eq ▸ h1)
    have hb : ∀ k, k < 40 →
        rawPktInMem i.env i.stream k = ofBytes (firstMessage i.stream) k :=
      fun k hk => h.rawPktInMem_eq i.env (by omega)
    by_cases h16 : ofBytes (firstMessage i.stream) 16 = 0
    · refine .inl ⟨?_, fun q hq => ?_⟩
      · rw [hgiven, if_neg (by simp [h16])]
      · have hreason := ((hmsg q).mp hq).2.1
        rw [hb 16 (by decide)] at hreason
        exact hreason h16
    · rw [if_pos ⟨h1, h16⟩] at hgiven
      refine .inr ⟨_, _, hgiven, (hmsg _).mpr ⟨htype.trans h1, ?_, rfl⟩, ?_, ?_, ?_, ?_⟩
      · rw [hb 16 (by decide)]
        exact h16
      · exact field16_congr hb (by decide)
      · rw [OfpPacketIn.dst, (frame_fields _ 0).1]
        exact Mac.at_congr hb (by decide)
      · rw [OfpPacketIn.src, (frame_fields _ 6).1]
        exact Mac.at_congr hb (by decide)
      · rw [OfpPacketIn.arpReply, (frame_fields _ 12).2, (frame_fields _ 20).2]
        unfold PacketIn.ofMem
        simp only
        rw [field16_congr hb (show 30 + 2 ≤ 40 by decide),
          field16_congr hb (show 38 + 2 ≤ 40 by decide)]
  · refine .inl ⟨?_, fun q hq => ?_⟩
    · rw [hgiven, if_neg fun hc => h1 hc.1]
    · exact h1 (htype.symm.trans ((hmsg q).mp hq).1)

end MsgEq

end SdnController
