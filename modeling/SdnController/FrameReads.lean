import SdnController.Bounds

/-!
# What is read of a packet-in

A packet-in has two lengths: the length in its header, by which it is received, and `total_len`,
which is the length of the frame at the switch. The controller reads the fields of an Ethernet frame
and of an ARP packet, and copies `total_len` bytes of the frame into a packet-out, while only the
first length says how much there is. `only_received` is the exact condition under which it reads no
more than it received: the frame reaches past its Ethernet type, an ARP packet past its operation,
and `total_len` counts no more bytes than the frame has if a packet-out is made of it.
-/

namespace SdnController

open Memory Exec

/-- A call reads only received bytes of the repacked message, and its packet-outs carry only them. A
write past the end of a buffer counts against it, since what is read after it is not defined. -/
structure OnlyReceived {α : Type} (stream : List UInt8) (o : Outcome Stop State Event α) :
    Prop where
  reads : ∀ a, .access a ∈ o.events → a.buf = .rawPktIn → a.kind = .read → a.Inside
  carried : ∀ s b, .send s b ∈ o.events → ∀ po, PacketOut.decode b = some po →
    po.data <+: (firstMessage stream).drop 18
  defined : o.ret ≠ .error .overflow

/-- An event of a call that reads only received bytes, and carries only them. -/
def Event.Received (stream : List UInt8) : Event → Prop
  | .access a => a.buf = .rawPktIn → a.kind = .read → a.Inside
  | .send _ b => ∀ po, PacketOut.decode b = some po → po.data <+: (firstMessage stream).drop 18
  | _ => True

/-- A call reads only received bytes when each of its events does. -/
theorem onlyReceived_iff {α : Type} {stream : List UInt8} {o : Outcome Stop State Event α} :
    OnlyReceived stream o ↔ o.Safe (Event.Received stream) (· = .overflow) := by
  constructor
  · intro h
    refine ⟨fun ev hev => ?_, ?_⟩
    · cases ev with
      | access a => exact h.reads a hev
      | send s b => exact h.carried s b hev
      | _ => trivial
    · rintro x hx rfl
      exact h.defined hx
  · rintro ⟨hevents, hret⟩
    exact ⟨fun a ha => hevents _ ha, fun s b hb => hevents _ hb, fun hx => hret _ hx rfl⟩

section Frame

variable {stream : List UInt8} {n : ℕ}

/-- A read of the repacked message. -/
theorem received_frameRead (off : ℕ) (len : ℤ) :
    (frameRead n off len).Received stream ↔ 0 ≤ len ∧ (off : ℤ) + len ≤ n := by
  simp only [frameRead, Event.Received, Access.Inside, true_implies]

/-- A flow-mod carries no frame. -/
theorem received_flowMod (s : Socket) (dlSrc dlDst : Mac) (port : UInt16) (xid : UInt32) :
    (Event.send s ((Reply.flowMod dlSrc dlDst port).encode xid)).Received stream := by
  intro po hpo
  rw [decode_packetOut_flowMod] at hpo
  cases hpo

/-- A packet-out carries the frame as far as it was received. -/
theorem received_packetOut {s : Socket} {inPort outPort : UInt16} {data : List UInt8} {xid : UInt32}
    (hfit : 24 + data.length < 2 ^ 16) (hdata : data <+: (firstMessage stream).drop 18) :
    (Event.send s ((Reply.packetOut inPort outPort data).encode xid)).Received stream := by
  intro po hpo
  rw [decode_packetOut xid inPort outPort hfit, Option.some.injEq] at hpo
  rw [← hpo]
  exact hdata

end Frame

section PacketIn

variable {s : Socket} {e : Env} {st : State} {stream : List UInt8}

/-- A packet-in that was received is handled in the buffer that it was put together in. -/
theorem safe_recvData_packetIn (hwf : WellFormed 0 stream)
    (hmost : (header stream).length.toNat ≤ 1008)
    (htype : (header stream).type = ofptPacketIn) (hf : e.recvFails .packet = false)
    (hfp : e.recvFails .payload = false) :
    (recvData s stream e st).Safe (Event.Received stream) (· = .overflow) ↔
      (handleFrame s ⟨.rawPktIn, (header stream).length.toNat, rawPktInMem e stream, 0⟩ e st).Safe
        (Event.Received stream) (· = .overflow) := by
  have hwhole := hwf.whole
  have hlen : 18 ≤ (header stream).length.toNat := hwf.packetIn htype
  have hpos : 0 < payloadAsked stream := by
    rw [hwf.payloadAsked_eq]
    omega
  have hfit : ((stream.drop ofpHdrLen).take (payloadAsked stream).toNat).length ≤ payloadLen := by
    rw [hwf.payloadAsked_eq, List.length_take, payloadLen]
    omega
  have hpayload : recvPayload s (((header stream).length.toNat : ℤ) - 8) (stream.drop ofpHdrLen) e
      st = ⟨.ok (payloadMem e stream, (stream.drop ofpHdrLen).drop (payloadAsked stream).toNat), st,
        [.recv s .payload (payloadAsked stream).toNat
          ((stream.drop ofpHdrLen).take (payloadAsked stream).toNat).length]⟩ := by
    rw [← hwf.payloadAsked_eq, recvPayload_stores s e hpos hfp hfit, payloadMem, if_pos hpos]
  have hbranch : headerMem stream 1 = ofPacketIn := by
    rw [headerMem_eq stream (by decide)]
    exact htype
  unfold recvData
  rw [safe_bind_of_ok _ (recv_header s st hf (by omega)), List.forall_mem_singleton, safe_ite,
    if_neg (show ¬(8 : ℤ) ≤ 0 by decide)]
  simp only [ntohs_headerMem]
  rw [safe_bind_of_ok _ hpayload, List.forall_mem_singleton, safe_bind_pure,
    dispatch_packetIn s _ _ hbranch]
  rw [handlePacketIn_eq, safe_repack, if_pos (by simp only [ofpHdrLen]; omega),
    if_pos (by simp only [ofpHdrLen, payloadLen]; omega), ← packetLen_eq]
  -- Neither copy reads the repacked message.
  simp only [Event.Received, reduceCtorEq, false_implies, implies_true, true_and]
  rfl

/-- The first bytes of the frame, in the buffer that the message was put together in. -/
theorem bytesAt_rawPktInMem (hwf : WellFormed 0 stream) {k : ℕ}
    (hk : 18 + k ≤ (header stream).length.toNat) :
    bytesAt (rawPktInMem e stream) 18 k <+: (firstMessage stream).drop 18 := by
  have hlen : ((firstMessage stream).drop 18).length = (header stream).length.toNat - 18 := by
    rw [List.length_drop, hwf.length_firstMessage]
  have hbytes : bytesAt (rawPktInMem e stream) 18 k =
      bytesAt (ofBytes (firstMessage stream)) 18 k :=
    bytesAt_congr fun j hj => hwf.rawPktInMem_eq e (by omega)
  obtain ⟨rest, hrest⟩ : ∃ rest, ((firstMessage stream).drop 18).length = k + rest :=
    ⟨(header stream).length.toNat - 18 - k, by omega⟩
  rw [hbytes, ← bytesAt_ofBytes_drop (firstMessage stream) 18, hrest, bytesAt_append]
  exact List.prefix_append _ _

end PacketIn

/-- What the lengths of a frame must be to handle it, by the offsets in the message. -/
theorem received_handleFrame (s : Socket) (e : Env) (st : State) {stream : List UInt8} {n : ℕ}
    (m : Mem) (hn : n ≤ 1008) (hreason : m 16 ≠ 0)
    (hstart : ∀ k, 18 + k ≤ n → bytesAt m 18 k <+: (firstMessage stream).drop 18) :
    (handleFrame s ⟨.rawPktIn, n, m, 0⟩ e st).Safe (Event.Received stream) (· = .overflow) ↔
      32 ≤ n ∧ (field16 m 30 = 0x0806 → 40 ≤ n) ∧
        (PacketOutMade s e st (PacketIn.ofMem m) → 18 + (field16 m 12).toNat ≤ n) := by
  have hsend : (frameRead n 18 (field16 m 12).toNat).Received stream →
      24 + (field16 m 12).toNat < 2 ^ 16 → ∀ outPort xid, (Event.send s ((Reply.packetOut
        (field16 m 14) outPort (bytesAt m 18 (field16 m 12).toNat)).encode xid)).Received
          stream := by
    intro hread hfit outPort xid
    rw [received_frameRead] at hread
    exact received_packetOut (by rw [bytesAt_length]; exact hfit) (hstart _ (by omega))
  have hout : ∀ outPort st', (makeSendPacketOut s ⟨.rawPktIn, n, m, 0⟩ (htons outPort) e st').Safe
      (Event.Received stream) (· = .overflow) ↔ 18 + (field16 m 12).toNat ≤ n := by
    intro outPort st'
    -- What is received can be read.
    have hread : (frameRead n 18 (field16 m 12).toNat).Received stream →
        18 + (field16 m 12).toNat ≤ n + e.mapped .rawPktIn := by
      rw [received_frameRead]
      omega
    refine (safe_makeSendPacketOut s e st' n m (by decide) (by rfl) (fun h => .inr (hread h))
      (by simp [Event.Received]) hsend outPort).trans ?_
    simp only [received_frameRead]
    omega
  rw [safe_handleFrame s e st n m (received_flowMod s) (by decide) hout]
  simp only [received_frameRead, hreason, ne_eq, not_false_eq_true, true_implies]
  -- The read of the Ethernet type reaches farther than those of the fields before it.
  constructor
  · rintro ⟨-, -, -, h30, h38, -, hdata⟩
    exact ⟨by omega, fun harp => by have := h38 harp; omega, hdata⟩
  · rintro ⟨h30, h38, hdata⟩
    exact ⟨by omega, by omega, by omega, by omega, fun harp => by have := h38 harp; omega, by omega,
      hdata⟩

/-- The frame of a packet-in has the bytes that are read of it, where `packetOut` says whether a
packet-out is made of it. -/
structure OfpPacketIn.Covers (p : OfpPacketIn) (packetOut : Prop) : Prop where
  etherType : 14 ≤ p.data.length
  operation : field16 (ofBytes p.data) 12 = 0x0806 → 22 ≤ p.data.length
  totalLen : packetOut → p.totalLen.toNat ≤ p.data.length

section Fields

variable {i : Input} {p : OfpPacketIn} (hwf : WellFormed 0 i.stream) (hp : i.packetIn = some p)

include hwf hp

/-- A field of the frame, in the buffer that the message was put together in. -/
theorem frame_field16 (off : ℕ) (hoff : off + 2 ≤ p.data.length) :
    field16 (rawPktInMem i.env i.stream) (18 + off) = field16 (ofBytes p.data) off := by
  have hlength := (hwf.packetIn_length hp).2
  obtain ⟨-, -, hfields⟩ := Input.eq_of_packetIn hp
  have hdata : p.data = (firstMessage i.stream).drop 18 := by rw [hfields]
  rw [hdata, (frame_fields _ off).2]
  exact field16_congr (fun _ hk => hwf.rawPktInMem_eq i.env hk) (by omega)

/-- Whether a packet-out is made depends on what was received, where that has the Ethernet type and
the operation of an ARP packet. -/
theorem packetOutMade_iff (st : State) (h14 : 14 ≤ p.data.length)
    (h22 : field16 (ofBytes p.data) 12 = 0x0806 → 22 ≤ p.data.length) :
    PacketOutMade i.socket i.env st (PacketIn.ofMem (rawPktInMem i.env i.stream)) ↔
      PacketOutMade i.socket i.env st ⟨p.inPort, p.dst, p.src, p.arpReply, p.data⟩ := by
  obtain ⟨htype, hlength⟩ := hwf.packetIn_length hp
  obtain ⟨-, -, hfields⟩ := Input.eq_of_packetIn hp
  have hwf14 : WellFormed 14 i.stream := ⟨hwf.whole, hwf.least, fun _ => by omega⟩
  obtain ⟨-, hport, hdst, hsrc⟩ := hwf14.fields_eq i.env (by decide) htype
  have hcode : field16 (rawPktInMem i.env i.stream) 30 = field16 (ofBytes p.data) 12 :=
    frame_field16 hwf hp 12 h14
  have hreply : (PacketIn.ofMem (rawPktInMem i.env i.stream)).arpReply = p.arpReply := by
    unfold PacketIn.ofMem OfpPacketIn.arpReply
    simp only [hcode]
    -- The operation is looked at only in an ARP packet.
    refine decide_eq_decide.mpr (and_congr_right fun harp => ?_)
    have hopcode : field16 (rawPktInMem i.env i.stream) 38 = field16 (ofBytes p.data) 20 :=
      frame_field16 hwf hp 20 (h22 harp)
    rw [hopcode]
  have hdst : (PacketIn.ofMem (rawPktInMem i.env i.stream)).dst = p.dst := by
    rw [OfpPacketIn.dst, hfields, (frame_fields _ 0).1]
    exact hdst
  have hsrc : (PacketIn.ofMem (rawPktInMem i.env i.stream)).src = p.src := by
    rw [OfpPacketIn.src, hfields, (frame_fields _ 6).1]
    exact hsrc
  have hport : (PacketIn.ofMem (rawPktInMem i.env i.stream)).inPort = p.inPort := by
    rw [hfields]
    exact hport
  unfold PacketOutMade FlowModsSent
  rw [hreply, hdst, hsrc, hport]

end Fields

/-- A packet-in that is received is read only as far as it was received, and only that is sent back,
exactly when its frame has its Ethernet type, an ARP packet has its operation, and `total_len`
counts no more than the frame if a packet-out is made of it. -/
theorem only_received (i : Input) (st : State) {p : OfpPacketIn} (hwf : WellFormed 0 i.stream)
    (hmost : (header i.stream).length.toNat ≤ 1008) (hp : i.packetIn = some p)
    (hf : i.env.recvFails .packet = false) (hfp : i.env.recvFails .payload = false) :
    OnlyReceived i.stream (step i st) ↔
      p.Covers (PacketOutMade i.socket i.env st ⟨p.inPort, p.dst, p.src, p.arpReply, p.data⟩) := by
  obtain ⟨htype, hlength⟩ := hwf.packetIn_length hp
  obtain ⟨-, h16, hfields⟩ := Input.eq_of_packetIn hp
  have htotal : field16 (rawPktInMem i.env i.stream) 12 = p.totalLen := by
    rw [hfields]
    exact field16_congr (fun _ hk => hwf.rawPktInMem_eq i.env hk) (by omega)
  have hreason : rawPktInMem i.env i.stream 16 ≠ 0 := by
    rw [hwf.rawPktInMem_eq i.env (by omega)]
    exact h16
  have hframe := received_handleFrame i.socket i.env st (rawPktInMem i.env i.stream) hmost hreason
    fun k hk => bytesAt_rawPktInMem hwf hk
  rw [hlength, htotal] at hframe
  rw [onlyReceived_iff]
  unfold step
  rw [safe_recvData_packetIn hwf hmost htype hf hfp, hlength, hframe]
  constructor
  · rintro ⟨h32, h40, hdata⟩
    have h14 : 14 ≤ p.data.length := by omega
    rw [show 30 = 18 + 12 from rfl, frame_field16 hwf hp 12 h14] at h40
    have h22 : field16 (ofBytes p.data) 12 = 0x0806 → 22 ≤ p.data.length := by
      intro harp
      have := h40 harp
      omega
    rw [packetOutMade_iff hwf hp st h14 h22] at hdata
    refine ⟨h14, h22, fun h => ?_⟩
    have := hdata h
    omega
  · rintro ⟨h14, h22, hdata⟩
    rw [show 30 = 18 + 12 from rfl, frame_field16 hwf hp 12 h14,
      packetOutMade_iff hwf hp st h14 h22]
    refine ⟨by omega, fun harp => ?_, fun h => ?_⟩
    · have := h22 harp
      omega
    · have := hdata h
      omega

/-- An ARP request is read only as far as it was received. -/
theorem only_received_request : OnlyReceived (request 4).stream (step (request 4) initial) := by
  have hp : (request 4).packetIn = some ⟨42, 1, 1, arpFrame 1 hostB hostA⟩ := by decide +kernel
  exact (only_received (request 4) initial (by decide +kernel) (by decide +kernel) hp rfl rfl).mpr
    ⟨by decide, fun _ => by decide, fun _ => by decide⟩

/-- A packet-in with the first 42 bytes of a frame of 1500. -/
def truncatedPacketIn : List UInt8 :=
  [1, 10] ++ be16Bytes 60 ++ [0, 0, 0, 0, 0xff, 0xff, 0xff, 0xff] ++ be16Bytes 1500 ++
    be16Bytes 1 ++ [1, 0] ++ arpFrame 1 hostB hostA

/-- A packet-in without a frame. -/
def emptyPacketIn : List UInt8 := packetInBytes 1 []

/-- The flooded packet-out of a truncated frame is filled with what lies after the message in
memory, and the Ethernet type of no frame at all is read there. -/
theorem not_only_received_truncated :
    (WellFormed 0 truncatedPacketIn ∧ (Input.plain 4 truncatedPacketIn).packetIn.isSome = true ∧
      ¬OnlyReceived truncatedPacketIn (step (Input.plain 4 truncatedPacketIn) initial)) ∧
    WellFormed 0 emptyPacketIn ∧ (Input.plain 4 emptyPacketIn).packetIn.isSome = true ∧
      ¬OnlyReceived emptyPacketIn (step (Input.plain 4 emptyPacketIn) initial) := by
  refine ⟨⟨by decide +kernel, by decide +kernel, fun h => ?_⟩, by decide +kernel, by decide +kernel,
    fun h => ?_⟩
  · have hdata := h.reads ⟨.read, .rawPktIn, 60, 18, 1500⟩ (by decide +kernel) rfl rfl
    exact absurd hdata (by decide)
  · have htype := h.reads ⟨.read, .rawPktIn, 18, 30, 2⟩ (by decide +kernel) rfl rfl
    exact absurd htype (by decide)

end SdnController
