import SdnController.FlowMods
import SdnController.Framing

/-!
# The packet-outs

`handlePacketIn` puts a packet-in together in one buffer (`repack`), and `makeSendPacketOut` takes
the frame out of it again and puts it behind a header and an action of its own. `packetOut_carries`
says that what a switch reads out of the second message is the frame that it sent in the first one.

The length of the second message is computed in 16 bits, and the copy of the frame is not. What
follows from that is `packetOut_fits_iff`: a `total_len` of 65511 is the greatest for which the
buffer has the length that was meant and holds what is written into it.
-/

namespace SdnController

open Memory Exec

/-! ## The packet-out on the wire -/

/-- A message that is a packet-out with one output action, and whose lengths are the lengths of its
parts. -/
structure IsPacketOut (out : List UInt8) (po : PacketOut) : Prop where
  length : out.length = pktOutHdrLen + po.data.length
  header : SdnController.header out = ⟨1, ofptPacketOut, UInt16.ofNat out.length, po.xid⟩
  headerLength : (SdnController.header out).length.toNat = out.length
  actionsLen : field16 (ofBytes out) 14 = 8
  actionLen : field16 (ofBytes out) 18 = 8
  decode : PacketOut.decode out = some po

/-- The packet-out of a frame that fits its length field. -/
theorem isPacketOut_encode (xid : UInt32) (inPort outPort : UInt16) {data : List UInt8}
    (h : pktOutHdrLen + data.length < 2 ^ 16) :
    IsPacketOut ((Reply.packetOut inPort outPort data).encode xid)
      ⟨xid, 0xffffffff, inPort, [.output outPort 0], data⟩ := by
  obtain ⟨xid', hheader, hxid⟩ := header_encode (.packetOut inPort outPort data) xid
  have hlength := length_packetOut xid inPort outPort data
  obtain ⟨hactions, haction⟩ := actionLengths_packetOut xid inPort outPort data
  refine ⟨hlength, ?_, ?_, hactions, haction, decode_packetOut xid inPort outPort h⟩
  · rw [hheader, hxid (ne_of_beq_false rfl)]
    rfl
  · rw [hheader, hlength]
    exact (UInt16.toNat_ofNat' ..).trans (Nat.mod_eq_of_lt h)

/-- A packet-out is sent, when sending works, exactly when its frame fits its length field and can
be read to its end. -/
theorem makeSendPacketOut_returns_iff {e : Env} (he : e.Works) (s : Socket) (st : State) (n : ℕ)
    (m : Mem) (outPort : UInt16) :
    (makeSendPacketOut s ⟨.rawPktIn, n, m, 0⟩ (htons outPort) e st).ret.isOk = true ↔
      24 + (field16 m 12).toNat < 2 ^ 16 ∧
        18 + (field16 m 12).toNat ≤ n + e.mapped .rawPktIn := by
  have hexit : (makeSendPacketOut s ⟨.rawPktIn, n, m, 0⟩ (htons outPort) e st).Safe
      (fun _ => True) (· = Stop.exit) :=
    never_makeSendPacketOut he s n m (by decide) (by decide) _ st
  rw [isOk_iff_safe, and_iff_left hexit, safe_makeSendPacketOut s e st n m (by decide) (by decide)
    (fun _ => .inl (by decide)) (fun _ _ _ _ => trivial) (fun _ _ _ _ => trivial)]
  simp only [true_and]

/-- A packet-in whose `total_len` is the length of its frame is sent back as a packet-out with that
frame, whatever the port that it is sent to. -/
theorem packetOut_carries (s : Socket) (e : Env) (st : State) {b : List UInt8} {p : OfpPacketIn}
    {hm pm : Mem} (hlen : 18 ≤ b.length ∧ b.length ≤ 1008)
    (hlength : (header b).length.toNat = b.length) (hp : OfpPacketIn.decode b = some p)
    (htotal : p.totalLen.toNat = b.length - 18) (hbuf : InBuffers b hm pm) (o : UInt16) :
    ∃ out,
      SendsAll e ((repack ⟨.packet, ofpHdrLen, hm, 0⟩ ⟨.payload, payloadLen, pm, 0⟩
        (header b).length.toNat >>= fun pktIn => makeSendPacketOut s pktIn (htons o)) e st)
          [(s, out)] ∧
      out.length = 24 + p.totalLen.toNat ∧
      IsPacketOut out ⟨st.xid, 0xffffffff, p.inPort, [.output o 0], p.data⟩ := by
  have hrepacked : ∀ k, k < b.length → repacked e hm pm b.length k = ofBytes b k :=
    fun k hk => repacked_eq hbuf e hk
  obtain ⟨htotalLen, hport, -⟩ := packetIn_fixed hp hlen.1 hrepacked
  have hdata : p.data = b.drop 18 := congrArg OfpPacketIn.data (OfpPacketIn.eq_of_decode hp).2
  have hdataLength : p.data.length = p.totalLen.toNat := by rw [hdata, List.length_drop, htotal]
  -- The frame is all of the message behind its first 18 bytes.
  have hframe : bytesAt (repacked e hm pm b.length) 18 p.totalLen.toNat = p.data := calc
    bytesAt (repacked e hm pm b.length) 18 p.totalLen.toNat
      = bytesAt (ofBytes b) 18 (b.drop 18).length := by
        rw [← hdataLength, hdata]
        exact bytesAt_congr fun k hk => hrepacked _ (by rw [List.length_drop] at hk; omega)
    _ = b.drop 18 := bytesAt_ofBytes_drop b 18
    _ = p.data := hdata.symm
  have hfit : pktOutHdrLen + p.data.length < 2 ^ 16 := by
    rw [hdataLength, htotal, pktOutHdrLen]
    omega
  have hsend := makeSendPacketOut_answers s e st b.length (repacked e hm pm b.length) o
  rw [htotalLen, hport, hframe] at hsend
  have hpacketOut := isPacketOut_encode st.xid p.inPort o hfit
  have hanswer : Answers ((repack ⟨.packet, ofpHdrLen, hm, 0⟩ ⟨.payload, payloadLen, pm, 0⟩
      b.length >>= fun pktIn => makeSendPacketOut s pktIn (htons o)) e st) () _ _ :=
    Yields.after (repack_answers e st hm pm b.length) hsend
  rw [hlength]
  refine ⟨_, sendsAll_of_answers hanswer fun he => ?_, ?_, hpacketOut⟩
  · rw [repack_returns_iff, makeSendPacketOut_returns_iff he, htotalLen, htotal, ofpHdrLen,
      payloadLen]
    omega
  · rw [hpacketOut.length, hdataLength, pktOutHdrLen]

/-- An ARP request is sent back to be flooded with the 42 bytes of its frame. -/
theorem packetOut_carries_request :
    let b := (request 4).stream
    ∃ out,
      sends ((repack ⟨.packet, ofpHdrLen, ofBytes b, 0⟩
        ⟨.payload, payloadLen, ofBytes (b.drop 8), 0⟩ (header b).length.toNat >>=
          fun pktIn => makeSendPacketOut 4 pktIn (htons ofppFlood)) Env.plain initial).events =
            [(4, out)] ∧
      out.length = 66 ∧ PacketOut.decode out =
        some ⟨1, 0xffffffff, 1, [.output ofppFlood 0], arpFrame 1 hostB hostA⟩ := by
  intro b
  have hp : OfpPacketIn.decode b = some ⟨42, 1, 1, arpFrame 1 hostB hostA⟩ := by decide +kernel
  obtain ⟨out, hsends, hlength, hout⟩ := packetOut_carries 4 Env.plain initial (by decide)
    (by decide) hp (by decide) ⟨fun _ _ => rfl, fun k _ => (ofBytes_add b 8 k).symm⟩ ofppFlood
  exact ⟨out, hsends.all (hsends.works plain_works), hlength, hout.decode⟩

/-! ## The length of the packet-out -/

/-- The buffer of a packet-out is as long as was meant, and what is written into it ends inside
it. -/
structure OutFits (totalLen : UInt16) (w : List Event) : Prop where
  length : ∀ a, .access a ∈ w → a.buf = .rawPktOut → a.size = pktOutHdrLen + totalLen.toNat
  inside : ∀ a, .access a ∈ w → a.buf = .rawPktOut → a.kind = .write → a.Inside

/-- An access for which the buffer of a packet-out is right. -/
def Event.OutFits (totalLen : UInt16) : Event → Prop
  | .access a => a.buf = .rawPktOut →
      a.size = pktOutHdrLen + totalLen.toNat ∧ (a.kind = .write → a.Inside)
  | _ => True

/-- The buffer of a packet-out is right when it is for every access. -/
theorem outFits_iff {totalLen : UInt16} {o : Outcome Stop State Event Unit} :
    OutFits totalLen o.events ↔ o.Safe (Event.OutFits totalLen) fun _ => False := by
  rw [Outcome.safe_of_never]
  constructor
  · intro h ev hev
    cases ev with
    | access a => exact fun hbuf => ⟨h.length a hev hbuf, h.inside a hev hbuf⟩
    | _ => trivial
  · intro h
    exact ⟨fun a ha hbuf => (h _ ha hbuf).1, fun a ha hbuf => (h _ ha hbuf).2⟩

section OutFits

variable (s : Socket) (e : Env) (st : State) (n : ℕ) (m : Mem)

/-- The buffer of a packet-out is right exactly when the length does not wrap: all of the accesses
are inside then, and the first of them finds another length otherwise. -/
theorem outFits_makeSendPacketOut (outPort : UInt16) :
    (makeSendPacketOut s ⟨.rawPktIn, n, m, 0⟩ outPort e st).Safe (Event.OutFits (field16 m 12))
      (fun _ => False) ↔ (field16 m 12).toNat ≤ 65511 := by
  have hl : ntohs (load16 m 12) = field16 m 12 := ntohs_load16 m 12
  have hsize := pktOutLen_toNat (field16 m 12)
  have hT := (field16 m 12).toNat_lt
  have h12 : Ptr.Readable ⟨.rawPktIn, n, m, 12⟩ e 2 := readable_field e (by decide) (by decide)
  have h14 : Ptr.Readable ⟨.rawPktIn, n, m, 14⟩ e 2 := readable_field e (by decide) (by decide)
  unfold makeSendPacketOut
  simp only [Ptr.totalLen, Ptr.inPort, Ptr.data, Ptr.add, Nat.zero_add]
  rw [safe_u16 st h12, safe_u16 st h14, safe_getState]
  simp only [safe_write, safe_u16 _ h12, safe_memcpy, safe_send, safe_bumpXid_end, hl,
    Nat.zero_add, ofpHeaderBytes_length, store16_length, store32_length, Event.OutFits,
    Access.Inside, reduceCtorEq, false_implies, true_implies, true_and, and_true,
    not_false_eq_true, ite_self]
  generalize (UInt16.ofNat pktOutHdrLen + field16 m 12).toNat = size at hsize
  rw [pktOutHdrLen]
  by_cases hfit : (field16 m 12).toNat ≤ 65511
  · rw [Nat.mod_eq_of_lt (by omega)] at hsize
    simp (disch := omega) only [if_pos]
    -- A frame that cannot be read is not copied.
    split_ifs
    · omega
    · rw [and_true]
      omega
  · omega

/-- The buffer of the packet-out that answers a packet-in is right exactly when there is none, or
`total_len` is at most 65511. There is none of a message that cannot be put together: it is shorter
than a header, or longer than what can be read of the payload. -/
theorem packetOut_fits_iff (hm pm : Mem) :
    let raw := repacked e hm pm n
    OutFits (field16 raw 12) (handlePacketIn s ⟨.packet, ofpHdrLen, hm, 0⟩
        ⟨.payload, payloadLen, pm, 0⟩ n e st).events ↔
      (ofpHdrLen ≤ n → n ≤ ofpHdrLen + payloadLen + e.mapped .payload → raw 16 ≠ 0 →
        PacketOutMade s e st (PacketIn.ofMem raw) → (field16 raw 12).toNat ≤ 65511) := by
  intro raw
  have hframe := safe_handleFrame s e st n raw (P := Event.OutFits (field16 raw 12))
    (fun _ _ _ _ => trivial) id fun outPort st' =>
      outFits_makeSendPacketOut s e st' n raw (htons outPort)
  have hread : ∀ off len, (frameRead n off len).OutFits (field16 raw 12) := by
    intro off len
    simp [frameRead, Event.OutFits]
  simp only [hread, implies_true, true_and] at hframe
  rw [outFits_iff, handlePacketIn_eq, safe_repack, hframe]
  -- Nothing is asked of the accesses to the other buffers.
  simp only [Event.OutFits, reduceCtorEq, false_implies, true_and, not_false_eq_true]
  split_ifs with h8 hread
  · rw [imp_iff_right h8, imp_iff_right hread]
  · rw [iff_true_left trivial]
    exact fun _ h => absurd h hread
  · rw [iff_true_left trivial]
    exact fun h => absurd h h8

end OutFits

/-- The packet-out of an ARP request that says that its frame had 65535 bytes has a buffer of 23. -/
theorem packetOut_not_fits_overlong :
    (OfpPacketIn.decode overlongPacketIn).map OfpPacketIn.totalLen = some 65535 ∧
      ¬OutFits 65535 (handlePacketIn 4 ⟨.packet, ofpHdrLen, ofBytes overlongPacketIn, 0⟩
        ⟨.payload, payloadLen, ofBytes (overlongPacketIn.drop 8), 0⟩ overlongPacketIn.length
        Env.plain initial).events := by
  refine ⟨by decide +kernel, fun h => ?_⟩
  have hlength := h.length ⟨.write, .rawPktOut, 23, 0, 8⟩ (by decide +kernel) rfl
  exact absurd hlength (by decide)

end SdnController
