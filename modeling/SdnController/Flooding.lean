import SdnController.PacketOuts

/-!
# What is flooded

`handlePacketIn` floods every frame that is neither an ARP reply nor sent to its own source, and its
comment says that this branch is only for broadcast frames. The branch asks for neither: a frame to
one host is flooded like any other, whether or not the host's port was learned.
`floods_only_broadcast_iff` is the exact condition under which nothing but a broadcast frame is
flooded.
-/

namespace SdnController

open Memory Exec

/-- The broadcast address. -/
def Mac.broadcast : Mac := ⟨0xff, 0xff, 0xff, 0xff, 0xff, 0xff⟩

/-- An address of one host, by the low bit of its first byte. -/
def Mac.Unicast (a : Mac) : Prop := a.b0 &&& 1 = 0

instance (a : Mac) : Decidable a.Unicast := inferInstanceAs (Decidable (_ = _))

/-- A message that is a packet-out to be flooded. -/
def Floods (b : List UInt8) : Prop :=
  ∃ po, PacketOut.decode b = some po ∧ ∃ maxLen, .output ofppFlood maxLen ∈ po.actions

/-- A call that is given a frame floods it only when it is a broadcast frame, and so does not flood
a frame to one host whose port was learned before. -/
structure FloodsOnlyBroadcast (s : Socket) (st : State) (p : OfpPacketIn) (w : List Event) :
    Prop where
  broadcast : ∀ s' b, .send s' b ∈ w → Floods b → p.dst = Mac.broadcast
  learned : p.dst.Unicast → findPort s st.ll p.dst ≠ 0 → ∀ s' b, .send s' b ∈ w → ¬Floods b

/-- An event that floods nothing, unless `c` allows it. -/
def Event.FloodsOnly (c : Prop) : Event → Prop
  | .send _ b => Floods b → c
  | _ => True

/-- A call floods only broadcast frames when each of its events does. -/
theorem floodsOnlyBroadcast_iff {s : Socket} {st : State} {p : OfpPacketIn}
    {o : Outcome Stop State Event Unit} :
    FloodsOnlyBroadcast s st p o.events ↔
      o.Safe (Event.FloodsOnly (p.dst = Mac.broadcast)) fun _ => False := by
  rw [Outcome.safe_of_never]
  constructor
  · intro h ev hev
    cases ev with
    | send s' b => exact h.broadcast s' b hev
    | _ => trivial
  · intro h
    refine ⟨fun s' b hb => h _ hb, fun hunicast _ s' b hb hfloods => ?_⟩
    -- The broadcast address is not the address of one host.
    have hdst : p.dst = Mac.broadcast := h _ hb hfloods
    rw [hdst] at hunicast
    exact absurd hunicast (by decide)

/-- A flow-mod floods nothing. -/
theorem not_floods_flowMod (dlSrc dlDst : Mac) (port : UInt16) (xid : UInt32) :
    ¬Floods ((Reply.flowMod dlSrc dlDst port).encode xid) := by
  rintro ⟨po, hpo, -⟩
  rw [decode_packetOut_flowMod] at hpo
  cases hpo

/-- A packet-out is flooded when its port says so. -/
theorem floods_packetOut {xid : UInt32} {inPort outPort : UInt16} {data : List UInt8}
    (h : pktOutHdrLen + data.length < 2 ^ 16) :
    Floods ((Reply.packetOut inPort outPort data).encode xid) ↔ outPort = ofppFlood := by
  unfold Floods
  simp [decode_packetOut xid inPort outPort h, eq_comm]

section Frame

variable {b : List UInt8} {p : OfpPacketIn} {m : Mem}

/-- Whether a frame is an ARP reply, in memory that holds its packet-in. -/
theorem arpReply_ofMem (hp : OfpPacketIn.decode b = some p) (hframe : 40 ≤ b.length)
    (hm : ∀ k, k < b.length → m k = ofBytes b k) :
    (PacketIn.ofMem m).arpReply = p.arpReply := by
  obtain ⟨-, rfl⟩ := OfpPacketIn.eq_of_decode hp
  unfold PacketIn.ofMem OfpPacketIn.arpReply
  rw [(frame_fields b 12).2, (frame_fields b 20).2, field16_congr hm (show 30 + 2 ≤ _ by omega),
    field16_congr hm (show 38 + 2 ≤ _ by omega)]

end Frame

section Flooding

variable (s : Socket) (e : Env) (st : State)

/-- A packet-out is allowed when it is not sent, when it is not to be flooded, or when flooding is
allowed. -/
theorem floodsOnly_makeSendPacketOut {c : Prop} (n : ℕ) (m : Mem) (outPort : UInt16) :
    (makeSendPacketOut s ⟨.rawPktIn, n, m, 0⟩ (htons outPort) e st).Safe (Event.FloodsOnly c)
      (fun _ => False) ↔
        ((field16 m 12).toNat < 65512 → 18 + (field16 m 12).toNat ≤ n + e.mapped .rawPktIn →
          e.sendFails ((Reply.packetOut (field16 m 14) outPort
            (bytesAt m 18 (field16 m 12).toNat)).encode st.xid) = false →
              outPort = ofppFlood → c) := by
  rw [safe_makeSendPacketOut_sends s e st n m (fun _ => id) (fun _ _ => trivial)
    fun _ _ _ _ => trivial]
  have hfit : 24 + (field16 m 12).toNat < 2 ^ 16 ↔ (field16 m 12).toNat < 65512 := by omega
  rw [hfit]
  refine imp_congr_right fun h => imp_congr_right fun _ => imp_congr_right fun _ =>
    imp_congr_left ?_
  refine floods_packetOut ?_
  rw [bytesAt_length, pktOutHdrLen]
  omega

/-- The two copies of a packet-in of `n` bytes, into its own buffer and into that of a packet-out,
can be read to their ends. -/
def CopiesReadable (e : Env) (n totalLen : ℕ) : Prop :=
  n ≤ ofpHdrLen + payloadLen + e.mapped .payload ∧ 18 + totalLen ≤ n + e.mapped .rawPktIn

/-- What is flooded of a packet-in whose frame has the fields of an ARP packet is a broadcast frame
exactly when the frame is one, or it is an ARP reply, or it is sent to its own source, or its
packet-out is not sent: `total_len` is too great for it, or the process is killed by the read of
what it copies, or the send fails. -/
theorem floods_only_broadcast_iff {b : List UInt8} {p : OfpPacketIn} {hm pm : Mem}
    (hlength : (header b).length.toNat = b.length) (hp : OfpPacketIn.decode b = some p)
    (hreason : p.reason ≠ 0) (hframe : 22 ≤ p.data.length) (hbuf : InBuffers b hm pm) :
    FloodsOnlyBroadcast s st p (handlePacketIn s ⟨.packet, ofpHdrLen, hm, 0⟩
        ⟨.payload, payloadLen, pm, 0⟩ (header b).length.toNat e st).events ↔
      p.dst = Mac.broadcast ∨ p.arpReply = true ∨ p.dst = p.src ∨ 65512 ≤ p.totalLen.toNat ∨
        ¬CopiesReadable e b.length p.totalLen.toNat ∨
          e.sendFails ((Reply.packetOut p.inPort ofppFlood (bytesAt
            (repacked e hm pm (header b).length.toNat) 18 p.totalLen.toNat)).encode st.xid) =
              true := by
  rw [hlength]
  have hrepacked : ∀ k, k < b.length → repacked e hm pm b.length k = ofBytes b k :=
    fun k hk => repacked_eq hbuf e hk
  have hlen : 40 ≤ b.length := by
    rw [(OfpPacketIn.eq_of_decode hp).2, List.length_drop] at hframe
    omega
  obtain ⟨htotal, hport, h16⟩ := packetIn_fixed hp (by omega) hrepacked
  obtain ⟨-, hdst, hsrc⟩ := packetIn_fields hp (by omega) hrepacked
  have harp := arpReply_ofMem hp hlen hrepacked
  have h8 : ofpHdrLen ≤ b.length := by
    rw [ofpHdrLen]
    omega
  rw [floodsOnlyBroadcast_iff, handlePacketIn_eq, safe_repack, if_pos h8]
  generalize repacked e hm pm b.length = raw at hport hdst hsrc harp htotal h16 ⊢
  have hdst : (PacketIn.ofMem raw).dst = p.dst := hdst
  have hsrc : (PacketIn.ofMem raw).src = p.src := hsrc
  have hexit : ¬(fun _ : Stop => False) .exit := id
  -- A packet-out through the table floods nothing, and the other one is flooded if it is sent.
  have htable : ∀ st', (makeSendPacketOut s ⟨.rawPktIn, b.length, raw, 0⟩ (htons ofppTable) e
      st').Safe (Event.FloodsOnly (p.dst = Mac.broadcast)) (fun _ => False) ↔ True := by
    intro st'
    rw [floodsOnly_makeSendPacketOut]
    exact iff_true_intro fun _ _ _ h => absurd h (by decide)
  have hflood := fun ll => floodsOnly_makeSendPacketOut (c := p.dst = Mac.broadcast) s e
    { st with ll := ll } b.length raw ofppFlood
  simp only [htotal, hport, true_implies] at hflood
  have hflow : ∀ dlSrc dlDst port xid, (Event.send s ((Reply.flowMod dlSrc dlDst port).encode
      xid)).FloodsOnly (p.dst = Mac.broadcast) :=
    fun dlSrc dlDst port xid h => (not_floods_flowMod dlSrc dlDst port xid h).elim
  rw [safe_handleFrame_ports s e st b.length raw hflow hexit htable hflood, harp, hdst, hsrc]
  simp only [Event.FloodsOnly, frameRead, h16, hreason, ne_eq, not_false_eq_true, true_and,
    true_implies, implies_true]
  generalize e.sendFails _ = fails
  rw [← not_lt (b := 65512)]
  unfold CopiesReadable
  by_cases hread : b.length ≤ ofpHdrLen + payloadLen + e.mapped .payload
  · rw [if_pos hread]
    by_cases hreply : p.arpReply = true
    · simp [hreply]
    · rw [if_neg hreply]
      grind
  · -- The message is not even put together.
    simp [hread]

end Flooding

/-- A broadcast ARP request is flooded, and only because it is one. -/
theorem floods_only_broadcast_request :
    let b := packetInBytes 1 (arpFrame 1 Mac.broadcast hostA)
    FloodsOnlyBroadcast 4 initial ⟨42, 1, 1, arpFrame 1 Mac.broadcast hostA⟩
      (handlePacketIn 4 ⟨.packet, ofpHdrLen, ofBytes b, 0⟩
        ⟨.payload, payloadLen, ofBytes (b.drop 8), 0⟩ (header b).length.toNat Env.plain
        initial).events := by
  intro b
  have hp : OfpPacketIn.decode b = some ⟨42, 1, 1, arpFrame 1 Mac.broadcast hostA⟩ := by
    decide +kernel
  exact (floods_only_broadcast_iff 4 Env.plain initial (by decide) hp (by decide) (by decide)
    ⟨fun _ _ => rfl, fun k _ => (ofBytes_add b 8 k).symm⟩).mpr (.inl (by decide))

/-- Host B asks for host A, whose address and port the controller knows: it learned them from host
A's own request. -/
def knownRequest : List UInt8 := packetInBytes 2 (arpFrame 1 hostA hostB)

/-- The request to the known host is flooded. -/
theorem floods_known_unicast :
    let p : OfpPacketIn := ⟨42, 2, 1, arpFrame 1 hostA hostB⟩
    let st := (run step [request 4] initial).st
    (run step [request 4] initial).ret.isOk = true ∧ OfpPacketIn.decode knownRequest = some p ∧
      p.dst.Unicast ∧ findPort 4 st.ll p.dst = 1 ∧
      ¬FloodsOnlyBroadcast 4 st p (handlePacketIn 4 ⟨.packet, ofpHdrLen, ofBytes knownRequest, 0⟩
        ⟨.payload, payloadLen, ofBytes (knownRequest.drop 8), 0⟩ (header knownRequest).length.toNat
        Env.plain st).events := by
  intro p st
  have hp : OfpPacketIn.decode knownRequest = some p := by decide +kernel
  have hport : findPort 4 st.ll p.dst = 1 := by decide +kernel
  have hsent : .send 4 ((Reply.packetOut 2 ofppFlood p.data).encode 2) ∈ (handlePacketIn 4
      ⟨.packet, ofpHdrLen, ofBytes knownRequest, 0⟩
      ⟨.payload, payloadLen, ofBytes (knownRequest.drop 8), 0⟩ (header knownRequest).length.toNat
      Env.plain st).events := by decide +kernel
  refine ⟨by decide +kernel, hp, by decide, hport, fun h => ?_⟩
  have hnot := h.learned (by decide) (by rw [hport]; decide) 4 _ hsent
  exact hnot ((floods_packetOut (by decide)).mpr rfl)

end SdnController
