import SdnController.SwitchTable

/-!
# An ARP reply is delivered

What the switch makes of the answer to an ARP reply, whose destination the controller has seen
before. The answer is two flow-mods and a packet-out to `OFPP_TABLE`, so the switch looks the reply
up in the table that the flow-mods have just changed: it goes out of the port on which its
destination was seen, and the frames that come back go out of the port on which the reply came in
(`arp_reply_delivered`). What the table held before does not matter, since the entries of the
controller are exact in both addresses and of one priority.
-/

namespace SdnController

open Memory Exec KeyedLists

/-- The entries of the controller compare the two addresses, and nothing else. -/
theorem pairMatch_accepts (dlSrc dlDst : Mac) (hdr : FrameHeader) :
    (pairMatch dlSrc dlDst).accepts hdr = true ↔ dlSrc = hdr.dlSrc ∧ dlDst = hdr.dlDst := by
  have hwild : ∀ bit, (pairMatch dlSrc dlDst).wild bit = ((0x00100013 : UInt32) &&& bit != 0) :=
    fun _ => rfl
  -- Of the bits that are looked at, those of the two addresses alone are not set.
  have hin : ((0x00100013 : UInt32) &&& 0x1 != 0) = true := by decide
  have hvlan : ((0x00100013 : UInt32) &&& 0x2 != 0) = true := by decide
  have hsrc : ((0x00100013 : UInt32) &&& 0x4 != 0) = false := by decide
  have hdst : ((0x00100013 : UInt32) &&& 0x8 != 0) = false := by decide
  have hpcp : ((0x00100013 : UInt32) &&& 0x100000 != 0) = true := by decide
  have htype : ((0x00100013 : UInt32) &&& 0x10 != 0) = true := by decide
  unfold OfpMatch.accepts
  simp only [hwild, hin, hvlan, hsrc, hdst, hpcp, htype]
  simp [pairMatch]

section Lookup

variable {t : FlowTable} {hdr : FrameHeader}

/-- A frame of a pair that was just given a flow is forwarded by that flow alone. -/
theorem Controlled.lookup_add_self (ht : Controlled t) {f : FlowNode} (hsrc : hdr.dlSrc = f.srcMac)
    (hdst : hdr.dlDst = f.dstMac) : (t.add f.entry).lookup hdr = [[.output f.port 0]] := by
  have hself : f.entry.fields.accepts hdr = true :=
    (pairMatch_accepts ..).mpr ⟨hsrc.symm, hdst.symm⟩
  -- The entries that are left from before are for other pairs.
  have hother : ∀ e ∈ t.filter (!f.entry.sameFlow ·), ¬e.fields.accepts hdr = true := by
    intro e he hacc
    obtain ⟨he, hsame⟩ := List.mem_filter.mp he
    obtain ⟨g, rfl⟩ := ht e he
    obtain ⟨hgsrc, hgdst⟩ := (pairMatch_accepts ..).mp hacc
    have hfg : f.entry.sameFlow g.entry = true :=
      (sameFlow_entry f g).mpr ⟨hsrc.symm.trans hgsrc.symm, hdst.symm.trans hgdst.symm⟩
    rw [hfg] at hsame
    exact absurd hsame (by decide)
  have hcand : (t.add f.entry).candidates hdr = [f.entry] := by
    unfold FlowTable.candidates FlowTable.add
    rw [List.filter_cons_of_pos (p := fun e : FlowEntry => e.fields.accepts hdr) hself,
      List.filter_eq_nil_iff.mpr hother]
  unfold FlowTable.lookup
  rw [hcand]
  simp [FlowNode.entry]

/-- A frame of another pair is forwarded as before. -/
theorem Controlled.lookup_add_ne (ht : Controlled t) {f : FlowNode}
    (hne : ¬(hdr.dlSrc = f.srcMac ∧ hdr.dlDst = f.dstMac)) :
    (t.add f.entry).lookup hdr = t.lookup hdr := by
  have hself : ¬f.entry.fields.accepts hdr = true := by
    intro hacc
    obtain ⟨hsrc, hdst⟩ := (pairMatch_accepts ..).mp hacc
    exact hne ⟨hsrc.symm, hdst.symm⟩
  have hkeep : ∀ e ∈ t, (e.fields.accepts hdr && !f.entry.sameFlow e) = e.fields.accepts hdr := by
    intro e he
    cases hacc : e.fields.accepts hdr with
    | false => rfl
    | true =>
      obtain ⟨g, rfl⟩ := ht e he
      obtain ⟨hsrc, hdst⟩ := (pairMatch_accepts ..).mp hacc
      have hfg : ¬f.entry.sameFlow g.entry = true := by
        rw [sameFlow_entry]
        rintro ⟨hs, hd⟩
        exact hne ⟨hsrc.symm.trans hs.symm, hdst.symm.trans hd.symm⟩
      simpa using hfg
  have hcand : (t.add f.entry).candidates hdr = t.candidates hdr := by
    unfold FlowTable.candidates FlowTable.add
    rw [List.filter_cons_of_neg (p := fun e : FlowEntry => e.fields.accepts hdr) hself,
      List.filter_filter]
    exact List.filter_congr hkeep
  unfold FlowTable.lookup
  rw [hcand]

end Lookup

section Delivered

variable {is : List Input} {i : Input} {st st' : State} {w w' : List Event} {a : ℤ × List UInt8}
  {p : OfpPacketIn}

/-- The frame of a message that a step completes with is short enough for a packet-out. -/
theorem data_length_of_step_ok (hi : step i st = ⟨.ok a, st', w'⟩) (hwf : WellFormed 22 i.stream)
    (hp : i.packetIn = some p) : pktOutHdrLen + p.data.length < 2 ^ 16 := by
  have hmost := length_le_of_step_ok hwf hi
  have hlength := (hwf.packetIn_length hp).2
  unfold pktOutHdrLen
  omega

/-- The answer to an ARP reply, in a reachable state. -/
theorem sendsOn_arpReply (hst : st.Sane) (hi : step i st = ⟨.ok a, st', w'⟩) (hwhole : Whole i)
    (hp : i.packetIn = some p) (harp : p.arpReply = true) (hne : p.src ≠ p.dst) :
    sendsOn i.socket w' = numbered st.xid
      [.flowMod p.dst p.src p.inPort, .flowMod p.src p.dst (findPort i.socket st.ll p.dst),
        .packetOut p.inPort ofppTable p.data] := by
  have hmsg := msg_packetIn hwhole.wellFormed hp (hwhole.totalLen p hp)
  have hport : ((st.view i.socket).learn p.src p.inPort).port p.dst =
      findPort i.socket st.ll p.dst := by
    rw [findPort_eq]
    exact (st.view i.socket).port_learn_ne p.inPort (Ne.symm hne)
  rw [step_sendsOn i.socket hst hi, if_pos rfl, hmsg]
  simp only [Switch.react, Switch.packetIn, harp, if_true, hport]

/-- An ARP reply is answered with two flow-mods and a packet-out. When the switch has applied them
to whatever flows it had from the controller, the frame in the packet-out is the frame received and
goes to the port on which its destination was seen, and the frames in the other direction go to the
port on which it came in. Nothing changes for a destination that was not seen, whose port is 0. -/
theorem arp_reply_delivered (h : run step is initial = ⟨.ok (), st, w⟩)
    (hi : step i st = ⟨.ok a, st', w'⟩) (hwhole : Whole i) (hp : i.packetIn = some p)
    (harp : p.arpReply = true) (hne : p.src ≠ p.dst) :
    Controlled (switchTable i.socket w) ∧
    ∃ fm₁ fm₂ out po, sendsOn i.socket w' = [fm₁, fm₂, out] ∧
      PacketOut.decode out = some po ∧ po.actions = [.output ofppTable 0] ∧ po.data = p.data ∧
      ∀ t, Controlled t → ∀ hdr : FrameHeader,
        (hdr.dlSrc = p.src → hdr.dlDst = p.dst →
          (t.receiveAll [fm₁, fm₂, out]).lookup hdr =
            [[.output (findPort i.socket st.ll p.dst) 0]]) ∧
        (hdr.dlSrc = p.dst → hdr.dlDst = p.src →
          (t.receiveAll [fm₁, fm₂, out]).lookup hdr = [[.output p.inPort 0]]) := by
  have hst := run_sane h
  have hsent := sendsOn_arpReply hst hi hwhole hp harp hne
  generalize findPort i.socket st.ll p.dst = port at hsent ⊢
  have hfit := data_length_of_step_ok hi hwhole.wellFormed hp
  refine ⟨run_controlled h i.socket, _, _, _, _, hsent, decode_packetOut _ _ _ hfit, rfl, rfl, ?_⟩
  intro t ht hdr
  have htable : t.receiveAll (numbered st.xid [.flowMod p.dst p.src p.inPort,
      .flowMod p.src p.dst port, .packetOut p.inPort ofppTable p.data]) =
      (t.add (FlowNode.entry ⟨p.src, p.dst, p.inPort⟩)).add (FlowNode.entry ⟨p.dst, p.src, port⟩) :=
    receiveAll_numbered ..
  have ht' : Controlled (t.add (FlowNode.entry ⟨p.src, p.dst, p.inPort⟩)) :=
    ht.applyTo (.flowMod p.dst p.src p.inPort)
  simp only [numbered] at htable ⊢
  rw [htable]
  -- The second flow is for the frame itself, and leaves what the first does to the other direction.
  refine ⟨fun hsrc hdst => ht'.lookup_add_self hsrc hdst, fun hsrc hdst => ?_⟩
  rw [ht'.lookup_add_ne fun hpair => hne (hpair.1.symm.trans hsrc)]
  exact ht.lookup_add_self hsrc hdst

end Delivered

/-- Host B answers host A: the switch sends the answer to the port of host A. -/
theorem arp_reply_delivered_conversation :
    (FlowTable.receiveAll []
      (sendsOn 4 (step (reply 4) (run step [request 4] initial).st).events)).lookup
      ⟨2, hostB, hostA, 0xffff, 0, 0x0806, fun _ => true⟩ = [[.output 1 0]] := by
  have h := run_of_isOk step [request 4] initial (by decide +kernel)
  obtain ⟨a, hi⟩ := Outcome.eq_ok (o := step (reply 4) (run step [request 4] initial).st)
    (by decide +kernel)
  have hp : (reply 4).packetIn = some ⟨42, 2, 1, arpFrame 2 hostA hostB⟩ := by decide +kernel
  obtain ⟨-, fm₁, fm₂, out, po, hsent, -, -, -, hlookup⟩ :=
    arp_reply_delivered h hi (by decide +kernel) hp (by decide +kernel) (by decide +kernel)
  have hport : findPort 4 (run step [request 4] initial).st.ll hostA = 1 := by decide +kernel
  have hnil : Controlled [] := fun e he => absurd he List.not_mem_nil
  have hout := (hlookup [] hnil ⟨2, hostB, hostA, 0xffff, 0, 0x0806, fun _ => true⟩).1 rfl rfl
  rw [← hport, ← hsent] at *
  exact hout

end SdnController
