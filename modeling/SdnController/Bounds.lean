import SdnController.Runs

/-!
# The buffers

What the controller asks of `recv`, and which bytes it reads and writes in the buffers whose sizes
depend on what a switch sends. Every program here is executed symbolically by one lemma for each
primitive (`safe_touch`, `safe_send`, and the others), which turns "every event of the program is
allowed" into a condition on the lengths in the message.
-/

namespace SdnController

open Memory Exec

/-! ## Primitives -/

section Primitives

variable {α : Type} {P : Event → Prop} {bad : Stop → Prop} (p : Ptr) (e : Env) (st : State)

/-- What is in its buffer can be read. -/
theorem Ptr.readable_inside {p : Ptr} {len : ℤ} (e : Env) (hlen : 0 ≤ len)
    (h : (p.off : ℤ) + len ≤ p.size) : p.Readable e len :=
  ⟨hlen, by omega⟩

/-- A recorded access goes on, or is a read of memory that the process does not have. -/
theorem safe_touch (kind : AccessKind) (n : ℤ) (f : Unit → Ctl α) :
    ((p.touch kind n >>= f) e st).Safe P bad ↔
      P (.access ⟨kind, p.buf, p.size, p.off, n⟩) ∧
        if kind = .read ∧ ¬p.Readable e n then ¬bad .fault else (f () e st).Safe P bad := by
  have hx := touch_apply p e st kind n
  split_ifs with h
  · rw [if_pos h] at hx
    rw [safe_bind_of_error f hx, List.forall_mem_singleton]
  · rw [if_neg h] at hx
    rw [safe_bind_of_ok f hx, List.forall_mem_singleton]

section Read

variable {p e}

/-- A read that the process can make. -/
theorem safe_read {n : ℤ} (hr : p.Readable e n) (f : Unit → Ctl α) :
    ((p.touch .read n >>= f) e st).Safe P bad ↔
      P (.access ⟨.read, p.buf, p.size, p.off, n⟩) ∧ (f () e st).Safe P bad := by
  rw [safe_bind_of_ok f (read_apply hr st), List.forall_mem_singleton]

/-- A read of a word. -/
theorem safe_u16 (hr : p.Readable e 2) (f : UInt16 → Ctl α) :
    ((p.u16 >>= f) e st).Safe P bad ↔
      P (.access ⟨.read, p.buf, p.size, p.off, 2⟩) ∧ (f (load16 p.mem p.off) e st).Safe P bad := by
  unfold Ptr.u16
  rw [prog_bind_assoc, safe_read st hr]
  rfl

/-- A read of a byte. -/
theorem safe_byte (hr : p.Readable e 1) (f : UInt8 → Ctl α) :
    ((p.byte >>= f) e st).Safe P bad ↔
      P (.access ⟨.read, p.buf, p.size, p.off, 1⟩) ∧ (f (p.mem p.off) e st).Safe P bad := by
  unfold Ptr.byte
  rw [prog_bind_assoc, safe_read st hr]
  rfl

/-- A read of an address. -/
theorem safe_mac (hr : p.Readable e 6) (f : Mac → Ctl α) :
    ((p.mac >>= f) e st).Safe P bad ↔
      P (.access ⟨.read, p.buf, p.size, p.off, 6⟩) ∧ (f (Mac.at p.mem p.off) e st).Safe P bad := by
  unfold Ptr.mac
  rw [prog_bind_assoc, safe_read st hr]
  rfl

end Read

theorem safe_getState (f : State → Ctl α) :
    ((getState >>= f) e st).Safe P bad ↔ (f st e st).Safe P bad := by
  rw [safe_bind_of_ok f (getState_apply e st)]
  simp

theorem safe_ask (f : Env → Ctl α) : ((ask >>= f) e st).Safe P bad ↔ (f e e st).Safe P bad := by
  rw [safe_bind_of_ok f (ask_apply e st)]
  simp

theorem safe_modifyState (g : State → State) (f : Unit → Ctl α) :
    ((modifyState g >>= f) e st).Safe P bad ↔ (f () e (g st)).Safe P bad := by
  rw [safe_bind_of_ok f (modifyState_apply g e st)]
  simp

theorem safe_bumpXid (f : Unit → Ctl α) :
    ((bumpXid >>= f) e st).Safe P bad ↔ (f () e { st with xid := st.xid + 1 }).Safe P bad :=
  safe_modifyState e st _ f

theorem safe_saveFlow (s : Socket) (dstMac srcMac : Mac) (port : UInt16) (f : Unit → Ctl α) :
    ((saveFlow s dstMac srcMac port >>= f) e st).Safe P bad ↔
      (f () e { st with
        flows := (addFlowNode s st.flows dstMac srcMac port).2 }).Safe P bad :=
  safe_modifyState e st _ f

/-- A send goes on, or ends the process. -/
theorem safe_send (s : Socket) (b : List UInt8) (f : Unit → Ctl α) :
    ((sendOrExit s b >>= f) e st).Safe P bad ↔
      if e.sendFails b = true then ¬bad .exit else P (.send s b) ∧ (f () e st).Safe P bad := by
  by_cases h : e.sendFails b = true
  · have hx : sendOrExit s b e st = ⟨.error .exit, st, []⟩ := by simp [sendOrExit, h]
    rw [safe_bind_of_error f hx, if_pos h]
    simp
  · have hx : sendOrExit s b e st = ⟨.ok (), st, [.send s b]⟩ := by simp [sendOrExit, h]
    rw [safe_bind_of_ok f hx, if_neg h, List.forall_mem_singleton]

/-- A write from a variable goes on, or leaves its buffer. -/
theorem safe_write (src : List UInt8) (f : Mem → Ctl α) :
    ((p.write src >>= f) e st).Safe P bad ↔
      P (.access ⟨.write, p.buf, p.size, p.off, src.length⟩) ∧
        if p.off + src.length ≤ p.size then (f (memcpy p.mem p.off src) e st).Safe P bad
        else ¬bad .overflow := by
  unfold Ptr.write
  rw [prog_bind_assoc, safe_touch, if_neg (by simp)]
  refine and_congr_right fun _ => ?_
  by_cases h : p.off + src.length ≤ p.size
  · rw [if_pos h, if_pos h]
    rfl
  · rw [if_neg h, if_neg h, safe_bind_of_error f (stop_apply _ e st)]
    simp

/-- A copy between buffers goes on, or leaves its destination, or reads what is not there. -/
theorem safe_memcpy (dst : Ptr) (n : ℤ) (f : Mem → Ctl α) :
    ((dst.memcpy p n >>= f) e st).Safe P bad ↔
      P (.access ⟨.read, p.buf, p.size, p.off, n⟩) ∧
        if p.Readable e n then
          P (.access ⟨.write, dst.buf, dst.size, dst.off, n⟩) ∧
            if 0 ≤ n ∧ (dst.off : ℤ) + n ≤ dst.size then
              (f (memcpy dst.mem dst.off (bytesAt p.mem p.off n.toNat)) e st).Safe P bad
            else ¬bad .overflow
        else ¬bad .fault := by
  unfold Ptr.memcpy
  rw [prog_bind_assoc, safe_touch]
  refine and_congr_right fun _ => ?_
  by_cases hr : p.Readable e n
  · rw [if_neg (by simp [hr]), if_pos hr, prog_bind_assoc, safe_touch, if_neg (by simp)]
    refine and_congr_right fun _ => ?_
    by_cases h : 0 ≤ n ∧ (dst.off : ℤ) + n ≤ dst.size
    · rw [if_pos h, if_pos h]
      rfl
    · rw [if_neg h, if_neg h, safe_bind_of_error f (stop_apply _ e st)]
      simp
  · rw [if_pos ⟨rfl, hr⟩, if_neg hr]

/-- Repacking goes on when the message is as long as a header, and no longer than what the process
can read of the payload. -/
theorem safe_repack (hm pm : Mem) (n : ℕ) (f : Ptr → Ctl α) :
    ((repack ⟨.packet, ofpHdrLen, hm, 0⟩ ⟨.payload, payloadLen, pm, 0⟩ n >>= f) e st).Safe P bad ↔
      P (.access ⟨.read, .packet, ofpHdrLen, 0, ofpHdrLen⟩) ∧
        P (.access ⟨.write, .rawPktIn, n, 0, ofpHdrLen⟩) ∧
        if ofpHdrLen ≤ n then
          P (.access ⟨.read, .payload, payloadLen, 0, (n : ℤ) - ofpHdrLen⟩) ∧
            if n ≤ ofpHdrLen + payloadLen + e.mapped .payload then
              P (.access ⟨.write, .rawPktIn, n, ofpHdrLen, (n : ℤ) - ofpHdrLen⟩) ∧
                (f ⟨.rawPktIn, n, repacked e hm pm n, 0⟩ e st).Safe P bad
            else ¬bad .fault
        else ¬bad .overflow := by
  have hheader : Ptr.Readable ⟨.packet, ofpHdrLen, hm, 0⟩ e ofpHdrLen :=
    Ptr.readable_inside e (by decide) (by simp)
  unfold repack
  simp only [prog_bind_assoc]
  rw [safe_ask, safe_memcpy, if_pos hheader]
  refine and_congr_right fun _ => and_congr_right fun _ => ?_
  by_cases h : ofpHdrLen ≤ n
  · have hreach : Ptr.Readable ⟨.payload, payloadLen, pm, 0⟩ e ((n : ℤ) - ofpHdrLen) ↔
        n ≤ ofpHdrLen + payloadLen + e.mapped .payload := by
      unfold Ptr.Readable
      simp only
      omega
    rw [if_pos h, if_pos (by simp only; omega), safe_memcpy]
    have hfit : 0 ≤ (n : ℤ) - ofpHdrLen ∧ (ofpHdrLen : ℤ) + ((n : ℤ) - ofpHdrLen) ≤ n := by omega
    simp only [hreach]
    rw [if_pos hfit]
    rfl
  · rw [if_neg h, if_neg (by simp only; omega)]

/-- A send at the end of a program. -/
theorem safe_sendOrExit (s : Socket) (b : List UInt8) :
    (sendOrExit s b e st).Safe P bad ↔
      if e.sendFails b = true then ¬bad .exit else P (.send s b) := by
  by_cases h : e.sendFails b = true <;> simp [sendOrExit, h, Outcome.safe_ok, Outcome.safe_error]

/-- `xid++` at the end of a program. -/
theorem safe_bumpXid_end : (bumpXid e st).Safe P bad ↔ True := by
  unfold bumpXid
  rw [modifyState_apply, Outcome.safe_ok]
  simp

theorem safe_ite {c : Prop} [Decidable c] {x y : Ctl α} :
    ((if c then x else y) e st).Safe P bad ↔
      if c then (x e st).Safe P bad else (y e st).Safe P bad := by
  split_ifs <;> rfl

theorem safe_pure (a : α) : ((pure a : Ctl α) e st).Safe P bad ↔ True := by
  rw [pure_apply, Outcome.safe_ok]
  simp

end Primitives

/-! ## Handling a frame -/

/-- The fields of a packet-in can be read, whether or not they are in the message. -/
theorem readable_field (e : Env) {n : ℕ} {m : Mem} {off : ℕ} {len : ℤ} (hlen : 0 ≤ len)
    (h : (off : ℤ) + len ≤ payloadLen) : Ptr.Readable ⟨.rawPktIn, n, m, off⟩ e len := by
  have hcallers := e.callers
  refine ⟨hlen, ?_⟩
  simp only
  omega

/-- No flow-mod that comes before the packet-out of an ARP reply fails. -/
def FlowModsSent (s : Socket) (e : Env) (st : State) (p : PacketIn) : Prop :=
  e.sendFails ((Reply.flowMod p.dst p.src p.inPort).encode st.xid) = false ∧
    e.sendFails ((Reply.flowMod p.src p.dst
      (findPort s (addPathNode s st.ll p.src p.inPort).2 p.dst)).encode (st.xid + 1)) = false

/-- A packet-out is made: after an ARP reply's two flow-mods when neither fails, and otherwise for
a frame that is not sent to its own source. -/
def PacketOutMade (s : Socket) (e : Env) (st : State) (p : PacketIn) : Prop :=
  if p.arpReply then FlowModsSent s e st p else p.dst ≠ p.src

section Frame

variable {α : Type} {P : Event → Prop} {bad : Stop → Prop} (s : Socket) (e : Env) (st : State)
  (n : ℕ) (m : Mem)

/-- A read of the repacked message, which is `n` bytes long. -/
def frameRead (n off : ℕ) (len : ℤ) : Event := .access ⟨.read, .rawPktIn, n, off, len⟩

/-- `isArpReply` reads the operation only of an ARP packet. -/
theorem safe_isArpReply (f : ℤ → Ctl α) :
    ((isArpReply ⟨.rawPktIn, n, m, 18⟩ >>= f) e st).Safe P bad ↔
      P (frameRead n 30 2) ∧ (field16 m 30 = 0x0806 → P (frameRead n 38 2)) ∧
        (f (if (PacketIn.ofMem m).arpReply then 1 else 0) e st).Safe P bad := by
  have hcode : ntohs (load16 m 30) = field16 m 30 := ntohs_load16 m 30
  have hopcode : ntohs (load16 m 38) = field16 m 38 := ntohs_load16 m 38
  have h30 : Ptr.Readable ⟨.rawPktIn, n, m, 30⟩ e 2 := readable_field e (by decide) (by decide)
  have h38 : Ptr.Readable ⟨.rawPktIn, n, m, 38⟩ e 2 := readable_field e (by decide) (by decide)
  unfold isArpReply PacketIn.ofMem
  simp only [Ptr.add, Nat.reduceAdd]
  rw [prog_bind_assoc, safe_u16 st h30]
  simp only [hcode]
  refine and_congr_right fun _ => ?_
  by_cases h : field16 m 30 = 0x0806
  · rw [if_neg (not_not.mpr h), prog_bind_assoc, safe_u16 st h38]
    simp only [hopcode, h, true_and, true_implies]
    refine and_congr_right fun _ => ?_
    by_cases h' : field16 m 38 = 0x0002 <;> simp [h']
  · simp [h]

/-- `isLoopback` reads the two addresses. -/
theorem safe_isLoopback (f : ℤ → Ctl α) :
    ((isLoopback ⟨.rawPktIn, n, m, 18⟩ >>= f) e st).Safe P bad ↔
      P (frameRead n 18 6) ∧ P (frameRead n 24 6) ∧
        (f (if Mac.at m 18 = Mac.at m 24 then 1 else 0) e st).Safe P bad := by
  have h18 : Ptr.Readable ⟨.rawPktIn, n, m, 18⟩ e 6 := readable_field e (by decide) (by decide)
  have h24 : Ptr.Readable ⟨.rawPktIn, n, m, 24⟩ e 6 := readable_field e (by decide) (by decide)
  unfold isLoopback
  simp only [Ptr.add, Nat.reduceAdd]
  rw [prog_bind_assoc, safe_mac st h18, prog_bind_assoc, safe_mac st h24]
  refine and_congr_right fun _ => and_congr_right fun _ => ?_
  by_cases h : Mac.at m 18 = Mac.at m 24 <;> simp [h]

section Flows

variable (hflow : ∀ dlSrc dlDst port xid, P (.send s ((Reply.flowMod dlSrc dlDst port).encode xid)))
  (hexit : ¬bad .exit)

include hflow hexit

/-- `sendLoopFlow` reads the port and the addresses. -/
theorem safe_sendLoopFlow :
    (sendLoopFlow s ⟨.rawPktIn, n, m, 0⟩ e st).Safe P bad ↔
      P (frameRead n 14 2) ∧ P (frameRead n 18 6) ∧ P (frameRead n 24 6) := by
  have hsend : ∀ dlSrc dlDst,
      P (.send s (bytesAt (rawFlowmod st.xid dlSrc dlDst (load16 m 14)) 0 ofpFlowmodLen)) := by
    intro dlSrc dlDst
    rw [flowmodBuffer]
    exact hflow ..
  unfold sendLoopFlow frameRead
  simp (disch := exact readable_field e (by decide) (by decide)) only [Ptr.inPort, Ptr.data,
    Ptr.add, safe_u16, safe_getState, safe_mac, safe_saveFlow, safe_sendOrExit, hsend, hexit,
    Nat.zero_add, Nat.reduceAdd, not_false_eq_true, ite_self, and_true]
  tauto

/-- `establishFlows` reads the port and the addresses, and goes on unless a send fails. -/
theorem safe_establishFlows {f : Unit → Ctl α} {R : Prop}
    (hf : ∀ st', (f () e st').Safe P bad ↔ R) :
    ((establishFlows s ⟨.rawPktIn, n, m, 0⟩ >>= f) e st).Safe P bad ↔
      P (frameRead n 14 2) ∧ P (frameRead n 18 6) ∧ P (frameRead n 24 6) ∧
        (e.sendFails ((Reply.flowMod (Mac.at m 18) (Mac.at m 24) (field16 m 14)).encode st.xid) =
            false →
          e.sendFails ((Reply.flowMod (Mac.at m 24) (Mac.at m 18)
            (findPort s st.ll (Mac.at m 18))).encode (st.xid + 1)) = false → R) := by
  have h₁ := hflow (Mac.at m 18) (Mac.at m 24) (field16 m 14) st.xid
  have h₂ := hflow (Mac.at m 24) (Mac.at m 18) (findPort s st.ll (Mac.at m 18)) (st.xid + 1)
  rw [← flowmodBuffer] at h₁ ⊢
  rw [← patchedBuffer (st.xid + 1) _ _ st.xid (Mac.at m 18) (Mac.at m 24) (load16 m 14)] at h₂ ⊢
  unfold patchFlowmod at h₂ ⊢
  unfold establishFlows frameRead
  simp (disch := exact readable_field e (by decide) (by decide)) only [prog_bind_assoc, Ptr.inPort,
    Ptr.data, Ptr.add, safe_u16, safe_getState, safe_mac, safe_saveFlow, safe_send, safe_bumpXid,
    h₁, h₂, hexit, hf, Nat.zero_add, Nat.reduceAdd, not_false_eq_true, true_and]
  generalize e.sendFails (bytesAt (rawFlowmod _ _ _ _) 0 _) = fails₁
  generalize e.sendFails (bytesAt (memcpy _ _ _) 0 _) = fails₂
  cases fails₁ <;> cases fails₂ <;> simp <;> tauto

end Flows

/-- `makeSendPacketOut` reads the port, `total_len`, and as many bytes of the frame as that says, if
it can, and sends the packet-out. When the length of the message does not fit its field, it writes
past its buffer instead, with the fixed part or with the frame. -/
theorem safe_makeSendPacketOut_iff
    (hout : ∀ kind size off len, P (.access ⟨kind, .rawPktOut, size, off, len⟩))
    (outPort : UInt16) :
    (makeSendPacketOut s ⟨.rawPktIn, n, m, 0⟩ (htons outPort) e st).Safe P bad ↔
      P (frameRead n 12 2) ∧ P (frameRead n 14 2) ∧
        if 24 + (field16 m 12).toNat < 2 ^ 16 then
          P (frameRead n 18 (field16 m 12).toNat) ∧
            if 18 + (field16 m 12).toNat ≤ n + e.mapped .rawPktIn then
              let b := (Reply.packetOut (field16 m 14) outPort
                (bytesAt m 18 (field16 m 12).toNat)).encode st.xid
              if e.sendFails b = true then ¬bad .exit else P (.send s b)
            else ¬bad .fault
        else if 2 ^ 16 + 22 ≤ 24 + (field16 m 12).toNat then
          P (frameRead n 18 (field16 m 12).toNat) ∧
            if 18 + (field16 m 12).toNat ≤ n + e.mapped .rawPktIn then ¬bad .overflow
            else ¬bad .fault
        else ¬bad .overflow := by
  have hl : ntohs (load16 m 12) = field16 m 12 := ntohs_load16 m 12
  have hT := (field16 m 12).toNat_lt
  have hframe : Ptr.Readable ⟨.rawPktIn, n, m, 18⟩ e (field16 m 12).toNat ↔
      18 + (field16 m 12).toNat ≤ n + e.mapped .rawPktIn := by
    unfold Ptr.Readable
    simp only
    omega
  have h12 : Ptr.Readable ⟨.rawPktIn, n, m, 12⟩ e 2 := readable_field e (by decide) (by decide)
  have h14 : Ptr.Readable ⟨.rawPktIn, n, m, 14⟩ e 2 := readable_field e (by decide) (by decide)
  unfold makeSendPacketOut
  simp only [Ptr.totalLen, Ptr.inPort, Ptr.data, Ptr.add, Nat.zero_add]
  rw [safe_u16 st h12, safe_u16 st h14, safe_getState]
  simp only [safe_write, safe_u16 _ h12, safe_memcpy, safe_send, safe_bumpXid_end, hout, hl,
    pktOutLen_toNat, ofpHeaderBytes_length, store16_length, store32_length, Nat.zero_add, hframe,
    true_and, and_true]
  unfold frameRead
  refine and_congr_right fun h12 => and_congr_right fun _ => ?_
  by_cases hfit : 24 + (field16 m 12).toNat < 2 ^ 16
  · -- The buffer has room for all that is written.
    rw [if_pos hfit, Nat.mod_eq_of_lt hfit]
    simp (disch := omega) only [if_pos]
    have hbuf := packetOutBuffer st.xid m outPort (bytesAt m 18 (field16 m 12).toNat)
    rw [bytesAt_length, UInt16.ofNat_add, UInt16.ofNat_toNat] at hbuf
    unfold rawPacketOut at hbuf
    simp only [Int.toNat_natCast, hbuf, h12, true_and]
  · -- The wrapped length is less than the frame, so the copy of the frame does not fit.
    have hwrap : ¬(0 ≤ ((field16 m 12).toNat : ℤ) ∧ ((24 : ℕ) : ℤ) + ((field16 m 12).toNat : ℤ) ≤
        (((24 + (field16 m 12).toNat) % 2 ^ 16 : ℕ) : ℤ)) := by omega
    rw [if_neg hfit]
    simp only [hwrap, if_false, h12, true_and]
    by_cases hfixed : 2 ^ 16 + 22 ≤ 24 + (field16 m 12).toNat
    · rw [if_pos hfixed]
      simp (disch := omega) only [if_pos]
    · rw [if_neg hfixed]
      split_ifs
      all_goals first | rfl | omega

/-- Where it is not allowed to stop but with `exit`, the length of the message has to fit its field,
and the frame has to be where the process can read it. -/
theorem safe_makeSendPacketOut (hexit : ¬bad .exit) (hoverflow : bad .overflow)
    (hfault : P (frameRead n 18 (field16 m 12).toNat) →
      bad .fault ∨ 18 + (field16 m 12).toNat ≤ n + e.mapped .rawPktIn)
    (hout : ∀ kind size off len, P (.access ⟨kind, .rawPktOut, size, off, len⟩))
    (hsend : P (frameRead n 18 (field16 m 12).toNat) → 24 + (field16 m 12).toNat < 2 ^ 16 →
      ∀ outPort xid, P (.send s ((Reply.packetOut (field16 m 14) outPort
        (bytesAt m 18 (field16 m 12).toNat)).encode xid)))
    (outPort : UInt16) :
    (makeSendPacketOut s ⟨.rawPktIn, n, m, 0⟩ (htons outPort) e st).Safe P bad ↔
      P (frameRead n 12 2) ∧ P (frameRead n 14 2) ∧ P (frameRead n 18 (field16 m 12).toNat) ∧
        24 + (field16 m 12).toNat < 2 ^ 16 ∧
          18 + (field16 m 12).toNat ≤ n + e.mapped .rawPktIn := by
  rw [safe_makeSendPacketOut_iff s e st n m hout]
  refine and_congr_right fun _ => and_congr_right fun _ => ?_
  by_cases hfit : 24 + (field16 m 12).toNat < 2 ^ 16
  · rw [if_pos hfit]
    refine and_congr_right fun hdata => ?_
    by_cases hread : 18 + (field16 m 12).toNat ≤ n + e.mapped .rawPktIn
    · rw [if_pos hread]
      refine iff_of_true ?_ ⟨hfit, hread⟩
      intro b
      split_ifs
      · exact hexit
      · exact hsend hdata hfit outPort st.xid
    · rw [if_neg hread]
      exact iff_of_false (fun h => h ((hfault hdata).resolve_right hread)) fun h => hread h.2
  · rw [if_neg hfit]
    refine iff_of_false ?_ fun h => hfit h.2.1
    split_ifs with hfixed hread
    · exact fun h => h.2 hoverflow
    · exact fun h => h.2 ((hfault h.1).resolve_right hread)
    · exact fun h => h hoverflow

/-- Where all that it reads is allowed, and nothing that stops it is bad, only what it sends is left
to ask for. -/
theorem safe_makeSendPacketOut_sends (hbad : ∀ x, ¬bad x)
    (hread : ∀ off len, P (frameRead n off len))
    (hout : ∀ kind size off len, P (.access ⟨kind, .rawPktOut, size, off, len⟩))
    (outPort : UInt16) :
    (makeSendPacketOut s ⟨.rawPktIn, n, m, 0⟩ (htons outPort) e st).Safe P bad ↔
      (24 + (field16 m 12).toNat < 2 ^ 16 →
        18 + (field16 m 12).toNat ≤ n + e.mapped .rawPktIn →
          let b := (Reply.packetOut (field16 m 14) outPort
            (bytesAt m 18 (field16 m 12).toNat)).encode st.xid
          e.sendFails b = false → P (.send s b)) := by
  rw [safe_makeSendPacketOut_iff s e st n m hout]
  simp only [hread, hbad, true_and, not_false_eq_true, ite_self]
  by_cases hfit : 24 + (field16 m 12).toNat < 2 ^ 16
  · rw [if_pos hfit, imp_iff_right hfit]
    by_cases hreach : 18 + (field16 m 12).toNat ≤ n + e.mapped .rawPktIn
    · rw [if_pos hreach, imp_iff_right hreach]
      split_ifs with hfails
      · simp [hfails]
      · simp [hfails]
    · rw [if_neg hreach]
      exact iff_of_true trivial fun h => absurd h hreach
  · rw [if_neg hfit]
    exact iff_of_true trivial fun h => absurd h hfit

/-- `handleFrame`, where a packet-out through the table is allowed under the condition `R`, and one
that is flooded under the condition `R'`. -/
theorem safe_handleFrame_ports {R R' : Prop}
    (hflow : ∀ dlSrc dlDst port xid,
      P (.send s ((Reply.flowMod dlSrc dlDst port).encode xid)))
    (hexit : ¬bad .exit)
    (htable : ∀ st', (makeSendPacketOut s ⟨.rawPktIn, n, m, 0⟩ (htons ofppTable) e st').Safe P bad ↔
      R)
    (hflood : ∀ ll, (makeSendPacketOut s ⟨.rawPktIn, n, m, 0⟩ (htons ofppFlood) e
      { st with ll := ll }).Safe P bad ↔ R') :
    (handleFrame s ⟨.rawPktIn, n, m, 0⟩ e st).Safe P bad ↔
      P (frameRead n 16 1) ∧ (m 16 ≠ 0 → P (frameRead n 24 6) ∧ P (frameRead n 14 2) ∧
        P (frameRead n 30 2) ∧ (field16 m 30 = 0x0806 → P (frameRead n 38 2)) ∧
        P (frameRead n 18 6) ∧
        if (PacketIn.ofMem m).arpReply then FlowModsSent s e st (PacketIn.ofMem m) → R
        else (PacketIn.ofMem m).dst ≠ (PacketIn.ofMem m).src → R') := by
  have hport : ntohs (load16 m 14) = field16 m 14 := ntohs_load16 m 14
  have hr16 : Ptr.Readable ⟨.rawPktIn, n, m, 16⟩ e 1 := readable_field e (by decide) (by decide)
  have hr24 : Ptr.Readable ⟨.rawPktIn, n, m, 24⟩ e 6 := readable_field e (by decide) (by decide)
  have hr14 : Ptr.Readable ⟨.rawPktIn, n, m, 14⟩ e 2 := readable_field e (by decide) (by decide)
  unfold handleFrame
  simp only [Ptr.reason, Ptr.inPort, Ptr.data, Ptr.add, Nat.zero_add, Nat.reduceAdd]
  rw [safe_byte st hr16]
  refine and_congr_right fun _ => ?_
  by_cases h0 : m 16 = 0
  · simp [h0, Outcome.safe_ok]
  rw [safe_ite, if_neg h0, safe_mac st hr24, safe_u16 st hr14, safe_modifyState, safe_isArpReply,
    hport]
  simp only [ne_eq, h0, not_false_eq_true, true_implies]
  refine and_congr_right fun h24 => and_congr_right fun h14 => and_congr_right fun _ =>
    and_congr_right fun _ => ?_
  by_cases harp : (PacketIn.ofMem m).arpReply = true
  · rw [if_pos harp, if_pos harp, safe_ite, if_pos rfl,
      safe_establishFlows s e _ n m hflow hexit htable]
    simp only [h14, h24, frameRead, true_and]
    unfold FlowModsSent
    rw [and_imp]
    rfl
  rw [if_neg harp, if_neg harp, safe_ite, if_neg (by decide), safe_isLoopback]
  by_cases hloop : Mac.at m 18 = Mac.at m 24
  · have hself : ((PacketIn.ofMem m).dst ≠ (PacketIn.ofMem m).src → R') ↔ True :=
      iff_true_intro fun hne => absurd hloop hne
    rw [if_pos hloop, safe_ite, if_pos rfl, safe_sendLoopFlow s e _ n m hflow hexit, hself]
    simp only [frameRead, h14, h24, and_true, true_and, and_self]
  · have hself : ((PacketIn.ofMem m).dst ≠ (PacketIn.ofMem m).src → R') ↔ R' := imp_iff_right hloop
    rw [if_neg hloop, safe_ite, if_neg (by decide), hself, ← hflood]
    simp only [frameRead, h24, true_and]
    rfl

/-- `handleFrame`, where every packet-out is allowed under the condition `R`. It is made only when
no flow-mod before it fails. -/
theorem safe_handleFrame {R : Prop}
    (hflow : ∀ dlSrc dlDst port xid,
      P (.send s ((Reply.flowMod dlSrc dlDst port).encode xid)))
    (hexit : ¬bad .exit)
    (hout : ∀ outPort st',
      (makeSendPacketOut s ⟨.rawPktIn, n, m, 0⟩ (htons outPort) e st').Safe P bad ↔ R) :
    (handleFrame s ⟨.rawPktIn, n, m, 0⟩ e st).Safe P bad ↔
      P (frameRead n 16 1) ∧ (m 16 ≠ 0 → P (frameRead n 24 6) ∧ P (frameRead n 14 2) ∧
        P (frameRead n 30 2) ∧ (field16 m 30 = 0x0806 → P (frameRead n 38 2)) ∧
        P (frameRead n 18 6) ∧ (PacketOutMade s e st (PacketIn.ofMem m) → R)) := by
  rw [safe_handleFrame_ports s e st n m hflow hexit (hout _) fun ll => hout _ _]
  -- The branches of the code are the branches of `PacketOutMade`.
  unfold PacketOutMade
  by_cases harp : (PacketIn.ofMem m).arpReply = true
  · rw [if_pos harp, if_pos harp]
  · rw [if_neg harp, if_neg harp]

end Frame

end SdnController
