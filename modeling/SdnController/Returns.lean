import SdnController.ReceivePath

/-!
# When a call returns

A call of `recvData` returns unless a call of the system fails, which ends the process, or a copy
runs past the end of its buffer, after which nothing is defined, or a read past what the process has
of memory, which kills it. `recvData_eq` takes a call apart into the two calls of `recv` and the
action on the message, for any bytes on the socket, whether or not they are a message.
`dispatch_returns_iff` says which messages the action on them returns from, when the system's calls
work: all but a packet-in that is shorter than a header, or counts more bytes than can be read of
the payload, and one that is answered with a packet-out whose length does not fit its field, or
whose frame cannot be read to its end.
-/

namespace SdnController

open Memory Exec

/-- No call of the system fails. -/
structure Env.Works (e : Env) : Prop where
  recv : ∀ buf, e.recvFails buf = false
  send : ∀ b, e.sendFails b = false

/-- A program that never stops in a bad way. -/
def Never (bad : Stop → Prop) (e : Env) {α : Type} (x : Ctl α) : Prop :=
  ∀ st, (x e st).Safe (fun _ => True) bad

/-- What returns has stopped neither with `exit` nor otherwise. -/
theorem isOk_iff_safe {α : Type} {o : Outcome Stop State Event α} :
    o.ret.isOk = true ↔
      o.Safe (fun _ => True) (· ≠ .exit) ∧ o.Safe (fun _ => True) (· = .exit) := by
  obtain ⟨ret, st, w⟩ := o
  cases ret with
  | ok a => simp [Except.isOk, Except.toBool, Outcome.safe_ok]
  | error x => cases x <;> simp [Except.isOk, Except.toBool, Outcome.safe_error]

/-- A program that never stops at all returns. -/
theorem Never.isOk {e : Env} {α : Type} {x : Ctl α} (h : Never (fun _ => True) e x) (st : State) :
    (x e st).ret.isOk = true := by
  have hst := (h st).2
  rcases hx : (x e st).ret with y | a
  · exact absurd trivial (hst y hx)
  · rfl

/-! ## Programs -/

section Programs

variable {bad : Stop → Prop} {e : Env} {α β : Type} (p : Ptr)

theorem Never.bind {x : Ctl α} {f : α → Ctl β} (hx : Never bad e x)
    (hf : ∀ a, Never bad e (f a)) : Never bad e (x >>= f) :=
  fun st => safe_bind (hx st) hf

theorem Never.ite {c : Prop} [Decidable c] {x y : Ctl α} (hx : Never bad e x)
    (hy : Never bad e y) : Never bad e (if c then x else y) := by
  split_ifs
  · exact hx
  · exact hy

/-- A program that completes from every state. -/
theorem never_of_ok {x : Ctl α} {a : State → α} {st' : State → State} {w : State → List Event}
    (h : ∀ st, x e st = ⟨.ok (a st), st' st, w st⟩) : Never bad e x := by
  intro st
  rw [h st, Outcome.safe_ok]
  exact fun _ _ => trivial

theorem never_pure (a : α) : Never bad e (pure a : Ctl α) := never_of_ok fun _ => rfl

theorem never_getState : Never bad e getState := never_of_ok fun _ => rfl

theorem never_emit (ev : Event) : Never bad e (emit ev) := never_of_ok fun _ => rfl

theorem never_modifyState (f : State → State) : Never bad e (modifyState f) :=
  never_of_ok fun _ => rfl

/-- An access does not stop a program in a bad way when a read past what the process has is not
one. -/
theorem never_touch (hbad : ¬bad .fault) (kind : AccessKind) (n : ℤ) :
    Never bad e (p.touch kind n) := by
  intro st
  rw [touch_apply]
  split_ifs
  · exact Outcome.safe_error.mpr ⟨fun _ _ => trivial, hbad⟩
  · exact Outcome.safe_ok.mpr fun _ _ => trivial

section Read

variable {p}

/-- A read that the process can make. -/
theorem never_read {n : ℤ} (hr : p.Readable e n) : Never bad e (p.touch .read n) := by
  intro st
  rw [read_apply hr]
  exact Outcome.safe_ok.mpr fun _ _ => trivial

theorem never_byte (hr : p.Readable e 1) : Never bad e p.byte :=
  (never_read hr).bind fun _ => never_pure _

theorem never_u16 (hr : p.Readable e 2) : Never bad e p.u16 :=
  (never_read hr).bind fun _ => never_pure _

theorem never_mac (hr : p.Readable e 6) : Never bad e p.mac :=
  (never_read hr).bind fun _ => never_pure _

end Read

/-- A send that works does not end the process. -/
theorem never_sendOrExit (he : e.Works) (s : Socket) (b : List UInt8) :
    Never bad e (sendOrExit s b) := by
  intro st
  rw [safe_sendOrExit, if_neg (by rw [he.send b]; decide)]
  trivial

/-- A program that stops in a way that is not bad. -/
theorem never_stop {x : Stop} (hbad : ¬bad x) : Never bad e (stop x : Ctl α) := by
  intro st
  rw [stop_apply, Outcome.safe_error]
  exact ⟨fun _ _ => trivial, hbad⟩

/-- A write stops only past the end of its buffer. -/
theorem never_write (hfault : ¬bad .fault) (hoverflow : ¬bad .overflow) (src : List UInt8) :
    Never bad e (p.write src) :=
  (never_touch p hfault _ _).bind fun _ => Never.ite (never_pure _) (never_stop hoverflow)

/-- A copy stops only past the end of its buffer, or where it cannot read. -/
theorem never_memcpy (hfault : ¬bad .fault) (hoverflow : ¬bad .overflow) (dst : Ptr) (n : ℤ) :
    Never bad e (dst.memcpy p n) := by
  refine (never_touch p hfault _ _).bind fun _ => (never_touch dst hfault _ _).bind fun _ => ?_
  exact Never.ite (never_pure _) (never_stop hoverflow)

/-- Repacking goes on when the message is as long as a header, and no longer than what can be
read. -/
theorem repack_returns_iff (st : State) (hm pm : Mem) (n : ℕ) (f : Ptr → Ctl α) :
    ((repack ⟨.packet, ofpHdrLen, hm, 0⟩ ⟨.payload, payloadLen, pm, 0⟩ n >>= f) e st).ret.isOk =
        true ↔
      (ofpHdrLen ≤ n ∧ n ≤ ofpHdrLen + payloadLen + e.mapped .payload) ∧
        (f ⟨.rawPktIn, n, repacked e hm pm n, 0⟩ e st).ret.isOk = true := by
  rw [isOk_iff_safe, isOk_iff_safe, safe_repack, safe_repack]
  by_cases h : ofpHdrLen ≤ n
  · by_cases h' : n ≤ ofpHdrLen + payloadLen + e.mapped .payload <;> simp [h, h']
  · simp [h]

end Programs

/-! ## Handlers -/

section Handlers

variable {bad : Stop → Prop} {e : Env} (he : e.Works) (s : Socket) (n : ℕ) (m : Mem)

theorem never_bumpXid : Never bad e bumpXid := never_modifyState _

theorem never_saveFlow (dstMac srcMac : Mac) (port : UInt16) :
    Never bad e (saveFlow s dstMac srcMac port) := never_modifyState _

theorem never_isArpReply : Never bad e (isArpReply ⟨.rawPktIn, n, m, 18⟩) := by
  have h30 : Ptr.Readable ⟨.rawPktIn, n, m, 30⟩ e 2 := readable_field e (by decide) (by decide)
  have h38 : Ptr.Readable ⟨.rawPktIn, n, m, 38⟩ e 2 := readable_field e (by decide) (by decide)
  refine (never_u16 h30).bind fun _ => Never.ite (never_pure _) ?_
  exact (never_u16 h38).bind fun _ => Never.ite (never_pure _) (never_pure _)

theorem never_isLoopback : Never bad e (isLoopback ⟨.rawPktIn, n, m, 18⟩) := by
  have h18 : Ptr.Readable ⟨.rawPktIn, n, m, 18⟩ e 6 := readable_field e (by decide) (by decide)
  have h24 : Ptr.Readable ⟨.rawPktIn, n, m, 24⟩ e 6 := readable_field e (by decide) (by decide)
  refine (never_mac h18).bind fun _ => (never_mac h24).bind fun _ => ?_
  exact Never.ite (never_pure _) (never_pure _)

/-- The numbers of ports whose records end in the payload can be read. -/
theorem never_reportPorts (pm : Mem) {j k : ℕ}
    (h : featureLen + (j + k) * portDataLen ≤ payloadLen) :
    Never bad e (reportPorts ⟨.payload, payloadLen, pm, 0⟩ (j + 1) k) := by
  induction k generalizing j with
  | zero => exact never_pure _
  | succ k ih =>
    simp only [featureLen, portDataLen] at h ih
    have hread : Ptr.Readable (Ptr.add ⟨.payload, payloadLen, pm, 0⟩
        (featureLen + (j + 1 - 1) * portDataLen)) e 2 := by
      refine Ptr.readable_inside e (by decide) ?_
      simp only [Ptr.add, featureLen, portDataLen]
      omega
    exact (never_u16 hread).bind fun _ => (ih (by omega)).bind fun _ => never_pure _

/-- A features reply that fits the payload can be read to its end. -/
theorem never_reportFeatures (pm : Mem)
    (h : (ntohs (load16 m 2)).toNat ≤ ofpHdrLen + payloadLen) :
    Never bad e (reportFeatures m ⟨.payload, payloadLen, pm, 0⟩) := by
  have hread : Ptr.Readable ⟨.payload, payloadLen, pm, 0⟩ e 8 :=
    Ptr.readable_inside e (by decide) (by simp [payloadLen])
  have hports : featureLen + (0 + (((ntohs (load16 m 2)).toNat - ofpHdrLen - featureLen : ℤ).tdiv
      portDataLen).toNat) * portDataLen ≤ payloadLen := by
    have hdiv := Int.tdiv_mul_le ((ntohs (load16 m 2)).toNat - ofpHdrLen - featureLen : ℤ)
      (b := (portDataLen : ℤ)) (by decide)
    generalize ((ntohs (load16 m 2)).toNat - ofpHdrLen - featureLen : ℤ).tdiv portDataLen = q
      at hdiv ⊢
    simp only [ofpHdrLen, featureLen, portDataLen, payloadLen] at h hdiv ⊢
    split_ifs at hdiv
    all_goals simp at hdiv
    all_goals omega
  exact (never_read hread).bind fun _ => (never_reportPorts pm hports).bind fun _ => never_emit _

theorem never_reportPort (pm : Mem) :
    Never bad e (reportPort ⟨.payload, payloadLen, pm, 0⟩) := by
  have h0 : Ptr.Readable ⟨.payload, payloadLen, pm, 0⟩ e 1 :=
    Ptr.readable_inside e (by decide) (by simp [payloadLen])
  have h8 : Ptr.Readable ⟨.payload, payloadLen, pm, 8⟩ e 2 :=
    Ptr.readable_inside e (by decide) (by simp [payloadLen])
  exact (never_byte h0).bind fun _ => (never_u16 h8).bind fun _ => never_emit _

include he

/-- Two messages that are sent after each other. -/
theorem never_sendTwo (f g : State → List UInt8) :
    Never bad e (do
      let st ← getState
      sendOrExit s (f st)
      bumpXid
      let st ← getState
      sendOrExit s (g st)
      bumpXid : Ctl Unit) := by
  refine never_getState.bind fun st => ?_
  refine (never_sendOrExit he s _).bind fun _ => never_bumpXid.bind fun _ => ?_
  refine never_getState.bind fun st => ?_
  exact (never_sendOrExit he s _).bind fun _ => never_bumpXid

theorem never_estOFConnection : Never bad e (estOFConnection s) := never_sendTwo he s _ _

theorem never_setConfig : Never bad e (setConfig s) := never_sendTwo he s _ _

theorem never_sendEchoReply (m : Mem) : Never bad e (sendEchoReply s m) :=
  never_sendOrExit he s _

theorem never_establishFlows : Never bad e (establishFlows s ⟨.rawPktIn, n, m, 0⟩) := by
  have h14 : Ptr.Readable ⟨.rawPktIn, n, m, 14⟩ e 2 := readable_field e (by decide) (by decide)
  have h18 : Ptr.Readable ⟨.rawPktIn, n, m, 18⟩ e 6 := readable_field e (by decide) (by decide)
  have h24 : Ptr.Readable ⟨.rawPktIn, n, m, 24⟩ e 6 := readable_field e (by decide) (by decide)
  refine (never_u16 h14).bind fun _ => never_getState.bind fun _ => ?_
  refine (never_mac h18).bind fun _ => (never_mac h24).bind fun _ => ?_
  refine (never_u16 h14).bind fun _ => (never_saveFlow s _ _ _).bind fun _ => ?_
  refine (never_sendOrExit he s _).bind fun _ => never_bumpXid.bind fun _ => ?_
  refine never_getState.bind fun _ => (never_mac h18).bind fun _ => ?_
  refine (never_mac h24).bind fun _ => (never_mac h18).bind fun _ => ?_
  refine (never_saveFlow s _ _ _).bind fun _ => (never_sendOrExit he s _).bind fun _ => ?_
  exact never_bumpXid

theorem never_sendLoopFlow : Never bad e (sendLoopFlow s ⟨.rawPktIn, n, m, 0⟩) := by
  have h14 : Ptr.Readable ⟨.rawPktIn, n, m, 14⟩ e 2 := readable_field e (by decide) (by decide)
  have h18 : Ptr.Readable ⟨.rawPktIn, n, m, 18⟩ e 6 := readable_field e (by decide) (by decide)
  have h24 : Ptr.Readable ⟨.rawPktIn, n, m, 24⟩ e 6 := readable_field e (by decide) (by decide)
  refine (never_u16 h14).bind fun _ => never_getState.bind fun _ => ?_
  refine (never_mac h18).bind fun _ => (never_mac h24).bind fun _ => ?_
  refine (never_u16 h14).bind fun _ => (never_saveFlow s _ _ _).bind fun _ => ?_
  exact never_sendOrExit he s _

/-- Only the copies of a packet-out can stop it, when it can be sent. -/
theorem never_makeSendPacketOut (hfault : ¬bad .fault) (hoverflow : ¬bad .overflow)
    (outputPort : UInt16) :
    Never bad e (makeSendPacketOut s ⟨.rawPktIn, n, m, 0⟩ outputPort) := by
  have h12 : Ptr.Readable ⟨.rawPktIn, n, m, 12⟩ e 2 := readable_field e (by decide) (by decide)
  have h14 : Ptr.Readable ⟨.rawPktIn, n, m, 14⟩ e 2 := readable_field e (by decide) (by decide)
  have hwrite : ∀ (p : Ptr) src, Never bad e (p.write src) :=
    fun p src => never_write p hfault hoverflow src
  refine (never_u16 h12).bind fun _ => (never_u16 h14).bind fun _ => never_getState.bind fun _ => ?_
  refine (hwrite _ _).bind fun _ => (hwrite _ _).bind fun _ => (hwrite _ _).bind fun _ => ?_
  refine (hwrite _ _).bind fun _ => (hwrite _ _).bind fun _ => (hwrite _ _).bind fun _ => ?_
  refine (hwrite _ _).bind fun _ => (never_u16 h12).bind fun _ => ?_
  refine (never_memcpy _ hfault hoverflow _ _).bind fun _ => ?_
  exact (never_sendOrExit he s _).bind fun _ => never_bumpXid

theorem never_handleFrame (hfault : ¬bad .fault) (hoverflow : ¬bad .overflow) :
    Never bad e (handleFrame s ⟨.rawPktIn, n, m, 0⟩) := by
  have h16 : Ptr.Readable ⟨.rawPktIn, n, m, 16⟩ e 1 := readable_field e (by decide) (by decide)
  have h24 : Ptr.Readable ⟨.rawPktIn, n, m, 24⟩ e 6 := readable_field e (by decide) (by decide)
  have h14 : Ptr.Readable ⟨.rawPktIn, n, m, 14⟩ e 2 := readable_field e (by decide) (by decide)
  have hout := never_makeSendPacketOut he s n m hfault hoverflow
  refine (never_byte h16).bind fun _ => Never.ite (never_pure _) ?_
  refine (never_mac h24).bind fun _ => (never_u16 h14).bind fun _ => ?_
  refine (never_modifyState _).bind fun _ => ?_
  refine (never_isArpReply n m).bind fun _ => Never.ite ?_ ?_
  · exact (never_establishFlows he s n m).bind fun _ => hout _
  · exact (never_isLoopback n m).bind fun _ => Never.ite (never_sendLoopFlow he s n m) (hout _)

end Handlers

/-! ## The action on a message -/

/-- A packet-in in a buffer of `n` bytes that is not answered with a packet-out, or with one that
fits its length field, and whose frame the process can read to its end. -/
def PacketIn.AnswerFits (e : Env) (n : ℕ) (p : PacketIn) : Prop :=
  p.arpReply = true ∨ p.dst ≠ p.src →
    pktOutHdrLen + p.data.length < 2 ^ 16 ∧ 18 + p.data.length ≤ n + e.mapped .rawPktIn

instance (e : Env) (n : ℕ) (p : PacketIn) : Decidable (p.AnswerFits e n) :=
  inferInstanceAs (Decidable (_ ∨ _ → _))

section Returns

variable {e : Env} (he : e.Works) (s : Socket) (st : State) (n : ℕ) (m : Mem)

include he

/-- A frame is handled and the call goes on, unless the packet-out does not fit, or its frame cannot
be read. -/
theorem handleFrame_returns_iff :
    (handleFrame s ⟨.rawPktIn, n, m, 0⟩ e st).ret.isOk = true ↔
      (m 16 ≠ 0 → (PacketIn.ofMem m).AnswerFits e n) := by
  have hmade : PacketOutMade s e st (PacketIn.ofMem m) ↔
      (PacketIn.ofMem m).arpReply = true ∨ (PacketIn.ofMem m).dst ≠ (PacketIn.ofMem m).src := by
    unfold PacketOutMade FlowModsSent
    by_cases harp : (PacketIn.ofMem m).arpReply = true <;> simp [harp, he.send]
  have hout : ∀ outPort st',
      (makeSendPacketOut s ⟨.rawPktIn, n, m, 0⟩ (htons outPort) e st').Safe (fun _ => True)
        (· ≠ Stop.exit) ↔ 24 + (field16 m 12).toNat < 2 ^ 16 ∧
          18 + (field16 m 12).toNat ≤ n + e.mapped .rawPktIn := by
    intro outPort st'
    refine Iff.trans (safe_makeSendPacketOut s e st' n m (by decide) (by decide)
      (fun _ => .inl (by decide)) (fun _ _ _ _ => trivial) (fun _ _ _ _ => trivial) outPort) ?_
    simp only [true_and]
  have hexit : (handleFrame s ⟨.rawPktIn, n, m, 0⟩ e st).Safe (fun _ => True) (· = Stop.exit) :=
    never_handleFrame he s n m (by decide) (by decide) st
  rw [isOk_iff_safe, and_iff_left hexit,
    safe_handleFrame s e st n m (fun _ _ _ _ => trivial) (by decide) hout, hmade]
  unfold PacketIn.AnswerFits PacketIn.ofMem
  simp only [true_and, implies_true, bytesAt_length]
  rfl

/-- The action on a message goes on, unless it is a packet-in that is shorter than a header, or is
longer than what can be read of the payload, or is answered with a packet-out that does not fit or
whose frame cannot be read. It is not asked about a features reply that is too long to be received
whole. -/
theorem dispatch_returns_iff (stream : List UInt8)
    (hfeatures : headerMem stream 1 = ofFeatureReply → packetLen stream ≤ ofpHdrLen + payloadLen) :
    (dispatch s ⟨.packet, ofpHdrLen, headerMem stream, 0⟩ ⟨.payload, payloadLen,
      payloadMem e stream, 0⟩ (packetLen stream) e st).ret.isOk = true ↔
      (headerMem stream 1 = ofPacketIn →
        (ofpHdrLen ≤ packetLen stream ∧
          packetLen stream ≤ ofpHdrLen + payloadLen + e.mapped .payload) ∧
        (rawPktInMem e stream 16 ≠ 0 →
          (PacketIn.ofMem (rawPktInMem e stream)).AnswerFits e (packetLen stream))) := by
  by_cases ht : headerMem stream 1 = ofPacketIn
  · rw [dispatch_packetIn s _ _ ht, imp_iff_right ht]
    rw [handlePacketIn_eq, repack_returns_iff, handleFrame_returns_iff he]
    rfl
  · -- Every other type is answered, or looked at, or ignored.
    rw [iff_true_intro fun h => absurd h ht]
    refine iff_of_true ?_ trivial
    have hlen : (ntohs (load16 (headerMem stream) 2)).toNat = packetLen stream := by
      rw [ntohs_load16]
      rfl
    have hnever : Never (fun _ => True) e (dispatch s ⟨.packet, ofpHdrLen, headerMem stream, 0⟩
        ⟨.payload, payloadLen, payloadMem e stream, 0⟩ (packetLen stream)) := by
      unfold dispatch
      simp only [if_neg ht]
      split_ifs with h0 h6
      · exact never_estOFConnection he s
      · exact (never_reportFeatures _ _ (hlen ▸ hfeatures h6)).bind fun _ => never_setConfig he s
      · exact never_sendEchoReply he s _
      · exact never_reportPort _
      · exact never_pure _
    exact hnever.isOk st

end Returns

/-! ## A call -/

/-- A call on a connection that was closed returns at once. -/
theorem recvData_closed (s : Socket) {e : Env} (st : State) (hr : e.recvFails .packet = false) :
    recvData s [] e st = ⟨.ok (0, []), st, [.recv s .packet ofpHdrLen 0]⟩ := by
  unfold recvData
  rw [bind_apply, recv_stores s e hr (by simp)]
  rfl

/-- What a call of `recvData` receives: the header, and after it as many bytes as are missing. -/
def recvs (s : Socket) (stream : List UInt8) : List Event :=
  .recv s .packet ofpHdrLen (stream.take ofpHdrLen).length ::
    if 0 < payloadAsked stream then
      [.recv s .payload (payloadAsked stream).toNat
        ((stream.drop ofpHdrLen).take (payloadAsked stream).toNat).length]
    else []

/-- What a call receives is only received. -/
theorem mem_recvs {s : Socket} {stream : List UInt8} {ev : Event} (hev : ev ∈ recvs s stream) :
    ∃ buf asked got, ev = .recv s buf asked got := by
  unfold recvs at hev
  split_ifs at hev
  · simp only [List.mem_cons, List.not_mem_nil, or_false] at hev
    rcases hev with rfl | rfl <;> exact ⟨_, _, _, rfl⟩
  · rw [List.mem_singleton] at hev
    exact ⟨_, _, _, hev⟩

/-- A call that receives something, no more than `payload` holds, acts on what it received. -/
theorem recvData_eq (s : Socket) {e : Env} {stream : List UInt8} (st : State)
    (hr : ∀ buf, e.recvFails buf = false) (hne : stream ≠ []) (hfit :
      ((stream.drop ofpHdrLen).take (payloadAsked stream).toNat).length ≤ payloadLen) :
    recvData s stream e st = (⟨.ok (), st, recvs s stream⟩ : Outcome Stop State Event Unit).andThen
      fun _ st => (dispatch s ⟨.packet, ofpHdrLen, headerMem stream, 0⟩ ⟨.payload, payloadLen,
        payloadMem e stream, 0⟩ (packetLen stream) e st).andThen fun _ st =>
          ⟨.ok (1, (stream.drop ofpHdrLen).drop (payloadAsked stream).toNat), st, []⟩ := by
  have hlen : (ntohs (load16 (headerMem stream) 2)).toNat = packetLen stream := by
    rw [ntohs_load16]
    rfl
  have hpos : ¬((stream.take ofpHdrLen).length : ℤ) ≤ 0 := by
    have := List.length_pos_iff.mpr hne
    rw [List.length_take, ofpHdrLen]
    omega
  have hpayload : recvPayload s (payloadAsked stream) (stream.drop ofpHdrLen) e st =
      ⟨.ok (payloadMem e stream, (stream.drop ofpHdrLen).drop (payloadAsked stream).toNat), st,
        (recvs s stream).tail⟩ := by
    unfold payloadMem recvs
    by_cases hn : 0 < payloadAsked stream
    · rw [recvPayload_stores s e hn (hr _) hfit, if_pos hn, if_pos hn]
      rfl
    · have h0 : (payloadAsked stream).toNat = 0 := Int.toNat_eq_zero.mpr (not_lt.mp hn)
      rw [recvPayload_none s e (not_lt.mp hn), if_neg hn, if_neg hn, h0]
      rfl
  unfold recvData
  rw [bind_apply, recv_stores s e (hr _) (by simp), Outcome.andThen_ok, prog_ite_apply,
    if_neg hpos, bind_apply]
  have hmem : memcpy zeros 0 (stream.take ofpHdrLen) = headerMem stream := rfl
  simp only [hmem, hlen]
  rw [show (packetLen stream : ℤ) - (stream.take ofpHdrLen).length = payloadAsked stream from rfl,
    hpayload]
  rfl

/-- Such a call returns when the action on the message does. -/
theorem recvData_returns_iff (s : Socket) {e : Env} {stream : List UInt8} (st : State)
    (he : e.Works) (hne : stream ≠ []) (hfit :
      ((stream.drop ofpHdrLen).take (payloadAsked stream).toNat).length ≤ payloadLen)
    (hfeatures : headerMem stream 1 = ofFeatureReply → packetLen stream ≤ ofpHdrLen + payloadLen) :
    (recvData s stream e st).ret.isOk = true ↔
      (headerMem stream 1 = ofPacketIn →
        (ofpHdrLen ≤ packetLen stream ∧
          packetLen stream ≤ ofpHdrLen + payloadLen + e.mapped .payload) ∧
        (rawPktInMem e stream 16 ≠ 0 →
          (PacketIn.ofMem (rawPktInMem e stream)).AnswerFits e (packetLen stream))) := by
  rw [recvData_eq s st he.recv hne hfit, ← dispatch_returns_iff he s st stream hfeatures,
    Outcome.andThen_ok]
  generalize dispatch _ _ _ _ _ _ = o
  obtain ⟨ret, st', w⟩ := o
  cases ret <;> simp [Except.isOk, Except.toBool]

end SdnController
