import SdnController.Wire

/-!
# The controller is a learning switch for each socket

Each function of `Controller.lean` is given what it yields: its result, the state it leaves, and the
messages it sends, unless it stops, before which it sent only the first of them. The accesses to the
buffers do not show at this level. `recvData_answers` puts them together: a call on a socket reads a
message (`parse`), leaves the state of `State.after`, and sends the replies of `Switch.react` to
what the tables held for the socket, with consecutive transaction ids.
-/

namespace SdnController

open Memory Exec KeyedLists

/-- What a program yields, with the messages sent as its observations. -/
abbrev Answers {α : Type} (out : Outcome Stop State Event α) (a : α) (st : State)
    (ms : List (Socket × List UInt8)) : Prop :=
  out.Yields Event.sent a st ms

/-! ## Primitives -/

section Primitives

variable (p : Ptr) (e : Env) (st : State)

/-- An access goes on, unless it is a read of memory that the process does not have. -/
theorem touch_apply (kind : AccessKind) (n : ℤ) :
    p.touch kind n e st = ⟨if kind = .read ∧ ¬p.Readable e n then .error .fault else .ok (), st,
      [.access ⟨kind, p.buf, p.size, p.off, n⟩]⟩ := by
  unfold Ptr.touch
  simp only [bind_apply, emit_apply, ask_apply, Outcome.andThen_ok, prog_ite_apply]
  split_ifs <;> rfl

/-- A read that the process can make. -/
theorem read_apply {p : Ptr} {e : Env} {n : ℤ} (hr : p.Readable e n) (st : State) :
    p.touch .read n e st = ⟨.ok (), st, [.access ⟨.read, p.buf, p.size, p.off, n⟩]⟩ := by
  rw [touch_apply, if_neg (by simp [hr])]

theorem touch_answers (kind : AccessKind) (n : ℤ) : Answers (p.touch kind n e st) () st [] := by
  rw [touch_apply]
  split_ifs
  · exact Outcome.yields_error rfl
  · exact Outcome.yields_ok rfl

theorem pure_answers {α : Type} (a : α) : Answers ((pure a : Ctl α) e st) a st [] :=
  Outcome.yields_ok rfl

theorem byte_answers : Answers (p.byte e st) (p.mem p.off) st [] :=
  Yields.after (touch_answers ..) (pure_answers ..)

theorem u16_answers : Answers (p.u16 e st) (load16 p.mem p.off) st [] :=
  Yields.after (touch_answers ..) (pure_answers ..)

theorem mac_answers : Answers (p.mac e st) (Mac.at p.mem p.off) st [] :=
  Yields.after (touch_answers ..) (pure_answers ..)

theorem getState_answers : Answers ((getState : Ctl State) e st) st st [] := Outcome.yields_ok rfl

theorem ask_answers : Answers ((ask : Ctl Env) e st) e st [] := Outcome.yields_ok rfl

theorem modifyState_answers (f : State → State) :
    Answers ((modifyState f : Ctl Unit) e st) () (f st) [] := Outcome.yields_ok rfl

/-- A copy stops the run or leaves the copied memory. -/
theorem memcpy_answers (dst : Ptr) (n : ℤ) :
    Answers (dst.memcpy p n e st)
      (memcpy dst.mem dst.off (bytesAt p.mem p.off n.toNat)) st [] := by
  unfold Ptr.memcpy
  refine Yields.after (touch_answers ..) (Yields.after (touch_answers ..) ?_)
  exact Yields.ite (fun _ => Outcome.yields_ok rfl) (fun _ => Outcome.yields_error rfl)

/-- A copy that reads what the process does not have, or past the end of a buffer, stops the
run. -/
theorem memcpy_stops (dst : Ptr) (n : ℤ) (h : ¬(0 ≤ n ∧ (dst.off : ℤ) + n ≤ dst.size)) :
    ∃ x w, dst.memcpy p n e st = ⟨.error x, st, w⟩ ∧ w.filterMap Event.sent = [] := by
  unfold Ptr.memcpy
  simp only [bind_apply, touch_apply, if_neg h]
  by_cases hread : p.Readable e n
  · exact ⟨.overflow, [.access ⟨.read, p.buf, p.size, p.off, n⟩,
      .access ⟨.write, dst.buf, dst.size, dst.off, n⟩], by simp [hread], rfl⟩
  · exact ⟨.fault, [.access ⟨.read, p.buf, p.size, p.off, n⟩], by simp [hread], rfl⟩

/-- A write from a variable stops the run or leaves the written memory. -/
theorem write_answers (src : List UInt8) :
    Answers (p.write src e st) (memcpy p.mem p.off src) st [] := by
  unfold Ptr.write
  refine Yields.after (touch_answers ..) ?_
  exact Yields.ite (fun _ => Outcome.yields_ok rfl) (fun _ => Outcome.yields_error rfl)

/-- A send stops the run or sends its message. -/
theorem sendOrExit_answers (s : Socket) (b : List UInt8) :
    Answers (sendOrExit s b e st) () st [(s, b)] := by
  unfold sendOrExit
  refine Yields.after (ask_answers e st) ?_
  exact Yields.ite (fun _ => Outcome.yields_error rfl) (fun _ => Outcome.yields_ok rfl)

theorem bumpXid_answers : Answers (bumpXid e st) () { st with xid := st.xid + 1 } [] :=
  Outcome.yields_ok rfl

theorem saveFlow_answers (s : Socket) (dstMac srcMac : Mac) (port : UInt16) :
    Answers (saveFlow s dstMac srcMac port e st) ()
      { st with flows := (addFlowNode s st.flows dstMac srcMac port).2 } [] :=
  Outcome.yields_ok rfl

end Primitives

/-! ## Handlers -/

section Handlers

variable (s : Socket) (e : Env) (st : State)

/-- Two messages, each made with the transaction id of its turn. -/
theorem sendTwo_answers (f g : State → List UInt8) :
    Answers ((do
      let st ← getState
      sendOrExit s (f st)
      bumpXid
      let st ← getState
      sendOrExit s (g st)
      bumpXid : Ctl Unit) e st) () { st with xid := st.xid + 1 + 1 }
      [(s, f st), (s, g { st with xid := st.xid + 1 })] := by
  refine Yields.after (getState_answers e st) ?_
  refine Yields.cons (sendOrExit_answers ..) ?_
  refine Yields.after (bumpXid_answers ..) ?_
  refine Yields.after (getState_answers ..) ?_
  refine Yields.cons (sendOrExit_answers ..) ?_
  exact bumpXid_answers ..

theorem estOFConnection_answers :
    Answers (estOFConnection s e st) () { st with xid := st.xid + 1 + 1 }
      (label s st.xid [.hello, .featuresRequest]) := by
  simp only [label, Reply.encode, ← headerBuffer]
  exact sendTwo_answers ..

theorem setConfig_answers :
    Answers (setConfig s e st) () { st with xid := st.xid + 1 + 1 }
      (label s st.xid [.setConfig, .barrierRequest]) := by
  simp only [label, ← configBuffer]
  simp only [Reply.encode, ← headerBuffer]
  exact sendTwo_answers ..

theorem sendEchoReply_answers (m : Mem) :
    Answers (sendEchoReply s m e st) () st (label s st.xid [.echoReply (field32 m 4)]) := by
  simp only [label, Reply.encode, ← echoBuffer]
  exact sendOrExit_answers ..

/-- The frame of a packet-in, in the buffer that the message was put together in. -/
def PacketIn.ofMem (m : Mem) : PacketIn where
  inPort := field16 m 14
  dst := Mac.at m 18
  src := Mac.at m 24
  arpReply := decide (field16 m 30 = 0x0806 ∧ field16 m 38 = 0x0002)
  data := bytesAt m 18 (field16 m 12).toNat

variable (n : ℕ) (m : Mem)

theorem establishFlows_answers :
    Answers (establishFlows s ⟨.rawPktIn, n, m, 0⟩ e st) ()
      { st with
        flows := (addFlowNode s (addFlowNode s st.flows (Mac.at m 24) (Mac.at m 18)
          (field16 m 14)).2 (Mac.at m 18) (Mac.at m 24) (findPort s st.ll (Mac.at m 18))).2
        xid := st.xid + 1 + 1 }
      (label s st.xid [.flowMod (Mac.at m 18) (Mac.at m 24) (field16 m 14),
        .flowMod (Mac.at m 24) (Mac.at m 18) (findPort s st.ll (Mac.at m 18))]) := by
  simp only [label]
  rw [← flowmodBuffer, ← patchedBuffer (st.xid + 1) _ _ st.xid (Mac.at m 18) (Mac.at m 24)
    (load16 m 14)]
  have hport : field16 m 14 = ntohs (load16 m 14) := (ntohs_load16 m 14).symm
  rw [hport]
  unfold establishFlows
  refine Yields.after (u16_answers ..) ?_
  refine Yields.after (getState_answers ..) ?_
  refine Yields.after (mac_answers ..) ?_
  refine Yields.after (mac_answers ..) ?_
  refine Yields.after (u16_answers ..) ?_
  refine Yields.after (saveFlow_answers ..) ?_
  refine Yields.cons (sendOrExit_answers ..) ?_
  refine Yields.after (bumpXid_answers ..) ?_
  refine Yields.after (getState_answers ..) ?_
  refine Yields.after (mac_answers ..) ?_
  refine Yields.after (mac_answers ..) ?_
  refine Yields.after (mac_answers ..) ?_
  refine Yields.after (saveFlow_answers ..) ?_
  refine Yields.cons (sendOrExit_answers ..) ?_
  exact bumpXid_answers ..

/-- `pkt_out_len` is computed in 16 bits. -/
theorem pktOutLen_toNat (totalLen : UInt16) :
    (UInt16.ofNat pktOutHdrLen + totalLen).toNat = (24 + totalLen.toNat) % 2 ^ 16 :=
  UInt16.toNat_add ..

/-- A packet-out whose length wraps is never sent: its frame does not fit the buffer. -/
theorem makeSendPacketOut_answers (outPort : UInt16) :
    Answers (makeSendPacketOut s ⟨.rawPktIn, n, m, 0⟩ (htons outPort) e st) ()
      { st with xid := st.xid + 1 }
      (label s st.xid [.packetOut (field16 m 14) outPort (bytesAt m 18 (field16 m 12).toNat)]) := by
  have hl : ntohs (load16 m 12) = field16 m 12 := ntohs_load16 m 12
  unfold makeSendPacketOut
  refine Yields.after (u16_answers ..) ?_
  refine Yields.after (u16_answers ..) ?_
  refine Yields.after (getState_answers ..) ?_
  refine Yields.after (write_answers ..) ?_
  refine Yields.after (write_answers ..) ?_
  refine Yields.after (write_answers ..) ?_
  refine Yields.after (write_answers ..) ?_
  refine Yields.after (write_answers ..) ?_
  refine Yields.after (write_answers ..) ?_
  refine Yields.after (write_answers ..) ?_
  refine Yields.after (u16_answers ..) ?_
  simp only [Ptr.add, Nat.zero_add, hl]
  by_cases hfit : 24 + (field16 m 12).toNat < 2 ^ 16
  · have hlen : (UInt16.ofNat pktOutHdrLen + field16 m 12).toNat = 24 + (field16 m 12).toNat := by
      rw [pktOutLen_toNat, Nat.mod_eq_of_lt hfit]
    have hdata : (bytesAt m 18 (field16 m 12).toNat).length = (field16 m 12).toNat :=
      bytesAt_length ..
    have hsize : UInt16.ofNat pktOutHdrLen + field16 m 12 =
        UInt16.ofNat (pktOutHdrLen + (field16 m 12).toNat) := by
      rw [UInt16.ofNat_add, UInt16.ofNat_toNat]
    simp only [label]
    rw [← packetOutBuffer, hdata]
    refine Yields.after (memcpy_answers ..) ?_
    rw [hlen]
    refine Yields.cons (a := ()) ?_ (bumpXid_answers ..)
    rw [hsize]
    simp only [Int.toNat_natCast, Ptr.data, Ptr.add, Nat.zero_add]
    exact sendOrExit_answers ..
  · -- The length has wrapped to less than the fixed part.
    have hwrap : ((UInt16.ofNat pktOutHdrLen + field16 m 12).toNat : ℤ) <
        24 + (field16 m 12).toNat := by
      have := UInt16.toNat_lt (UInt16.ofNat pktOutHdrLen + field16 m 12)
      omega
    rw [bind_apply]
    obtain ⟨x, w, hw, hs⟩ := memcpy_stops (Ptr.data ⟨.rawPktIn, n, m, 0⟩) e st
      ⟨.rawPktOut, (UInt16.ofNat pktOutHdrLen + field16 m 12).toNat,
        rawPacketOut st.xid (UInt16.ofNat pktOutHdrLen + field16 m 12) (load16 m 14)
          (htons outPort), 24⟩
      (field16 m 12).toNat (by simp only; omega)
    erw [hw]
    exact Outcome.yields_error hs

theorem sendLoopFlow_answers :
    Answers (sendLoopFlow s ⟨.rawPktIn, n, m, 0⟩ e st) ()
      { st with
        flows := (addFlowNode s st.flows (Mac.at m 24) (Mac.at m 18) (field16 m 14)).2 }
      (label s st.xid [.flowMod (Mac.at m 18) (Mac.at m 24) (field16 m 14)]) := by
  simp only [label]
  rw [← flowmodBuffer]
  have hport : field16 m 14 = ntohs (load16 m 14) := (ntohs_load16 m 14).symm
  rw [hport]
  unfold sendLoopFlow
  refine Yields.after (u16_answers ..) ?_
  refine Yields.after (getState_answers ..) ?_
  refine Yields.after (mac_answers ..) ?_
  refine Yields.after (mac_answers ..) ?_
  refine Yields.after (u16_answers ..) ?_
  refine Yields.after (saveFlow_answers ..) ?_
  exact sendOrExit_answers ..

theorem isArpReply_answers :
    Answers (isArpReply ⟨.rawPktIn, n, m, 18⟩ e st)
      (if (PacketIn.ofMem m).arpReply then 1 else 0) st [] := by
  have hcode : ntohs (load16 m 30) = field16 m 30 := ntohs_load16 m 30
  have hopcode : ntohs (load16 m 38) = field16 m 38 := ntohs_load16 m 38
  unfold isArpReply PacketIn.ofMem
  rw [← hcode, ← hopcode]
  refine Yields.after (u16_answers ..) (Yields.ite (fun hne => ?_) (fun heq => ?_))
  · have hne : ntohs (load16 m 30) ≠ 0x0806 := hne
    rw [if_neg (by simp [hne])]
    exact pure_answers ..
  have heq : ntohs (load16 m 30) = 0x0806 := not_not.mp heq
  refine Yields.after (u16_answers ..) (Yields.ite (fun hne => ?_) (fun heq' => ?_))
  · have hne : ntohs (load16 m 38) ≠ 0x0002 := hne
    rw [if_neg (by simp [hne])]
    exact pure_answers ..
  · have heq' : ntohs (load16 m 38) = 0x0002 := not_not.mp heq'
    rw [if_pos (by simp [heq, heq'])]
    exact pure_answers ..

theorem isLoopback_answers :
    Answers (isLoopback ⟨.rawPktIn, n, m, 18⟩ e st)
      (if (PacketIn.ofMem m).dst = (PacketIn.ofMem m).src then 1 else 0) st [] := by
  unfold isLoopback
  refine Yields.after (mac_answers ..) (Yields.after (mac_answers ..) ?_)
  refine Yields.ite (fun h => ?_) (fun h => ?_)
  · have h : (PacketIn.ofMem m).dst = (PacketIn.ofMem m).src := h
    rw [if_pos h]
    exact pure_answers ..
  · have h : ¬(PacketIn.ofMem m).dst = (PacketIn.ofMem m).src := h
    rw [if_neg h]
    exact pure_answers ..

end Handlers

/-! ## The state after a message -/

/-- The message that memory holds, as far as the controller acts on it. -/
def Msg.ofMem (m : Mem) : Msg :=
  if m 1 = ofHello then .hello
  else if m 1 = ofFeatureReply then .featuresReply
  else if m 1 = ofEchoRequest then .echoRequest (field32 m 4)
  else if m 1 = ofPacketIn then
    if m 16 = 0 then .ignored else .packetIn (PacketIn.ofMem m)
  else .ignored

/-- A message of the type of a packet-in is one, unless its reason is `OFPR_NO_MATCH`. -/
theorem Msg.ofMem_packetIn {m : Mem} (h : m 1 = ofPacketIn) :
    Msg.ofMem m = if m 16 = 0 then .ignored else .packetIn (PacketIn.ofMem m) := by
  unfold Msg.ofMem
  rw [h, if_neg (by decide), if_neg (by decide), if_neg (by decide), if_pos rfl]

/-- A message of the type of a packet-in is handled as one. -/
theorem dispatch_packetIn (s : Socket) {packet : Ptr} (payload : Ptr) (packetLen : ℕ)
    (h : packet.mem 1 = ofPacketIn) :
    dispatch s packet payload packetLen = handlePacketIn s packet payload packetLen := by
  unfold dispatch
  simp only [h]
  rw [if_neg (by decide), if_neg (by decide), if_neg (by decide), if_true]

/-- The controller's state after a message on a socket. -/
def State.after (st : State) (s : Socket) : Msg → State
  | .hello | .featuresReply => { st with xid := st.xid + 1 + 1 }
  | .packetIn p =>
    let ll := (addPathNode s st.ll p.src p.inPort).2
    if p.arpReply then
      let flows := (addFlowNode s st.flows p.src p.dst p.inPort).2
      ⟨ll, (addFlowNode s flows p.dst p.src (findPort s ll p.dst)).2, st.xid + 1 + 1 + 1⟩
    else if p.dst = p.src then
      ⟨ll, (addFlowNode s st.flows p.src p.dst p.inPort).2, st.xid⟩
    else ⟨ll, st.flows, st.xid + 1⟩
  | .echoRequest _ | .ignored => st

/-- What the tables hold for a socket. -/
def State.view (st : State) (s : Socket) : Switch := ⟨innerList s st.ll, innerList s st.flows⟩

/-- The tables hold nothing for any socket at first. -/
theorem view_initial (s : Socket) : initial.view s = Switch.fresh := by
  unfold State.view initial Switch.fresh
  simp [innerList]

/-- A port is looked up in what the table holds for the socket. -/
theorem findPort_eq (st : State) (s : Socket) (a : Mac) :
    findPort s st.ll a = (st.view s).port a := by
  unfold findPort Switch.port State.view
  rw [search_eq]
  cases h : (innerList s st.ll).find? (PathNode.leadsTo a) <;> simp

/-- The tables are lists that their callers hold, with one node for a socket. -/
structure State.Sane (st : State) : Prop where
  ll_ne_nil : st.ll ≠ []
  flows_ne_nil : st.flows ≠ []
  ll_nodup : (st.ll.map Outer.key).Nodup
  flows_nodup : (st.flows.map Outer.key).Nodup

/-- The first state is sane. -/
theorem sane_initial : initial.Sane := by constructor <;> decide

section After

variable {st : State} {s s' : Socket}

/-- A message leaves the tables sane. -/
theorem State.Sane.after (h : st.Sane) (m : Msg) : (st.after s m).Sane := by
  cases m with
  | packetIn p =>
    simp only [State.after]
    split_ifs
    · exact ⟨addNode_ne_nil h.ll_ne_nil, addNode_ne_nil (addNode_ne_nil h.flows_ne_nil),
        nodup_addNode h.ll_nodup, nodup_addNode (nodup_addNode h.flows_nodup)⟩
    · exact ⟨addNode_ne_nil h.ll_ne_nil, addNode_ne_nil h.flows_ne_nil,
        nodup_addNode h.ll_nodup, nodup_addNode h.flows_nodup⟩
    · exact ⟨addNode_ne_nil h.ll_ne_nil, h.flows_ne_nil, nodup_addNode h.ll_nodup, h.flows_nodup⟩
  | _ => exact ⟨h.ll_ne_nil, h.flows_ne_nil, h.ll_nodup, h.flows_nodup⟩

/-- A learned port, looked up in the table. -/
theorem findPort_addPathNode (h : st.Sane) (a b : Mac) (port : UInt16) :
    findPort s (addPathNode s st.ll a port).2 b = ((st.view s).learn a port).port b := by
  have hfind := findPort_eq { st with ll := (addPathNode s st.ll a port).2 } s b
  simp only [State.view] at hfind
  rw [hfind, addPathNode, innerList_addNode_self h.ll_ne_nil]
  rfl

/-- What the tables hold for a socket after a message on it. -/
theorem State.Sane.view_after (h : st.Sane) (m : Msg) :
    (st.after s m).view s = ((st.view s).react m).1 := by
  cases m with
  | packetIn p =>
    have hl : innerList s (addNode s (PathNode.leadsTo p.src) ⟨p.src, p.inPort⟩ st.ll).2 =
        addAbsent (PathNode.leadsTo p.src) ⟨p.src, p.inPort⟩ (innerList s st.ll) :=
      innerList_addNode_self h.ll_ne_nil
    have hf : innerList s
        (addNode s (FlowNode.joins p.src p.dst) ⟨p.src, p.dst, p.inPort⟩ st.flows).2 =
        addAbsent (FlowNode.joins p.src p.dst) ⟨p.src, p.dst, p.inPort⟩ (innerList s st.flows) :=
      innerList_addNode_self h.flows_ne_nil
    simp only [State.after, Switch.react, Switch.packetIn, findPort_addPathNode h]
    split_ifs
    · simp only [State.view, addPathNode, addFlowNode, hl,
        innerList_addNode_self (addNode_ne_nil h.flows_ne_nil), hf]
      rfl
    · simp only [State.view, addPathNode, addFlowNode, hl, hf]
      rfl
    · simp only [State.view, addPathNode, hl]
      rfl
  | _ => rfl

/-- What the tables hold for any other socket does not change. -/
theorem view_after_ne (hs : s' ≠ s) (m : Msg) : (st.after s m).view s' = st.view s' := by
  cases m with
  | packetIn p =>
    simp only [State.after]
    split_ifs <;>
      simp only [State.view, addPathNode, addFlowNode, innerList_addNode_ne hs]
  | _ => rfl

end After

/-! ## A call of `recvData` -/

section RecvData

variable (s : Socket) (e : Env) {st : State}

/-- A frame is handled as the machine of its socket handles it. -/
theorem handleFrame_answers (n : ℕ) (m : Mem) (h : st.Sane) :
    let msg := if m 16 = 0 then .ignored else .packetIn (PacketIn.ofMem m)
    Answers (handleFrame s ⟨.rawPktIn, n, m, 0⟩ e st) () (st.after s msg)
      (label s st.xid ((st.view s).react msg).2) := by
  intro msg
  unfold handleFrame
  refine Yields.after (byte_answers ..) (Yields.ite (fun h0 => ?_) (fun h0 => ?_))
  · have hmsg : msg = .ignored := if_pos h0
    rw [hmsg]
    exact pure_answers ..
  have hmsg : msg = .packetIn (PacketIn.ofMem m) := if_neg h0
  rw [hmsg]
  have hport : ntohs (load16 m 14) = field16 m 14 := ntohs_load16 m 14
  have hfind := findPort_addPathNode (s := s) h (PacketIn.ofMem m).src (PacketIn.ofMem m).dst
    (PacketIn.ofMem m).inPort
  simp only [Switch.react, Switch.packetIn, State.after, ← hfind]
  refine Yields.after (mac_answers ..) ?_
  refine Yields.after (u16_answers ..) ?_
  refine Yields.after (modifyState_answers ..) ?_
  simp only [Ptr.add, Ptr.data, Nat.zero_add, hport]
  -- The branches of the code are the branches of the machine.
  refine Yields.after (isArpReply_answers ..) (Yields.ite (fun harp => ?_) (fun harp => ?_))
  · have harp : (PacketIn.ofMem m).arpReply = true := by
      by_contra hne
      rw [if_neg hne] at harp
      exact absurd harp (by decide)
    simp only [if_pos harp]
    exact Yields.bind (establishFlows_answers ..) (makeSendPacketOut_answers ..)
  have harp : ¬(PacketIn.ofMem m).arpReply = true := fun he => harp (if_pos he)
  simp only [if_neg harp]
  refine Yields.after (isLoopback_answers ..) (Yields.ite (fun hloop => ?_) (fun hloop => ?_))
  · have hloop : (PacketIn.ofMem m).dst = (PacketIn.ofMem m).src := by
      by_contra hne
      rw [if_neg hne] at hloop
      exact absurd hloop (by decide)
    simp only [if_pos hloop]
    exact sendLoopFlow_answers ..
  · have hloop : ¬(PacketIn.ofMem m).dst = (PacketIn.ofMem m).src := fun he => hloop (if_pos he)
    simp only [if_neg hloop]
    exact makeSendPacketOut_answers ..

/-- A `recv` that fails leaves the buffer. -/
theorem recv_fails {dst : Ptr} {n : ℕ} {stream : List UInt8} (h : e.recvFails dst.buf = true) :
    recv s dst n stream e st = ⟨.ok ⟨-1, dst.mem, stream⟩, st, [.recv s dst.buf n 0]⟩ := by
  unfold recv
  simp [h]

/-- A `recv` that does not fail stores what the socket delivers. -/
theorem recv_stores {dst : Ptr} {n : ℕ} {stream : List UInt8} (h : e.recvFails dst.buf = false)
    (hfit : (stream.take n).length ≤ dst.size) :
    recv s dst n stream e st =
      ⟨.ok ⟨(stream.take n).length, memcpy dst.mem dst.off (stream.take n), stream.drop n⟩, st,
        [.recv s dst.buf n (stream.take n).length]⟩ := by
  unfold recv
  simp only [bind_apply, ask_apply, Outcome.andThen_ok, h, prog_ite_apply,
    if_neg Bool.false_ne_true, if_pos hfit]
  rfl

/-- A `recv` that is delivered more than its buffer holds stops the run. -/
theorem recv_overflows {dst : Ptr} {n : ℕ} {stream : List UInt8} (h : e.recvFails dst.buf = false)
    (hfit : ¬(stream.take n).length ≤ dst.size) :
    recv s dst n stream e st =
      ⟨.error .overflow, st, [.recv s dst.buf n (stream.take n).length]⟩ := by
  unfold recv
  simp only [bind_apply, ask_apply, Outcome.andThen_ok, h, prog_ite_apply,
    if_neg Bool.false_ne_true, if_neg hfit]
  rfl

/-- `packet` of `recvData`, with the header in it. -/
def headerMem (stream : List UInt8) : Mem := memcpy zeros 0 (stream.take ofpHdrLen)

/-- `packetLen` of `recvData`. -/
def packetLen (stream : List UInt8) : ℕ := (field16 (headerMem stream) 2).toNat

/-- `packetLen - numBytes` of `recvData`: what is asked for after the header. -/
def payloadAsked (stream : List UInt8) : ℤ :=
  (packetLen stream : ℤ) - (stream.take ofpHdrLen).length

/-- `payload` of `recvData`, with the rest of the message in it. -/
def payloadMem (stream : List UInt8) : Mem :=
  if 0 < payloadAsked stream then
    memcpy (memset (e.junk .payload) 0 payloadLen) 0
      ((stream.drop ofpHdrLen).take (payloadAsked stream).toNat)
  else e.junk .payload

/-- The first part of `handlePacketIn`: the buffer with the header and the payload in it. -/
def repack (packet payload : Ptr) (packetLen : ℕ) : Ctl Ptr := do
  let env ← ask
  let pktIn : Ptr := ⟨.rawPktIn, packetLen, env.junk .rawPktIn, 0⟩
  let raw ← pktIn.memcpy packet ofpHdrLen
  let raw ← Ptr.memcpy { pktIn with mem := raw, off := ofpHdrLen } payload
    ((packetLen : ℤ) - ofpHdrLen)
  pure { pktIn with mem := raw }

/-- A packet-in is repacked, and then the frame in it is handled. -/
theorem handlePacketIn_eq (packet payload : Ptr) (n : ℕ) :
    handlePacketIn s packet payload n = repack packet payload n >>= handleFrame s := by
  unfold handlePacketIn repack
  simp only [prog_bind_assoc]
  rfl

/-- `raw_pkt_in` of `handlePacketIn`, put together from a header and a payload. -/
def repacked (hm pm : Mem) (n : ℕ) : Mem :=
  memcpy (memcpy (e.junk .rawPktIn) 0 (bytesAt hm 0 ofpHdrLen)) ofpHdrLen
    (bytesAt pm 0 ((n : ℤ) - ofpHdrLen).toNat)

/-- Repacking stops the run or leaves the repacked message. -/
theorem repack_answers (st : State) (hm pm : Mem) (n : ℕ) :
    Answers (repack ⟨.packet, ofpHdrLen, hm, 0⟩ ⟨.payload, payloadLen, pm, 0⟩ n e st)
      ⟨.rawPktIn, n, repacked e hm pm n, 0⟩ st [] := by
  unfold repack
  refine Yields.after (ask_answers ..) ?_
  refine Yields.after (memcpy_answers ..) ?_
  refine Yields.after (memcpy_answers ..) ?_
  exact pure_answers ..

/-- `raw_pkt_in` of `handlePacketIn`, with the message in it. -/
def rawPktInMem (stream : List UInt8) : Mem :=
  memcpy (memcpy (e.junk .rawPktIn) 0 (bytesAt (headerMem stream) 0 ofpHdrLen)) ofpHdrLen
    (bytesAt (payloadMem e stream) 0 ((packetLen stream : ℤ) - ofpHdrLen).toNat)

/-- The message that a call of `recvData` reads from the stream. -/
def parse (stream : List UInt8) : Msg :=
  if stream = [] then .ignored else Msg.ofMem (rawPktInMem e stream)

/-- Nothing is received into the payload when nothing is left to ask for. -/
theorem recvPayload_none {n : ℤ} {stream : List UInt8} (hn : n ≤ 0) :
    recvPayload s n stream e st = ⟨.ok (e.junk .payload, stream), st, []⟩ := by
  unfold recvPayload
  rw [bind_apply, ask_apply, Outcome.andThen_ok, prog_ite_apply, if_neg (by omega)]
  rfl

/-- A `recv` into the payload that fails ends the process. -/
theorem recvPayload_fails {n : ℤ} {stream : List UInt8} (hn : 0 < n)
    (hf : e.recvFails .payload = true) :
    recvPayload s n stream e st = ⟨.error .exit, st, [.recv s .payload n.toNat 0]⟩ := by
  unfold recvPayload
  rw [bind_apply, ask_apply, Outcome.andThen_ok, prog_ite_apply, if_pos hn, bind_apply,
    recv_fails s e hf]
  rfl

/-- A `recv` into the payload that delivers more than it holds stops the run. -/
theorem recvPayload_overflows {n : ℤ} {stream : List UInt8} (hn : 0 < n)
    (hf : e.recvFails .payload = false) (hfit : ¬(stream.take n.toNat).length ≤ payloadLen) :
    recvPayload s n stream e st =
      ⟨.error .overflow, st, [.recv s .payload n.toNat (stream.take n.toNat).length]⟩ := by
  unfold recvPayload
  rw [bind_apply, ask_apply, Outcome.andThen_ok, prog_ite_apply, if_pos hn, bind_apply,
    recv_overflows s e hf hfit]
  rfl

/-- A `recv` into the payload that fits stores what the socket delivers in a cleared buffer. -/
theorem recvPayload_stores {n : ℤ} {stream : List UInt8} (hn : 0 < n)
    (hf : e.recvFails .payload = false) (hfit : (stream.take n.toNat).length ≤ payloadLen) :
    recvPayload s n stream e st =
      ⟨.ok (memcpy (memset (e.junk .payload) 0 payloadLen) 0 (stream.take n.toNat),
        stream.drop n.toNat), st, [.recv s .payload n.toNat (stream.take n.toNat).length]⟩ := by
  unfold recvPayload
  rw [bind_apply, ask_apply, Outcome.andThen_ok, prog_ite_apply, if_pos hn, bind_apply,
    recv_stores s e hf hfit]
  rfl

theorem recvPayload_answers (st : State) (stream : List UInt8) :
    Answers (recvPayload s (payloadAsked stream) (stream.drop ofpHdrLen) e st)
      (payloadMem e stream, (stream.drop ofpHdrLen).drop (payloadAsked stream).toNat) st [] := by
  unfold payloadMem
  by_cases hn : 0 < payloadAsked stream
  · rw [if_pos hn]
    by_cases hf : e.recvFails .payload = true
    · rw [recvPayload_fails s e hn hf]
      exact Outcome.yields_error rfl
    rw [Bool.not_eq_true] at hf
    by_cases hfit : ((stream.drop ofpHdrLen).take (payloadAsked stream).toNat).length ≤ payloadLen
    · rw [recvPayload_stores s e hn hf hfit]
      exact Outcome.yields_ok rfl
    · rw [recvPayload_overflows s e hn hf hfit]
      exact Outcome.yields_error rfl
  · have h0 : (payloadAsked stream).toNat = 0 := Int.toNat_eq_zero.mpr (not_lt.mp hn)
    rw [if_neg hn, h0, recvPayload_none s e (not_lt.mp hn)]
    exact Outcome.yields_ok rfl

/-- The header, in the message put together in one buffer. -/
theorem rawPktInMem_header (stream : List UInt8) {k : ℕ} (hk : k < 8) :
    rawPktInMem e stream k = headerMem stream k := by
  unfold rawPktInMem
  rw [memcpy_of_lt _ _ (by simpa [ofpHdrLen] using hk),
    memcpy_bytesAt _ _ (Nat.zero_le k) (by simpa [ofpHdrLen] using hk), Nat.zero_add, Nat.sub_zero]

/-- The ports of a features reply are read and printed. -/
theorem reportPorts_answers (st : State) (payload : Ptr) (i n : ℕ) :
    ∃ ports, Answers (reportPorts payload i n e st) ports st [] := by
  induction n generalizing i with
  | zero => exact ⟨[], pure_answers ..⟩
  | succ n ih =>
    obtain ⟨ports, hports⟩ := ih (i + 1)
    exact ⟨_, Yields.after (u16_answers ..) (Yields.after hports (pure_answers ..))⟩

theorem reportFeatures_answers (st : State) (m : Mem) (payload : Ptr) :
    Answers (reportFeatures m payload e st) () st [] := by
  unfold reportFeatures
  refine Yields.after (touch_answers ..) ?_
  obtain ⟨ports, hports⟩ := reportPorts_answers e st payload 1
    ((((ntohs (load16 m 2)).toNat : ℤ) - ofpHdrLen - featureLen).tdiv portDataLen).toNat
  exact Yields.after hports (Outcome.yields_ok rfl)

theorem reportPort_answers (st : State) (payload : Ptr) :
    Answers (reportPort payload e st) () st [] := by
  unfold reportPort
  refine Yields.after (byte_answers ..) ?_
  refine Yields.after (u16_answers ..) ?_
  exact Outcome.yields_ok rfl

theorem handlePacketIn_answers (stream : List UInt8) (h : st.Sane) :
    let m := rawPktInMem e stream
    let msg := if m 16 = 0 then .ignored else .packetIn (PacketIn.ofMem m)
    Answers (handlePacketIn s ⟨.packet, ofpHdrLen, headerMem stream, 0⟩
      ⟨.payload, payloadLen, payloadMem e stream, 0⟩ (packetLen stream) e st) () (st.after s msg)
      (label s st.xid ((st.view s).react msg).2) := by
  rw [handlePacketIn_eq]
  exact Yields.after (repack_answers ..) (handleFrame_answers s e _ _ h)

theorem dispatch_answers (stream : List UInt8) (h : st.Sane) :
    let msg := Msg.ofMem (rawPktInMem e stream)
    Answers (dispatch s ⟨.packet, ofpHdrLen, headerMem stream, 0⟩
      ⟨.payload, payloadLen, payloadMem e stream, 0⟩ (packetLen stream) e st) () (st.after s msg)
      (label s st.xid ((st.view s).react msg).2) := by
  intro msg
  have htype : rawPktInMem e stream 1 = headerMem stream 1 :=
    rawPktInMem_header e stream (by decide)
  have hmsg : msg = Msg.ofMem (rawPktInMem e stream) := rfl
  unfold Msg.ofMem at hmsg
  rw [htype] at hmsg
  unfold dispatch
  refine Yields.ite (fun ht => ?_) (fun ht0 => ?_)
  · rw [hmsg, if_pos ht]
    exact estOFConnection_answers ..
  rw [if_neg ht0] at hmsg
  refine Yields.ite (fun ht => ?_) (fun ht1 => ?_)
  · rw [hmsg, if_pos ht]
    exact Yields.after (reportFeatures_answers ..) (setConfig_answers ..)
  rw [if_neg ht1] at hmsg
  refine Yields.ite (fun ht => ?_) (fun ht2 => ?_)
  · -- The xid of the request is in the header, with which the message in memory starts.
    have hxid : field32 (rawPktInMem e stream) 4 = field32 (headerMem stream) 4 :=
      field32_congr (fun _ hk => rawPktInMem_header e stream hk) (show 4 + 4 ≤ 8 by decide)
    rw [hmsg, if_pos ht, hxid]
    exact sendEchoReply_answers ..
  rw [if_neg ht2] at hmsg
  refine Yields.ite (fun ht => ?_) (fun ht3 => ?_)
  · rw [hmsg, if_pos ht]
    exact handlePacketIn_answers s e stream h
  rw [hmsg, if_neg ht3]
  refine Yields.ite (fun _ => ?_) (fun _ => ?_)
  · exact reportPort_answers ..
  · exact pure_answers ..

/-- What a call of `recvData` does. -/
theorem recvData_answers (stream : List UInt8) (h : st.Sane) :
    let msg := parse e stream
    Answers (recvData s stream e st)
      (if stream = [] then 0 else 1, (stream.drop ofpHdrLen).drop (payloadAsked stream).toNat)
      (st.after s msg) (label s st.xid ((st.view s).react msg).2) := by
  intro msg
  have hmsg : msg = parse e stream := rfl
  unfold parse at hmsg
  unfold recvData
  by_cases hf : e.recvFails .packet = true
  · rw [bind_apply, recv_fails s e hf]
    exact Outcome.yields_error rfl
  rw [Bool.not_eq_true] at hf
  have hrecv : Answers (recv s ⟨.packet, ofpHdrLen, zeros, 0⟩ ofpHdrLen stream e st)
      ⟨(stream.take ofpHdrLen).length, headerMem stream, stream.drop ofpHdrLen⟩ st [] := by
    rw [recv_stores s e hf (by simp)]
    exact Outcome.yields_ok rfl
  refine Yields.after hrecv (Yields.ite (fun hle => ?_) (fun hgt => ?_))
  · -- The peer has closed the connection.
    have hnil : stream = [] := by
      simp only [List.length_take, ofpHdrLen] at hle
      exact List.length_eq_zero_iff.mp (by omega)
    rw [hmsg, if_pos hnil, if_pos hnil, hnil]
    exact Yields.ite (fun h0 => absurd rfl h0) (fun _ => pure_answers ..)
  have hnil : stream ≠ [] := by
    rintro rfl
    exact hgt le_rfl
  rw [hmsg, if_neg hnil, if_neg hnil]
  have hlen : (ntohs (load16 (headerMem stream) 2)).toNat = packetLen stream := by
    rw [ntohs_load16]
    rfl
  simp only [hlen]
  refine Yields.after (recvPayload_answers s e st stream) ?_
  rw [← List.append_nil (label s st.xid _)]
  exact Yields.bind (dispatch_answers s e stream h) (pure_answers ..)

end RecvData

end SdnController
