import SdnController.SwitchTable

/-!
# A port that goes down

`removeFlow` is the controller's answer to a link that goes down: it takes a flow of the port out of
the local flow table and sends the switch a flow-mod for it. `removeFlow_found` and
`removeFlow_not_found` say all that it does.

The law that its comment states is `EmptiesPort`: no flow of the port is left, here or at the
switch. The code meets it exactly when the port has no flow to begin with (`port_emptied_iff`). Only
the first flow of the port is taken out, so the local half of the law fails from the second flow of
the port on (`port_emptied_locally_iff`), though no other flow is lost (`removeFlow_keeps`). The
other half fails with the first: the command of the flow-mod is never set, and zero is `OFPFC_ADD`,
so that the switch gets an entry for the pair with the action of the message, in place of the one
that it had (`receive_removalBytes`).
-/

namespace SdnController

open Memory Exec KeyedLists

/-- The bytes of the flow-mod for a flow that is taken out. Its action is of type 3. -/
def removalBytes (xid : UInt32) (f : FlowNode) : List UInt8 :=
  flowmodBytes xid f.srcMac f.dstMac 0x0003 f.port

/-- The entry that this flow-mod asks for. -/
def FlowNode.removalEntry (f : FlowNode) : FlowEntry :=
  ⟨pairMatch f.srcMac f.dstMac, 0x8000, [.other 0x0003 (be16Bytes f.port ++ [0, 0])]⟩

/-- The command of the flow-mod is an addition. -/
theorem receive_removalBytes (t : FlowTable) (xid : UInt32) (f : FlowNode) :
    t.receive (removalBytes xid f) = t.add f.removalEntry := by
  unfold FlowTable.receive removalBytes
  rw [decode_flowmodBytes]
  rfl

/-! ## What a removal does -/

section Removal

variable {s s' : Socket} {p : UInt16} {e : Env} {st : State} {f : FlowNode}

/-- The state after the first flow of the port is taken out, and a message sent. -/
def State.without (st : State) (s : Socket) (p : UInt16) : State :=
  { st with flows := (findRemoveNode s st.flows p).2, xid := st.xid + 1 }

/-- A port without a flow is left as it is, and nothing is sent. -/
theorem removeFlow_not_found (h : ∀ f ∈ innerList s st.flows, f.port ≠ p) :
    removeFlow s p e st = ⟨.ok (), st, []⟩ := by
  have hnone : search s (FlowNode.leadsOut p) st.flows = none := by
    rw [search_eq, List.find?_eq_none]
    intro f hf
    simpa [FlowNode.leadsOut] using h f hf
  unfold removeFlow findRemoveNode
  simp only [bind_apply, getState_apply, Outcome.andThen_ok, modifyState_apply,
    remove_of_not_found hnone, pure_apply, List.nil_append]

/-- The first flow of a port is taken out, and the flow-mod for it is sent, unless the send
fails. -/
theorem removeFlow_found (h : (innerList s st.flows).find? (FlowNode.leadsOut p) = some f) :
    removeFlow s p e st =
      if e.sendFails (removalBytes st.xid f) then
        ⟨.error .exit, { st with flows := (findRemoveNode s st.flows p).2 }, []⟩
      else ⟨.ok (), st.without s p, [.send s (removalBytes st.xid f)]⟩ := by
  have hfound : (findRemoveNode s st.flows p).1 = some f := by
    unfold findRemoveNode
    rw [remove_fst, search_eq, h]
  have hbytes : bytesAt (memcpy (memcpy (memcpy (memcpy (memcpy (memcpy (memcpy (memcpy (memcpy
      (memcpy zeros 0 (ofpHeaderBytes 1 14 (htons 80) (htonl st.xid)))
      8 (store32 (htonl 0x00100013))) 14 f.srcMac.bytes) 20 f.dstMac.bytes)
      62 (store16 (htons 0x8000))) 64 (store32 (htonl 0xffffffff))) 68 (store16 (htons 0xffff)))
      72 (store16 (htons 0x0003))) 74 (store16 (htons 0x0008))) 76 (store16 (htons f.port)))
      0 ofpFlowmodLen = removalBytes st.xid f := by
    unfold removalBytes flowmodBytes ofpHeaderBytes headerBytes
    simp only [store32_htonl, store16_htons]
    rfl
  unfold removeFlow sendOrExit bumpXid
  simp only [bind_apply, getState_apply, Outcome.andThen_ok, modifyState_apply, hfound, ask_apply,
    hbytes, prog_ite_apply, stop_apply, emit_apply, List.nil_append]
  split_ifs <;> rfl

/-- The flows of the socket without the first one of the port. -/
theorem innerList_without_self :
    innerList s (st.without s p).flows = (innerList s st.flows).eraseP (FlowNode.leadsOut p) :=
  innerList_remove_self ..

/-- No other socket's flows change. -/
theorem innerList_without_ne (h : s' ≠ s) :
    innerList s' (st.without s p).flows = innerList s' st.flows :=
  innerList_remove_ne h ..

/-- What is left of a port for the socket, in the local flow table, whether or not the send
fails. -/
theorem innerList_removeFlow (s : Socket) (p : UInt16) (e : Env) (st : State) :
    innerList s (removeFlow s p e st).st.flows =
      (innerList s st.flows).eraseP (FlowNode.leadsOut p) := by
  cases h : (innerList s st.flows).find? (FlowNode.leadsOut p) with
  | none =>
    have hnone := List.find?_eq_none.mp h
    rw [removeFlow_not_found (by simpa [FlowNode.leadsOut] using hnone),
      List.eraseP_of_forall_not hnone]
  | some f =>
    rw [removeFlow_found h]
    split_ifs
    · exact innerList_remove_self ..
    · exact innerList_without_self

/-- The lists of the other sockets, in the same way. -/
theorem innerList_removeFlow_ne (p : UInt16) (e : Env) (st : State) (h : s' ≠ s) :
    innerList s' (removeFlow s p e st).st.flows = innerList s' st.flows := by
  cases hfind : (innerList s st.flows).find? (FlowNode.leadsOut p) with
  | none =>
    have hnone := List.find?_eq_none.mp hfind
    rw [removeFlow_not_found (by simpa [FlowNode.leadsOut] using hnone)]
  | some f =>
    rw [removeFlow_found hfind]
    split_ifs
    · exact innerList_remove_ne h ..
    · exact innerList_without_ne h

end Removal

/-! ## The law -/

/-- What a removal is for: no flow of the port is left for the socket, its other flows are there in
the same order, no other socket's flows have changed, and the switch's table `t` has become `t'` by
losing the entries of the flows that were taken out, and no others. -/
structure PortEmptied (s : Socket) (p : UInt16) (st st' : State) (t t' : FlowTable) : Prop where
  emptied : ∀ f ∈ innerList s st'.flows, f.port ≠ p
  kept : (innerList s st'.flows).filter (·.port ≠ p) = (innerList s st.flows).filter (·.port ≠ p)
  others : ∀ s', s' ≠ s → innerList s' st'.flows = innerList s' st.flows
  table : ∀ x, x ∈ t' ↔ x ∈ t ∧
    ∀ f ∈ innerList s st.flows, f ∉ innerList s st'.flows → f.entry.sameFlow x = false

/-- A call of `removeFlow` returns, and leaves the port emptied, also in the table of the switch,
which had the entries `t` and obeys what it is sent. -/
def EmptiesPort (s : Socket) (p : UInt16) (e : Env) (st : State) (t : FlowTable) : Prop :=
  ∃ st' w, removeFlow s p e st = ⟨.ok (), st', w⟩ ∧
    PortEmptied s p st st' t (t.receiveAll (sendsOn s w))

section Law

variable {s : Socket} {p : UInt16} {e : Env} {st : State} {t : FlowTable} {f : FlowNode}

/-- A port without a flow is empty. -/
theorem emptiesPort_of_none (h : ∀ f ∈ innerList s st.flows, f.port ≠ p) :
    EmptiesPort s p e st t := by
  refine ⟨st, [], removeFlow_not_found h, ⟨h, rfl, fun _ _ => rfl, ?_⟩⟩
  intro x
  exact (and_iff_left fun f hf hout => absurd hf hout).symm

/-- A port with a flow is not emptied: the switch has an entry for the pair of the first one. -/
theorem not_emptiesPort_of_mem (hf : f ∈ innerList s st.flows) (hp : f.port = p) :
    ¬EmptiesPort s p e st t := by
  rintro ⟨st', w, hcall, hlaw⟩
  have hleads : FlowNode.leadsOut p f = true := by simp [FlowNode.leadsOut, hp]
  obtain ⟨g, hfind⟩ := Option.isSome_iff_exists.mp (List.find?_isSome.mpr ⟨f, hf, hleads⟩)
  have hg : g ∈ innerList s st.flows := List.mem_of_find?_eq_some hfind
  have hport : g.port = p := by simpa [FlowNode.leadsOut] using List.find?_some hfind
  rw [removeFlow_found hfind] at hcall
  split_ifs at hcall with hsend
  · cases congrArg Outcome.ret hcall
  obtain ⟨-, rfl, rfl⟩ := Outcome.mk.inj hcall
  -- The entry that the flow-mod adds is for the pair of a flow that was taken out.
  have hadded : g.removalEntry ∈ t.receiveAll (sendsOn s [.send s (removalBytes st.xid g)]) := by
    have hsends : sendsOn s [.send s (removalBytes st.xid g)] = [removalBytes st.xid g] := by
      simp [sendsOn, sends, Event.sent]
    rw [hsends, FlowTable.receiveAll, List.foldl_cons, List.foldl_nil, receive_removalBytes]
    exact FlowTable.mem_add.mpr (.inl rfl)
  have hout : g ∉ innerList s (st.without s p).flows := fun hin => hlaw.emptied g hin hport
  have hlost := ((hlaw.table _).mp hadded).2 g hg hout
  simp [FlowEntry.sameFlow, FlowNode.entry, FlowNode.removalEntry] at hlost

end Law

/-- A removal empties a port exactly when it had no flow to begin with, whatever state the
controller has reached and whatever the table of the switch holds. -/
theorem port_emptied_iff (s : Socket) (p : UInt16) (e : Env) (st : State) (t : FlowTable) :
    EmptiesPort s p e st t ↔ ∀ f ∈ innerList s st.flows, f.port ≠ p := by
  constructor
  · intro hlaw f hf hp
    exact not_emptiesPort_of_mem hf hp hlaw
  · exact emptiesPort_of_none

/-- In the local flow table a removal empties a port with at most one flow. -/
theorem port_emptied_locally_iff (s : Socket) (p : UInt16) (e : Env) (st : State) :
    (∀ f ∈ innerList s (removeFlow s p e st).st.flows, f.port ≠ p) ↔
      (innerList s st.flows).countP (FlowNode.leadsOut p) ≤ 1 := by
  rw [innerList_removeFlow, ← forall_mem_eraseP]
  simp [FlowNode.leadsOut]

/-- What a removal keeps in any case: the flows of other ports, in their order, and the lists of
other sockets. -/
theorem removeFlow_keeps (s : Socket) (p : UInt16) (e : Env) (st : State) :
    (innerList s (removeFlow s p e st).st.flows).filter (·.port ≠ p) =
        (innerList s st.flows).filter (·.port ≠ p) ∧
      ∀ s', s' ≠ s →
        innerList s' (removeFlow s p e st).st.flows = innerList s' st.flows := by
  refine ⟨?_, fun s' hs' => innerList_removeFlow_ne p e st hs'⟩
  have hother : (fun f : FlowNode => decide (f.port ≠ p)) = (!FlowNode.leadsOut p ·) := by
    funext f
    simp [FlowNode.leadsOut]
  rw [innerList_removeFlow, hother, filter_not_eraseP]

/-- After a conversation, the port of host B is not emptied. -/
theorem port_not_emptied_conversation :
    ∃ st w, run step (conversation 4) initial = ⟨.ok (), st, w⟩ ∧
      ¬EmptiesPort 4 2 (reply 4).env st (switchTable 4 w) := by
  refine ⟨_, _, run_of_isOk step (conversation 4) initial (by decide +kernel), ?_⟩
  exact not_emptiesPort_of_mem (f := ⟨hostB, hostA, 2⟩) (by decide +kernel) rfl

end SdnController
