import SdnController.Runs

/-!
# The switch's own flow table

What the messages sent on a socket make of the flow table of the switch behind it. Each flow-mod
adds an entry for one pair of addresses (`FlowNode.entry`), in place of the entry of that pair, and
no other message changes the table (`receive_encode`), so that the table is determined by the
replies (`receiveAll_numbered`) and has entries of one shape only (`Controlled`).
-/

namespace SdnController

open Memory Exec KeyedLists

/-- The entry that the flow-mod of a flow asks for. -/
def FlowNode.entry (f : FlowNode) : FlowEntry :=
  ⟨pairMatch f.srcMac f.dstMac, 0x8000, [.output f.port 0]⟩

/-- What a reply does to the switch's table. -/
def Reply.applyTo (t : FlowTable) : Reply → FlowTable
  | .flowMod dlSrc dlDst port => t.add (FlowNode.entry ⟨dlDst, dlSrc, port⟩)
  | _ => t

/-- The bytes of a reply do to the switch's table what the reply does. The command of a flow-mod
for a flow is `OFPFC_ADD`. -/
theorem receive_encode (t : FlowTable) (r : Reply) (xid : UInt32) :
    t.receive (r.encode xid) = r.applyTo t := by
  unfold FlowTable.receive
  cases r with
  | flowMod dlSrc dlDst port =>
    rw [decode_flowMod]
    rfl
  | _ =>
    rw [decode_flowMod_none xid (ne_of_beq_false rfl)]
    rfl

/-- The table after numbered replies. -/
theorem receiveAll_numbered (t : FlowTable) (xid : UInt32) (rs : List Reply) :
    t.receiveAll (numbered xid rs) = rs.foldl Reply.applyTo t := by
  induction rs generalizing t xid with
  | nil => rfl
  | cons r rs ih =>
    calc t.receiveAll (numbered xid (r :: rs))
        = (t.receive (r.encode xid)).receiveAll (numbered (xid + 1) rs) := rfl
      _ = (r.applyTo t).receiveAll (numbered (xid + 1) rs) := by rw [receive_encode]
      _ = rs.foldl Reply.applyTo (r.applyTo t) := ih ..

/-- The table after numbered replies behind other messages. -/
theorem receiveAll_append_numbered (t : FlowTable) (bs : List (List UInt8)) (xid : UInt32)
    (rs : List Reply) :
    t.receiveAll (bs ++ numbered xid rs) = rs.foldl Reply.applyTo (t.receiveAll bs) := by
  rw [← receiveAll_numbered _ xid]
  exact List.foldl_append

/-- The flow table of the switch on a socket, after the messages of a trace. It starts empty. -/
def switchTable (s : Socket) (w : List Event) : FlowTable := FlowTable.receiveAll [] (sendsOn s w)

/-! ## Entries -/

/-- Two entries for flows are the same flow to the switch when they are for one pair. -/
theorem sameFlow_entry (f g : FlowNode) :
    f.entry.sameFlow g.entry = true ↔ f.srcMac = g.srcMac ∧ f.dstMac = g.dstMac := by
  simp [FlowEntry.sameFlow, FlowNode.entry, pairMatch]

/-- An entry is for one flow. -/
theorem FlowNode.entry_injective : Function.Injective FlowNode.entry := by
  rintro ⟨dst, src, port⟩ ⟨dst', src', port'⟩ h
  simp only [FlowNode.entry, pairMatch, FlowEntry.mk.injEq, OfpMatch.mk.injEq, List.cons.injEq,
    OfpAction.output.injEq, true_and, and_true] at h
  obtain ⟨⟨rfl, rfl⟩, rfl⟩ := h
  rfl

/-- The entries after one is added. -/
theorem FlowTable.mem_add {t : FlowTable} {e e' : FlowEntry} :
    e' ∈ t.add e ↔ e' = e ∨ (e' ∈ t ∧ e.sameFlow e' = false) := by
  simp [FlowTable.add]

/-- A table whose entries are all for flows of the controller. -/
def Controlled (t : FlowTable) : Prop := ∀ e ∈ t, ∃ f : FlowNode, e = f.entry

/-- A reply leaves a controlled table controlled. -/
theorem Controlled.applyTo {t : FlowTable} (h : Controlled t) (r : Reply) :
    Controlled (r.applyTo t) := by
  cases r with
  | flowMod dlSrc dlDst port =>
    intro e he
    rcases FlowTable.mem_add.mp he with rfl | ⟨he, -⟩
    · exact ⟨_, rfl⟩
    · exact h e he
  | _ => exact h

/-- Replies leave a controlled table controlled. -/
theorem Controlled.foldl {t : FlowTable} (h : Controlled t) (rs : List Reply) :
    Controlled (rs.foldl Reply.applyTo t) := by
  induction rs generalizing t with
  | nil => exact h
  | cons r rs ih => exact ih (h.applyTo r)

/-- In every reachable state the table of every switch is controlled. -/
theorem run_controlled {is : List Input} {st : State} {w : List Event}
    (h : run step is initial = ⟨.ok (), st, w⟩) (s : Socket) : Controlled (switchTable s w) := by
  refine run_switch_induction s (fun _ bs => Controlled (FlowTable.receiveAll [] bs)) ?_ ?_ h
  · intro e he
    exact absurd he List.not_mem_nil
  intro past i st₁ w₁ _ _ _ ih
  rw [receiveAll_append_numbered]
  exact ih.foldl _

end SdnController
