import SdnController.SwitchTable

/-!
# The local flow table and the switch's

The controller saves each flow that it sends in its local flow table. The two tables are kept by
different rules: the local one keeps the first flow of a pair (`addAbsent`), the switch keeps the
last (`FlowTable.add`). They hold the same flows as long as a pair is sent again only with the port
that it already has: `NoDrift` is that condition on a message (`Mirrors.packetIn_iff`), and
`tables_mirror` says that a run whose messages all meet it keeps the tables of all switches
mirrored.
-/

namespace SdnController

open Memory Exec KeyedLists

/-- The switch's table has the entries of the local flows, and no others. -/
def Mirrors (v : Switch) (t : FlowTable) : Prop :=
  ∀ e, e ∈ t ↔ ∃ f, v.flow f.dstMac f.srcMac = some f ∧ e = f.entry

/-- A flow-mod keeps the tables mirrored when the local table ends with its flow, and with all other
flows as they were. -/
theorem Mirrors.add {v v' : Switch} {t : FlowTable} (h : Mirrors v t) {g : FlowNode}
    (hself : v'.flow g.dstMac g.srcMac = some g)
    (hne : ∀ a b, ¬(g.dstMac = a ∧ g.srcMac = b) → v'.flow a b = v.flow a b) :
    Mirrors v' (t.add g.entry) := by
  intro e
  rw [FlowTable.mem_add, h e]
  constructor
  · rintro (rfl | ⟨⟨f, hf, rfl⟩, hsame⟩)
    · exact ⟨g, hself, rfl⟩
    · -- An entry that is left from before is for another pair, whose flow has not changed.
      refine ⟨f, ?_, rfl⟩
      rw [hne _ _ fun hpair => ?_, hf]
      rw [(sameFlow_entry g f).mpr ⟨hpair.2, hpair.1⟩] at hsame
      exact absurd hsame (by decide)
  · rintro ⟨f, hf, rfl⟩
    by_cases hpair : g.dstMac = f.dstMac ∧ g.srcMac = f.srcMac
    · rw [← hpair.1, ← hpair.2, hself, Option.some.injEq] at hf
      exact .inl (by rw [hf])
    · rw [hne _ _ hpair] at hf
      refine .inr ⟨⟨f, hf, rfl⟩, ?_⟩
      rw [← Bool.not_eq_true, sameFlow_entry]
      exact fun hs => hpair ⟨hs.2, hs.1⟩

/-- Adding an entry twice for one pair leaves what the second one alone leaves. -/
theorem FlowTable.mem_add_add {t : FlowTable} {f g : FlowNode} (hdst : f.dstMac = g.dstMac)
    (hsrc : f.srcMac = g.srcMac) (e : FlowEntry) :
    e ∈ (t.add f.entry).add g.entry ↔ e ∈ t.add g.entry := by
  rw [FlowTable.mem_add, FlowTable.mem_add, FlowTable.mem_add]
  have hsame : g.entry.sameFlow f.entry = true := (sameFlow_entry g f).mpr ⟨hsrc.symm, hdst.symm⟩
  have hiff : ∀ e, f.entry.sameFlow e = g.entry.sameFlow e := by
    intro e
    unfold FlowEntry.sameFlow FlowNode.entry
    rw [hdst, hsrc]
  constructor
  · rintro (he | ⟨rfl | ⟨he, -⟩, hs⟩)
    · exact .inl he
    · -- The first entry does not survive the second.
      rw [hsame] at hs
      exact absurd hs (by decide)
    · exact .inr ⟨he, hs⟩
  · rintro (he | ⟨he, hs⟩)
    · exact .inl he
    · exact .inr ⟨.inr ⟨he, (hiff e).trans hs⟩, hs⟩

/-- A packet whose flow-mods carry, for each pair, the port that the local table has for it. An ARP
reply to its own sender sends two flow-mods for one pair, of which the second counts. -/
def Switch.NoDrift (v : Switch) (p : PacketIn) : Prop :=
  if p.arpReply = true then
    if p.dst = p.src then
      ((v.flow p.src p.src).map FlowNode.port).getD p.inPort =
        if v.knows p.src = true then v.port p.src else p.inPort
    else
      (∀ f ∈ v.flow p.src p.dst, f.port = p.inPort) ∧
        ∀ f ∈ v.flow p.dst p.src, f.port = v.port p.dst
  else p.dst = p.src → ∀ f ∈ v.flow p.src p.src, f.port = p.inPort

instance (v : Switch) (p : PacketIn) : Decidable (v.NoDrift p) :=
  inferInstanceAs (Decidable (ite _ (ite _ _ _) _))

section Packet

variable {v : Switch} {t : FlowTable}

/-- A flow that is recorded while its pair has none, or one with the same port, is the flow of the
pair. -/
theorem Switch.flow_addFlow_of_port (v : Switch) {dst src : Mac} {port : UInt16}
    (h : ∀ f ∈ v.flow dst src, f.port = port) :
    (v.addFlow dst src port).flow dst src = some ⟨dst, src, port⟩ := by
  rw [v.flow_addFlow_self]
  cases hf : v.flow dst src with
  | none => rfl
  | some f =>
    obtain ⟨-, hdst, hsrc⟩ := Switch.flow_eq_some hf
    have hport := h f hf
    rw [Option.getD_some, ← hdst, ← hsrc, ← hport]

/-- A flow whose entry the switch has is the flow of its pair. -/
theorem Mirrors.flow_eq (h : Mirrors v t) {g : FlowNode} (hg : g.entry ∈ t) :
    v.flow g.dstMac g.srcMac = some g := by
  obtain ⟨f, hf, he⟩ := (h g.entry).mp hg
  rw [FlowNode.entry_injective he]
  exact hf

/-- One recorded flow and its flow-mod: the pair had no flow, or one with the same port. -/
theorem Mirrors.addFlow_iff (h : Mirrors v t) (dst src : Mac) (port : UInt16) :
    Mirrors (v.addFlow dst src port) (t.add (FlowNode.entry ⟨dst, src, port⟩)) ↔
      ∀ f ∈ v.flow dst src, f.port = port := by
  constructor
  · intro h' f hf
    have hflow : (v.addFlow dst src port).flow dst src = some ⟨dst, src, port⟩ :=
      h'.flow_eq (FlowTable.mem_add.mpr (.inl rfl))
    rw [v.flow_addFlow_self, hf, Option.getD_some, Option.some.injEq] at hflow
    rw [hflow]
  · intro hport
    exact h.add (v.flow_addFlow_of_port hport) fun _ _ hne => v.flow_addFlow_ne dst src port hne

/-- Two recorded flows of different pairs, and their flow-mods. -/
theorem Mirrors.addFlow_addFlow_iff (h : Mirrors v t) {dst src dst' src' : Mac}
    (port port' : UInt16) (hne : ¬(dst' = dst ∧ src' = src)) :
    Mirrors ((v.addFlow dst src port).addFlow dst' src' port')
        ((t.add (FlowNode.entry ⟨dst, src, port⟩)).add (FlowNode.entry ⟨dst', src', port'⟩)) ↔
      (∀ f ∈ v.flow dst src, f.port = port) ∧ ∀ f ∈ v.flow dst' src', f.port = port' := by
  have hfirst := h.addFlow_iff dst src port
  have hsecond := v.flow_addFlow_ne dst src port fun hpair => hne ⟨hpair.1.symm, hpair.2.symm⟩
  constructor
  · intro h'
    -- The second flow-mod leaves the entry of the first.
    have hkeep : FlowNode.entry ⟨dst, src, port⟩ ∈
        (t.add (FlowNode.entry ⟨dst, src, port⟩)).add (FlowNode.entry ⟨dst', src', port'⟩) := by
      refine FlowTable.mem_add.mpr (.inr ⟨FlowTable.mem_add.mpr (.inl rfl), ?_⟩)
      rw [← Bool.not_eq_true, sameFlow_entry]
      exact fun hs => hne ⟨hs.2, hs.1⟩
    have hflow := h'.flow_eq hkeep
    rw [Switch.flow_addFlow_ne _ _ _ _ hne, v.flow_addFlow_self] at hflow
    have hport : ∀ f ∈ v.flow dst src, f.port = port := by
      intro f hf
      rw [hf, Option.getD_some, Option.some.injEq] at hflow
      rw [hflow]
    refine ⟨hport, ?_⟩
    rw [← hsecond]
    exact ((hfirst.mpr hport).addFlow_iff dst' src' port').mp h'
  · rintro ⟨hport, hport'⟩
    rw [← hsecond] at hport'
    exact ((hfirst.mpr hport).addFlow_iff dst' src' port').mpr hport'

/-- Two recorded flows of one pair, of which the first counts, and their flow-mods, of which the
second does. -/
theorem Mirrors.addFlow_twice_iff (h : Mirrors v t) (dst src : Mac) (port port' : UInt16) :
    Mirrors ((v.addFlow dst src port).addFlow dst src port')
        ((t.add (FlowNode.entry ⟨dst, src, port⟩)).add (FlowNode.entry ⟨dst, src, port'⟩)) ↔
      ((v.flow dst src).map FlowNode.port).getD port = port' := by
  have hfirst : (v.addFlow dst src port).flow dst src =
      some ((v.flow dst src).getD ⟨dst, src, port⟩) := v.flow_addFlow_self dst src port
  have hgetD : ((v.flow dst src).getD ⟨dst, src, port⟩).port =
      ((v.flow dst src).map FlowNode.port).getD port := by
    cases v.flow dst src <;> rfl
  constructor
  · intro h'
    have hflow : ((v.addFlow dst src port).addFlow dst src port').flow dst src =
        some ⟨dst, src, port'⟩ := h'.flow_eq (FlowTable.mem_add.mpr (.inl rfl))
    rw [Switch.flow_addFlow_self, hfirst, Option.getD_some, Option.some.injEq] at hflow
    rw [← hgetD, hflow]
  · intro hport
    have hself : ((v.addFlow dst src port).addFlow dst src port').flow dst src =
        some ⟨dst, src, port'⟩ := by
      refine Switch.flow_addFlow_of_port _ fun f hf => ?_
      rw [hfirst, Option.mem_def, Option.some.injEq] at hf
      rw [← hf, hgetD, hport]
    have hadd := h.add (g := ⟨dst, src, port'⟩) hself fun a b hne => by
      rw [Switch.flow_addFlow_ne _ _ _ _ hne, Switch.flow_addFlow_ne _ _ _ _ hne]
    intro e
    have htwice := FlowTable.mem_add_add (t := t) (f := ⟨dst, src, port⟩) (g := ⟨dst, src, port'⟩)
      rfl rfl e
    exact htwice.trans (hadd e)

/-- A packet keeps the tables mirrored exactly when it meets the condition. -/
theorem Mirrors.packetIn_iff (h : Mirrors v t) (p : PacketIn) :
    Mirrors (v.packetIn p).1 ((v.packetIn p).2.foldl Reply.applyTo t) ↔ v.NoDrift p := by
  have hlearn : Mirrors (v.learn p.src p.inPort) t := h
  unfold Switch.NoDrift Switch.packetIn
  by_cases harp : p.arpReply = true
  · rw [if_pos harp, if_pos harp]
    by_cases hd : p.dst = p.src
    · rw [if_pos hd, hd, ← v.port_learn_self]
      exact hlearn.addFlow_twice_iff ..
    · rw [if_neg hd, ← v.port_learn_ne p.inPort hd]
      exact hlearn.addFlow_addFlow_iff _ _ fun hpair => hd hpair.1
  rw [if_neg harp, if_neg harp]
  by_cases hd : p.dst = p.src
  · rw [if_pos hd, hd, imp_iff_right rfl]
    exact hlearn.addFlow_iff ..
  · rw [if_neg hd]
    exact iff_of_true hlearn fun he => absurd he hd

end Packet

section Runs

variable {is : List Input} {st : State} {w : List Event}

/-- The condition on the packet of a step, with what the tables hold for its socket. -/
def NoDrift (st : State) (i : Input) : Prop :=
  ∀ p, i.msg = .packetIn p → (st.view i.socket).NoDrift p

instance (st : State) (i : Input) : Decidable (NoDrift st i) :=
  inferInstanceAs (Decidable (∀ p, i.msg = .packetIn p → (st.view i.socket).NoDrift p))

/-- In a run whose packets all meet the condition, the tables of every switch are mirrored. -/
theorem run_mirrors (hdrift : Always NoDrift step is initial)
    (h : run step is initial = ⟨.ok (), st, w⟩) (s : Socket) :
    Mirrors (st.view s) (switchTable s w) := by
  refine run_switch_induction s (fun v bs => Mirrors v (FlowTable.receiveAll [] bs)) ?_ ?_ h
  · intro e
    simp [FlowTable.receiveAll, Switch.fresh, Switch.flow]
  intro past i st₁ w₁ hp hpast hs ih
  subst hs
  rw [receiveAll_append_numbered]
  -- No message but a packet-in changes either table.
  cases hm : i.msg with
  | packetIn p => exact (ih.packetIn_iff p).mpr (hdrift past i st₁ w₁ hp hpast p hm)
  | _ => exact ih

/-- In a run whose packets all meet the condition, the local flow table has a flow of a pair with a
port exactly when the switch has an entry for the pair with that port. -/
theorem tables_mirror (hdrift : Always NoDrift step is initial)
    (h : run step is initial = ⟨.ok (), st, w⟩) (s : Socket) (src dst : Mac) (port : UInt16) :
    (∃ f, findFlow s st.flows dst src = some f ∧ f.port = port) ↔
      ∃ e ∈ switchTable s w, e.fields.dlSrc = src ∧ e.fields.dlDst = dst ∧
        ∃ maxLen, .output port maxLen ∈ e.actions := by
  have hmirror := run_mirrors hdrift h s
  have hfind : findFlow s st.flows dst src = (st.view s).flow dst src := search_eq ..
  rw [hfind]
  constructor
  · rintro ⟨f, hf, rfl⟩
    obtain ⟨-, hdst, hsrc⟩ := Switch.flow_eq_some hf
    rw [← hdst, ← hsrc] at hf
    exact ⟨f.entry, (hmirror f.entry).mpr ⟨f, hf, rfl⟩, hsrc, hdst, 0, List.mem_singleton.mpr rfl⟩
  · rintro ⟨e, he, hsrc, hdst, maxLen, hact⟩
    obtain ⟨f, hf, rfl⟩ := (hmirror e).mp he
    have hsrc : f.srcMac = src := hsrc
    have hdst : f.dstMac = dst := hdst
    rw [hdst, hsrc] at hf
    refine ⟨f, hf, ?_⟩
    have hact := List.mem_singleton.mp hact
    simp only [OfpAction.output.injEq] at hact
    exact hact.1.symm

end Runs

/-- The switch has the flow of a conversation that the local table has. -/
theorem tables_mirror_conversation :
    ∃ e ∈ switchTable 4 (run step (conversation 4) initial).events,
      e.fields.dlSrc = hostB ∧ e.fields.dlDst = hostA ∧ ∃ maxLen, .output 1 maxLen ∈ e.actions := by
  have h := run_of_isOk step (conversation 4) initial (by decide +kernel)
  have hdrift : Always NoDrift step (conversation 4) initial :=
    always_cons (by decide +kernel) (always_cons (by decide +kernel) always_nil)
  exact (tables_mirror hdrift h 4 hostB hostA 1).mp ⟨⟨hostA, hostB, 1⟩, by decide +kernel, rfl⟩

/-- A host answers from one port, and then from another. -/
def movingReplies : List Input :=
  [reply 4, Input.plain 4 (packetInBytes 3 (arpFrame 2 hostA hostB))]

/-- The local table has the host's old port, and the switch does not. -/
theorem tables_drift_movingReplies :
    (∀ i ∈ movingReplies, Whole i) ∧ (run step movingReplies initial).ret.isOk = true ∧
      (∃ f, findFlow 4 (run step movingReplies initial).st.flows hostB hostA = some f ∧
        f.port = 2) ∧
      ¬∃ e ∈ switchTable 4 (run step movingReplies initial).events,
        e.fields.dlSrc = hostA ∧ e.fields.dlDst = hostB ∧
          ∃ maxLen, .output 2 maxLen ∈ e.actions := by
  refine ⟨by decide +kernel, by decide +kernel, ⟨⟨hostB, hostA, 2⟩, by decide +kernel, rfl⟩, ?_⟩
  rintro ⟨e, he, -, -, maxLen, hact⟩
  have hall : ∀ e ∈ switchTable 4 (run step movingReplies initial).events,
      ∀ act ∈ e.actions, act = .output 3 0 ∨ act = .output 0 0 := by decide +kernel
  rcases hall e he _ hact with h | h <;> simp at h

end SdnController
