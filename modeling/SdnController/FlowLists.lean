import SdnController.Runs
import SdnController.Learning

/-!
# The local flow table

Two invariants of the flow lists of a switch. The first holds in every reachable state
(`flows_paired`): a pair of addresses has one flow, and its reverse has one too. It is broken
between the two insertions of `establishFlows`, so it is a fact about whole messages.

The second, that a flow leads to the port on which its destination was learned, does not hold in
every reachable state. The two tables are filled by different rules: an address keeps the first port
that it was seen on, while the first flow of an ARP reply takes the port of the packet, and the
second one the result of a lookup that may find nothing. `KeepsPorts` is the condition on a packet
under which the tables go on agreeing (`Switch.PortsAgree.packetIn_iff`), and a run whose steps all
meet it keeps them in agreement (`flows_agree`).
-/

namespace SdnController

open Memory Exec KeyedLists

/-! ## Both directions, once each -/

/-- Every pair has at most one flow. -/
def Switch.PairsDistinct (v : Switch) : Prop := (v.flows.map fun f => (f.srcMac, f.dstMac)).Nodup

/-- The reverse of every flow is there. -/
def Switch.Bidirectional (v : Switch) : Prop :=
  ∀ f ∈ v.flows, ∃ g ∈ v.flows, g.srcMac = f.dstMac ∧ g.dstMac = f.srcMac

/-- After a message the pairs are still distinct. -/
theorem Switch.PairsDistinct.react {v : Switch} (h : v.PairsDistinct) (m : Msg) :
    (v.react m).1.PairsDistinct := by
  obtain ⟨p, -, -, he⟩ | ⟨p, -, -, -, he⟩ | ⟨p, -, -, -, he⟩ | ⟨-, he⟩ := v.react_flows m
  · rw [he]
    exact Switch.nodup_addFlow _ _ _ (Switch.nodup_addFlow _ _ _ h)
  · rw [he]
    exact Switch.nodup_addFlow _ _ _ h
  · rw [he]
    exact h
  · rw [he]
    exact h

/-- The pair of a recorded flow has a flow. -/
theorem Switch.exists_addFlow (v : Switch) (dst src : Mac) (port : UInt16) :
    ∃ f ∈ (v.addFlow dst src port).flows, f.srcMac = src ∧ f.dstMac = dst := by
  obtain ⟨hf, hdst, hsrc⟩ := Switch.flow_eq_some (v.flow_addFlow_self dst src port)
  exact ⟨_, hf, hsrc, hdst⟩

/-- A recorded flow adds its own pair and no other. -/
theorem Switch.exists_addFlow_iff (v : Switch) (dst src : Mac) (port : UInt16) (a b : Mac) :
    (∃ f ∈ (v.addFlow dst src port).flows, f.srcMac = a ∧ f.dstMac = b) ↔
      (∃ f ∈ v.flows, f.srcMac = a ∧ f.dstMac = b) ∨ (a = src ∧ b = dst) := by
  constructor
  · rintro ⟨f, hf, ha, hb⟩
    rcases (v.mem_addFlow dst src port).mp hf with hf | ⟨-, rfl⟩
    · exact .inl ⟨f, hf, ha, hb⟩
    · exact .inr ⟨ha.symm, hb.symm⟩
  · rintro (⟨f, hf, ha, hb⟩ | ⟨rfl, rfl⟩)
    · exact ⟨f, (v.mem_addFlow dst src port).mpr (.inl hf), ha, hb⟩
    · exact v.exists_addFlow b a port

/-- After a message every flow still has its reverse: the second insertion restores what the first
one broke, whatever was there before. -/
theorem Switch.Bidirectional.react {v : Switch} (h : v.Bidirectional) (m : Msg) :
    (v.react m).1.Bidirectional := by
  obtain ⟨p, -, -, he⟩ | ⟨p, -, -, hd, he⟩ | ⟨p, -, -, -, he⟩ | ⟨-, he⟩ := v.react_flows m
  · rw [he]
    intro f hf
    -- The pair was there before, with its reverse, or it is one of the two that were recorded.
    have hpair := (Switch.exists_addFlow_iff _ _ _ _ f.srcMac f.dstMac).mp ⟨f, hf, rfl, rfl⟩
    rw [Switch.exists_addFlow_iff] at hpair
    rw [Switch.exists_addFlow_iff, Switch.exists_addFlow_iff]
    rcases hpair with (⟨g, hg, hsrc, hdst⟩ | ⟨hsrc, hdst⟩) | ⟨hsrc, hdst⟩
    · obtain ⟨g', hg', hsrc', hdst'⟩ := h g hg
      exact .inl (.inl ⟨g', hg', hsrc'.trans hdst, hdst'.trans hsrc⟩)
    · exact .inr ⟨hdst, hsrc⟩
    · exact .inl (.inr ⟨hdst, hsrc⟩)
  · -- A frame to its own source: the flow is its own reverse.
    rw [he]
    intro f hf
    have hpair := (Switch.exists_addFlow_iff _ _ _ _ f.srcMac f.dstMac).mp ⟨f, hf, rfl, rfl⟩
    rw [Switch.exists_addFlow_iff]
    rcases hpair with ⟨g, hg, hsrc, hdst⟩ | ⟨hsrc, hdst⟩
    · obtain ⟨g', hg', hsrc', hdst'⟩ := h g hg
      exact .inl ⟨g', hg', hsrc'.trans hdst, hdst'.trans hsrc⟩
    · exact .inr ⟨hdst.trans hd.symm, hsrc.trans hd⟩
  · rw [he]
    exact h
  · rw [he]
    exact h

section Runs

variable {is : List Input} {st : State} {w : List Event}

/-- In every reachable state the sockets of the flow table are distinct, a pair of addresses has at
most one flow for each, and the reverse of every flow is there. -/
theorem flows_paired (h : run step is initial = ⟨.ok (), st, w⟩) :
    (st.flows.map Outer.key).Nodup ∧
      (∀ n ∈ st.flows, (n.head.map fun f => (f.srcMac, f.dstMac)).Nodup) ∧
      ∀ n ∈ st.flows, ∀ f ∈ n.head, ∃ g ∈ n.head, g.srcMac = f.dstMac ∧ g.dstMac = f.srcMac := by
  have hst := run_sane h
  have hview : ∀ n ∈ st.flows, n.head = (st.view n.key).flows :=
    fun n hn => (innerList_of_mem hst.flows_nodup hn).symm
  refine ⟨hst.flows_nodup, ?_, ?_⟩
  · intro n hn
    rw [hview n hn, run_view n.key h]
    exact Switch.afterAll_invariant (v := Switch.fresh) Switch.PairsDistinct
      (fun v m hv => hv.react m) List.nodup_nil _
  · intro n hn
    rw [hview n hn, run_view n.key h]
    refine Switch.afterAll_invariant Switch.Bidirectional (fun v m hv => hv.react m) ?_ _
    intro f hf
    exact absurd hf List.not_mem_nil

end Runs

/-- The two directions of the host that moves. -/
theorem flows_paired_movingHost :
    ((run step movingHost initial).st.flows.map Outer.key).Nodup ∧
      ∀ n ∈ (run step movingHost initial).st.flows, ∀ f ∈ n.head,
        ∃ g ∈ n.head, g.srcMac = f.dstMac ∧ g.dstMac = f.srcMac := by
  have h := run_of_isOk step movingHost initial (by decide +kernel)
  obtain ⟨hsockets, -, hreverse⟩ := flows_paired h
  exact ⟨hsockets, hreverse⟩

/-! ## Where the flows lead -/

/-- Every flow leads to the port on which its destination was learned, or to 0. -/
def Switch.PortsAgree (v : Switch) : Prop := ∀ f ∈ v.flows, f.port = v.port f.dstMac

/-- A packet that keeps the tables in agreement: if its source was not known, no flow leads to it,
or its port is 0, which is what the flows to an unknown address have; and if it records a first flow
to a known source, it came in on the port on which that was learned. -/
def Switch.KeepsPorts (v : Switch) (p : PacketIn) : Prop :=
  (v.knows p.src = false → p.inPort = 0 ∨ ∀ f ∈ v.flows, f.dstMac ≠ p.src) ∧
    (p.arpReply = true ∨ p.dst = p.src → v.flow p.src p.dst = none → v.knows p.src = true →
      v.port p.src = p.inPort)

instance (v : Switch) (p : PacketIn) : Decidable (v.KeepsPorts p) :=
  inferInstanceAs (Decidable ((v.knows p.src = false → p.inPort = 0 ∨ ∀ f ∈ v.flows, _) ∧ _))

section PortsAgree

variable {v : Switch}

/-- Learning an address keeps the agreement if no flow led to it while it was unknown. -/
theorem Switch.PortsAgree.learn_iff (h : v.PortsAgree) (a : Mac) (port : UInt16) :
    (v.learn a port).PortsAgree ↔
      (v.knows a = false → port = 0 ∨ ∀ f ∈ v.flows, f.dstMac ≠ a) := by
  have hself := v.port_learn_self a port
  constructor
  · intro h' hk
    rw [hk, if_neg Bool.false_ne_true] at hself
    by_contra hne
    push Not at hne
    obtain ⟨hport, f, hf, rfl⟩ := hne
    -- The flow to the unknown address has port 0.
    have h0 : f.port = 0 := (h f hf).trans (Switch.port_of_not_knows hk)
    have hnew : f.port = port := (h' f hf).trans hself
    exact hport (hnew.symm.trans h0)
  · intro hc f hf
    by_cases ha : f.dstMac = a
    · subst ha
      rw [hself]
      cases hk : v.knows f.dstMac with
      | true => exact h f hf
      | false =>
        rcases hc hk with rfl | hno
        · exact (h f hf).trans (Switch.port_of_not_knows hk)
        · exact absurd rfl (hno f hf)
    · rw [Switch.port_learn_ne v port ha]
      exact h f hf

/-- Recording a flow keeps the agreement if the pair had one, or if the new one agrees. -/
theorem Switch.portsAgree_addFlow_iff (dst src : Mac) (port : UInt16) :
    (v.addFlow dst src port).PortsAgree ↔
      v.PortsAgree ∧ (v.flow dst src = none → port = v.port dst) := by
  constructor
  · intro h
    refine ⟨fun f hf => h f ((v.mem_addFlow dst src port).mpr (.inl hf)), fun hnone => ?_⟩
    exact h ⟨dst, src, port⟩ ((v.mem_addFlow dst src port).mpr (.inr ⟨hnone, rfl⟩))
  · rintro ⟨h, hnew⟩ f hf
    rcases (v.mem_addFlow dst src port).mp hf with hf | ⟨hnone, rfl⟩
    · exact h f hf
    · exact hnew hnone

/-- A packet keeps the agreement exactly when it meets the condition. -/
theorem Switch.PortsAgree.packetIn_iff (h : v.PortsAgree) (p : PacketIn) :
    (v.packetIn p).1.PortsAgree ↔ v.KeepsPorts p := by
  have hlearn := h.learn_iff p.src p.inPort
  have hfirst : p.inPort = (v.learn p.src p.inPort).port p.src ↔
      (v.knows p.src = true → v.port p.src = p.inPort) := by
    rw [v.port_learn_self]
    cases v.knows p.src <;> simp [eq_comm]
  unfold Switch.packetIn Switch.KeepsPorts
  split_ifs with harp hloop
  · -- The second flow takes its port from the table, so it agrees.
    simp [Switch.portsAgree_addFlow_iff, hlearn, hfirst, harp]
  · simp [Switch.portsAgree_addFlow_iff, hlearn, hfirst, hloop]
  · simp [hlearn, harp, hloop]

end PortsAgree

/-- The condition on the packet of a step, with what the tables hold for its socket. -/
def KeepsPorts (st : State) (i : Input) : Prop :=
  ∀ p, i.msg = .packetIn p → (st.view i.socket).KeepsPorts p

instance (st : State) (i : Input) : Decidable (KeepsPorts st i) :=
  inferInstanceAs (Decidable (∀ p, i.msg = .packetIn p → (st.view i.socket).KeepsPorts p))

section Runs

variable {is : List Input} {st : State} {w : List Event}

/-- In a run whose packets all keep the tables in agreement, every flow leads to the port on which
its destination was learned, and two flows to one destination lead to one port. -/
theorem flows_agree (hkeeps : Always KeepsPorts step is initial)
    (h : run step is initial = ⟨.ok (), st, w⟩) (s : Socket) :
    (∀ f ∈ innerList s st.flows, f.port = findPort s st.ll f.dstMac) ∧
      ∀ f ∈ innerList s st.flows, ∀ g ∈ innerList s st.flows,
        f.dstMac = g.dstMac → f.port = g.port := by
  have hagree : (st.view s).PortsAgree := by
    refine run_switch_induction s (fun v _ => v.PortsAgree) ?_ ?_ h
    · intro f hf
      exact absurd hf List.not_mem_nil
    intro past i st₁ w₁ hp hpast hs ih
    subst hs
    cases hm : i.msg with
    | packetIn p => exact (ih.packetIn_iff p).mpr (hkeeps past i st₁ w₁ hp hpast p hm)
    | _ => exact ih
  have hport : ∀ f ∈ innerList s st.flows, f.port = findPort s st.ll f.dstMac := by
    intro f hf
    rw [findPort_eq]
    exact hagree f hf
  refine ⟨hport, ?_⟩
  intro f hf g hg hdst
  calc f.port = findPort s st.ll f.dstMac := hport f hf
    _ = findPort s st.ll g.dstMac := by rw [hdst]
    _ = g.port := (hport g hg).symm

end Runs

/-- Both flows of a conversation lead to where their destinations were seen. -/
theorem flows_agree_conversation :
    (innerList 4 (run step (conversation 4) initial).st.flows).length = 2 ∧
      ∀ f ∈ innerList 4 (run step (conversation 4) initial).st.flows,
        f.port = findPort 4 (run step (conversation 4) initial).st.ll f.dstMac := by
  have h := run_of_isOk step (conversation 4) initial (by decide +kernel)
  have hkeeps : Always KeepsPorts step (conversation 4) initial :=
    always_cons (by decide +kernel) (always_cons (by decide +kernel) always_nil)
  exact ⟨by decide +kernel, (flows_agree hkeeps h 4).1⟩

/-- The host that moves: the flow to it leads to its new port, and the table has its old one. -/
theorem flows_disagree_movingHost :
    (∀ i ∈ movingHost, Whole i) ∧ (run step movingHost initial).ret.isOk = true ∧
      ∃ f ∈ innerList 4 (run step movingHost initial).st.flows,
        f.port ≠ findPort 4 (run step movingHost initial).st.ll f.dstMac := by
  decide +kernel

end SdnController
