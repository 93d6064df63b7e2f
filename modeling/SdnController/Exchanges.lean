import SdnController.FlowLists
import SdnController.Framing

/-!
# Where the flows come from

The local flow table as a function of what was received. The first time that two hosts are seen to
exchange something, by an ARP reply of one of them to the other, or by a frame of a host to itself,
both flows between them are recorded, and no later message changes them
(`flow_first_exchange`). The flow to the host that sent the frame has the port on which the frame
came in. The flow to the other one has the port on which that was seen first until then, or 0.

With the addresses, which are those of the first sightings, this determines all that the controller
keeps between two messages but the transaction id.
-/

namespace SdnController

open Memory Exec KeyedLists

/-! ## One message -/

/-- The flow to `dst` from `src` that a message has a switch record, if it has none. -/
def Switch.recorded (v : Switch) (dst src : Mac) : Msg → Option FlowNode
  | .packetIn p =>
    if p.arpReply = true ∨ p.dst = p.src then
      if p.src = dst ∧ p.dst = src then some ⟨dst, src, p.inPort⟩
      else if p.dst = dst ∧ p.src = src then some ⟨dst, src, v.port dst⟩
      else none
    else none
  | _ => none

/-- Recording a flow, for any pair. -/
theorem Switch.flow_addFlow (v : Switch) (a b dst src : Mac) (port : UInt16) :
    (v.addFlow a b port).flow dst src =
      (v.flow dst src).or (if a = dst ∧ b = src then some ⟨dst, src, port⟩ else none) := by
  split_ifs with h
  · obtain ⟨rfl, rfl⟩ := h
    rw [v.flow_addFlow_self]
    cases v.flow a b <;> rfl
  · rw [v.flow_addFlow_ne _ _ _ h, Option.or_none]

/-- The flow of a pair after a message. -/
theorem Switch.flow_react (v : Switch) (dst src : Mac) (m : Msg) :
    (v.react m).1.flow dst src = (v.flow dst src).or (v.recorded dst src m) := by
  obtain ⟨p, rfl, harp, he⟩ | ⟨p, rfl, harp, hd, he⟩ | ⟨p, rfl, harp, hd, he⟩ | ⟨hm, he⟩ :=
    v.react_flows m
  · -- The flow to the sender comes first, so it is the one that a frame to its own source has.
    have hsent : p.arpReply = true ∨ p.dst = p.src := .inl harp
    rw [he, Switch.flow_addFlow, Switch.flow_addFlow, Switch.flow_learn, Option.or_assoc,
      Switch.recorded, if_pos hsent]
    congr 1
    by_cases h : p.src = dst ∧ p.dst = src
    · rw [if_pos h, if_pos h, Option.some_or]
    · rw [if_neg h, if_neg h, Option.none_or]
      split_ifs with h'
      · -- The other host is not the sender, whose port is the one that was learned just now.
        have hne : dst ≠ p.src := by
          rintro rfl
          exact h ⟨rfl, h'.1.trans h'.2⟩
        rw [h'.1, v.port_learn_ne _ hne]
      · rfl
  · -- A frame to its own source: the two directions are one.
    have hsent : p.arpReply = true ∨ p.dst = p.src := .inr hd
    rw [he, Switch.flow_addFlow, Switch.flow_learn, Switch.recorded, if_pos hsent, hd]
    congr 1
    by_cases h : p.src = dst ∧ p.src = src
    · rw [if_pos h, if_pos h]
    · rw [if_neg h, if_neg h, if_neg h]
  · rw [he, Switch.flow_learn, Switch.recorded, if_neg (by simp [harp, hd]), Option.or_none]
  · rw [he]
    cases m with
    | packetIn p => exact absurd rfl (hm p)
    | _ => exact Option.or_none.symm

/-! ## The first exchange -/

/-- A packet-in that was sent on between two hosts, in either direction: an ARP reply, or a frame of
a host to itself. -/
def OfpPacketIn.Exchange (p : OfpPacketIn) (dst src : Mac) : Prop :=
  (p.arpReply = true ∨ p.dst = p.src) ∧
    (p.src = dst ∧ p.dst = src ∨ p.dst = dst ∧ p.src = src)

instance (p : OfpPacketIn) (dst src : Mac) : Decidable (p.Exchange dst src) :=
  inferInstanceAs (Decidable (_ ∧ _))

/-- A call that is given an exchange between two hosts of a switch. -/
def Exchanged (s : Socket) (dst src : Mac) (i : Input) (p : OfpPacketIn) : Prop :=
  i.socket = s ∧ i.packetIn = some p ∧ p.Exchange dst src

/-- The first exchange between two hosts of a switch, and the calls before it. -/
structure FirstExchange (s : Socket) (dst src : Mac) (is before : List Input) (p : OfpPacketIn) :
    Prop where
  given : ∃ i rest, is = before ++ i :: rest ∧ Exchanged s dst src i p
  first : ∀ j ∈ before, ∀ q, ¬Exchanged s dst src j q

/-- The port on which an address was seen first, or 0. -/
def firstPort (s : Socket) (a : Mac) (is : List Input) : UInt16 :=
  (((sightings s is).find? fun n => n.toMac = a).map PathNode.port).getD 0

section First

variable {s : Socket} {dst src : Mac} {is before : List Input} {i : Input} {p : OfpPacketIn}

/-- The first exchange after one more call: it was there before, or this is it. -/
theorem firstExchange_concat :
    FirstExchange s dst src (is ++ [i]) before p ↔ FirstExchange s dst src is before p ∨
      (before = is ∧ Exchanged s dst src i p ∧ ∀ j ∈ is, ∀ q, ¬Exchanged s dst src j q) := by
  constructor
  · rintro ⟨⟨j, rest, heq, hj⟩, hfirst⟩
    rcases List.eq_nil_or_concat rest with rfl | ⟨rest, k, rfl⟩
    · obtain ⟨rfl, hlast⟩ := List.append_inj' heq rfl
      obtain rfl := List.singleton_inj.mp hlast
      exact .inr ⟨rfl, hj, hfirst⟩
    · rw [List.concat_eq_append, ← List.cons_append, ← List.append_assoc] at heq
      exact .inl ⟨⟨j, rest, (List.append_inj' heq rfl).1, hj⟩, hfirst⟩
  · rintro (⟨⟨j, rest, rfl, hj⟩, hfirst⟩ | ⟨rfl, hi, hnone⟩)
    · exact ⟨⟨j, rest ++ [i], by simp, hj⟩, hfirst⟩
    · exact ⟨⟨i, [], rfl, hi⟩, hnone⟩

/-- There is a first exchange when there is one. -/
theorem exists_firstExchange_iff :
    (∃ before p, FirstExchange s dst src is before p) ↔
      ∃ i ∈ is, ∃ p, Exchanged s dst src i p := by
  induction is using List.reverseRecOn with
  | nil =>
    simp only [List.not_mem_nil, false_and, exists_false, iff_false, not_exists]
    rintro before p ⟨⟨i, rest, heq, -⟩, -⟩
    exact absurd heq (by simp)
  | append_singleton is i ih =>
    simp only [firstExchange_concat, exists_or, ih, List.mem_append, List.mem_singleton,
      or_and_right, exists_eq_left]
    constructor
    · exact Or.imp_right fun ⟨_, p, _, hp, _⟩ => ⟨p, hp⟩
    · rintro (h | ⟨p, hp⟩)
      · exact .inl h
      · by_cases h : ∃ j ∈ is, ∃ q, Exchanged s dst src j q
        · exact .inl h
        · refine .inr ⟨is, p, rfl, hp, fun j hj q hq => h ⟨j, hj, q, hq⟩⟩

/-- What a call has its switch record. -/
theorem recorded_eq_some (h : WellFormed 22 i.stream) (v : Switch) (f : FlowNode) :
    v.recorded dst src i.msg = some f ↔ ∃ p, i.packetIn = some p ∧ p.Exchange dst src ∧
      f = ⟨dst, src, if p.src = dst then p.inPort else v.port dst⟩ := by
  obtain ⟨hnone, hmsg⟩ | ⟨p, q, hp, hmsg, hport, hdst, hsrc, harp⟩ := msg_fields h
  · rw [hnone]
    cases hm : i.msg with
    | packetIn q => exact absurd hm (hmsg q)
    | _ => simp [Switch.recorded]
  · rw [hmsg, hp]
    simp only [Switch.recorded, hport, hdst, hsrc, harp, Option.some.injEq, exists_eq_left',
      OfpPacketIn.Exchange]
    by_cases hsent : p.arpReply = true ∨ p.dst = p.src
    · rw [if_pos hsent]
      simp only [hsent, true_and]
      by_cases hto : p.src = dst ∧ p.dst = src
      · rw [if_pos hto, if_pos hto.1, Option.some.injEq]
        exact ⟨fun h => ⟨.inl hto, h.symm⟩, fun h => h.2.symm⟩
      · rw [if_neg hto]
        split_ifs with hback hsrc'
        · exact absurd ⟨hsrc', (hback.1.trans hsrc'.symm).trans hback.2⟩ hto
        · rw [Option.some.injEq]
          exact ⟨fun h => ⟨.inr hback, h.symm⟩, fun h => h.2.symm⟩
        all_goals exact ⟨nofun, fun h => absurd h.1 (not_or.mpr ⟨hto, hback⟩)⟩
    · simp [hsent]

end First

/-- A flow is recorded in the local table exactly when its two hosts were seen to exchange
something, and is then the one that the first exchange between them gives: the way to the host that
sent it is the port that it came in on, and the way to the other host is the port on which that was
seen first until then, or 0. Nothing that is received later changes it. -/
theorem flow_first_exchange {is : List Input} {st : State} {w : List Event}
    (hwf : ∀ i ∈ is, WellFormed 22 i.stream) (h : run step is initial = ⟨.ok (), st, w⟩)
    (s : Socket) (dst src : Mac) (f : FlowNode) :
    findFlow s st.flows dst src = some f ↔ ∃ before p, FirstExchange s dst src is before p ∧
      f = ⟨dst, src, if p.src = dst then p.inPort else firstPort s dst before⟩ := by
  rw [findFlow, search_eq]
  refine run_induction (fun past st _ => ∀ f, (st.view s).flow dst src = some f ↔
    ∃ before p, FirstExchange s dst src past before p ∧
      f = ⟨dst, src, if p.src = dst then p.inPort else firstPort s dst before⟩) ?_ ?_ h f
  · intro f
    rw [view_initial]
    refine ⟨nofun, ?_⟩
    rintro ⟨before, p, ⟨⟨i, rest, heq, -⟩, -⟩, -⟩
    exact absurd heq (by simp)
  intro past i st₁ w₁ a st₂ w₂ hp hpast hi ih f
  have hst := run_sane hpast
  rw [(step_ok hst hi).1]
  by_cases hs : i.socket = s
  · -- The flow is the one that was there, or the one of this call, when there was none.
    subst hs
    have hport : (st₁.view i.socket).port dst = firstPort i.socket dst past := by
      unfold Switch.port firstPort
      rw [find?_view_paths (by decide) (fun j hj => hwf j (hp.subset (by simp [hj]))) hpast]
      rfl
    have hnone : (st₁.view i.socket).flow dst src = none ↔
        ∀ j ∈ past, ∀ q, ¬Exchanged i.socket dst src j q := by
      rw [Option.eq_none_iff_forall_ne_some]
      simp only [ne_eq, ih, not_exists, not_and]
      constructor
      · intro hno j hj q hq
        obtain ⟨before, p, hfirst⟩ := exists_firstExchange_iff.mpr ⟨j, hj, q, hq⟩
        exact hno _ before p hfirst rfl
      · intro hno f before p hfirst
        obtain ⟨j, hj, q, hq⟩ := exists_firstExchange_iff.mp ⟨before, p, hfirst⟩
        exact absurd hq (hno j hj q)
    rw [hst.view_after, Switch.flow_react, Option.or_eq_some_iff, ih, hnone,
      recorded_eq_some (hwf i (hp.subset (by simp))), hport]
    simp only [firstExchange_concat, or_and_right, exists_or]
    refine or_congr_right ⟨?_, ?_⟩
    · rintro ⟨hno, p, hgiven, hexchange, rfl⟩
      exact ⟨past, p, ⟨rfl, ⟨rfl, hgiven, hexchange⟩, hno⟩, rfl⟩
    · rintro ⟨before, p, ⟨rfl, ⟨-, hgiven, hexchange⟩, hno⟩, rfl⟩
      exact ⟨hno, p, hgiven, hexchange, rfl⟩
  · -- A call for another switch.
    rw [view_after_ne (Ne.symm hs), ih]
    have hnot : ∀ p, ¬Exchanged s dst src i p := fun p hp => hs hp.1
    simp only [firstExchange_concat, hnot, false_and, and_false, or_false]

/-- Host B answers host A, which was seen on port 1: the flow to host A leads there. -/
theorem flow_first_exchange_conversation :
    findFlow 4 (run step (conversation 4) initial).st.flows hostA hostB =
      some ⟨hostA, hostB, 1⟩ := by
  have h := run_of_isOk step (conversation 4) initial (by decide +kernel)
  refine (flow_first_exchange (by decide +kernel) h 4 hostA hostB _).mpr
    ⟨[request 4], ⟨42, 2, 1, arpFrame 2 hostA hostB⟩, ⟨⟨reply 4, [], rfl, ?_⟩, ?_⟩, ?_⟩
  · exact ⟨rfl, by decide +kernel, by decide +kernel⟩
  · -- The request is not an exchange.
    have hrequest : (request 4).packetIn = some ⟨42, 1, 1, arpFrame 1 hostB hostA⟩ := by
      decide +kernel
    rintro j hj q ⟨-, hq, hexchange⟩
    obtain rfl := List.mem_singleton.mp hj
    obtain rfl := Option.some.inj (hrequest.symm.trans hq)
    exact absurd hexchange (by decide +kernel)
  · decide +kernel

end SdnController
