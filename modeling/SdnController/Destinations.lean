import SdnController.Learning

/-!
# Where flows are sent to

Every flow-mod sends the frames for an address out of a port. The flow back to the sender of a
packet has the port of the packet. The flow to the destination of an ARP reply has the result of a
lookup, and when that finds nothing it is 0, which is no port. `DestinationKnown` is the condition
on a message under which the lookup does not miss, and in a run whose messages all meet it a
flow-mod names only ports on which its destination was seen (`flows_towards_seen`). Where a message
does not meet it, one of its flow-mods does not (`flow_towards_unseen`).
-/

namespace SdnController

open Memory Exec KeyedLists

/-- The flow-mods among the replies to a message. -/
theorem flowMod_mem_react {v : Switch} {m : Msg} {dlSrc dlDst : Mac} {port : UInt16}
    (h : .flowMod dlSrc dlDst port ∈ (v.react m).2) :
    ∃ p, m = .packetIn p ∧ ((dlDst = p.src ∧ port = p.inPort) ∨
      (p.arpReply = true ∧ dlDst = p.dst ∧ port = (v.learn p.src p.inPort).port p.dst)) := by
  cases m with
  | packetIn p =>
    refine ⟨p, rfl, ?_⟩
    simp only [Switch.react, Switch.packetIn] at h
    split_ifs at h with harp hd
    · simp only [List.mem_cons, Reply.flowMod.injEq, reduceCtorEq, List.not_mem_nil, or_false] at h
      rcases h with ⟨-, hdst, hport⟩ | ⟨-, hdst, hport⟩
      · exact .inl ⟨hdst, hport⟩
      · exact .inr ⟨harp, hdst, hport⟩
    · simp only [List.mem_cons, Reply.flowMod.injEq, List.not_mem_nil, or_false] at h
      exact .inl ⟨h.2.1, h.2.2⟩
    · simp at h
  | _ => simp [Switch.react] at h

/-- A flow-mod that decodes is the message of a flow-mod. -/
theorem eq_flowMod_of_decode {r : Reply} {xid : UInt32} {fm : FlowMod}
    (h : FlowMod.decode (r.encode xid) = some fm) :
    ∃ port, r = .flowMod fm.fields.dlSrc fm.fields.dlDst port ∧ fm.actions = [.output port 0] := by
  cases r with
  | flowMod dlSrc dlDst port =>
    rw [decode_flowMod, Option.some.injEq] at h
    rw [← h]
    exact ⟨port, rfl, rfl⟩
  | _ =>
    rw [decode_flowMod_none xid (ne_of_beq_false rfl)] at h
    exact absurd h (by simp)

/-- An address was seen on a port of the switch, in one of the calls. -/
def SeenOn (s : Socket) (a : Mac) (port : UInt16) (is : List Input) : Prop :=
  ∃ j ∈ is, j.socket = s ∧ j.sighting = some ⟨a, port⟩

instance (s : Socket) (a : Mac) (port : UInt16) (is : List Input) :
    Decidable (SeenOn s a port is) :=
  inferInstanceAs (Decidable (∃ j ∈ is, j.socket = s ∧ j.sighting = some ⟨a, port⟩))

/-- The destination of an ARP reply is its source, or was learned before. -/
def DestinationKnown (st : State) (i : Input) : Prop :=
  ∀ p, i.msg = .packetIn p → p.arpReply = true →
    p.dst = p.src ∨ findNode i.socket st.ll p.dst = 1

instance (st : State) (i : Input) : Decidable (DestinationKnown st i) :=
  inferInstanceAs (Decidable (∀ p, i.msg = .packetIn p → p.arpReply = true →
    p.dst = p.src ∨ findNode i.socket st.ll p.dst = 1))

/-- An address is in the table when it is known. -/
theorem findNode_eq_one (st : State) (s : Socket) (a : Mac) :
    findNode s st.ll a = 1 ↔ (st.view s).knows a = true := by
  unfold findNode Switch.knows State.view
  rw [search_eq]
  split_ifs with h <;> simp [h]

section Runs

variable {past : List Input} {i : Input} {st : State} {w : List Event}

/-- A sighting on a socket is a call that shows it. -/
theorem seenOn_iff {s : Socket} {n : PathNode} {is : List Input} :
    SeenOn s n.toMac n.port is ↔ n ∈ sightings s is := by
  unfold SeenOn sightings
  simp only [List.mem_filterMap, List.mem_filter, decide_eq_true_eq]
  constructor
  · rintro ⟨j, hj, hs, he⟩
    exact ⟨j, ⟨hj, hs⟩, he⟩
  · rintro ⟨j, ⟨hj, hs⟩, he⟩
    exact ⟨j, hj, hs, he⟩

/-- A known address was seen on its port. -/
theorem seenOn_of_knows (hwf : ∀ j ∈ past, WellFormed 12 j.stream)
    (h : run step past initial = ⟨.ok (), st, w⟩) {s : Socket} {a : Mac}
    (hk : (st.view s).knows a = true) : SeenOn s a ((st.view s).port a) past := by
  unfold Switch.knows at hk
  obtain ⟨n, hn⟩ := Option.isSome_iff_exists.mp hk
  have hport : (st.view s).port a = n.port := by
    unfold Switch.port
    rw [hn]
    rfl
  have hmac : n.toMac = a := by simpa [PathNode.leadsTo] using List.find?_some hn
  rw [find?_view_paths le_rfl hwf h] at hn
  rw [hport, ← hmac]
  exact seenOn_iff.mpr (List.mem_of_find?_eq_some hn)

/-- An address that was seen is known. -/
theorem knows_of_seenOn (hwf : ∀ j ∈ past, WellFormed 12 j.stream)
    (h : run step past initial = ⟨.ok (), st, w⟩) {s : Socket} {a : Mac} {port : UInt16}
    (hseen : SeenOn s a port past) : (st.view s).knows a = true := by
  unfold Switch.knows
  rw [find?_view_paths le_rfl hwf h, List.find?_isSome]
  exact ⟨⟨a, port⟩, seenOn_iff.mp hseen, by simp [PathNode.leadsTo]⟩

/-- What was seen in the calls before was seen. -/
theorem SeenOn.mono {s : Socket} {a : Mac} {port : UInt16} {is js : List Input}
    (h : SeenOn s a port is) (hsub : is ⊆ js) : SeenOn s a port js := by
  obtain ⟨j, hj, hseen⟩ := h
  exact ⟨j, hsub hj, hseen⟩

/-- A step whose ARP reply is to a known destination sends flows only towards ports on which their
destinations were seen. -/
theorem step_towards_seen (hwf : ∀ j ∈ past ++ [i], WellFormed 12 j.stream)
    (h : run step past initial = ⟨.ok (), st, w⟩) (hknown : DestinationKnown st i) {s : Socket}
    {b : List UInt8} (hb : b ∈ sendsOn s (step i st).events) {fm : FlowMod}
    (hfm : FlowMod.decode b = some fm) {port maxLen : UInt16}
    (hact : .output port maxLen ∈ fm.actions) : SeenOn s fm.fields.dlDst port (past ++ [i]) := by
  have hpast : ∀ j ∈ past, WellFormed 12 j.stream := fun j hj => hwf j (List.mem_append_left _ hj)
  have hi : WellFormed 12 i.stream := hwf i (by simp)
  obtain ⟨rfl, r, hr, xid, rfl⟩ :=
    mem_label ((step_sends i (run_sane h)).subset (mem_sendsOn.mp hb))
  obtain ⟨port', rfl, hacts⟩ := eq_flowMod_of_decode hfm
  rw [hacts, List.mem_singleton, OfpAction.output.injEq] at hact
  obtain ⟨rfl, -⟩ := hact
  obtain ⟨p, hmsg, ⟨hdst, hport⟩ | ⟨harp, hdst, hport⟩⟩ := flowMod_mem_react hr
  · -- The flow back to the sender has the port of this packet.
    refine ⟨i, by simp, rfl, ?_⟩
    rw [← msg_sighting hi le_rfl, hmsg, hdst, hport]
    rfl
  -- The flow to the destination of an ARP reply has the port that was looked up for it.
  rw [hdst, hport]
  by_cases hd : p.dst = p.src
  · rw [hd, Switch.port_learn_self]
    split_ifs with hk
    · exact (seenOn_of_knows hpast h hk).mono (List.subset_append_left past [i])
    · refine ⟨i, by simp, rfl, ?_⟩
      rw [← msg_sighting hi le_rfl, hmsg]
      rfl
  · have hk := (hknown p hmsg harp).resolve_left hd
    rw [findNode_eq_one] at hk
    rw [Switch.port_learn_ne _ _ hd]
    exact (seenOn_of_knows hpast h hk).mono (List.subset_append_left past [i])

/-- In a run whose ARP replies are all to known destinations, every flow-mod names a port on which
its destination was seen before, or is seen in the message that triggers it. -/
theorem flows_towards_seen {is : List Input} (hwf : ∀ j ∈ is, WellFormed 12 j.stream)
    (hknown : Always DestinationKnown step is initial) {past : List Input} {i : Input} {st : State}
    {w : List Event} (hp : past ++ [i] <+: is) (h : run step past initial = ⟨.ok (), st, w⟩)
    {s : Socket} {b : List UInt8} (hb : b ∈ sendsOn s (step i st).events) {fm : FlowMod}
    (hfm : FlowMod.decode b = some fm) {port maxLen : UInt16}
    (hact : .output port maxLen ∈ fm.actions) : SeenOn s fm.fields.dlDst port (past ++ [i]) :=
  step_towards_seen (fun j hj => hwf j (hp.subset hj)) h (hknown past i st w hp h) hb hfm hact

/-- A step that completes with an ARP reply to an unknown destination sends a flow towards port 0
for it, on which it was not seen. -/
theorem flow_towards_unseen {a : ℤ × List UInt8} {st' : State} {w' : List Event}
    (hwf : ∀ j ∈ past ++ [i], WellFormed 12 j.stream) (h : run step past initial = ⟨.ok (), st, w⟩)
    (hi : step i st = ⟨.ok a, st', w'⟩) (hunknown : ¬DestinationKnown st i) :
    ∃ b ∈ sendsOn i.socket w', ∃ fm, FlowMod.decode b = some fm ∧ .output 0 0 ∈ fm.actions ∧
      ∀ port, ¬SeenOn i.socket fm.fields.dlDst port (past ++ [i]) := by
  have hpast : ∀ j ∈ past, WellFormed 12 j.stream := fun j hj => hwf j (List.mem_append_left _ hj)
  have hwfi : WellFormed 12 i.stream := hwf i (by simp)
  unfold DestinationKnown at hunknown
  push Not at hunknown
  obtain ⟨p, hmsg, harp, hd, hk⟩ := hunknown
  rw [Ne, findNode_eq_one, Bool.not_eq_true] at hk
  have hport : ((st.view i.socket).learn p.src p.inPort).port p.dst = 0 := by
    rw [Switch.port_learn_ne _ _ hd]
    exact Switch.port_of_not_knows hk
  have hsent := step_sendsOn i.socket (run_sane h) hi
  rw [if_pos rfl, hmsg] at hsent
  simp only [Switch.react, Switch.packetIn, harp, if_true, hport, numbered] at hsent
  refine ⟨(Reply.flowMod p.src p.dst 0).encode (st.xid + 1), by rw [hsent]; simp, _,
    decode_flowMod .., List.mem_singleton.mpr rfl, ?_⟩
  rintro port ⟨j, hj, hs, hsight⟩
  -- It would be known if it had been seen before, and this message shows another address.
  rcases List.mem_append.mp hj with hj | hj
  · have hk' := knows_of_seenOn hpast h ⟨j, hj, hs, hsight⟩
    have hk' : (st.view i.socket).knows p.dst = true := hk'
    rw [hk] at hk'
    exact absurd hk' (by decide)
  · rw [List.mem_singleton.mp hj, ← msg_sighting hwfi le_rfl, hmsg] at hsight
    have hsrc : p.src = p.dst := congrArg PathNode.toMac (Option.some.inj hsight)
    exact hd hsrc.symm

end Runs

/-- The flow to host A in a conversation leads to its port. -/
theorem flows_towards_seen_conversation : SeenOn 4 hostA 1 (conversation 4) := by
  have h := run_of_isOk step [request 4] initial (by decide +kernel)
  have hb : (Reply.flowMod hostB hostA 1).encode 3 ∈
      sendsOn 4 (step (reply 4) (run step [request 4] initial).st).events := by decide +kernel
  have hknown : Always DestinationKnown step (conversation 4) initial :=
    always_cons (by decide +kernel) (always_cons (by decide +kernel) always_nil)
  exact flows_towards_seen (by decide +kernel) hknown List.prefix_rfl h hb
    (decode_flowMod ..) (List.mem_singleton.mpr rfl)

/-- Host B answers host A, which was never seen: the flow to host A leads to port 0. -/
theorem flows_towards_unseen_reply :
    Whole (reply 4) ∧ (run step [reply 4] initial).ret.isOk = true ∧
      ((sendsOn 4 (run step [reply 4] initial).events).filterMap FlowMod.decode).map
        (fun fm => (fm.fields.dlDst, fm.actions)) =
          [(hostB, [.output 2 0]), (hostA, [.output 0 0])] ∧
      ¬SeenOn 4 hostA 0 [reply 4] := by
  decide +kernel

end SdnController
