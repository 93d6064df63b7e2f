import SdnController.Framing
import SdnController.Runs

/-!
# Messages that are received again

A message that was processed once changes neither table when it is processed again, however much
was processed in between. What a message looks up before it inserts is what it has itself inserted
the first time (`Switch.absorbs_react_self`), and no message takes anything out of the tables
(`Switch.Absorbs.react`), so every insert finds its entry there already (`after_absorbed`).
-/

namespace SdnController

open Memory Exec KeyedLists

/-! ## One switch -/

section Machine

variable {v : Switch} {p : PacketIn}

/-- All that a packet-in inserts is there already. -/
structure Switch.Absorbs (v : Switch) (p : PacketIn) : Prop where
  knows : v.knows p.src = true
  reply : p.arpReply = true →
    (v.flow p.src p.dst).isSome = true ∧ (v.flow p.dst p.src).isSome = true
  loopback : p.arpReply = false → p.dst = p.src → (v.flow p.src p.dst).isSome = true

/-- A search that succeeds goes on succeeding when elements are put in front. -/
theorem find?_isSome_of_suffix {α : Type} {f : α → Bool} {l l' : List α} (h : l <:+ l')
    (hf : (l.find? f).isSome = true) : (l'.find? f).isSome = true := by
  obtain ⟨x, hx, hfx⟩ := List.find?_isSome.mp hf
  exact List.find?_isSome.mpr ⟨x, h.mem hx, hfx⟩

/-- No message loses, changes, or moves a flow. -/
theorem Switch.suffix_flows (v : Switch) (m : Msg) : v.flows <:+ (v.react m).1.flows := by
  have hadd : ∀ (v : Switch) dst src port, v.flows <:+ (v.addFlow dst src port).flows :=
    fun v _ _ _ => suffix_addAbsent _ _ v.flows
  rcases v.react_flows m with ⟨p, -, -, h⟩ | ⟨p, -, -, -, h⟩ | ⟨p, -, -, -, h⟩ | ⟨-, h⟩
  · rw [h]
    exact (hadd _ p.src p.dst p.inPort).trans (hadd ..)
  · rw [h]
    exact hadd (v.learn p.src p.inPort) ..
  · rw [h]
    exact List.suffix_rfl
  · rw [h]

/-- What a packet-in inserts stays there. -/
theorem Switch.Absorbs.react (h : v.Absorbs p) (m : Msg) : (v.react m).1.Absorbs p := by
  have hflow : ∀ dst src, (v.flow dst src).isSome = true →
      ((v.react m).1.flow dst src).isSome = true :=
    fun _ _ => find?_isSome_of_suffix (v.suffix_flows m)
  refine ⟨?_, fun harp => ?_, fun harp hd => hflow _ _ (h.loopback harp hd)⟩
  · exact find?_isSome_of_suffix (v.suffix_paths [m]) h.knows
  · exact ⟨hflow _ _ (h.reply harp).1, hflow _ _ (h.reply harp).2⟩

/-- A packet-in finds all that it inserts there when it is processed again. -/
theorem Switch.absorbs_react_self (v : Switch) (p : PacketIn) :
    (v.react (.packetIn p)).1.Absorbs p := by
  have hself : ∀ (v : Switch) dst src port,
      ((v.addFlow dst src port).flow dst src).isSome = true := by
    intro v dst src port
    rw [v.flow_addFlow_self]
    rfl
  have hkeep : ∀ (v : Switch) dst src port a b, (v.flow a b).isSome = true →
      ((v.addFlow dst src port).flow a b).isSome = true :=
    fun v _ _ _ _ _ => find?_isSome_of_suffix (suffix_addAbsent _ _ v.flows)
  have hknows : (v.react (.packetIn p)).1.knows p.src = true := by
    unfold Switch.knows
    rw [v.react_paths]
    simp only [Msg.sighting, Option.elim_some]
    rw [find?_addAbsent (by simp [PathNode.leadsTo])]
    rfl
  refine ⟨hknows, fun harp => ?_, fun harp hd => ?_⟩
  · simp only [Switch.react, Switch.packetIn, if_pos harp]
    exact ⟨hkeep _ _ _ _ _ _ (hself ..), hself ..⟩
  · have harp' : ¬p.arpReply = true := by simp [harp]
    simp only [Switch.react, Switch.packetIn, if_neg harp', if_pos hd]
    exact hself ..

/-- A packet-in that was processed at any earlier time is absorbed. -/
theorem Switch.absorbs_afterAll (v : Switch) {ms : List Msg} (h : .packetIn p ∈ ms) :
    (v.afterAll ms).Absorbs p := by
  obtain ⟨before, later, rfl⟩ := List.append_of_mem h
  rw [v.afterAll_append, show Msg.packetIn p :: later = [Msg.packetIn p] ++ later from rfl,
    Switch.afterAll_append]
  exact Switch.afterAll_invariant (fun v => v.Absorbs p) (fun v m h => h.react m)
    (Switch.absorbs_react_self _ p) later

end Machine

/-! ## The tables -/

/-- A packet-in that is absorbed changes neither table. -/
theorem after_absorbed {st : State} {s : Socket} {p : PacketIn} (h : (st.view s).Absorbs p) :
    (st.after s (.packetIn p)).ll = st.ll ∧ (st.after s (.packetIn p)).flows = st.flows := by
  have hpath : addPathNode s st.ll p.src p.inPort = (0, st.ll) :=
    addNode_of_found (by rw [search_eq]; exact h.knows)
  have hflow : ∀ dst src port, ((st.view s).flow dst src).isSome = true →
      addFlowNode s st.flows dst src port = (0, st.flows) :=
    fun _ _ _ hf => addNode_of_found (by rw [search_eq]; exact hf)
  simp only [State.after, hpath]
  by_cases harp : p.arpReply = true
  · obtain ⟨hto, hfrom⟩ := h.reply harp
    rw [if_pos harp, hflow _ _ _ hto, hflow _ _ _ hfrom]
    exact ⟨rfl, rfl⟩
  rw [if_neg harp]
  by_cases hd : p.dst = p.src
  · rw [if_pos hd, hflow _ _ _ (h.loopback (by simpa using harp) hd)]
    exact ⟨rfl, rfl⟩
  · rw [if_neg hd]
    exact ⟨rfl, rfl⟩

/-- A message that is not a packet-in changes neither table. -/
theorem after_not_packetIn {st : State} {s : Socket} {m : Msg} (h : ∀ p, m ≠ .packetIn p) :
    (st.after s m).ll = st.ll ∧ (st.after s m).flows = st.flows := by
  cases m with
  | packetIn p => exact absurd rfl (h p)
  | _ => exact ⟨rfl, rfl⟩

/-! ## The same message again -/

section Same

variable {i j : Input}

/-- Two calls that receive the same message act on the same addresses in the same way. -/
theorem msg_packetIn_same (hi : WellFormed 22 i.stream) (hj : WellFormed 22 j.stream)
    (hsame : firstMessage i.stream = firstMessage j.stream) {p : PacketIn}
    (hp : i.msg = .packetIn p) :
    ∃ q, j.msg = .packetIn q ∧ q.src = p.src ∧ q.dst = p.dst ∧ q.arpReply = p.arpReply := by
  have hheader : header i.stream = header j.stream := by
    rw [← hi.header_eq, ← hj.header_eq, hsame]
  unfold Input.msg at hp ⊢
  rw [hi.parse_eq, Msg.ofMem_eq_packetIn] at hp
  obtain ⟨h1, h16, rfl⟩ := hp
  -- A well-formed packet-in has all that is looked at but its frame's rest.
  have htype : (header i.stream).type = ofptPacketIn := by
    rw [← hi.header_eq, ← hi.type_eq i.env]
    exact h1
  have hlen := hi.packetIn htype
  have hb : ∀ k, k < 40 → rawPktInMem j.env j.stream k = rawPktInMem i.env i.stream k := by
    intro k hk
    rw [hi.rawPktInMem_eq i.env (by omega), hj.rawPktInMem_eq j.env (by rw [← hheader]; omega),
      hsame]
  refine ⟨PacketIn.ofMem (rawPktInMem j.env j.stream), ?_, ?_, ?_, ?_⟩
  · rw [hj.parse_eq, Msg.ofMem_eq_packetIn, hb 1 (by decide), hb 16 (by decide)]
    exact ⟨h1, h16, rfl⟩
  · unfold PacketIn.ofMem Mac.at
    simp [hb]
  · unfold PacketIn.ofMem Mac.at
    simp [hb]
  · unfold PacketIn.ofMem field16
    simp [hb]

end Same

/-- In any run, processing a message again that was processed on the same socket at any earlier
point leaves both tables as they are. -/
theorem replay_absorbed {is : List Input} {st st' : State} {w w' : List Event} {i j : Input}
    {a : ℤ × List UInt8} (hj : WellFormed 22 j.stream) (hi : WellFormed 22 i.stream)
    (hmem : j ∈ is) (hsocket : i.socket = j.socket)
    (hsame : firstMessage i.stream = firstMessage j.stream)
    (h : run step is initial = ⟨.ok (), st, w⟩) (hstep : step i st = ⟨.ok a, st', w'⟩) :
    st'.ll = st.ll ∧ st'.flows = st.flows := by
  rw [(step_ok (run_sane h) hstep).1]
  by_cases hp : ∃ p, i.msg = .packetIn p
  · obtain ⟨p, hp⟩ := hp
    obtain ⟨q, hq, hsrc, hdst, harp⟩ := msg_packetIn_same hi hj hsame hp
    have hpast : Msg.packetIn q ∈ is.filterMap (Input.msgOn i.socket) := by
      refine List.mem_filterMap.mpr ⟨j, hmem, ?_⟩
      unfold Input.msgOn
      rw [if_pos hsocket.symm, hq]
    have habsorbs : (st.view i.socket).Absorbs q := by
      rw [run_view i.socket h]
      exact Switch.fresh.absorbs_afterAll hpast
    rw [hp]
    refine after_absorbed ⟨?_, ?_, ?_⟩
    · rw [← hsrc]
      exact habsorbs.knows
    · rw [← hsrc, ← hdst, ← harp]
      exact habsorbs.reply
    · rw [← hsrc, ← hdst, ← harp]
      exact habsorbs.loopback
  · exact after_not_packetIn fun p hp' => hp ⟨p, hp'⟩

/-- The request of a conversation, repeated after the reply. -/
theorem replay_absorbed_request :
    (run step (conversation 4 ++ [request 4]) initial).st.ll =
        (run step (conversation 4) initial).st.ll ∧
      (run step (conversation 4 ++ [request 4]) initial).st.flows =
        (run step (conversation 4) initial).st.flows := by
  have hrun := run_of_isOk step (conversation 4) initial (by decide +kernel)
  obtain ⟨a, hstep⟩ := Outcome.eq_ok
    (show (step (request 4) (run step (conversation 4) initial).st).ret.isOk = true by
      decide +kernel)
  have hkept := replay_absorbed (j := request 4) (by decide +kernel) (by decide +kernel)
    (by simp [conversation]) rfl rfl hrun hstep
  rw [run_concat_ok hrun hstep]
  exact hkept

end SdnController
