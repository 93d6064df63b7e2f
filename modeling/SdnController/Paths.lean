import SdnController.Delivery
import SdnController.Destinations
import SdnController.Lib.Forwarding

/-!
# Two hosts are connected

What the controller is there for, across switches. A host asks for another one, its request is
flooded from switch to switch, and the answer comes back along a path; each switch of the path has
then got the two flows of the pair from the controller, each out of the port on which the host in
question was seen. A frame between the two hosts goes along the path from then on
(`hosts_connected`), whatever else is going on there and elsewhere, as long as no switch of the path
sees one of the hosts on another port, or sends a packet-in without the fields of an ARP packet.

The controller of a switch and the switch's own table are determined by its messages
(`Switch.serveAll`, `run_serves`), so this comes down to one switch: a table has the flow of a pair
once it was sent, and no later message moves it, since all flow-mods to an address that stays where
it is have its port (`lookup_serveAll`).
-/

namespace SdnController

open Memory Exec KeyedLists Forwarding

/-! ## A switch and its table -/

/-- The machine of a switch, and the switch's own table, after a message. -/
def Switch.serve (vt : Switch × FlowTable) (m : Msg) : Switch × FlowTable :=
  ((vt.1.react m).1, (vt.1.react m).2.foldl Reply.applyTo vt.2)

/-- The machine and the table after a list of messages. -/
def Switch.serveAll (ms : List Msg) : Switch × FlowTable := ms.foldl Switch.serve (Switch.fresh, [])

theorem serveAll_concat (ms : List Msg) (m : Msg) :
    Switch.serveAll (ms ++ [m]) = Switch.serve (Switch.serveAll ms) m :=
  List.foldl_concat ..

theorem serveAll_fst (ms : List Msg) :
    (Switch.serveAll ms).1 = Switch.fresh.afterAll ms := by
  induction ms using List.reverseRecOn with
  | nil => rfl
  | append_singleton ms m ih =>
    rw [serveAll_concat, Switch.afterAll_concat, ← ih]
    rfl

theorem serveAll_controlled (ms : List Msg) : Controlled (Switch.serveAll ms).2 := by
  induction ms using List.reverseRecOn with
  | nil => exact fun e he => absurd he List.not_mem_nil
  | append_singleton ms m ih =>
    rw [serveAll_concat]
    exact ih.foldl _

/-- What the tables hold for a socket, and the table of the switch on it, are determined by the
messages read on it. -/
theorem run_serves {is : List Input} {st : State} {w : List Event} (s : Socket)
    (h : run step is initial = ⟨.ok (), st, w⟩) :
    (st.view s, switchTable s w) = Switch.serveAll (is.filterMap (Input.msgOn s)) := by
  refine run_induction (fun past st w =>
    (st.view s, switchTable s w) = Switch.serveAll (past.filterMap (Input.msgOn s))) ?_ ?_ h
  · rw [view_initial]
    rfl
  intro past i st₁ w₁ a st₂ w₂ _ hpast hi ih
  have hst := run_sane hpast
  have htable : switchTable s (w₁ ++ w₂) = (switchTable s w₁).receiveAll (sendsOn s w₂) := by
    unfold switchTable FlowTable.receiveAll
    rw [sendsOn_append, List.foldl_append]
  rw [List.filterMap_append, htable, step_sendsOn s hst hi, (step_ok hst hi).1]
  by_cases hs : i.socket = s
  · subst hs
    have hmsg : [i].filterMap (Input.msgOn i.socket) = [i.msg] := by simp [Input.msgOn]
    rw [hmsg, serveAll_concat, ← ih, if_pos rfl, receiveAll_numbered, hst.view_after]
    rfl
  · have hmsg : [i].filterMap (Input.msgOn s) = [] := by simp [Input.msgOn, hs]
    rw [hmsg, List.append_nil, ← ih, if_neg hs, view_after_ne (Ne.symm hs)]
    rfl

/-! ## Frames to an address -/

/-- An address is seen on one port only. -/
def Stays (a : Mac) (port : UInt16) (ms : List Msg) : Prop :=
  ∀ m ∈ ms, ∀ q, m.sighting = some ⟨a, q⟩ → q = port

section Towards

variable {a : Mac} {port port' : UInt16} {v : Switch} {t : FlowTable} {m : Msg} {ms : List Msg}
  {rs : List Reply} {hdr : FrameHeader}

/-- The port of an address that was seen on one port only. -/
theorem port_of_stays (hstays : Stays a port ms) (hseen : ∃ m ∈ ms, ∃ q, m.sighting = some ⟨a, q⟩) :
    (Switch.fresh.afterAll ms).port a = port := by
  obtain ⟨m, hm, q, hq⟩ := hseen
  have hsome : ((ms.filterMap Msg.sighting).find? (PathNode.leadsTo a)).isSome = true := by
    rw [List.find?_isSome]
    exact ⟨⟨a, q⟩, List.mem_filterMap.mpr ⟨m, hm, hq⟩, by simp [PathNode.leadsTo]⟩
  obtain ⟨n, hn⟩ := Option.isSome_iff_exists.mp hsome
  obtain ⟨m', hm', hsighting⟩ := List.mem_filterMap.mp (List.mem_of_find?_eq_some hn)
  obtain ⟨b, q'⟩ := n
  obtain rfl : b = a := by simpa [PathNode.leadsTo] using List.find?_some hn
  unfold Switch.port
  rw [Switch.find?_paths, hn]
  exact hstays m' hm' q' hsighting

/-- A flow to an address that stays on its port goes out of that port. -/
theorem flowMod_port {x : Mac} (hport : (v.react m).1.port a = port)
    (hstays : ∀ q, m.sighting = some ⟨a, q⟩ → q = port)
    (h : .flowMod x a port' ∈ (v.react m).2) : port' = port := by
  obtain ⟨p, rfl, ⟨rfl, rfl⟩ | ⟨-, rfl, rfl⟩⟩ := flowMod_mem_react h
  · exact hstays p.inPort rfl
  · rw [← hport]
    unfold Switch.port
    rw [v.react_paths]
    rfl

/-- Flow-mods of one pair all with one port: frames of the pair go out of it afterwards, if they did
before or there is such a flow-mod. -/
theorem lookup_replies (ht : Controlled t)
    (hrs : ∀ port', .flowMod hdr.dlSrc hdr.dlDst port' ∈ rs → port' = port)
    (h : t.lookup hdr = [[.output port 0]] ∨ ∃ port', .flowMod hdr.dlSrc hdr.dlDst port' ∈ rs) :
    (rs.foldl Reply.applyTo t).lookup hdr = [[.output port 0]] := by
  induction rs generalizing t with
  | nil => exact h.resolve_right (by simp)
  | cons r rs ih =>
    rw [List.foldl_cons]
    refine ih (ht.applyTo r) (fun port' hmem => hrs port' (List.mem_cons_of_mem r hmem)) ?_
    by_cases hpair : ∃ port', r = .flowMod hdr.dlSrc hdr.dlDst port'
    · obtain ⟨port', rfl⟩ := hpair
      obtain rfl := hrs port' List.mem_cons_self
      exact .inl (ht.lookup_add_self rfl rfl)
    · -- Another reply leaves the frames of the pair where they went.
      have hkeep : (r.applyTo t).lookup hdr = t.lookup hdr := by
        cases r with
        | flowMod dlSrc dlDst port' =>
          exact ht.lookup_add_ne fun hsame => hpair ⟨port', by rw [hsame.1, hsame.2]⟩
        | _ => rfl
      rw [hkeep]
      refine h.imp_right fun ⟨port', hmem⟩ => ⟨port', (List.mem_cons.mp hmem).resolve_left ?_⟩
      exact fun heq => hpair ⟨port', heq.symm⟩

/-- Once a flow-mod of a pair was sent, and the destination seen, the frames of the pair go out of
the port that the destination stays on, whatever messages come afterwards. -/
theorem lookup_serveAll {past rest : List Msg} (hms : ms = past ++ m :: rest)
    (hstays : Stays hdr.dlDst port ms)
    (hseen : ∃ m' ∈ past ++ [m], ∃ q, m'.sighting = some ⟨hdr.dlDst, q⟩)
    (hsent : ∃ port', .flowMod hdr.dlSrc hdr.dlDst port' ∈
      ((Switch.fresh.afterAll past).react m).2) :
    (Switch.serveAll ms).2.lookup hdr = [[.output port 0]] := by
  -- A message goes on with it when it was so before, or when it is answered with the flow-mod.
  have hserve : ∀ before m', before ++ [m'] <+: ms → past ++ [m] <+: before ++ [m'] →
      ((Switch.serveAll before).2.lookup hdr = [[.output port 0]] ∨ ∃ port',
        .flowMod hdr.dlSrc hdr.dlDst port' ∈ ((Switch.fresh.afterAll before).react m').2) →
      (Switch.serveAll (before ++ [m'])).2.lookup hdr = [[.output port 0]] := by
    intro before m' hp hpast hbefore
    have hstays' : Stays hdr.dlDst port (before ++ [m']) :=
      fun m'' hm'' => hstays m'' (hp.subset hm'')
    obtain ⟨m'', hm'', q, hq⟩ := hseen
    have hport := port_of_stays hstays' ⟨m'', hpast.subset hm'', q, hq⟩
    rw [Switch.afterAll_concat] at hport
    rw [serveAll_concat]
    unfold Switch.serve
    rw [serveAll_fst]
    exact lookup_replies (serveAll_controlled before)
      (fun port' hmem => flowMod_port hport (hstays' m' (by simp)) hmem) hbefore
  subst hms
  suffices ∀ after, after <+: rest →
      (Switch.serveAll (past ++ [m] ++ after)).2.lookup hdr = [[.output port 0]] by
    rw [← List.singleton_append, ← List.append_assoc]
    exact this rest List.prefix_rfl
  intro after
  induction after using List.reverseRecOn with
  | nil =>
    intro _
    rw [List.append_nil]
    refine hserve past m ?_ List.prefix_rfl (.inr hsent)
    exact ⟨rest, by simp⟩
  | append_singleton after m' ih =>
    intro hp
    rw [← List.append_assoc]
    refine hserve _ m' ?_ ?_ (.inl (ih ((List.prefix_append _ _).trans hp)))
    · obtain ⟨left, rfl⟩ := hp
      exact ⟨left, by simp⟩
    · exact ⟨after ++ [m'], by simp⟩

end Towards

/-! ## Paths of switches -/

/-- The port out of which a switch sends the frames with a header that come in at a port. -/
def FlowTable.outPort (t : FlowTable) (hdr : FrameHeader) (inPort : UInt16) : Option UInt16 :=
  match t.lookup { hdr with inPort := inPort } with
  | [[.output port _]] => some port
  | _ => none

/-- The place where a frame leaves the network of the switches, if it does within `fuel` of them,
when it comes in at a port of one. -/
def leaves (links : Links Socket UInt16) (w : List Event) (hdr : FrameHeader) :
    ℕ → Socket × UInt16 → Option (Socket × UInt16) :=
  Forwarding.exit links fun s inPort => (switchTable s w).outPort hdr inPort

/-- An ARP reply of host `b` to host `a` was handled on a socket, after `a` was seen there. -/
def Handshake (a b : Mac) (s : Socket) (is : List Input) : Prop :=
  ∃ past i rest p, is = past ++ i :: rest ∧ i.socket = s ∧ i.packetIn = some p ∧
    p.arpReply = true ∧ p.src = b ∧ p.dst = a ∧ ∃ port, SeenOn s a port past

section Connected

variable {is : List Input} {st : State} {w : List Event} {a b : Mac} {s : Socket}
  {near far : UInt16}

/-- A host that is seen on one port only stays on it, in the messages that are acted on. -/
theorem stays_of_seen {port : UInt16} (hwf : ∀ i ∈ is, i.socket = s → WellFormed 22 i.stream)
    (hseen : ∀ q, SeenOn s a q is → q = port) : Stays a port (is.filterMap (Input.msgOn s)) := by
  intro m hm q hq
  obtain ⟨i, hi, hmsg⟩ := List.mem_filterMap.mp hm
  unfold Input.msgOn at hmsg
  split_ifs at hmsg with hs
  obtain rfl := Option.some.inj hmsg
  rw [msg_sighting (hwf i hi hs) (by decide)] at hq
  exact hseen q ⟨i, hi, hs, hq⟩

/-- A host that was seen is seen in the messages that are acted on. -/
theorem sighted_of_seen {port : UInt16} (hwf : ∀ i ∈ is, i.socket = s → WellFormed 22 i.stream)
    (hseen : SeenOn s a port is) :
    ∃ m ∈ is.filterMap (Input.msgOn s), ∃ q, m.sighting = some ⟨a, q⟩ := by
  obtain ⟨i, hi, hs, hq⟩ := hseen
  refine ⟨i.msg, List.mem_filterMap.mpr ⟨i, hi, if_pos hs⟩, port, ?_⟩
  rw [msg_sighting (hwf i hi hs) (by decide)]
  exact hq

/-- The frames between two hosts are sent out of the ports that these stay on, once one of them has
answered the other's ARP request. The flow-mods depend on the addresses and on the ports only, so
that `total_len` may be anything. -/
theorem handshake_lookup (h : run step is initial = ⟨.ok (), st, w⟩)
    (hwf : ∀ i ∈ is, i.socket = s → WellFormed 22 i.stream)
    (hnear : ∀ port, SeenOn s a port is → port = near)
    (hfar : ∀ port, SeenOn s b port is → port = far) (hshake : Handshake a b s is)
    (hdr : FrameHeader) :
    (hdr.dlSrc = a → hdr.dlDst = b → (switchTable s w).lookup hdr = [[.output far 0]]) ∧
      (hdr.dlSrc = b → hdr.dlDst = a → (switchTable s w).lookup hdr = [[.output near 0]]) := by
  obtain ⟨past, i, rest, p, rfl, hs, hp, harp, rfl, rfl, port, hseen⟩ := hshake
  obtain ⟨hnone, -⟩ | ⟨p', q, hp', hmsg, -, hdst', hsrc', harp'⟩ := msg_fields (hwf i (by simp) hs)
  · rw [hnone] at hp
    cases hp
  obtain rfl : p' = p := Option.some.inj (hp'.symm.trans hp)
  have hms : (past ++ i :: rest).filterMap (Input.msgOn s) =
      past.filterMap (Input.msgOn s) ++ .packetIn q :: rest.filterMap (Input.msgOn s) := by
    rw [List.filterMap_append, List.filterMap_cons, Input.msgOn, if_pos hs, hmsg]
  have htable := congrArg Prod.snd (run_serves s h)
  simp only at htable
  rw [htable]
  constructor
  · intro hsrc hdst
    refine lookup_serveAll hms (hdst ▸ stays_of_seen hwf hfar) ?_ ⟨q.inPort, ?_⟩
    · refine ⟨_, List.mem_append_right _ (List.mem_singleton_self _), q.inPort, ?_⟩
      rw [hdst, ← hsrc']
      rfl
    · simp [Switch.react, Switch.packetIn, harp', hdst', hsrc', harp, hsrc, hdst]
  · intro hsrc hdst
    refine lookup_serveAll hms (hdst ▸ stays_of_seen hwf hnear) ?_ ?_
    · obtain ⟨m, hm, q, hq⟩ :=
        sighted_of_seen (fun j hj => hwf j (List.mem_append_left _ hj)) hseen
      exact ⟨m, List.mem_append_left _ hm, q, hdst ▸ hq⟩
    · -- The second flow-mod of the answer is for the other direction.
      simp only [Switch.react, Switch.packetIn, harp', hdst', hsrc', harp, if_true, hsrc, hdst]
      exact ⟨_, List.mem_cons_of_mem _ List.mem_cons_self⟩

/-- Two hosts at the ends of a path of switches are connected: once each switch of the path has had
a frame of the one, such as its ARP request, and then the ARP answer of the other, the frames of
each to the other travel along the path, switch by switch, and leave it at the port where the other
one is. Two things are asked of the rest of the run: neither of them is seen on another port of
these switches, and what these send are whole messages, the packet-ins with the start of a frame up
to the ARP operation, whatever `total_len` says. Other switches send what they like at any time. -/
theorem hosts_connected {links : Links Socket UInt16} {hops : List (Hop Socket UInt16)}
    {first last : Hop Socket UInt16} (h : run step is initial = ⟨.ok (), st, w⟩)
    (hpath : Path links hops) (hfirst : first ∈ hops.head?) (hlast : last ∈ hops.getLast?)
    (hwf : ∀ k ∈ hops, ∀ i ∈ is, i.socket = k.node → WellFormed 22 i.stream)
    (hstays : ∀ k ∈ hops, ∀ port, (SeenOn k.node a port is → port = k.near) ∧
      (SeenOn k.node b port is → port = k.far))
    (hshake : ∀ k ∈ hops, Handshake a b k.node is) (hdr : FrameHeader) :
    (hdr.dlSrc = a → hdr.dlDst = b →
      leaves links w hdr hops.length (first.node, first.near) = some (last.node, last.far)) ∧
    (hdr.dlSrc = b → hdr.dlDst = a →
      leaves links w hdr hops.length (last.node, last.far) = some (first.node, first.near)) := by
  have hlookup : ∀ k ∈ hops, ∀ inPort, _ := fun k hk inPort =>
    handshake_lookup h (hwf k hk) (fun port => (hstays k hk port).1)
      (fun port => (hstays k hk port).2) (hshake k hk) { hdr with inPort := inPort }
  unfold leaves
  constructor
  · intro hsrc hdst
    apply hpath.exit _ hfirst hlast
    intro k hk
    unfold FlowTable.outPort
    rw [(hlookup k hk k.near).1 hsrc hdst]
  · intro hsrc hdst
    -- The path in the other direction.
    have hlast' : last.flip ∈ (hops.reverse.map Hop.flip).head? := by
      rw [List.head?_map, List.head?_reverse]
      exact Option.mem_map_of_mem Hop.flip hlast
    have hfirst' : first.flip ∈ (hops.reverse.map Hop.flip).getLast? := by
      rw [List.getLast?_map, List.getLast?_reverse]
      exact Option.mem_map_of_mem Hop.flip hfirst
    have hlength : (hops.reverse.map Hop.flip).length = hops.length := by simp
    rw [← hlength]
    apply hpath.reverse.exit _ hlast' hfirst'
    intro k hk
    obtain ⟨k', hk', rfl⟩ := List.mem_map.mp hk
    have hback := (hlookup k' (List.mem_reverse.mp hk') k'.far).2 hsrc hdst
    unfold FlowTable.outPort
    rw [show k'.flip.node = k'.node from rfl, show k'.flip.near = k'.far from rfl, hback]
    rfl

end Connected

/-- Host A is on port 1 of the switch on socket 4, host B on port 2 of the switch on socket 5, and
the other two ports are linked. -/
def twoSwitches : Links Socket UInt16 := fun s port =>
  if s = 4 ∧ port = 2 then some (5, 1) else if s = 5 ∧ port = 1 then some (4, 2) else none

@[inherit_doc twoSwitches]
def twoHops : List (Hop Socket UInt16) := [⟨4, 1, 2⟩, ⟨5, 1, 2⟩]

/-- A request is flooded from switch to switch, and answered back. -/
def acrossTwo : List Input := [request 4, request 5, reply 5, reply 4]

/-- The hosts are connected. -/
theorem hosts_connected_acrossTwo :
    leaves twoSwitches (run step acrossTwo initial).events
        ⟨0, hostA, hostB, 0xffff, 0, 0x0800, fun _ => true⟩ 2 (4, 1) = some (5, 2) ∧
      leaves twoSwitches (run step acrossTwo initial).events
        ⟨0, hostB, hostA, 0xffff, 0, 0x0800, fun _ => true⟩ 2 (5, 2) = some (4, 1) := by
  have h := run_of_isOk step acrossTwo initial (by decide +kernel)
  have hpath : Path twoSwitches twoHops := by
    refine ⟨?_, by decide, by decide, by decide⟩
    exact List.isChain_pair.mpr (by decide : _ ∧ _)
  have hports : ∀ k ∈ twoHops, ∀ i ∈ acrossTwo, i.socket = k.node → ∀ n ∈ i.sighting,
      (n.toMac = hostA → n.port = k.near) ∧ (n.toMac = hostB → n.port = k.far) := by
    decide +kernel
  have hstays : ∀ k ∈ twoHops, ∀ port, (SeenOn k.node hostA port acrossTwo → port = k.near) ∧
      (SeenOn k.node hostB port acrossTwo → port = k.far) := by
    refine fun k hk port => ⟨?_, ?_⟩
    · rintro ⟨i, hi, hs, hq⟩
      exact (hports k hk i hi hs _ hq).1 rfl
    · rintro ⟨i, hi, hs, hq⟩
      exact (hports k hk i hi hs _ hq).2 rfl
  have hshake : ∀ k ∈ twoHops, Handshake hostA hostB k.node acrossTwo := by
    simp only [twoHops, List.forall_mem_cons]
    refine ⟨?_, ?_, by simp⟩
    · exact ⟨[request 4, request 5, reply 5], reply 4, [], ⟨42, 2, 1, arpFrame 2 hostA hostB⟩, rfl,
        rfl, by decide +kernel, by decide +kernel, by decide +kernel, by decide +kernel, 1,
        by decide +kernel⟩
    · exact ⟨[request 4, request 5], reply 5, [reply 4], ⟨42, 2, 1, arpFrame 2 hostA hostB⟩, rfl,
        rfl, by decide +kernel, by decide +kernel, by decide +kernel, by decide +kernel, 1,
        by decide +kernel⟩
  have hconnected := hosts_connected h hpath rfl rfl (by decide +kernel) hstays hshake
  exact ⟨(hconnected _).1 rfl rfl, (hconnected _).2 rfl rfl⟩

end SdnController
