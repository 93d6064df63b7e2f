import SdnController.Framing
import SdnController.Isolation
import SdnController.Lib.Frames

/-!
# The stream of answers

What a switch reads of the controller: one stream of bytes, which it splits into messages by the
length in their headers. Every reply of the controller says its own length (`encode_saysLength`),
the packet-out among them as long as its frame fits the length field, so the stream is split into
the replies again, and each of them decodes to the answer that OpenFlow asks for
(`answer_stream`).
-/

namespace SdnController

open Memory Exec

/-! ## Answers -/

/-- A message to the switch, as far as it answers one from the switch. -/
inductive Answer where
  | hello
  | featuresRequest
  | setConfig
  | barrierRequest
  | echoReply (xid : UInt32)
  | flowMod
  /-- A packet-out with one output action. -/
  | packetOut (port : UInt16)
  deriving DecidableEq, Repr

/-- Decodes a message to the switch. -/
def Answer.decode (b : List UInt8) : Option Answer :=
  if (header b).type = ofptHello then some .hello
  else if (header b).type = ofptFeaturesRequest then some .featuresRequest
  else if (header b).type = ofptSetConfig then some .setConfig
  else if (header b).type = ofptBarrierRequest then some .barrierRequest
  else if (header b).type = ofptEchoReply then some (.echoReply (header b).xid)
  else if (header b).type = ofptFlowMod then (FlowMod.decode b).map fun _ => .flowMod
  else if (header b).type = ofptPacketOut then
    (PacketOut.decode b).bind fun po =>
      match po.actions with
      | [.output port _] => some (.packetOut port)
      | _ => none
  else none

/-- The answers to a frame: two flows and the frame itself for an ARP reply, a flow for a frame that
is sent to its own source, and for any other the frame itself. -/
def frameAnswers (arpReply : Bool) (dst src : Mac) : List Answer :=
  if arpReply then [.flowMod, .flowMod, .packetOut ofppTable]
  else if dst = src then [.flowMod]
  else [.packetOut ofppFlood]

/-- The answers to a message from the switch. -/
def answers (b : List UInt8) : List Answer :=
  if (header b).type = ofptHello then [.hello, .featuresRequest]
  else if (header b).type = ofptFeaturesReply then [.setConfig, .barrierRequest]
  else if (header b).type = ofptEchoRequest then [.echoReply (header b).xid]
  else
    ((OfpPacketIn.decode b).filter (·.reason ≠ 0)).elim [] fun p =>
      frameAnswers p.arpReply p.dst p.src

/-- The length that a message says, which is at least that of its header. -/
def frameSize (b : List UInt8) : ℕ :=
  if 8 ≤ b.length ∧ 8 ≤ (header b).length.toNat then (header b).length.toNat else 0

/-! ## Replies -/

/-- The answer that a reply is. -/
def Reply.answer : Reply → Answer
  | .hello => .hello
  | .featuresRequest => .featuresRequest
  | .setConfig => .setConfig
  | .barrierRequest => .barrierRequest
  | .echoReply xid => .echoReply xid
  | .flowMod .. => .flowMod
  | .packetOut _ outPort _ => .packetOut outPort

/-- A reply whose length fits the length field. -/
def Reply.Fits : Reply → Prop
  | .packetOut _ _ data => pktOutHdrLen + data.length < 2 ^ 16
  | _ => True

section Reply

variable {r : Reply} (xid : UInt32)

/-- The length field of a reply. -/
theorem header_length (h : r.Fits) :
    (header (r.encode xid)).length.toNat = (r.encode xid).length := by
  obtain ⟨xid', hheader, -⟩ := header_encode r xid
  have hlt : (r.encode xid).length < 2 ^ 16 := by
    cases r with
    | packetOut inPort outPort data => rwa [length_packetOut]
    | flowMod dlSrc dlDst port =>
      rw [length_flowMod]
      decide
    | setConfig => exact show 12 < 2 ^ 16 by decide
    | _ => exact show 8 < 2 ^ 16 by decide
  rw [hheader, UInt16.toNat_ofNat', Nat.mod_eq_of_lt hlt]

/-- A reply says its own length. -/
theorem encode_saysLength (h : r.Fits) : Frames.SaysLength frameSize (r.encode xid) := by
  have hleast := eight_le_length r xid
  refine ⟨List.ne_nil_of_length_pos (by omega), fun rest => ?_⟩
  unfold frameSize
  rw [header_append hleast, header_length xid h, if_pos ⟨by simp; omega, hleast⟩]

/-- A reply decodes to its answer. -/
theorem decode_encode (h : r.Fits) : Answer.decode (r.encode xid) = some r.answer := by
  unfold Answer.decode
  rw [header_type]
  cases r with
  | echoReply requestXid =>
    have hheader : header ((Reply.echoReply requestXid).encode xid) = ⟨1, 3, 8, requestXid⟩ :=
      header_of_headerBytes List.prefix_rfl
    rw [hheader]
    rfl
  | flowMod dlSrc dlDst port =>
    rw [decode_flowMod]
    rfl
  | packetOut inPort outPort data =>
    rw [decode_packetOut xid inPort outPort h]
    rfl
  | _ => rfl

end Reply

/-- Replies that are numbered, decoded. -/
theorem decode_numbered (xid : UInt32) {rs : List Reply} (h : ∀ r ∈ rs, r.Fits) :
    (numbered xid rs).map Answer.decode = (rs.map Reply.answer).map some := by
  induction rs generalizing xid with
  | nil => rfl
  | cons r rs ih =>
    obtain ⟨hr, hrs⟩ := List.forall_mem_cons.mp h
    rw [numbered, List.map_cons, decode_encode xid hr, ih _ hrs]
    rfl

/-- The messages of numbered replies. -/
theorem mem_numbered {xid : UInt32} {rs : List Reply} {b : List UInt8} (h : b ∈ numbered xid rs) :
    ∃ r ∈ rs, ∃ xid', b = r.encode xid' := by
  induction rs generalizing xid with
  | nil => exact absurd h List.not_mem_nil
  | cons r rs ih =>
    rcases List.mem_cons.mp h with hb | h
    · exact ⟨r, List.mem_cons_self, xid, hb⟩
    · obtain ⟨r', hr', hb⟩ := ih h
      exact ⟨r', List.mem_cons_of_mem r hr', hb⟩

/-- The replies to a frame are the answers to it. -/
theorem packetIn_answers (v : Switch) (p : PacketIn) :
    (v.packetIn p).2.map Reply.answer = frameAnswers p.arpReply p.dst p.src := by
  unfold Switch.packetIn frameAnswers
  cases p.arpReply with
  | true => rfl
  | false =>
    by_cases hd : p.dst = p.src
    · simp [hd, Reply.answer]
    · simp [hd, Reply.answer]

/-- The replies to a frame fit when a packet-out with the frame does. -/
theorem packetIn_fits (v : Switch) {p : PacketIn} (h : pktOutHdrLen + p.data.length < 2 ^ 16) :
    ∀ r ∈ (v.packetIn p).2, r.Fits := by
  have hout : ∀ outPort, (Reply.packetOut p.inPort outPort p.data).Fits := fun _ => h
  have hflow : ∀ dlSrc dlDst port, (Reply.flowMod dlSrc dlDst port).Fits := fun _ _ _ => trivial
  unfold Switch.packetIn
  split_ifs <;> simp [hout, hflow]

/-- The replies to a message are the answers to it. -/
theorem react_answers (v : Switch) (b : List UInt8) :
    (v.react (Msg.ofMem (ofBytes b))).2.map Reply.answer = answers b := by
  have hdst := (frame_fields b 0).1
  have hsrc := (frame_fields b 6).1
  have hcode := (frame_fields b 12).2
  have hopcode := (frame_fields b 20).2
  have htype : (header b).type = ofBytes b 1 := rfl
  have hxid : (header b).xid = field32 (ofBytes b) 4 := rfl
  unfold answers OfpPacketIn.decode Msg.ofMem
  rw [htype, hxid]
  -- The controller's names for the types are OpenFlow's.
  by_cases h0 : ofBytes b 1 = ofHello
  · rw [if_pos h0, if_pos (show ofBytes b 1 = ofptHello from h0)]
    rfl
  rw [if_neg h0, if_neg (show ¬ofBytes b 1 = ofptHello from h0)]
  by_cases h6 : ofBytes b 1 = ofFeatureReply
  · rw [if_pos h6, if_pos (show ofBytes b 1 = ofptFeaturesReply from h6)]
    rfl
  rw [if_neg h6, if_neg (show ¬ofBytes b 1 = ofptFeaturesReply from h6)]
  by_cases h2 : ofBytes b 1 = ofEchoRequest
  · rw [if_pos h2, if_pos (show ofBytes b 1 = ofptEchoRequest from h2)]
    rfl
  rw [if_neg h2, if_neg (show ¬ofBytes b 1 = ofptEchoRequest from h2)]
  by_cases h10 : ofBytes b 1 = ofPacketIn
  · rw [if_pos h10, if_pos (show ofBytes b 1 = ofptPacketIn from h10)]
    by_cases h16 : ofBytes b 16 = 0
    · rw [if_pos h16, Option.filter_some, if_neg (by simpa using h16)]
      rfl
    · rw [if_neg h16, Option.filter_some, if_pos (by simpa using h16), Option.elim_some,
        Switch.react, packetIn_answers]
      unfold PacketIn.ofMem OfpPacketIn.arpReply OfpPacketIn.dst OfpPacketIn.src
      simp only [hdst, hsrc, hcode, hopcode, Nat.reduceAdd]
  · rw [if_neg h10, if_neg (show ¬ofBytes b 1 = ofptPacketIn from h10)]
    rfl

/-! ## Runs -/

/-- A call on a connection that was closed, or on a whole message that there is room for. -/
def Served (i : Input) : Prop :=
  i.stream = [] ∨ Whole i ∧ (header i.stream).length.toNat ≤ 1008

instance (i : Input) : Decidable (Served i) := inferInstanceAs (Decidable (_ ∨ _))

/-- The messages received on a socket, in order. -/
def messages (s : Socket) (is : List Input) : List (List UInt8) :=
  (received s is).filter (· ≠ [])

section Call

variable {i : Input}

/-- The controller acts on a whole message. -/
theorem Whole.msg_eq (h : Whole i) : i.msg = Msg.ofMem (ofBytes (firstMessage i.stream)) :=
  SdnController.msg_eq h.wellFormed fun p hp => (h.totalLen p hp).le

/-- A whole message that there is room for is framed. -/
theorem Whole.framed (h : Whole i) (hmost : (header i.stream).length.toNat ≤ 1008) :
    Framed (firstMessage i.stream) := by
  have hlength := h.wellFormed.length_firstMessage
  refine ⟨?_, ?_, ?_⟩
  · rw [h.wellFormed.header_eq, hlength]
  · rw [hlength]
    exact h.wellFormed.least
  · rw [hlength]
    exact hmost

/-- The frame of a whole packet-in is as long as the message leaves room for. -/
theorem Whole.data_length {p : PacketIn} (h : Whole i) (hp : i.msg = .packetIn p) :
    18 + p.data.length = (header i.stream).length.toNat := by
  rw [h.msg_eq] at hp
  obtain ⟨h1, h16, rfl⟩ := Msg.ofMem_eq_packetIn.mp hp
  have hpacketIn := i.packetIn_eq
  simp only at hpacketIn
  rw [if_pos ⟨h1, h16⟩] at hpacketIn
  have htotal := h.totalLen _ hpacketIn
  rw [(h.wellFormed.packetIn_length hpacketIn).2, PacketIn.ofMem_data_length, ← htotal]

/-- Every reply to a message that is served fits its length field. -/
theorem Served.fits (h : Served i) (v : Switch) : ∀ r ∈ (v.react i.msg).2, r.Fits := by
  rcases h with hnil | ⟨hwhole, hmost⟩
  · have hmsg : i.msg = .ignored := if_pos hnil
    rw [hmsg]
    exact fun r hr => absurd hr List.not_mem_nil
  cases hmsg : i.msg with
  | packetIn p =>
    have hdata := hwhole.data_length hmsg
    exact packetIn_fits v (by rw [pktOutHdrLen]; omega)
  | _ => simp [Switch.react, Reply.Fits]

/-- What a message that is served is answered with. -/
theorem Served.answers_eq (h : Served i) (v : Switch) :
    (v.react i.msg).2.map Reply.answer =
      if firstMessage i.stream = [] then [] else answers (firstMessage i.stream) := by
  rcases h with hnil | ⟨hwhole, hmost⟩
  · have hmsg : i.msg = .ignored := if_pos hnil
    have hfirst : firstMessage i.stream = [] := by rw [hnil]; rfl
    rw [hmsg, if_pos hfirst]
    rfl
  · have hne : firstMessage i.stream ≠ [] :=
      List.ne_nil_of_length_pos (by have := (hwhole.framed hmost).least; omega)
    rw [if_neg hne, hwhole.msg_eq, react_answers]

/-- A call that is served returns. -/
theorem Served.returns (h : Served i) (he : i.env.Works) (st : State) :
    (step i st).ret.isOk = true := by
  obtain ⟨s, stream, e⟩ := i
  unfold step
  rcases h with hnil | ⟨hwhole, hmost⟩
  · have hnil : stream = [] := hnil
    rw [hnil, recvData_closed s st (he.recv _)]
    rfl
  have hframed := hwhole.framed hmost
  have hsplit : stream = firstMessage stream ++ stream.drop (header stream).length.toNat :=
    (List.take_append_drop _ _).symm
  have hmsg : Input.msg ⟨s, stream, e⟩ = Msg.ofMem (held e (firstMessage stream)) := by
    unfold Input.msg
    rw [hwhole.wellFormed.parse_eq, ← hframed.rawPktInMem_eq, ← hsplit]
  have hanswerable : Answerable e (firstMessage stream) := by
    intro p hp _
    have hdata : 18 + p.data.length = (header stream).length.toNat :=
      hwhole.data_length (hmsg.trans hp)
    have hmost : (header stream).length.toNat ≤ 1008 := hmost
    have hlength : (firstMessage stream).length = (header stream).length.toNat :=
      hwhole.wellFormed.length_firstMessage
    rw [pktOutHdrLen]
    omega
  have hreturns := (hframed.returns_iff (stream.drop (header stream).length.toNat) s st he).mpr
    hanswerable
  rw [← hsplit] at hreturns
  exact hreturns

end Call

section Run

variable {is : List Input}

/-- A run of calls that are served completes. -/
theorem run_served (he : ∀ i ∈ is, i.env.Works) (h : ∀ i ∈ is, Served i) :
    ∃ st w, run step is initial = ⟨.ok (), st, w⟩ := by
  rcases run_cases step is initial with hok | ⟨past, i, st₁, w₁, x, st, w₂, hp, -, hi, -⟩
  · exact hok
  · have hmem : i ∈ is := hp.subset (by simp)
    have hreturns := (h i hmem).returns (he i hmem) st₁
    rw [hi] at hreturns
    exact absurd hreturns (by simp [Except.isOk, Except.toBool])

/-- The messages sent on a socket in a run of calls that are served: each is a reply that fits, and
decoded they are the answers to the messages received on it. -/
theorem run_answers (s : Socket) {st : State} {w : List Event} (h : ∀ i ∈ is, Served i)
    (hrun : run step is initial = ⟨.ok (), st, w⟩) :
    (∀ b ∈ sendsOn s w, ∃ r : Reply, r.Fits ∧ ∃ xid, b = r.encode xid) ∧
      (sendsOn s w).map Answer.decode = ((messages s is).flatMap answers).map some := by
  refine run_induction (fun past _ w =>
    (∀ b ∈ sendsOn s w, ∃ r : Reply, r.Fits ∧ ∃ xid, b = r.encode xid) ∧
      (sendsOn s w).map Answer.decode = ((messages s past).flatMap answers).map some) ?_ ?_ hrun
  · exact ⟨fun b hb => absurd hb List.not_mem_nil, rfl⟩
  rintro past i st₁ w₁ a st₂ w₂ hp hpast hi ⟨hfits, hdecode⟩
  have hst := run_sane hpast
  have hserved := h i (hp.subset (by simp))
  have hmessages : messages s (past ++ [i]) = messages s past ++
      if i.socket = s then [firstMessage i.stream].filter (· ≠ []) else [] := by
    unfold messages received
    rw [List.filter_append, List.map_append, List.filter_append]
    split_ifs with hs <;> simp [hs]
  rw [sendsOn_append, step_sendsOn s hst hi, hmessages, List.map_append, hdecode,
    List.flatMap_append, List.map_append]
  by_cases hs : i.socket = s
  · rw [if_pos hs, if_pos hs, decode_numbered _ (hserved.fits _), hserved.answers_eq]
    constructor
    · intro b hb
      rcases List.mem_append.mp hb with hb | hb
      · exact hfits b hb
      · obtain ⟨r, hr, xid, hb⟩ := mem_numbered hb
        exact ⟨r, hserved.fits _ r hr, xid, hb⟩
    · congr 2
      by_cases hfirst : firstMessage i.stream = [] <;> simp [hfirst]
  · rw [if_neg hs, if_neg hs, List.append_nil]
    exact ⟨hfits, by simp⟩

/-- What is sent on a socket, as one stream of bytes, is split by the lengths in the headers, with
nothing left over, into the answers to the messages received on it. -/
theorem answer_stream (s : Socket) (he : ∀ i ∈ is, i.env.Works) (h : ∀ i ∈ is, Served i) :
    ∃ st w bs, run step is initial = ⟨.ok (), st, w⟩ ∧
      Frames.split frameSize (sendsOn s w).flatten = some bs ∧
      (∀ b ∈ bs, (header b).version = 1) ∧
      bs.map Answer.decode = ((messages s is).flatMap answers).map some := by
  obtain ⟨st, w, hrun⟩ := run_served he h
  obtain ⟨hfits, hdecode⟩ := run_answers s h hrun
  refine ⟨st, w, sendsOn s w, hrun, Frames.split_flatten ?_, ?_, hdecode⟩
  · intro b hb
    obtain ⟨r, hr, xid, rfl⟩ := hfits b hb
    exact encode_saysLength xid hr
  · intro b hb
    obtain ⟨r, hr, xid, rfl⟩ := hfits b hb
    obtain ⟨xid', hheader, -⟩ := header_encode r xid
    rw [hheader]

/-- A hello, an ARP request, its reply, and the end of the connection. -/
def session : List Input :=
  [Input.plain 4 helloBytes, request 4, reply 4, Input.plain 4 []]

/-- A session is answered with a hello and a features request, the flooded request, and the two
flows and the frame of the reply. -/
theorem answer_stream_session :
    ∃ st w bs, run step session initial = ⟨.ok (), st, w⟩ ∧
      Frames.split frameSize (sendsOn 4 w).flatten = some bs ∧
      (∀ b ∈ bs, (header b).version = 1) ∧
      bs.map Answer.decode = [some .hello, some .featuresRequest, some (.packetOut ofppFlood),
        some .flowMod, some .flowMod, some (.packetOut ofppTable)] := by
  have hanswers : ((messages 4 session).flatMap answers).map some =
      [some .hello, some .featuresRequest, some (.packetOut ofppFlood), some .flowMod,
        some .flowMod, some (.packetOut ofppTable)] := by decide +kernel
  rw [← hanswers]
  have hworks : ∀ i ∈ session, i.env.Works := by
    simp only [session, List.forall_mem_cons]
    exact ⟨plain_works, plain_works, plain_works, plain_works, by simp⟩
  exact answer_stream 4 hworks (by decide +kernel)

end Run

end SdnController
