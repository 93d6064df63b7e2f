import SdnController.Returns

/-!
# The bytes of the flow-mods

`establishFlows` fills one buffer and sends it, patches it, and sends it again; `sendLoopFlow` fills
another one in the same way. `flow_mods_decode` says what a switch reads out of the three messages,
by the layout of `openflow.h`: the two directions of one pair of addresses, each with the port that
it leads to, and nothing else. The third message is the first one.
-/

namespace SdnController

open Memory Exec

/-- The flow-mod that adds a flow for a pair of addresses. -/
def pairFlowMod (xid : UInt32) (dlSrc dlDst : Mac) (port : UInt16) : FlowMod where
  xid := xid
  fields := pairMatch dlSrc dlDst
  cookie := 0
  command := ofpfcAdd
  idleTimeout := 0
  hardTimeout := 0
  priority := 0x8000
  bufferId := 0xffffffff
  outPort := 0xffff
  flags := 0
  actions := [.output port 0]

/-- The bytes of a flow-mod that the controller gives a value: the header, the wildcards, the two
addresses, the priority, the buffer and the port that are none, and the action up to its port. -/
def FlowModField (off : ℕ) : Prop :=
  off < 12 ∨ 14 ≤ off ∧ off < 26 ∨ 62 ≤ off ∧ off < 70 ∨ 72 ≤ off ∧ off < 78

/-- A message that is a flow-mod of 80 bytes, all of them zero but those of its fields. -/
structure IsFlowMod (b : List UInt8) (fm : FlowMod) : Prop where
  length : b.length = 80
  header : SdnController.header b = ⟨1, ofptFlowMod, 80, fm.xid⟩
  decode : FlowMod.decode b = some fm
  zero : ∀ off, off < 80 → ¬FlowModField off → ofBytes b off = 0

/-- A call sends a list of messages when no send fails, and in any case only the first of them, or
all when it returns. -/
structure SendsAll (e : Env) (out : Outcome Stop State Event Unit)
    (ms : List (Socket × List UInt8)) : Prop where
  works : e.Works → out.ret.isOk = true
  first : sends out.events <+: ms
  all : out.ret.isOk = true → sends out.events = ms

/-- A program that yields messages and does not stop sends them. -/
theorem sendsAll_of_answers {e : Env} {out : Outcome Stop State Event Unit} {st : State}
    {ms : List (Socket × List UInt8)} (h : Answers out () st ms)
    (hworks : e.Works → out.ret.isOk = true) : SendsAll e out ms := by
  obtain ⟨ret, st', w⟩ := out
  cases ret with
  | ok a => exact ⟨hworks, h.2.2 ▸ List.prefix_rfl, fun _ => h.2.2⟩
  | error x => exact ⟨hworks, h, fun hok => absurd hok (by simp [Except.isOk, Except.toBool])⟩

/-- The flow-mod of a pair of addresses. -/
theorem isFlowMod_encode (xid : UInt32) (dlSrc dlDst : Mac) (port : UInt16) :
    IsFlowMod ((Reply.flowMod dlSrc dlDst port).encode xid) (pairFlowMod xid dlSrc dlDst port) where
  length := length_flowMod ..
  header := by
    obtain ⟨xid', hheader, hxid⟩ := header_encode (.flowMod dlSrc dlDst port) xid
    rw [hheader, length_flowMod, hxid (ne_of_beq_false rfl)]
    rfl
  decode := decode_flowMod xid dlSrc dlDst port
  zero := by
    intro off hoff hfield
    unfold FlowModField at hfield
    -- What is left is the padding and the fields that stay zero.
    have hzero : off = 12 ∨ off = 13 ∨ (∃ k < 36, off = 26 + k) ∨ off = 70 ∨ off = 71 ∨
        off = 78 ∨ off = 79 := by
      by_cases hmid : 26 ≤ off ∧ off < 62
      · exact .inr (.inr (.inl ⟨off - 26, by omega, by omega⟩))
      · omega
    rcases hzero with rfl | rfl | ⟨k, hk, rfl⟩ | rfl | rfl | rfl | rfl
    case inr.inr.inl =>
      have hdrop : ((Reply.flowMod dlSrc dlDst port).encode xid).drop 26 =
          List.replicate 36 0 ++ ([0x80, 0x00, 0xff, 0xff, 0xff, 0xff, 0xff, 0xff, 0, 0] ++
            [0, 0, 0, 8] ++ be16Bytes port ++ [0, 0]) := rfl
      rw [ofBytes_add, hdrop]
      unfold ofBytes
      rw [List.getD_append _ _ _ _ (by simpa using hk),
        List.getD_eq_getElem _ _ (by simpa using hk), List.getElem_replicate]
    all_goals rfl

/-- The fixed fields of a packet-in, in memory that holds the message. -/
theorem packetIn_fixed {b : List UInt8} {p : OfpPacketIn} (hp : OfpPacketIn.decode b = some p)
    (hlen : 18 ≤ b.length) {m : Mem} (hm : ∀ k, k < b.length → m k = ofBytes b k) :
    field16 m 12 = p.totalLen ∧ field16 m 14 = p.inPort ∧ m 16 = p.reason := by
  obtain ⟨-, rfl⟩ := OfpPacketIn.eq_of_decode hp
  exact ⟨field16_congr hm (show 12 + 2 ≤ _ by omega), field16_congr hm (show 14 + 2 ≤ _ by omega),
    hm 16 (by omega)⟩

/-- The fields of a packet-in whose frame has its addresses, in memory that holds it. -/
theorem packetIn_fields {b : List UInt8} {p : OfpPacketIn} (hp : OfpPacketIn.decode b = some p)
    (hframe : 12 ≤ p.data.length) {m : Mem} (hm : ∀ k, k < b.length → m k = ofBytes b k) :
    field16 m 14 = p.inPort ∧ Mac.at m 18 = p.dst ∧ Mac.at m 24 = p.src := by
  have hdata : p.data = b.drop 18 := congrArg OfpPacketIn.data (OfpPacketIn.eq_of_decode hp).2
  have hlen : 30 ≤ b.length := by
    rw [hdata, List.length_drop] at hframe
    omega
  have hb : ∀ k, k < 30 → m k = ofBytes b k := fun k hk => hm k (by omega)
  have hdst : Mac.at m 18 = Mac.at (ofBytes b) 18 := Mac.at_congr hb (by decide)
  have hsrc : Mac.at m 24 = Mac.at (ofBytes b) 24 := Mac.at_congr hb (by decide)
  refine ⟨(packetIn_fixed hp (by omega) hm).2.1, ?_, ?_⟩
  · rw [hdst, OfpPacketIn.dst, hdata, (frame_fields b 0).1]
  · rw [hsrc, OfpPacketIn.src, hdata, (frame_fields b 6).1]

section FlowMods

variable (s : Socket) (e : Env) (st : State) {b : List UInt8} {p : OfpPacketIn} {m : Mem}

/-- The two messages of `establishFlows` are the flow-mods of the two directions: to the source of
the frame, out of the port that it came in on, and to its destination, out of the port where that
was learned. The message of `sendLoopFlow` is the first of them. -/
theorem flow_mods_decode (hp : OfpPacketIn.decode b = some p) (hframe : 12 ≤ p.data.length)
    (hm : ∀ k, k < b.length → m k = ofBytes b k) :
    ∃ b₁ b₂,
      SendsAll e (establishFlows s ⟨.rawPktIn, b.length, m, 0⟩ e st) [(s, b₁), (s, b₂)] ∧
      SendsAll e (sendLoopFlow s ⟨.rawPktIn, b.length, m, 0⟩ e st) [(s, b₁)] ∧
      IsFlowMod b₁ (pairFlowMod st.xid p.dst p.src p.inPort) ∧
      IsFlowMod b₂ (pairFlowMod (st.xid + 1) p.src p.dst (findPort s st.ll p.dst)) := by
  obtain ⟨hport, hdst, hsrc⟩ := packetIn_fields hp hframe hm
  have hestablish := establishFlows_answers s e st b.length m
  have hloop := sendLoopFlow_answers s e st b.length m
  simp only [hport, hdst, hsrc, label] at hestablish hloop
  exact ⟨_, _, sendsAll_of_answers hestablish fun he => (never_establishFlows he s _ _).isOk st,
    sendsAll_of_answers hloop fun he => (never_sendLoopFlow he s _ _).isOk st,
    isFlowMod_encode .., isFlowMod_encode ..⟩

end FlowMods

/-- The flow-mods for the reply of host B on port 2 to host A. -/
theorem flow_mods_decode_reply :
    ∃ b₁ b₂,
      sends (establishFlows 4 ⟨.rawPktIn, 60, ofBytes (reply 4).stream, 0⟩ (reply 4).env
        initial).events = [(4, b₁), (4, b₂)] ∧
      IsFlowMod b₁ (pairFlowMod 1 hostA hostB 2) ∧ IsFlowMod b₂ (pairFlowMod 2 hostB hostA 0) := by
  have hp : OfpPacketIn.decode (reply 4).stream = some ⟨42, 2, 1, arpFrame 2 hostA hostB⟩ := by
    decide +kernel
  obtain ⟨b₁, b₂, hsends, -, h₁, h₂⟩ := flow_mods_decode 4 (reply 4).env initial hp (by decide)
    (m := ofBytes (reply 4).stream) fun _ _ => rfl
  exact ⟨b₁, b₂, hsends.all (hsends.works ⟨fun _ => rfl, fun _ => rfl⟩), h₁, h₂⟩

end SdnController
