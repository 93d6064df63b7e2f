import SdnController.Framing

/-!
# A message that is cut off

What `recvData` does when its peer closes the connection inside a message. The header buffer and the
payload buffer are cleared before they are received into, so what is missing reads as zeros, and a
receive that comes back short is not an error: the fragment is acted on as the message that it is
with zeros for the rest. `fragment_no_effect` says for which fragments that is nothing at all.
-/

namespace SdnController

open Memory Exec

/-- A stream that ends inside its first message: in the header, or in a payload that there is room
for. -/
structure EndsInside (stream : List UInt8) : Prop where
  begins : stream ≠ []
  ends : stream.length < 8 ∨
    stream.length < (header stream).length.toNat ∧ (header stream).length.toNat ≤ 1008

instance (stream : List UInt8) : Decidable (EndsInside stream) :=
  decidable_of_iff (stream ≠ [] ∧ (stream.length < 8 ∨
      stream.length < (header stream).length.toNat ∧ (header stream).length.toNat ≤ 1008))
    ⟨fun h => ⟨h.1, h.2⟩, fun h => ⟨h.begins, h.ends⟩⟩

/-- A call returns, leaves the tables and the counter, and sends nothing. -/
structure NoEffect (s : Socket) (e : Env) (stream : List UInt8) (st : State) : Prop where
  returns : (recvData s stream e st).ret.isOk = true
  state : (recvData s stream e st).st = st
  silent : sends (recvData s stream e st).events = []

/-- The reason of a packet-in, as far as it was received. A message too short to have one is read
past its end. -/
def reasonRead (e : Env) (stream : List UInt8) : UInt8 :=
  if 16 < (header stream).length.toNat then ofBytes stream 16 else e.junk .rawPktIn 16

/-- A fragment that is not acted on: it has not the type of a message that is answered at once, and
a packet-in can be put together, whatever its length says, and has the reason `OFPR_NO_MATCH`. -/
structure Harmless (e : Env) (stream : List UInt8) : Prop where
  hello : (header stream).type ≠ ofHello
  featureReply : (header stream).type ≠ ofFeatureReply
  echoRequest : (header stream).type ≠ ofEchoRequest
  packetIn : (header stream).type = ofPacketIn →
    (8 ≤ (header stream).length.toNat ∧
      (header stream).length.toNat ≤ 1008 + e.mapped .payload) ∧ reasonRead e stream = 0

/-- Only nothing is answered with nothing. -/
theorem react_eq_nil {v : Switch} {m : Msg} : (v.react m).2 = [] ↔ m = .ignored := by
  cases m with
  | packetIn p =>
    simp only [Switch.react, Switch.packetIn]
    split_ifs <;> simp
  | _ => simp [Switch.react]

/-- The messages that are not acted on, as memory holds them. -/
theorem Msg.ofMem_eq_ignored {m : Mem} :
    Msg.ofMem m = .ignored ↔ m 1 ≠ ofHello ∧ m 1 ≠ ofFeatureReply ∧ m 1 ≠ ofEchoRequest ∧
      (m 1 = ofPacketIn → m 16 = 0) := by
  unfold Msg.ofMem
  split_ifs <;> simp_all

section Fragment

variable {s : Socket} {e : Env} {stream : List UInt8}

/-- What comes of a payload that is cut off fits its buffer. -/
theorem EndsInside.fits (h : EndsInside stream) :
    ((stream.drop ofpHdrLen).take (payloadAsked stream).toNat).length ≤ payloadLen := by
  have hends := h.ends
  rw [List.length_take, List.length_drop, ofpHdrLen, payloadLen]
  omega

/-- The type in the buffer, as it was received. -/
theorem rawPktInMem_type : rawPktInMem e stream 1 = (header stream).type := by
  rw [rawPktInMem_header e stream (by decide), headerMem_eq stream (by decide)]
  rfl

/-- The reason in the buffer: what was received, or zero, or what memory holds after a message that
is too short. -/
theorem rawPktInMem_reason : rawPktInMem e stream 16 = reasonRead e stream := by
  have hasked : payloadAsked stream =
      ((header stream).length.toNat : ℤ) - (stream.take ofpHdrLen).length := by
    unfold payloadAsked
    rw [packetLen_eq]
  have htake : (stream.take ofpHdrLen).length ≤ 8 := by
    rw [List.length_take, ofpHdrLen]
    exact Nat.min_le_left ..
  unfold reasonRead rawPktInMem
  rw [packetLen_eq]
  split_ifs with hlong
  · -- The payload was asked for, past the reason.
    have hpos : 0 < payloadAsked stream := by omega
    have hreach : 8 < (payloadAsked stream).toNat := by omega
    rw [memcpy_bytesAt _ _ (by decide) (by rw [ofpHdrLen]; omega), ofpHdrLen]
    unfold payloadMem
    rw [if_pos hpos, memcpy_zero _ _ rfl, ofBytes_take hreach, ← ofBytes_add]
    rfl
  · rw [memcpy_of_ge _ _ (by rw [bytesAt_length, ofpHdrLen]; omega),
      memcpy_of_ge _ _ (by rw [bytesAt_length, ofpHdrLen]; omega)]

/-- A harmless fragment is the one that reads as nothing to act on, and is not copied past the end
of its buffer, or from where nothing can be read. -/
theorem harmless_iff :
    Harmless e stream ↔ Msg.ofMem (rawPktInMem e stream) = .ignored ∧
      ((header stream).type = ofPacketIn → 8 ≤ (header stream).length.toNat ∧
        (header stream).length.toNat ≤ 1008 + e.mapped .payload) := by
  rw [Msg.ofMem_eq_ignored, rawPktInMem_type, rawPktInMem_reason]
  constructor
  · rintro ⟨h0, h6, h2, h10⟩
    exact ⟨⟨h0, h6, h2, fun ht => (h10 ht).2⟩, fun ht => (h10 ht).1⟩
  · rintro ⟨⟨h0, h6, h2, h16⟩, h8⟩
    exact ⟨h0, h6, h2, fun ht => ⟨h8 ht, h16 ht⟩⟩

/-- A call on a fragment has no effect exactly when the fragment is harmless. -/
theorem noEffect_iff {st : State} (hst : st.Sane) (he : e.Works) (h : EndsInside stream) :
    NoEffect s e stream st ↔ Harmless e stream := by
  have hparse : parse e stream = Msg.ofMem (rawPktInMem e stream) := if_neg h.begins
  -- A features reply is answered, whether or not it can be read to its end.
  have hreturns := fun hignored : parse e stream = .ignored => by
    have htype : (header stream).type ≠ ofFeatureReply := by
      rw [hparse, Msg.ofMem_eq_ignored, rawPktInMem_type] at hignored
      exact hignored.2.1
    have hreturns := recvData_returns_iff s st he h.begins h.fits
    rw [headerMem_eq stream (by decide), show ofBytes stream 1 = (header stream).type from rfl,
      packetLen_eq] at hreturns
    exact hreturns fun h6 => absurd h6 htype
  rw [harmless_iff, ← hparse]
  constructor
  · rintro ⟨hok, -, hsilent⟩
    obtain ⟨a, hcall⟩ := Outcome.eq_ok hok
    have hanswers := recvData_answers s e stream hst
    rw [hcall] at hanswers
    have hlabel : label s st.xid ((st.view s).react (parse e stream)).2 = [] :=
      hanswers.2.2.symm.trans hsilent
    have hignored : parse e stream = .ignored := by
      rw [← react_eq_nil (v := st.view s)]
      generalize ((st.view s).react (parse e stream)).2 = rs at hlabel
      cases rs with
      | nil => rfl
      | cons r rs => exact absurd hlabel (by simp [label])
    exact ⟨hignored, fun ht => ((hreturns hignored).mp hok ht).1⟩
  · rintro ⟨hignored, hlong⟩
    -- What reads as nothing to act on has no frame to be sent back.
    have hzero : (header stream).type = ofPacketIn → rawPktInMem e stream 16 = 0 := by
      rw [hparse, Msg.ofMem_eq_ignored, rawPktInMem_type] at hignored
      exact hignored.2.2.2
    have hok := (hreturns hignored).mpr fun ht => ⟨hlong ht, fun h16 => absurd (hzero ht) h16⟩
    obtain ⟨a, hcall⟩ := Outcome.eq_ok hok
    have hanswers := recvData_answers s e stream hst
    rw [hcall, hignored] at hanswers
    exact ⟨hok, hanswers.2.1, hanswers.2.2⟩

end Fragment

/-- In every reachable state, a call on a stream that ends inside a message leaves the tables and
the counter, and sends nothing, exactly when the fragment is harmless. -/
theorem fragment_no_effect {is : List Input} {st : State} {w : List Event}
    (h : run step is initial = ⟨.ok (), st, w⟩) (s : Socket) {e : Env} {stream : List UInt8}
    (he : e.Works) (hcut : EndsInside stream) : NoEffect s e stream st ↔ Harmless e stream :=
  noEffect_iff (run_sane h) he hcut

/-- An echo reply that is cut off in its header has no effect after a hello. -/
theorem fragment_no_effect_echoReply :
    NoEffect 4 Env.plain [1, 3, 0, 8] (run step [Input.plain 4 helloBytes] initial).st :=
  (fragment_no_effect (run_of_isOk step [Input.plain 4 helloBytes] initial (by decide +kernel)) 4
    plain_works (by decide)).mpr ⟨by decide, by decide, by decide, by decide⟩

/-- Two bytes of a header are answered as a hello, and a packet-in that is cut off before its frame
adds an address and a flow of zeros. -/
theorem fragment_acted_on :
    (EndsInside [1, 0] ∧ ¬NoEffect 4 Env.plain [1, 0] initial) ∧
      EndsInside ((request 4).stream.take 18) ∧
        ¬NoEffect 4 Env.plain ((request 4).stream.take 18) initial := by
  refine ⟨⟨by decide, fun h => ?_⟩, by decide, fun h => ?_⟩
  · exact absurd h.silent (by decide +kernel)
  · exact absurd h.state (by decide +kernel)

end SdnController
