import SdnController.Returns

/-!
# The framing of the input

The messages of a switch come as one stream of bytes, in which `recvData` finds the end of each by
the length in its header. A call takes the header and then as many bytes as are missing, whatever
the message and the tables are (`recvData_consumes`), so the next call starts at the next message.

`DispatchesAll` says that calling `recvData` again and again acts on the messages of a stream, in
order and each with its own bytes, until nothing is left. It does so for every list of framed
messages but those with a packet-in whose `total_len` is too great for a packet-out
(`stream_dispatched`): the call on that one writes past the end of its buffer, when the length of
the answer wraps, or reads a frame past its end until there is no more memory.
-/

namespace SdnController

open Memory Exec

/-! ## What a call consumes -/

/-- The number of bytes that a call takes from its socket. -/
def consumed (w : List Event) : ℕ := receivedInto .packet w + receivedInto .payload w

section Consumes

variable {e : Env} {stream : List UInt8}

/-- What is asked for after a header that was received whole. -/
theorem payloadAsked_eq (hlen : 8 ≤ stream.length) :
    payloadAsked stream = ((header stream).length.toNat : ℤ) - 8 := by
  unfold payloadAsked
  rw [packetLen_eq, List.length_take, ofpHdrLen, Nat.min_eq_left hlen]
  rfl

/-- The bytes that `recvs` receives, and those of a message that is there up to its end. -/
theorem consumed_recvs (s : Socket) (hlen : 8 ≤ stream.length)
    (hwhole : (header stream).length.toNat ≤ stream.length) :
    consumed (recvs s stream) = max 8 (header stream).length.toNat := by
  have htake : (stream.take ofpHdrLen).length = 8 := by
    rw [List.length_take, ofpHdrLen, Nat.min_eq_left hlen]
  unfold consumed receivedInto recvs
  rw [htake, payloadAsked_eq hlen]
  by_cases hn : 0 < ((header stream).length.toNat : ℤ) - 8
  · rw [if_pos hn]
    simp only [List.map_cons, List.map_nil, List.sum_cons, List.sum_nil, Event.receivedInto,
      reduceCtorEq, if_true, if_false, List.length_take, List.length_drop, ofpHdrLen]
    omega
  · rw [if_neg hn]
    simp only [List.map_cons, List.map_nil, List.sum_cons, List.sum_nil, Event.receivedInto,
      reduceCtorEq, if_true, if_false]
    omega

/-- A call consumes its message, or its header when the length is less than that, and leaves the
rest of the stream to the next call. -/
theorem recvData_consumes (s : Socket) (st : State) (hr : ∀ buf, e.recvFails buf = false)
    (hlen : 8 ≤ stream.length) (hwhole : (header stream).length.toNat ≤ stream.length)
    (hmost : (header stream).length.toNat ≤ 1008) :
    consumed (recvData s stream e st).events = max 8 (header stream).length.toNat ∧
      ∀ a, (recvData s stream e st).ret = .ok a →
        a = (1, stream.drop (max 8 (header stream).length.toNat)) := by
  have hne : stream ≠ [] := by
    rintro rfl
    exact absurd hlen (by decide)
  have hasked := payloadAsked_eq hlen
  have hfit : ((stream.drop ofpHdrLen).take (payloadAsked stream).toNat).length ≤ payloadLen := by
    rw [hasked, List.length_take, payloadLen]
    omega
  have hrest : (stream.drop ofpHdrLen).drop (payloadAsked stream).toNat =
      stream.drop (max 8 (header stream).length.toNat) := by
    rw [hasked, List.drop_drop, ofpHdrLen]
    congr 1
    omega
  have hdispatch : ∀ ev ∈ (dispatch s ⟨.packet, ofpHdrLen, headerMem stream, 0⟩ ⟨.payload,
      payloadLen, payloadMem e stream, 0⟩ (packetLen stream) e st).events, ev.Fits False 0 :=
    (fits_dispatch_events False.elim _ _).mpr False.elim
  rw [recvData_eq s st hr hne hfit, Outcome.andThen_ok]
  constructor
  · rw [Outcome.events_andThen_ok]
    unfold consumed
    rw [receivedInto_append .packet hdispatch, receivedInto_append .payload hdispatch]
    exact consumed_recvs s hlen hwhole
  · intro a ha
    generalize dispatch _ _ _ _ _ _ = o at ha
    obtain ⟨ret, st', w⟩ := o
    cases ret with
    | ok _ =>
      rw [Outcome.andThen_ok, Except.ok.injEq] at ha
      rw [← ha, hrest]
    | error x => exact absurd ha (by simp)

end Consumes

/-! ## One message -/

/-- A message whose length field is its length, which the buffers have room for. -/
structure Framed (b : List UInt8) : Prop where
  length_eq : (header b).length.toNat = b.length
  least : 8 ≤ b.length
  most : b.length ≤ 1008

instance (b : List UInt8) : Decidable (Framed b) :=
  decidable_of_iff ((header b).length.toNat = b.length ∧ 8 ≤ b.length ∧ b.length ≤ 1008)
    ⟨fun h => ⟨h.1, h.2.1, h.2.2⟩, fun h => ⟨h.length_eq, h.least, h.most⟩⟩

/-- A call on `stream` acts on the message `b` and leaves `rest`: all that it does before is to
receive, and it calls `dispatch` on buffers that hold the header and the payload of the message. -/
def Dispatches (s : Socket) (e : Env) (b stream rest : List UInt8) (st st' : State) : Prop :=
  ∃ packet payload w w',
    OfpHeader.decode packet = header b ∧ bytesAt payload 0 (b.length - 8) = b.drop 8 ∧
      (∀ ev ∈ w, ∃ buf asked got, ev = .recv s buf asked got) ∧
      dispatch s ⟨.packet, ofpHdrLen, packet, 0⟩ ⟨.payload, payloadLen, payload, 0⟩ b.length e st =
        ⟨.ok (), st', w'⟩ ∧
      recvData s stream e st = ⟨.ok (1, rest), st', w ++ w'⟩

/-- A message as it is put together in memory, before what memory holds after it. -/
def held (e : Env) (b : List UInt8) : Mem := memcpy (e.junk .rawPktIn) 0 b

/-- A message that is not answered with a packet-out that is too long for its length field, or whose
frame cannot be read to its end. -/
def Answerable (e : Env) (b : List UInt8) : Prop :=
  ∀ p, Msg.ofMem (held e b) = .packetIn p → p.AnswerFits e b.length

/-- As much of the frame is sent back as the message says that it has. -/
theorem PacketIn.ofMem_data_length (m : Mem) :
    (PacketIn.ofMem m).data.length = (field16 m 12).toNat := bytesAt_length ..

/-- The header of a message, from a stream that starts with it. -/
theorem header_append {b : List UInt8} (h : 8 ≤ b.length) (rest : List UInt8) :
    header (b ++ rest) = header b := by
  have hb : ∀ k, k < 8 → ofBytes (b ++ rest) k = ofBytes b k :=
    fun k hk => List.getD_append _ _ _ _ (by omega)
  exact OfpHeader.decode_congr hb le_rfl

/-- The header in `packet`, as it was received. -/
theorem decode_headerMem (stream : List UInt8) :
    OfpHeader.decode (headerMem stream) = header stream :=
  OfpHeader.decode_congr (fun _ hk => headerMem_eq stream hk) le_rfl

section Message

variable {e : Env} {b : List UInt8} (h : Framed b) (rest : List UInt8)

include h

/-- What is asked for after the header of a framed message is the rest of it. -/
theorem Framed.payloadAsked_eq : payloadAsked (b ++ rest) = ((b.length - 8 : ℕ) : ℤ) := by
  have hleast := h.least
  rw [SdnController.payloadAsked_eq (by simp; omega), header_append hleast, h.length_eq]
  omega

/-- What is received after the header of a framed message is the rest of it. -/
theorem Framed.payload_eq :
    ((b ++ rest).drop ofpHdrLen).take (payloadAsked (b ++ rest)).toNat = b.drop 8 := by
  have hleast := h.least
  rw [h.payloadAsked_eq, Int.toNat_natCast, ofpHdrLen, List.drop_append_of_le_length hleast,
    List.take_append_of_le_length (by simp), List.take_of_length_le (by simp)]

/-- A stream that starts with a framed message is not at its end. -/
theorem Framed.ne_nil : b ++ rest ≠ [] := by
  have hleast := h.least
  intro hnil
  rw [(List.append_eq_nil_iff.mp hnil).1] at hleast
  exact absurd hleast (by decide)

/-- The payload of a framed message fits its buffer. -/
theorem Framed.fits :
    (((b ++ rest).drop ofpHdrLen).take (payloadAsked (b ++ rest)).toNat).length ≤ payloadLen := by
  have hmost := h.most
  rw [h.payload_eq, List.length_drop, payloadLen]
  omega

/-- The payload of a framed message is in `payload`. -/
theorem Framed.bytesAt_payloadMem :
    bytesAt (payloadMem e (b ++ rest)) 0 (b.length - 8) = b.drop 8 := by
  unfold payloadMem
  rw [h.payload_eq]
  by_cases hn : 0 < payloadAsked (b ++ rest)
  · rw [if_pos hn, ← List.length_drop, bytesAt_memcpy_self]
  · -- A message that is only a header has no payload.
    rw [h.payloadAsked_eq] at hn
    have h8 : b.length - 8 = 0 := by omega
    rw [h8, List.drop_eq_nil_of_le (by omega)]
    rfl

/-- A framed message is in the two buffers. -/
theorem Framed.inBuffers : InBuffers b (headerMem (b ++ rest)) (payloadMem e (b ++ rest)) := by
  have hleast := h.least
  constructor
  · intro k hk
    rw [headerMem_eq _ hk]
    exact List.getD_append _ _ _ _ (by omega)
  · intro k hk
    rw [ofBytes_add, ← h.bytesAt_payloadMem rest, ofBytes_bytesAt _ _ (by omega), Nat.zero_add]

/-- A framed message is put together as it was received. -/
theorem Framed.rawPktInMem_eq : rawPktInMem e (b ++ rest) = held e b := by
  have hleast := h.least
  have hheader : bytesAt (headerMem (b ++ rest)) 0 ofpHdrLen = b.take 8 := by
    have htake : (b ++ rest).take ofpHdrLen = b.take 8 := List.take_append_of_le_length hleast
    have h8 : ofpHdrLen = (b.take 8).length := by rw [List.length_take, ofpHdrLen]; omega
    unfold headerMem
    rw [htake, h8, bytesAt_memcpy_self]
  have hlen : ((packetLen (b ++ rest) : ℤ) - ofpHdrLen).toNat = b.length - 8 := by
    rw [packetLen_eq, header_append hleast, h.length_eq, ofpHdrLen]
    omega
  have hoff : ofpHdrLen = 0 + (b.take 8).length := by rw [List.length_take, ofpHdrLen]; omega
  unfold rawPktInMem held
  rw [hheader, hlen, h.bytesAt_payloadMem, hoff, memcpy_append, List.take_append_drop]

/-- A call on a stream that starts with a framed message returns when the message is answerable. -/
theorem Framed.returns_iff (s : Socket) (st : State) (he : e.Works) :
    (recvData s (b ++ rest) e st).ret.isOk = true ↔ Answerable e b := by
  have hleast := h.least
  have hmost := h.most
  have hlen : packetLen (b ++ rest) = b.length := by
    rw [packetLen_eq, header_append hleast, h.length_eq]
  have hfits : b.length ≤ ofpHdrLen + payloadLen := hmost
  have htype : held e b 1 = headerMem (b ++ rest) 1 := by
    rw [← h.rawPktInMem_eq rest]
    exact rawPktInMem_header e _ (by decide)
  rw [recvData_returns_iff s st he (h.ne_nil rest) (h.fits rest) fun _ => hlen.trans_le hfits,
    h.rawPktInMem_eq, ← htype, hlen]
  unfold Answerable
  simp only [Msg.ofMem_eq_packetIn]
  constructor
  · rintro hanswer p ⟨h1, h16, rfl⟩
    exact (hanswer h1).2 h16
  · exact fun hanswer h1 => ⟨⟨hleast, hfits.trans (Nat.le_add_right ..)⟩,
      fun h16 => hanswer _ ⟨h1, h16, rfl⟩⟩

/-- A call that acts on a framed message leaves what comes after it. -/
theorem Framed.rest_eq {s : Socket} {st st' : State} {rest' : List UInt8}
    (hr : ∀ buf, e.recvFails buf = false) (hd : Dispatches s e b (b ++ rest) rest' st st') :
    rest' = rest := by
  have hleast := h.least
  obtain ⟨_, _, _, _, -, -, -, -, hcall⟩ := hd
  have hheader : (header (b ++ rest)).length.toNat = b.length := by
    rw [header_append hleast, h.length_eq]
  have hlength : b.length ≤ (b ++ rest).length := by simp
  have hleft := (recvData_consumes s st hr (hleast.trans hlength) (hheader.trans_le hlength)
    (hheader.trans_le h.most)).2 _ (congrArg Outcome.ret hcall)
  rw [(Prod.mk.inj hleft).2, hheader, max_eq_right hleast, List.drop_left]

/-- A call on a stream that starts with an answerable message acts on it. -/
theorem Framed.dispatches (s : Socket) (st : State) (he : e.Works) (ha : Answerable e b) :
    ∃ st', Dispatches s e b (b ++ rest) rest st st' := by
  have hleast := h.least
  have hheader : (header (b ++ rest)).length.toNat = b.length := by
    rw [header_append hleast, h.length_eq]
  have hlen : packetLen (b ++ rest) = b.length := by rw [packetLen_eq, hheader]
  have hcall := recvData_eq s st he.recv (h.ne_nil rest) (h.fits rest)
  have hok := (h.returns_iff rest s st he).mpr ha
  have hrest : ((b ++ rest).drop ofpHdrLen).drop (payloadAsked (b ++ rest)).toNat = rest := by
    rw [h.payloadAsked_eq, Int.toNat_natCast, List.drop_drop, ofpHdrLen,
      show 8 + (b.length - 8) = b.length by omega, List.drop_left]
  rw [hlen, hrest, Outcome.andThen_ok] at hcall
  -- The action on the message completes, since the call does.
  rcases hd : dispatch s ⟨.packet, ofpHdrLen, headerMem (b ++ rest), 0⟩ ⟨.payload, payloadLen,
    payloadMem e (b ++ rest), 0⟩ b.length e st with ⟨ret, st', w'⟩
  rw [hd] at hcall
  cases ret with
  | error x =>
    rw [hcall] at hok
    exact absurd hok (by simp [Except.isOk, Except.toBool])
  | ok _ =>
    refine ⟨st', headerMem (b ++ rest), payloadMem e (b ++ rest), recvs s (b ++ rest), w', ?_,
      h.bytesAt_payloadMem rest, fun ev hev => mem_recvs hev, hd, ?_⟩
    · rw [decode_headerMem, header_append hleast]
    · rw [hcall, Outcome.andThen_ok, List.append_nil]

end Message

/-! ## A stream of messages -/

/-- Calling `recvData` again and again on a stream, each time in an environment of its own, acts on
the messages of a list, in order, and on nothing else, until nothing of the stream is left. -/
inductive DispatchesAll (s : Socket) : List (Env × List UInt8) → List UInt8 → State → Prop
  | nil (st : State) : DispatchesAll s [] [] st
  | cons {e : Env} {b stream rest : List UInt8} {ms : List (Env × List UInt8)} {st st' : State} :
    Dispatches s e b stream rest st st' → DispatchesAll s ms rest st' →
      DispatchesAll s ((e, b) :: ms) stream st

/-- A stream of framed messages is dispatched message by message when they are answerable, and only
then. -/
theorem dispatchesAll_iff (s : Socket) (st : State) {ms : List (Env × List UInt8)}
    (he : ∀ m ∈ ms, m.1.Works) (hf : ∀ m ∈ ms, Framed m.2) :
    DispatchesAll s ms (ms.map Prod.snd).flatten st ↔ ∀ m ∈ ms, Answerable m.1 m.2 := by
  induction ms generalizing st with
  | nil => exact iff_of_true (DispatchesAll.nil st) (by simp)
  | cons m ms ih =>
    obtain ⟨e, b⟩ := m
    obtain ⟨hem, hems⟩ := List.forall_mem_cons.mp he
    obtain ⟨hfm, hfms⟩ := List.forall_mem_cons.mp hf
    rw [List.map_cons, List.flatten_cons, List.forall_mem_cons]
    constructor
    · intro hall
      cases hall with
      | cons hd hall =>
        have hrest := hfm.rest_eq _ hem.recv hd
        obtain ⟨_, _, _, _, -, -, -, -, hcall⟩ := hd
        rw [hrest] at hall
        refine ⟨(hfm.returns_iff (ms.map Prod.snd).flatten s st hem).mp ?_,
          (ih _ hems hfms).mp hall⟩
        rw [hcall]
        rfl
    · rintro ⟨ha, has⟩
      obtain ⟨st', hd⟩ := hfm.dispatches (ms.map Prod.snd).flatten s st hem ha
      exact .cons hd ((ih st' hems hfms).mpr has)

/-- On any stream whose header length is at most 1008 and that does not end inside a message, a call
consumes the message, or at least a header; and a stream of framed messages is dispatched message by
message exactly when the messages are answerable. -/
theorem stream_dispatched (s : Socket) (st : State) :
    (∀ e stream, (∀ buf, e.recvFails buf = false) → 8 ≤ stream.length →
      (header stream).length.toNat ≤ stream.length → (header stream).length.toNat ≤ 1008 →
        consumed (recvData s stream e st).events = max 8 (header stream).length.toNat ∧
          ∀ a, (recvData s stream e st).ret = .ok a →
            a = (1, stream.drop (max 8 (header stream).length.toNat))) ∧
      ∀ ms : List (Env × List UInt8), (∀ m ∈ ms, m.1.Works) → (∀ m ∈ ms, Framed m.2) →
        (DispatchesAll s ms (ms.map Prod.snd).flatten st ↔ ∀ m ∈ ms, Answerable m.1 m.2) :=
  ⟨fun _ _ hr hlen hwhole hmost => recvData_consumes s st hr hlen hwhole hmost,
    fun _ he hf => dispatchesAll_iff s st he hf⟩

theorem plain_works : Env.plain.Works := ⟨fun _ => rfl, fun _ => rfl⟩

/-- A hello. -/
def helloBytes : List UInt8 := [1, 0, 0, 8, 0, 0, 0, 1]

/-- A hello and an ARP request are dispatched, and the hello alone is eight bytes. -/
theorem stream_dispatched_hello :
    consumed (recvData 4 helloBytes Env.plain initial).events = 8 ∧
      DispatchesAll 4 [(Env.plain, helloBytes), (Env.plain, (request 4).stream)]
        [helloBytes, (request 4).stream].flatten initial := by
  have hall := stream_dispatched 4 initial
  constructor
  · exact (hall.1 Env.plain helloBytes (fun _ => rfl) (by decide) (by decide) (by decide)).1
  · have hiff := hall.2 [(Env.plain, helloBytes), (Env.plain, (request 4).stream)]
      (by simp [plain_works]) (by decide)
    refine hiff.mpr ?_
    simp only [List.forall_mem_cons]
    refine ⟨?_, ?_, by simp⟩
    · intro p hp
      rw [Msg.ofMem_eq_packetIn] at hp
      exact absurd hp.1 (by decide)
    · intro p hp _
      obtain ⟨-, -, rfl⟩ := Msg.ofMem_eq_packetIn.mp hp
      rw [PacketIn.ofMem_data_length]
      exact ⟨by decide, by decide⟩

/-- An ARP request that says that its frame had `totalLen` bytes. -/
def claimingPacketIn (totalLen : UInt16) : List UInt8 :=
  [1, 10] ++ be16Bytes 60 ++ [0, 0, 0, 0, 0xff, 0xff, 0xff, 0xff] ++ be16Bytes totalLen ++
    be16Bytes 1 ++ [1, 0] ++ arpFrame 1 hostB hostA

/-- An ARP request that says that its frame had 65535 bytes. -/
def overlongPacketIn : List UInt8 := claimingPacketIn 65535

/-- Nothing is dispatched after a request that is flooded with more bytes than can be read. -/
theorem not_dispatchesAll {s : Socket} {st : State} {e : Env} (he : e.Works) {b c : List UInt8}
    (hb : Framed b) (hc : Framed c) (hpacketIn : held e b 1 = ofPacketIn ∧ held e b 16 ≠ 0)
    (hne : (PacketIn.ofMem (held e b)).dst ≠ (PacketIn.ofMem (held e b)).src)
    (hclaimed : b.length + e.mapped .rawPktIn < 18 + (field16 (held e b) 12).toNat) :
    ¬DispatchesAll s [(e, b), (e, c)] [b, c].flatten st := by
  intro hall
  have hanswerable := (dispatchesAll_iff s st (by simp [he]) (by simp [hb, hc])).mp hall _
    List.mem_cons_self
  have hfits := hanswerable _ (Msg.ofMem_eq_packetIn.mpr ⟨hpacketIn.1, hpacketIn.2, rfl⟩)
    (.inr hne)
  rw [PacketIn.ofMem_data_length] at hfits
  exact absurd hfits.2 (not_le.mpr hclaimed)

/-- A hello after such a request is never dispatched, though both are framed, nor is one after a
request that says that its frame had 12000 bytes, when the process has fewer behind it. -/
theorem stream_stuck_overlong :
    (Framed overlongPacketIn ∧ Framed helloBytes ∧
      ¬DispatchesAll 4 [(Env.plain, overlongPacketIn), (Env.plain, helloBytes)]
        [overlongPacketIn, helloBytes].flatten initial) ∧
      Framed (claimingPacketIn 12000) ∧
        ¬DispatchesAll 4 [(Env.plain, claimingPacketIn 12000), (Env.plain, helloBytes)]
          [claimingPacketIn 12000, helloBytes].flatten initial := by
  have hframed : Framed overlongPacketIn ∧ Framed (claimingPacketIn 12000) ∧ Framed helloBytes := by
    decide
  refine ⟨⟨hframed.1, hframed.2.2, ?_⟩, hframed.2.1, ?_⟩
  · exact not_dispatchesAll plain_works hframed.1 hframed.2.2 (by decide) (by decide) (by decide)
  · exact not_dispatchesAll plain_works hframed.2.1 hframed.2.2 (by decide) (by decide) (by decide)

end SdnController
