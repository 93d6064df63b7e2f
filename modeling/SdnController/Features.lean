import SdnController.Framing
import SdnController.Lib.Frames

/-!
# The features reply

A switch says in its features reply which ports it has, each in a record of 48 bytes, and leaves
their number to be inferred from the length of the message. `reportFeatures` divides that length and
reads the number of each port at a computed offset. `features_parsed` says that what it reports is
what the switch encoded, and, for a message of any length, how often its loop runs and that it reads
no byte that was not received.
-/

namespace SdnController

open Memory Exec

/-! ## The layout -/

/-- `struct ofp_phy_port`. -/
structure OfpPhyPort where
  portNo : UInt16
  hwAddr : Mac
  name : Vector UInt8 16
  config : UInt32
  state : UInt32
  curr : UInt32
  advertised : UInt32
  supported : UInt32
  peer : UInt32

/-- The bytes of a port. -/
def OfpPhyPort.encode (p : OfpPhyPort) : List UInt8 :=
  be16Bytes p.portNo ++ p.hwAddr.bytes ++ p.name.toList ++ be32Bytes p.config ++
    be32Bytes p.state ++ be32Bytes p.curr ++ be32Bytes p.advertised ++ be32Bytes p.supported ++
    be32Bytes p.peer

/-- `struct ofp_switch_features`, without the type and the length in its header. -/
structure OfpSwitchFeatures where
  version : UInt8
  xid : UInt32
  datapathId : UInt64
  nBuffers : UInt32
  nTables : UInt8
  pad : Vector UInt8 3
  capabilities : UInt32
  actions : UInt32
  ports : List OfpPhyPort

/-- The bytes of a features reply. -/
def OfpSwitchFeatures.encode (f : OfpSwitchFeatures) : List UInt8 :=
  [f.version, ofptFeaturesReply] ++ be16Bytes (UInt16.ofNat (32 + 48 * f.ports.length)) ++
    be32Bytes f.xid ++ be64Bytes f.datapathId ++ be32Bytes f.nBuffers ++ [f.nTables] ++
    f.pad.toList ++ be32Bytes f.capabilities ++ be32Bytes f.actions ++
    f.ports.flatMap OfpPhyPort.encode

/-- A port takes 48 bytes. -/
theorem OfpPhyPort.length_encode (p : OfpPhyPort) : p.encode.length = portDataLen := by
  simp [OfpPhyPort.encode, Mac.bytes, portDataLen]

section Layout

variable (f : OfpSwitchFeatures)

/-- The ports are behind the first 32 bytes. -/
theorem OfpSwitchFeatures.drop_encode :
    f.encode.drop 32 = f.ports.flatMap OfpPhyPort.encode := by
  have hfixed : ([f.version, ofptFeaturesReply] ++
      be16Bytes (UInt16.ofNat (32 + 48 * f.ports.length)) ++ be32Bytes f.xid ++
      be64Bytes f.datapathId ++ be32Bytes f.nBuffers ++ [f.nTables] ++ f.pad.toList ++
      be32Bytes f.capabilities ++ be32Bytes f.actions).length = 32 := by
    simp
  exact List.drop_left' hfixed

/-- The length of a features reply. -/
theorem OfpSwitchFeatures.length_encode : f.encode.length = 32 + 48 * f.ports.length := by
  simp only [OfpSwitchFeatures.encode, List.length_append,
    Frames.length_flatMap_records OfpPhyPort.length_encode, portDataLen]
  simp

/-- The header of a features reply. -/
theorem OfpSwitchFeatures.header_encode :
    header f.encode =
      ⟨f.version, ofptFeaturesReply, UInt16.ofNat (32 + 48 * f.ports.length), f.xid⟩ := by
  have hlength : field16 (ofBytes f.encode) 2 = UInt16.ofNat (32 + 48 * f.ports.length) := by
    rw [field16_of_drop ⟨_, rfl⟩]
    exact be16_be16Bytes _
  have hxid : field32 (ofBytes f.encode) 4 = f.xid := by
    rw [field32_of_drop ⟨_, rfl⟩]
    exact be32_be32Bytes _
  unfold header OfpHeader.decode
  rw [hlength, hxid]
  rfl

/-- The datapath id is read back. -/
theorem OfpSwitchFeatures.be64_encode : be64 (ofBytes f.encode) 8 = f.datapathId := by
  have hhi : field32 (ofBytes f.encode) 8 = UInt32.ofNat (f.datapathId.toNat / 2^32) := by
    rw [field32_of_drop ⟨_, rfl⟩]
    exact be32_be32Bytes _
  have hlo : field32 (ofBytes f.encode) 12 = UInt32.ofNat (f.datapathId.toNat % 2^32) := by
    rw [field32_of_drop ⟨_, rfl⟩]
    exact be32_be32Bytes _
  exact be64_of_halves hhi hlo

/-- The number of each port is read back. -/
theorem OfpSwitchFeatures.field16_encode (k : ℕ) (hk : k < f.ports.length) :
    field16 (ofBytes f.encode) (32 + 48 * k) = f.ports[k].portNo := by
  have hdrop : f.encode.drop (32 + 48 * k) =
      f.ports[k].encode ++ (f.ports.drop (k + 1)).flatMap OfpPhyPort.encode := by
    rw [← List.drop_drop, f.drop_encode,
      show 48 * k = portDataLen * k from rfl, Frames.drop_flatMap_records OfpPhyPort.length_encode,
      List.drop_eq_getElem_cons hk, List.flatMap_cons]
  rw [field16_of_drop ⟨_, hdrop⟩]
  exact be16_be16Bytes _

/-- A features reply that there is room for is framed. -/
theorem OfpSwitchFeatures.framed_encode (h : f.encode.length ≤ 1008) : Framed f.encode := by
  have hlength := f.length_encode
  refine ⟨?_, by omega, h⟩
  rw [f.header_encode]
  exact (UInt16.toNat_ofNat' ..).trans ((Nat.mod_eq_of_lt (by omega)).trans hlength.symm)

end Layout

/-! ## The report -/

/-- The numbers of the first `n` ports, in the bytes of a message after its header. -/
def portNumbers (pm : Mem) (n : ℕ) : List UInt16 :=
  (List.range n).map fun k => field16 pm (featureLen + k * portDataLen)

/-- The reads of the numbers of the first `n` ports. -/
def portReads (n : ℕ) : List Access :=
  (List.range n).map fun k => ⟨.read, .payload, payloadLen, featureLen + k * portDataLen, 2⟩

/-- What `reportFeatures` prints. -/
structure Report where
  identifier : UInt64
  version : UInt8
  numPorts : ℤ
  ports : List UInt16
  deriving DecidableEq, Repr

/-- What an event prints of a features reply. -/
def Event.report : Event → Option Report
  | .features identifier version numPorts ports => some ⟨identifier, version, numPorts, ports⟩
  | _ => none

/-- What is printed of features replies in a trace, in order. -/
def reports (w : List Event) : List Report := w.filterMap Event.report

section Report

variable (e : Env) (st : State) (pm : Mem)

/-- The loop of `reportFeatures` reads one number after the other. -/
theorem reportPorts_eq {j n : ℕ} (h : featureLen + (j + n) * portDataLen ≤ payloadLen) :
    reportPorts ⟨.payload, payloadLen, pm, 0⟩ (j + 1) n e st =
      ⟨.ok ((List.range' j n).map fun k => field16 pm (featureLen + k * portDataLen)), st,
        (List.range' j n).map fun k =>
          .access ⟨.read, .payload, payloadLen, featureLen + k * portDataLen, 2⟩⟩ := by
  induction n generalizing j with
  | zero => rfl
  | succ n ih =>
    have hport : ntohs (load16 pm (featureLen + j * portDataLen)) =
        field16 pm (featureLen + j * portDataLen) := ntohs_load16 ..
    simp only [featureLen, portDataLen] at h ih
    have hread : Ptr.Readable ⟨.payload, payloadLen, pm, featureLen + j * portDataLen⟩ e 2 := by
      refine Ptr.readable_inside e (by decide) ?_
      simp only [featureLen, portDataLen]
      omega
    unfold reportPorts
    simp only [bind_apply, Ptr.u16, Ptr.add, Nat.add_sub_cancel, Nat.zero_add, read_apply hread,
      Outcome.andThen_ok, pure_apply, ih (show 24 + (j + 1 + n) * 48 ≤ payloadLen by omega), hport]
    simp [List.range'_succ, featureLen, portDataLen]

/-- The number of ports in a message of a given length, as it is computed. -/
theorem numPorts_eq {L : ℕ} (hL : 32 ≤ L) :
    ((L : ℤ) - ofpHdrLen - featureLen).tdiv portDataLen = ((L - 32) / 48 : ℕ) := by
  have hsub : (L : ℤ) - ofpHdrLen - featureLen = ((L - 32 : ℕ) : ℤ) := by
    simp only [ofpHdrLen, featureLen]
    omega
  rw [hsub, Int.ofNat_tdiv]
  rfl

/-- `reportFeatures` reads the datapath id and the numbers of as many ports as the message has room
for, and prints them. -/
theorem reportFeatures_eq (hm : Mem) {L : ℕ} (hlength : (field16 hm 2).toNat = L) (hL : 32 ≤ L)
    (hmost : L ≤ 1008) :
    reportFeatures hm ⟨.payload, payloadLen, pm, 0⟩ e st =
      ⟨.ok (), st, .access ⟨.read, .payload, payloadLen, 0, 8⟩ ::
        ((portReads ((L - 32) / 48)).map Event.access ++
          [.features (be64 pm 0) (hm 0) ((L - 32) / 48 : ℕ)
            (portNumbers pm ((L - 32) / 48))])⟩ := by
  have hpacketLen : (ntohs (load16 hm 2)).toNat = L := by rw [ntohs_load16, ← hlength]; rfl
  have hread : Ptr.Readable ⟨.payload, payloadLen, pm, 0⟩ e 8 :=
    Ptr.readable_inside e (by decide) (by simp [payloadLen])
  have hfit : featureLen + (0 + (L - 32) / 48) * portDataLen ≤ payloadLen := by
    simp only [featureLen, portDataLen, payloadLen]
    omega
  have hports := reportPorts_eq e st pm hfit
  rw [← List.range_eq_range'] at hports
  unfold reportFeatures
  simp only [bind_apply, hpacketLen, numPorts_eq hL, Int.toNat_natCast, read_apply hread,
    emit_apply, Outcome.andThen_ok, hports]
  simp [portReads, portNumbers]

end Report

/-! ## A call -/

/-- What answers a features reply is only sent. -/
theorem mem_setConfig {s : Socket} {e : Env} {st : State} {ev : Event}
    (hev : ev ∈ (setConfig s e st).events) : ∃ b, ev = .send s b := by
  have hsafe : (setConfig s e st).Safe (fun ev => ∃ b, ev = .send s b) (fun _ => False) := by
    unfold setConfig
    simp only [safe_getState, safe_send, safe_bumpXid, safe_bumpXid_end, Event.send.injEq, true_and,
      exists_eq', and_self, not_false_eq_true, ite_self]
  exact hsafe.1 ev hev

/-- A message of the type of a features reply is reported and then answered. -/
theorem dispatch_features (s : Socket) {packet : Ptr} (payload : Ptr) (packetLen : ℕ)
    (h : packet.mem 1 = ofFeatureReply) :
    dispatch s packet payload packetLen =
      reportFeatures packet.mem payload >>= fun _ => setConfig s := by
  unfold dispatch
  simp only [h]
  rw [if_neg (by decide), if_true]

section Call

variable (s : Socket) {e : Env} (st : State) {b : List UInt8} (rest : List UInt8)

/-- A features reply is received, reported, and answered. -/
theorem recvData_features (hr : ∀ buf, e.recvFails buf = false) (h : Framed b)
    (htype : (header b).type = ofptFeaturesReply) (hlen : 32 ≤ b.length) :
    let pm := payloadMem e (b ++ rest)
    let n := (b.length - 32) / 48
    (recvData s (b ++ rest) e st).events = recvs s (b ++ rest) ++
      (.access ⟨.read, .payload, payloadLen, 0, 8⟩ :: ((portReads n).map Event.access ++
        [.features (be64 pm 0) (header b).version n (portNumbers pm n)]) ++
          (setConfig s e st).events) := by
  intro pm n
  have hheader : OfpHeader.decode (headerMem (b ++ rest)) = header b := by
    rw [decode_headerMem, header_append h.least]
  have htype' : headerMem (b ++ rest) 1 = ofFeatureReply :=
    (congrArg OfpHeader.type hheader).trans htype
  have hversion : headerMem (b ++ rest) 0 = (header b).version := congrArg OfpHeader.version hheader
  have hlength : (field16 (headerMem (b ++ rest)) 2).toNat = b.length := by
    rw [← h.length_eq, ← hheader]
    rfl
  have hreport := reportFeatures_eq e st pm (headerMem (b ++ rest)) hlength hlen h.most
  rw [hversion] at hreport
  rw [recvData_eq s st hr (h.ne_nil rest) (h.fits rest), Outcome.andThen_ok,
    Outcome.events_andThen_ok, dispatch_features s _ _ htype', bind_apply, hreport,
    Outcome.andThen_ok]

/-- The numbers of the ports, as they are in the message. -/
theorem portNumbers_eq {hm pm : Mem} (hbuf : InBuffers b hm pm) (hlen : 32 ≤ b.length) :
    portNumbers pm ((b.length - 32) / 48) =
      (List.range ((b.length - 32) / 48)).map fun k => field16 (ofBytes b) (32 + 48 * k) := by
  refine List.map_congr_left fun k hk => ?_
  rw [List.mem_range] at hk
  -- The number of a port is in its record, and the records end before the message does.
  have h0 := hbuf.payload (24 + 48 * k) (by omega)
  have h1 := hbuf.payload (24 + 48 * k + 1) (by omega)
  unfold field16
  rw [show featureLen + k * portDataLen = 24 + 48 * k by simp only [featureLen, portDataLen]; omega,
    h0, h1]
  congr 2 <;> omega

/-- The datapath id, as it is in the message. -/
theorem be64_eq {hm pm : Mem} (hbuf : InBuffers b hm pm) (hlen : 32 ≤ b.length) :
    be64 pm 0 = be64 (ofBytes b) 8 := by
  have hb : ∀ k, k < 8 → pm k = ofBytes b (8 + k) := fun k hk => hbuf.payload k (by omega)
  unfold be64
  simp only [Nat.zero_add, hb, Nat.reduceLT, Nat.reduceAdd]

section Observe

variable (hr : ∀ buf, e.recvFails buf = false) (h : Framed b)
  (htype : (header b).type = ofptFeaturesReply) (hlen : 32 ≤ b.length)

include hr h htype hlen

/-- What is observed of a call on a features reply, when nothing is of what it receives and
sends. -/
theorem filterMap_features {α : Type} {observe : Event → Option α}
    (hrecv : ∀ s buf asked got, observe (.recv s buf asked got) = none)
    (hsend : ∀ s b, observe (.send s b) = none) :
    let pm := payloadMem e (b ++ rest)
    let n := (b.length - 32) / 48
    (recvData s (b ++ rest) e st).events.filterMap observe =
      (.access ⟨.read, .payload, payloadLen, 0, 8⟩ :: ((portReads n).map Event.access ++
        [.features (be64 pm 0) (header b).version n (portNumbers pm n)])).filterMap observe := by
  intro pm n
  have hrecvs : (recvs s (b ++ rest)).filterMap observe = [] := by
    rw [List.filterMap_eq_nil_iff]
    intro ev hev
    obtain ⟨buf, asked, got, rfl⟩ := mem_recvs hev
    exact hrecv s buf asked got
  have hconfig : (setConfig s e st).events.filterMap observe = [] := by
    rw [List.filterMap_eq_nil_iff]
    intro ev hev
    obtain ⟨b', rfl⟩ := mem_setConfig hev
    exact hsend s b'
  rw [recvData_features s st rest hr h htype hlen, List.filterMap_append, List.filterMap_append,
    hrecvs, hconfig, List.nil_append, List.append_nil]

/-- What a call prints of a features reply. -/
theorem reports_features :
    reports (recvData s (b ++ rest) e st).events =
      [⟨be64 (ofBytes b) 8, (header b).version, ((b.length - 32) / 48 : ℕ),
        (List.range ((b.length - 32) / 48)).map fun k => field16 (ofBytes b) (32 + 48 * k)⟩] := by
  have hbuf : InBuffers b (headerMem (b ++ rest)) (payloadMem e (b ++ rest)) := h.inBuffers rest
  have hreads : ∀ n, ((portReads n).map Event.access).filterMap Event.report = [] := by
    intro n
    rw [List.filterMap_eq_nil_iff]
    simp [Event.report]
  unfold reports
  rw [filterMap_features s st rest hr h htype hlen (fun _ _ _ _ => rfl) (fun _ _ => rfl),
    portNumbers_eq hbuf hlen, be64_eq hbuf hlen, List.filterMap_cons, List.filterMap_append, hreads]
  rfl

/-- What a call reads of a features reply. -/
theorem accesses_features :
    accesses (recvData s (b ++ rest) e st).events =
      ⟨.read, .payload, payloadLen, 0, 8⟩ :: portReads ((b.length - 32) / 48) := by
  unfold accesses
  rw [filterMap_features s st rest hr h htype hlen (fun _ _ _ _ => rfl) (fun _ _ => rfl),
    List.filterMap_cons, List.filterMap_append, List.filterMap_map]
  simp

/-- What a call receives of a features reply after its header. -/
theorem receivedInto_features :
    receivedInto .payload (recvData s (b ++ rest) e st).events = b.length - 8 := by
  rw [recvData_features s st rest hr h htype hlen, receivedInto_append .payload]
  · have hpos : 0 < payloadAsked (b ++ rest) := by
      rw [h.payloadAsked_eq]
      omega
    unfold recvs
    rw [if_pos hpos, h.payload_eq, List.length_drop]
    exact Nat.zero_add _
  · -- Nothing is received after the payload.
    intro ev hev
    simp only [List.cons_append, List.append_assoc, List.mem_cons, List.mem_append, List.mem_map,
      List.not_mem_nil, false_or] at hev
    rcases hev with rfl | ⟨a, -, rfl⟩ | rfl | hev
    · exact False.elim
    · exact False.elim
    · trivial
    · obtain ⟨b', rfl⟩ := mem_setConfig hev
      trivial

end Observe

end Call

/-- A features reply is reported as it was encoded, with all of its ports in order; and a message of
that type and of any length that there is room for is read at its datapath id and at the number of
each port that it has room for, and nowhere past the bytes received. -/
theorem features_parsed (s : Socket) {e : Env} (st : State) (hr : ∀ buf, e.recvFails buf = false)
    (rest : List UInt8) :
    (∀ f : OfpSwitchFeatures, f.encode.length = 32 + 48 * f.ports.length ∧
      (f.encode.length ≤ 1008 →
        reports (recvData s (f.encode ++ rest) e st).events =
          [⟨f.datapathId, f.version, f.ports.length, f.ports.map OfpPhyPort.portNo⟩])) ∧
      ∀ b, Framed b → (header b).type = ofptFeaturesReply → 32 ≤ b.length →
        let w := (recvData s (b ++ rest) e st).events
        accesses w = ⟨.read, .payload, payloadLen, 0, 8⟩ :: portReads ((b.length - 32) / 48) ∧
          receivedInto .payload w = b.length - 8 ∧
          ∀ a ∈ accesses w, 0 ≤ a.len ∧ a.off + a.len ≤ (b.length : ℤ) - 8 := by
  constructor
  · intro f
    have hlength := f.length_encode
    refine ⟨hlength, fun hmost => ?_⟩
    have hn : (f.encode.length - 32) / 48 = f.ports.length := by omega
    have hports : (List.range f.ports.length).map (fun k => field16 (ofBytes f.encode)
        (32 + 48 * k)) = f.ports.map OfpPhyPort.portNo := by
      refine List.ext_getElem (by simp) fun k hk _ => ?_
      rw [List.getElem_map, List.getElem_map, List.getElem_range]
      exact f.field16_encode k (by simpa using hk)
    have htype : (header f.encode).type = ofptFeaturesReply := by rw [f.header_encode]
    have hversion : (header f.encode).version = f.version := by rw [f.header_encode]
    rw [reports_features s st rest hr (f.framed_encode hmost) htype (by omega), hn, hports,
      f.be64_encode, hversion]
  · intro b h htype hlen w
    have haccesses := accesses_features s st rest hr h htype hlen
    refine ⟨haccesses, receivedInto_features s st rest hr h htype hlen, fun a ha => ?_⟩
    rw [haccesses, List.mem_cons] at ha
    unfold portReads at ha
    rcases ha with rfl | ha
    · simp only
      omega
    · -- The last record that is counted ends with the message or before it.
      obtain ⟨k, hk, rfl⟩ := List.mem_map.mp ha
      rw [List.mem_range] at hk
      simp only [featureLen, portDataLen]
      omega

/-- A port of the switch, with its number. -/
def plainPort (portNo : UInt16) : OfpPhyPort :=
  ⟨portNo, ⟨2, 0, 0, 0, 1, 1⟩, Vector.replicate 16 0, 0, 0, 0, 0, 0, 0⟩

/-- The features reply of a switch with three ports is reported with them, and one that is cut in
the second port is read in the first one only. -/
theorem features_parsed_switch :
    let f : OfpSwitchFeatures :=
      ⟨1, 2, 0x0000020000000001, 256, 254, Vector.replicate 3 0, 0xc7, 0xfff,
        [plainPort 1, plainPort 2, plainPort 0xfffe]⟩
    let cut : List UInt8 := [1, 6, 0, 120] ++ (f.encode.take 120).drop 4
    reports (recvData 4 (f.encode ++ helloBytes) Env.plain initial).events =
        [⟨0x0000020000000001, 1, 3, [1, 2, 0xfffe]⟩] ∧
      accesses (recvData 4 (cut ++ helloBytes) Env.plain initial).events =
        [⟨.read, .payload, payloadLen, 0, 8⟩, ⟨.read, .payload, payloadLen, 24, 2⟩] := by
  intro f cut
  obtain ⟨hparsed, hread⟩ := features_parsed 4 initial plain_works.recv helloBytes
  refine ⟨(hparsed f).2 (by rw [f.length_encode]; decide), ?_⟩
  exact (hread cut (by decide) (by decide) (by decide)).1.trans (by decide)

end SdnController
