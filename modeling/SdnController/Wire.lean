import SdnController.Controller
import SdnController.LearningSwitch

/-!
# The messages on the wire

The bytes of each reply (`Reply.encode`), and the two facts that connect them: the buffers that the
controller's functions fill are these bytes (`headerBuffer`, `flowmodBuffer`, `packetOutBuffer`, and
the others), and the decoders of `OpenFlow.lean` read the reply back out of them
(`decode_flowMod`, `decode_packetOut`).

A buffer of fixed size is compared byte by byte by evaluation, once its words are in network order.
The packet-out is the exception, since it is as long as its frame: its first 24 bytes are compared
like the others, and the rest is the frame.
-/

namespace SdnController

open Memory Exec

/-- A header of version 1. -/
def headerBytes (type : UInt8) (length : UInt16) (xid : UInt32) : List UInt8 :=
  [1, type] ++ be16Bytes length ++ be32Bytes xid

/-- The bytes of a reply with a transaction id. An echo reply carries the request's instead. -/
def Reply.encode (xid : UInt32) : Reply → List UInt8
  | .hello => headerBytes 0 8 xid
  | .featuresRequest => headerBytes 5 8 xid
  | .setConfig => headerBytes 9 12 xid ++ [0, 0, 0, 0x80]
  | .barrierRequest => headerBytes 18 8 xid
  | .echoReply requestXid => headerBytes 3 8 requestXid
  | .flowMod dlSrc dlDst port =>
    headerBytes 14 80 xid ++ [0x00, 0x10, 0x00, 0x13, 0, 0] ++ dlSrc.bytes ++ dlDst.bytes ++
      List.replicate 36 0 ++ [0x80, 0x00, 0xff, 0xff, 0xff, 0xff, 0xff, 0xff, 0, 0] ++
      [0, 0, 0, 8] ++ be16Bytes port ++ [0, 0]
  | .packetOut inPort outPort data =>
    headerBytes 13 (UInt16.ofNat (pktOutHdrLen + data.length)) xid ++ [0xff, 0xff, 0xff, 0xff] ++
      be16Bytes inPort ++ [0, 8, 0, 0, 0, 8] ++ be16Bytes outPort ++ [0, 0] ++ data

/-- The replies as messages on a socket, with consecutive transaction ids. -/
def label (s : Socket) (xid : UInt32) : List Reply → List (Socket × List UInt8)
  | [] => []
  | r :: rs => (s, r.encode xid) :: label s (xid + 1) rs

/-! ## The controller's buffers -/

/-- The buffer of a message that is a header of eight bytes. -/
theorem headerBuffer (type : UInt8) (xid : UInt32) :
    bytesAt (memcpy zeros 0 (ofpHeaderBytes 1 type (htons 8) (htonl xid))) 0 ofpHdrLen =
      headerBytes type 8 xid := by
  unfold ofpHeaderBytes headerBytes
  rw [store32_htonl, store16_htons]
  rfl

/-- `rPacket` of `sendEchoReply`: the xid is copied as it was received. -/
theorem echoBuffer (m : Mem) :
    bytesAt (memcpy zeros 0 (ofpHeaderBytes 1 3 (htons 8) (load32 m 4))) 0 ofpHdrLen =
      headerBytes 3 8 (field32 m 4) := by
  unfold ofpHeaderBytes headerBytes field32
  rw [store32_load32, store16_htons, be32Bytes_be32]
  rfl

/-- `cPacket` of `setConfig`. -/
theorem configBuffer (xid : UInt32) :
    bytesAt (memcpy (memcpy (memcpy zeros 0 (ofpHeaderBytes 1 9 (htons 12) (htonl xid))) 8
      (store16 (htons 0x0000))) 10 (store16 (htons 0x0080))) 0 12 = Reply.setConfig.encode xid := by
  unfold ofpHeaderBytes Reply.encode headerBytes
  simp only [store32_htonl, store16_htons]
  rfl

section Flowmod

variable (xid : UInt32) (dlSrc dlDst : Mac)

/-- The flow-mod as `establishFlows` and `sendLoopFlow` first send it: the port is copied as it was
received. -/
theorem flowmodBuffer (m : Mem) :
    bytesAt (rawFlowmod xid dlSrc dlDst (load16 m 14)) 0 ofpFlowmodLen =
      (Reply.flowMod dlSrc dlDst (field16 m 14)).encode xid := by
  unfold rawFlowmod ofpHeaderBytes Reply.encode headerBytes field16
  simp only [store32_htonl, store16_htons, store16_load16, be16Bytes_be16]
  rfl

/-- A flow-mod patched into another one, as `establishFlows` patches its first into its second. -/
def patchFlowmod (raw : Mem) (port : UInt16) : Mem :=
  memcpy (memcpy (memcpy (memcpy raw 4 (store32 (htonl xid))) 14 dlSrc.bytes) 20 dlDst.bytes) 76
    (store16 (htons port))

/-- Nothing of the first flow-mod is left in the second but what the two share. -/
theorem patchedBuffer (xid' : UInt32) (a b : Mac) (p port : UInt16) :
    bytesAt (patchFlowmod xid dlSrc dlDst (rawFlowmod xid' a b p) port) 0 ofpFlowmodLen =
      (Reply.flowMod dlSrc dlDst port).encode xid := by
  unfold patchFlowmod rawFlowmod ofpHeaderBytes Reply.encode headerBytes
  simp only [store32_htonl, store16_htons]
  rfl

end Flowmod

/-- The fixed part of `raw_pkt_out`, up to the action. -/
def rawPacketOut (xid : UInt32) (pktOutLen inPort outputPort : UInt16) : Mem :=
  let raw := memcpy zeros 0 (ofpHeaderBytes 1 13 (htons pktOutLen) (htonl xid))
  let raw := memcpy raw 8 (store32 (htonl 0xffffffff))
  let raw := memcpy raw 12 (store16 inPort)
  let raw := memcpy raw 14 (store16 (htons 8))
  let raw := memcpy raw 16 (store16 (htons 0x0000))
  let raw := memcpy raw 18 (store16 (htons 8))
  memcpy raw 20 (store16 outputPort)

/-- `raw_pkt_out` of `makeSendPacketOut`, when its computed length has not wrapped. -/
theorem packetOutBuffer (xid : UInt32) (m : Mem) (outPort : UInt16) (data : List UInt8) :
    bytesAt (memcpy (rawPacketOut xid (UInt16.ofNat (pktOutHdrLen + data.length)) (load16 m 14)
      (htons outPort)) 24 data) 0 (24 + data.length) =
      (Reply.packetOut (field16 m 14) outPort data).encode xid := by
  rw [bytesAt_append, Nat.zero_add, bytesAt_memcpy_self]
  -- The frame is copied behind the first 24 bytes and does not touch them.
  have hfixed : bytesAt (memcpy (rawPacketOut xid (UInt16.ofNat (pktOutHdrLen + data.length))
      (load16 m 14) (htons outPort)) 24 data) 0 24 =
      bytesAt (rawPacketOut xid (UInt16.ofNat (pktOutHdrLen + data.length)) (load16 m 14)
        (htons outPort)) 0 24 :=
    bytesAt_congr fun k hk => memcpy_of_lt _ _ (by omega)
  rw [hfixed]
  unfold rawPacketOut ofpHeaderBytes Reply.encode headerBytes field16
  simp only [store32_htonl, store16_htons, store16_load16, be16Bytes_be16]
  rfl

/-! ## Reading the replies back -/

/-- A byte of a message, counted from an offset. -/
theorem ofBytes_add (b : List UInt8) (off k : ℕ) :
    ofBytes b (off + k) = ofBytes (b.drop off) k := by
  unfold ofBytes
  rw [List.getD_eq_getElem?_getD, List.getD_eq_getElem?_getD, List.getElem?_drop]

/-- A byte, from the message after what comes before it. -/
theorem byte_of_drop {b : List UInt8} {off : ℕ} {b₀ : UInt8} (h : ∃ rest, b.drop off = b₀ :: rest) :
    ofBytes b off = b₀ := by
  obtain ⟨rest, h⟩ := h
  rw [← Nat.add_zero off, ofBytes_add, h]
  rfl

/-- A 16-bit field, from the message after what comes before it. -/
theorem field16_of_drop {b : List UInt8} {off : ℕ} {b₀ b₁ : UInt8}
    (h : ∃ rest, b.drop off = b₀ :: b₁ :: rest) : field16 (ofBytes b) off = be16 b₀ b₁ := by
  obtain ⟨rest, h⟩ := h
  rw [field16, byte_of_drop ⟨_, h⟩, ofBytes_add, h]
  rfl

/-- A 32-bit field, from the message after what comes before it. -/
theorem field32_of_drop {b : List UInt8} {off : ℕ} {b₀ b₁ b₂ b₃ : UInt8}
    (h : ∃ rest, b.drop off = b₀ :: b₁ :: b₂ :: b₃ :: rest) :
    field32 (ofBytes b) off = be32 b₀ b₁ b₂ b₃ := by
  obtain ⟨rest, h⟩ := h
  rw [field32, byte_of_drop ⟨_, h⟩, ofBytes_add, ofBytes_add, ofBytes_add, h]
  rfl

/-- An address, from the message after what comes before it. -/
theorem mac_of_drop {b : List UInt8} {off : ℕ} {a : Mac}
    (h : ∃ rest, b.drop off = a.bytes ++ rest) : Mac.at (ofBytes b) off = a := by
  obtain ⟨rest, h⟩ := h
  -- The first byte is at the offset itself, and the others are counted from it.
  have h0 : ofBytes b off = a.b0 := byte_of_drop ⟨_, h⟩
  simp only [Mac.at, h0, ofBytes_add, h]
  rfl

/-- The header of a message that starts with a header. -/
theorem header_of_headerBytes {type : UInt8} {length : UInt16} {xid : UInt32} {b : List UInt8}
    (h : headerBytes type length xid <+: b) : header b = ⟨1, type, length, xid⟩ := by
  obtain ⟨rest, rfl⟩ := h
  have hlen : field16 (ofBytes (headerBytes type length xid ++ rest)) 2 = length :=
    be16_be16Bytes length
  have hxid : field32 (ofBytes (headerBytes type length xid ++ rest)) 4 = xid :=
    be32_be32Bytes xid
  unfold header OfpHeader.decode
  rw [hlen, hxid]
  rfl

/-- The type of a reply's message. -/
def Reply.type : Reply → UInt8
  | .hello => 0
  | .featuresRequest => 5
  | .setConfig => 9
  | .barrierRequest => 18
  | .echoReply _ => ofptEchoReply
  | .flowMod .. => ofptFlowMod
  | .packetOut .. => ofptPacketOut

/-- A flow-mod is 80 bytes long. -/
theorem length_flowMod (xid : UInt32) (dlSrc dlDst : Mac) (port : UInt16) :
    ((Reply.flowMod dlSrc dlDst port).encode xid).length = 80 := rfl

/-- A packet-out is as long as its frame, and 24 bytes more. -/
theorem length_packetOut (xid : UInt32) (inPort outPort : UInt16) (data : List UInt8) :
    ((Reply.packetOut inPort outPort data).encode xid).length = pktOutHdrLen + data.length := by
  simp [Reply.encode, headerBytes, pktOutHdrLen]
  omega

/-- Every reply starts with a header of its type and its length, which carries the xid that it was
sent with, except in an echo reply. -/
theorem encode_headerBytes (r : Reply) (xid : UInt32) :
    ∃ xid', headerBytes r.type (UInt16.ofNat (r.encode xid).length) xid' <+: r.encode xid ∧
      (r.type ≠ ofptEchoReply → xid' = xid) := by
  cases r with
  | echoReply requestXid => exact ⟨requestXid, List.prefix_rfl, fun h => absurd rfl h⟩
  | setConfig => exact ⟨xid, List.prefix_append _ _, fun _ => rfl⟩
  | flowMod dlSrc dlDst port =>
    refine ⟨xid, ?_, fun _ => rfl⟩
    rw [length_flowMod]
    simp only [Reply.encode, List.append_assoc]
    exact List.prefix_append _ _
  | packetOut inPort outPort data =>
    refine ⟨xid, ?_, fun _ => rfl⟩
    rw [length_packetOut]
    simp only [Reply.encode, List.append_assoc]
    exact List.prefix_append _ _
  | _ => exact ⟨xid, List.prefix_rfl, fun _ => rfl⟩

/-- A reply has at least the bytes of its header. -/
theorem eight_le_length (r : Reply) (xid : UInt32) : 8 ≤ (r.encode xid).length := by
  obtain ⟨xid', h, -⟩ := encode_headerBytes r xid
  exact h.length_le

/-- The header of a reply. -/
theorem header_encode (r : Reply) (xid : UInt32) :
    ∃ xid', header (r.encode xid) = ⟨1, r.type, UInt16.ofNat (r.encode xid).length, xid'⟩ ∧
      (r.type ≠ ofptEchoReply → xid' = xid) := by
  obtain ⟨xid', h, hx⟩ := encode_headerBytes r xid
  exact ⟨xid', header_of_headerBytes h, hx⟩

/-- The type in the header of a reply. -/
theorem header_type (r : Reply) (xid : UInt32) : (header (r.encode xid)).type = r.type := by
  obtain ⟨xid', h, -⟩ := header_encode r xid
  rw [h]

/-- The xid in the header of a reply. -/
theorem header_xid {r : Reply} (xid : UInt32) (hr : r.type ≠ ofptEchoReply) :
    (header (r.encode xid)).xid = xid := by
  obtain ⟨xid', h, hx⟩ := header_encode r xid
  rw [h]
  exact hx hr

/-- One action in eight bytes. -/
theorem decodeActions_one {m : Mem} {off : ℕ} (fuel : ℕ) (hlen : field16 m (off + 2) = 8) :
    decodeActions m (fuel + 1) off 8 =
      some [if field16 m off = 0 then .output (field16 m (off + 4)) (field16 m (off + 6))
        else .other (field16 m off) (bytesAt m (off + 4) 4)] := by
  have h8 : (field16 m (off + 2)).toNat = 8 := by rw [hlen]; rfl
  have hend : decodeActions m fuel (off + 8) 0 = some [] := by cases fuel <;> rfl
  simp [decodeActions, h8, hend]

/-- One output action in eight bytes. -/
theorem decodeActions_output {m : Mem} {off : ℕ} (fuel : ℕ) (htype : field16 m off = 0)
    (hlen : field16 m (off + 2) = 8) :
    decodeActions m (fuel + 1) off 8 =
      some [.output (field16 m (off + 4)) (field16 m (off + 6))] := by
  rw [decodeActions_one fuel hlen, if_pos htype]

/-- The match of the controller's flows: an exact pair of addresses, and the wildcards that leave
only these. -/
def pairMatch (dlSrc dlDst : Mac) : OfpMatch :=
  ⟨0x00100013, 0, dlSrc, dlDst, 0, 0, 0, 0, 0, 0, 0, 0, 0⟩

/-- The bytes of a flow-mod for a pair of addresses, with one action of eight bytes. The command
field is zero. -/
def flowmodBytes (xid : UInt32) (dlSrc dlDst : Mac) (actionType port : UInt16) : List UInt8 :=
  headerBytes 14 80 xid ++ [0x00, 0x10, 0x00, 0x13, 0, 0] ++ dlSrc.bytes ++ dlDst.bytes ++
    List.replicate 36 0 ++ [0x80, 0x00, 0xff, 0xff, 0xff, 0xff, 0xff, 0xff, 0, 0] ++
    be16Bytes actionType ++ [0, 8] ++ be16Bytes port ++ [0, 0]

section FlowmodFields

variable (xid : UInt32) (dlSrc dlDst : Mac) (actionType port : UInt16)

/-- The match of the flow-mod, decoded. -/
theorem match_flowmodBytes :
    OfpMatch.decode (ofBytes (flowmodBytes xid dlSrc dlDst actionType port)) 8 =
      pairMatch dlSrc dlDst := by
  generalize hb : flowmodBytes xid dlSrc dlDst actionType port = b
  -- Written as a list of single bytes, the message is read by counting them.
  simp only [flowmodBytes, headerBytes, be16Bytes, be32Bytes, Mac.bytes, List.replicate,
    List.cons_append, List.nil_append] at hb
  have hwild : field32 (ofBytes b) 8 = be32 0x00 0x10 0x00 0x13 := by
    rw [← hb]; exact field32_of_drop ⟨_, rfl⟩
  have hmacs : Mac.at (ofBytes b) 14 = dlSrc ∧ Mac.at (ofBytes b) 20 = dlDst := by
    rw [← hb]
    exact ⟨mac_of_drop ⟨_, rfl⟩, mac_of_drop ⟨_, rfl⟩⟩
  have h16 : ∀ off ∈ [12, 26, 30, 44, 46], ∃ rest, b.drop off = 0 :: 0 :: rest := by
    rw [← hb]
    simp only [List.forall_mem_cons]
    exact ⟨⟨_, rfl⟩, ⟨_, rfl⟩, ⟨_, rfl⟩, ⟨_, rfl⟩, ⟨_, rfl⟩, by simp⟩
  replace h16 := fun off hoff => field16_of_drop (h16 off hoff)
  have h32 : ∀ off ∈ [36, 40], ∃ rest, b.drop off = 0 :: 0 :: 0 :: 0 :: rest := by
    rw [← hb]
    simp only [List.forall_mem_cons]
    exact ⟨⟨_, rfl⟩, ⟨_, rfl⟩, by simp⟩
  replace h32 := fun off hoff => field32_of_drop (h32 off hoff)
  have h8 : ofBytes b 28 = 0 ∧ ofBytes b 32 = 0 ∧ ofBytes b 33 = 0 := by
    rw [← hb]
    exact ⟨byte_of_drop ⟨_, rfl⟩, byte_of_drop ⟨_, rfl⟩, byte_of_drop ⟨_, rfl⟩⟩
  unfold OfpMatch.decode pairMatch
  rw [hwild, hmacs.1, hmacs.2, h16 12 (by simp), h16 26 (by simp), h16 30 (by simp),
    h16 44 (by simp), h16 46 (by simp), h32 36 (by simp), h32 40 (by simp), h8.1, h8.2.1, h8.2.2]
  rfl

/-- The action of the flow-mod, decoded. -/
theorem actions_flowmodBytes :
    decodeActions (ofBytes (flowmodBytes xid dlSrc dlDst actionType port)) 10 72 8 =
      some [if actionType = 0 then .output port 0
        else .other actionType (be16Bytes port ++ [0, 0])] := by
  generalize hb : flowmodBytes xid dlSrc dlDst actionType port = b
  simp only [flowmodBytes, headerBytes, be16Bytes, be32Bytes, Mac.bytes, List.replicate,
    List.cons_append, List.nil_append] at hb
  have htype : field16 (ofBytes b) 72 = actionType := by
    rw [field16_of_drop ⟨_, by rw [← hb]; rfl⟩]
    exact be16_be16Bytes actionType
  have hlen : field16 (ofBytes b) 74 = be16 0 8 := by
    rw [← hb]; exact field16_of_drop ⟨_, rfl⟩
  have hport : field16 (ofBytes b) 76 = port := by
    rw [field16_of_drop ⟨_, by rw [← hb]; rfl⟩]
    exact be16_be16Bytes port
  have hmax : field16 (ofBytes b) 78 = be16 0 0 := by
    rw [← hb]; exact field16_of_drop ⟨_, rfl⟩
  have hbody : bytesAt (ofBytes b) 76 4 = be16Bytes port ++ [0, 0] := by rw [← hb]; rfl
  rw [decodeActions_one 9 hlen, htype, hport, hbody, hmax]
  rfl

/-- A flow-mod with any action, decoded. -/
theorem decode_flowmodBytes :
    FlowMod.decode (flowmodBytes xid dlSrc dlDst actionType port) =
      some ⟨xid, pairMatch dlSrc dlDst, 0, ofpfcAdd, 0, 0, 0x8000, 0xffffffff, 0xffff, 0,
        [if actionType = 0 then .output port 0
          else .other actionType (be16Bytes port ++ [0, 0])]⟩ := by
  have hmatch := match_flowmodBytes xid dlSrc dlDst actionType port
  have hact := actions_flowmodBytes xid dlSrc dlDst actionType port
  have hhdr : header (flowmodBytes xid dlSrc dlDst actionType port) = ⟨1, 14, 80, xid⟩ := by
    apply header_of_headerBytes
    simp only [flowmodBytes, List.append_assoc]
    exact List.prefix_append _ _
  generalize hb : flowmodBytes xid dlSrc dlDst actionType port = b at hmatch hact hhdr ⊢
  simp only [flowmodBytes, headerBytes, be16Bytes, be32Bytes, Mac.bytes, List.replicate,
    List.cons_append, List.nil_append] at hb
  have hlen : b.length = 80 := by rw [← hb]; rfl
  have hcookie : be64 (ofBytes b) 48 = 0 := by
    have h32 : field32 (ofBytes b) 48 = be32 0 0 0 0 ∧ field32 (ofBytes b) 52 = be32 0 0 0 0 := by
      rw [← hb]
      exact ⟨field32_of_drop ⟨_, rfl⟩, field32_of_drop ⟨_, rfl⟩⟩
    unfold be64
    rw [← field32, ← field32, h32.1, h32.2]
    rfl
  -- The fields with a value of their own, and those that are zero.
  have hprio : field16 (ofBytes b) 62 = be16 0x80 0 := by
    rw [← hb]; exact field16_of_drop ⟨_, rfl⟩
  have hbuf : field32 (ofBytes b) 64 = be32 0xff 0xff 0xff 0xff := by
    rw [← hb]; exact field32_of_drop ⟨_, rfl⟩
  have hnone : field16 (ofBytes b) 68 = be16 0xff 0xff := by
    rw [← hb]; exact field16_of_drop ⟨_, rfl⟩
  have h16 : ∀ off ∈ [56, 58, 60, 70], ∃ rest, b.drop off = 0 :: 0 :: rest := by
    rw [← hb]
    simp only [List.forall_mem_cons]
    exact ⟨⟨_, rfl⟩, ⟨_, rfl⟩, ⟨_, rfl⟩, ⟨_, rfl⟩, by simp⟩
  replace h16 := fun off hoff => field16_of_drop (h16 off hoff)
  unfold FlowMod.decode
  simp only [hhdr, hlen, hact, hmatch, hcookie, Option.map_some]
  rw [if_pos (by decide), h16 56 (by simp), h16 58 (by simp), h16 60 (by simp), h16 70 (by simp),
    hprio, hbuf, hnone]
  rfl

end FlowmodFields

/-- A flow-mod, decoded. -/
theorem decode_flowMod (xid : UInt32) (dlSrc dlDst : Mac) (port : UInt16) :
    FlowMod.decode ((Reply.flowMod dlSrc dlDst port).encode xid) =
      some ⟨xid, pairMatch dlSrc dlDst, 0, ofpfcAdd, 0, 0, 0x8000, 0xffffffff, 0xffff, 0,
        [.output port 0]⟩ :=
  decode_flowmodBytes xid dlSrc dlDst 0 port

/-- A reply of another type is not a flow-mod. -/
theorem decode_flowMod_none {r : Reply} (xid : UInt32) (h : r.type ≠ ofptFlowMod) :
    FlowMod.decode (r.encode xid) = none := by
  unfold FlowMod.decode
  rw [if_neg]
  rintro ⟨-, ht, -⟩
  rw [header_type] at ht
  exact h ht

/-- The lengths in a packet-out of its actions, and in its one action. -/
theorem actionLengths_packetOut (xid : UInt32) (inPort outPort : UInt16) (data : List UInt8) :
    field16 (ofBytes ((Reply.packetOut inPort outPort data).encode xid)) 14 = be16 0 8 ∧
      field16 (ofBytes ((Reply.packetOut inPort outPort data).encode xid)) 18 = be16 0 8 :=
  ⟨field16_of_drop ⟨_, rfl⟩, field16_of_drop ⟨_, rfl⟩⟩

/-- A packet-out, decoded, when its frame fits the length field. -/
theorem decode_packetOut (xid : UInt32) (inPort outPort : UInt16) {data : List UInt8}
    (h : pktOutHdrLen + data.length < 2^16) :
    PacketOut.decode ((Reply.packetOut inPort outPort data).encode xid) =
      some ⟨xid, 0xffffffff, inPort, [.output outPort 0], data⟩ := by
  have hlen : ((Reply.packetOut inPort outPort data).encode xid).length = 24 + data.length :=
    length_packetOut ..
  obtain ⟨halen, hlen'⟩ := actionLengths_packetOut xid inPort outPort data
  generalize hb : (Reply.packetOut inPort outPort data).encode xid = b at hlen halen hlen' ⊢
  have hhdr : header b = ⟨1, 13, UInt16.ofNat (pktOutHdrLen + data.length), xid⟩ := by
    apply header_of_headerBytes
    rw [← hb]
    simp only [Reply.encode, List.append_assoc]
    exact List.prefix_append _ _
  have hl : (UInt16.ofNat (pktOutHdrLen + data.length)).toNat = 24 + data.length := by
    rw [UInt16.toNat_ofNat', Nat.mod_eq_of_lt h]
    rfl
  have hin : field16 (ofBytes b) 12 = inPort := by
    rw [field16_of_drop ⟨_, by rw [← hb]; rfl⟩]
    exact be16_be16Bytes inPort
  have hout : field16 (ofBytes b) 20 = outPort := by
    rw [field16_of_drop ⟨_, by rw [← hb]; rfl⟩]
    exact be16_be16Bytes outPort
  -- The fields with a value of their own.
  have htype : field16 (ofBytes b) 16 = be16 0 0 := by
    rw [← hb]; exact field16_of_drop ⟨_, rfl⟩
  have hmax : field16 (ofBytes b) 22 = be16 0 0 := by
    rw [← hb]; exact field16_of_drop ⟨_, rfl⟩
  have hbuf : field32 (ofBytes b) 8 = be32 0xff 0xff 0xff 0xff := by
    rw [← hb]; exact field32_of_drop ⟨_, rfl⟩
  have hact : decodeActions (ofBytes b) 1 16 8 = some [.output outPort 0] := by
    rw [decodeActions_output 0 htype hlen', hout, hmax]
    rfl
  have hdata : b.drop 24 = data := by rw [← hb]; rfl
  have h8 : (be16 0 8).toNat = 8 := rfl
  unfold PacketOut.decode
  simp only [hhdr, hlen, hl, halen, h8, hin, hact, hdata, hbuf, Option.map_some]
  rw [if_pos ⟨trivial, rfl, trivial, by omega⟩]
  rfl

/-- A reply of another type is not a packet-out. -/
theorem decode_packetOut_none {r : Reply} (xid : UInt32) (h : r.type ≠ ofptPacketOut) :
    PacketOut.decode (r.encode xid) = none := by
  unfold PacketOut.decode
  rw [if_neg]
  rintro ⟨-, ht, -⟩
  rw [header_type] at ht
  exact h ht

/-- A flow-mod is not a packet-out. -/
theorem decode_packetOut_flowMod (xid : UInt32) (dlSrc dlDst : Mac) (port : UInt16) :
    PacketOut.decode ((Reply.flowMod dlSrc dlDst port).encode xid) = none :=
  decode_packetOut_none xid (show ofptFlowMod ≠ ofptPacketOut by decide)

end SdnController
