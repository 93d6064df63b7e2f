import SdnController.Lib.Memory

/-!
# The OpenFlow 1.0 messages

The layouts of `openflow.h` that the controller reads and writes, as decoders by field offset in
network byte order: the header that every message starts with, the packet-in, and the flow-mod and
the packet-out with their actions. The encoders are the controller's own and are in
`Controller.lean`; nothing here is taken from them.

The second half is the switch that receives the flow-mods: a table of flow entries, to which an
`OFPFC_ADD` adds an entry in place of one with the identical match and priority, and which the other
commands change or delete from, and a lookup that compares a frame's header with the fields that an
entry's wildcards leave.
-/

namespace SdnController

open Memory

/-- An Ethernet address: six bytes. -/
structure Mac where
  b0 : UInt8
  b1 : UInt8
  b2 : UInt8
  b3 : UInt8
  b4 : UInt8
  b5 : UInt8
  deriving DecidableEq, Repr

/-- The bytes of an address, in the order in which they are sent. -/
def Mac.bytes (a : Mac) : List UInt8 := [a.b0, a.b1, a.b2, a.b3, a.b4, a.b5]

/-- The address that memory holds at an offset. -/
def Mac.at (m : Mem) (off : ℕ) : Mac :=
  ⟨m off, m (off + 1), m (off + 2), m (off + 3), m (off + 4), m (off + 5)⟩

/-! ## Message types, ports, and lengths -/

/-- `OFPT_HELLO`. -/
def ofptHello : UInt8 := 0
/-- `OFPT_ECHO_REQUEST`. -/
def ofptEchoRequest : UInt8 := 2
/-- `OFPT_ECHO_REPLY`. -/
def ofptEchoReply : UInt8 := 3
/-- `OFPT_FEATURES_REQUEST`. -/
def ofptFeaturesRequest : UInt8 := 5
/-- `OFPT_FEATURES_REPLY`. -/
def ofptFeaturesReply : UInt8 := 6
/-- `OFPT_SET_CONFIG`. -/
def ofptSetConfig : UInt8 := 9
/-- `OFPT_PACKET_IN`. -/
def ofptPacketIn : UInt8 := 10
/-- `OFPT_PACKET_OUT`. -/
def ofptPacketOut : UInt8 := 13
/-- `OFPT_FLOW_MOD`. -/
def ofptFlowMod : UInt8 := 14
/-- `OFPT_BARRIER_REQUEST`. -/
def ofptBarrierRequest : UInt8 := 18

/-- `OFPP_TABLE`: perform the actions in the flow table. -/
def ofppTable : UInt16 := 0xfff9
/-- `OFPP_FLOOD`: all physical ports except the input port. -/
def ofppFlood : UInt16 := 0xfffb

/-- `OFPP_NONE`: no port. -/
def ofppNone : UInt16 := 0xffff

/-- `OFPFC_ADD`, the command of a new flow. -/
def ofpfcAdd : UInt16 := 0
/-- `OFPFC_MODIFY`: modify all matching flows. -/
def ofpfcModify : UInt16 := 1
/-- `OFPFC_MODIFY_STRICT`: modify the entry with the same match and priority. -/
def ofpfcModifyStrict : UInt16 := 2
/-- `OFPFC_DELETE`: delete all matching flows. -/
def ofpfcDelete : UInt16 := 3
/-- `OFPFC_DELETE_STRICT`: delete the entry with the same match and priority. -/
def ofpfcDeleteStrict : UInt16 := 4

/-! ## Decoders -/

/-- The 16-bit field at an offset. -/
def field16 (m : Mem) (off : ℕ) : UInt16 := be16 (m off) (m (off + 1))

/-- The 32-bit field at an offset. -/
def field32 (m : Mem) (off : ℕ) : UInt32 := be32 (m off) (m (off + 1)) (m (off + 2)) (m (off + 3))

/-- `struct ofp_header`, the first eight bytes of every message. -/
structure OfpHeader where
  version : UInt8
  type : UInt8
  length : UInt16
  xid : UInt32
  deriving DecidableEq, Repr

/-- The header at the start of a message. -/
def OfpHeader.decode (m : Mem) : OfpHeader := ⟨m 0, m 1, field16 m 2, field32 m 4⟩

/-- The header of a message given as a list of bytes. -/
def header (b : List UInt8) : OfpHeader := OfpHeader.decode (ofBytes b)

section Congr

variable {m m' : Mem} {n : ℕ} (h : ∀ k, k < n → m k = m' k)

include h

/-- Memories that agree up to the end of a 16-bit field hold the same one. -/
theorem field16_congr {off : ℕ} (hoff : off + 2 ≤ n) : field16 m off = field16 m' off := by
  unfold field16
  rw [h off (by omega), h (off + 1) (by omega)]

/-- Memories that agree up to the end of a 32-bit field hold the same one. -/
theorem field32_congr {off : ℕ} (hoff : off + 4 ≤ n) : field32 m off = field32 m' off := by
  unfold field32
  rw [h off (by omega), h (off + 1) (by omega), h (off + 2) (by omega), h (off + 3) (by omega)]

/-- Memories that agree up to the end of an address hold the same one. -/
theorem Mac.at_congr {off : ℕ} (hoff : off + 6 ≤ n) : Mac.at m off = Mac.at m' off := by
  unfold Mac.at
  rw [h off (by omega), h (off + 1) (by omega), h (off + 2) (by omega), h (off + 3) (by omega),
    h (off + 4) (by omega), h (off + 5) (by omega)]

/-- Memories that agree on eight bytes hold the same header. -/
theorem OfpHeader.decode_congr (hn : 8 ≤ n) : OfpHeader.decode m = OfpHeader.decode m' := by
  unfold OfpHeader.decode
  rw [h 0 (by omega), h 1 (by omega), field16_congr h (by omega), field32_congr h (by omega)]

end Congr

/-- `struct ofp_packet_in`, with the frame that it carries. -/
structure OfpPacketIn where
  totalLen : UInt16
  inPort : UInt16
  reason : UInt8
  data : List UInt8
  deriving DecidableEq, Repr

/-- Decodes a packet-in. The frame starts at the field `data`, two bytes before the end of the
padded structure, and ends with the message. -/
def OfpPacketIn.decode (b : List UInt8) : Option OfpPacketIn :=
  if (header b).type = ofptPacketIn then
    some ⟨field16 (ofBytes b) 12, field16 (ofBytes b) 14, ofBytes b 16, b.drop 18⟩
  else none

/-- The fields of a packet-in, by their offsets in the message. -/
theorem OfpPacketIn.eq_of_decode {b : List UInt8} {p : OfpPacketIn}
    (hp : OfpPacketIn.decode b = some p) :
    (header b).type = ofptPacketIn ∧
      p = ⟨field16 (ofBytes b) 12, field16 (ofBytes b) 14, ofBytes b 16, b.drop 18⟩ := by
  unfold OfpPacketIn.decode at hp
  split_ifs at hp with htype
  exact ⟨htype, (Option.some.inj hp).symm⟩

/-- The destination address of the frame. -/
def OfpPacketIn.dst (p : OfpPacketIn) : Mac := Mac.at (ofBytes p.data) 0

/-- The source address of the frame. -/
def OfpPacketIn.src (p : OfpPacketIn) : Mac := Mac.at (ofBytes p.data) 6

/-- Whether the frame is an ARP reply, by its Ethernet type and its ARP operation. -/
def OfpPacketIn.arpReply (p : OfpPacketIn) : Bool :=
  decide (field16 (ofBytes p.data) 12 = 0x0806 ∧ field16 (ofBytes p.data) 20 = 0x0002)

/-- `struct ofp_match`, without its padding. -/
structure OfpMatch where
  wildcards : UInt32
  inPort : UInt16
  dlSrc : Mac
  dlDst : Mac
  dlVlan : UInt16
  dlVlanPcp : UInt8
  dlType : UInt16
  nwTos : UInt8
  nwProto : UInt8
  nwSrc : UInt32
  nwDst : UInt32
  tpSrc : UInt16
  tpDst : UInt16
  deriving DecidableEq, Repr

/-- The match structure at an offset. -/
def OfpMatch.decode (m : Mem) (off : ℕ) : OfpMatch where
  wildcards := field32 m off
  inPort := field16 m (off + 4)
  dlSrc := Mac.at m (off + 6)
  dlDst := Mac.at m (off + 12)
  dlVlan := field16 m (off + 18)
  dlVlanPcp := m (off + 20)
  dlType := field16 m (off + 22)
  nwTos := m (off + 24)
  nwProto := m (off + 25)
  nwSrc := field32 m (off + 28)
  nwDst := field32 m (off + 32)
  tpSrc := field16 m (off + 36)
  tpDst := field16 m (off + 38)

/-- An action: `struct ofp_action_output`, or any other type with the bytes after its header. -/
inductive OfpAction where
  | output (port maxLen : UInt16)
  | other (type : UInt16) (body : List UInt8)
  deriving DecidableEq, Repr

/-- The actions in `len` bytes from an offset, each with its type and its length, a positive
multiple of eight, in front. The first argument bounds their number. -/
def decodeActions (m : Mem) : ℕ → ℕ → ℕ → Option (List OfpAction)
  | 0, _, len => if len = 0 then some [] else none
  | fuel + 1, off, len =>
    if len = 0 then some []
    else
      let alen := (field16 m (off + 2)).toNat
      -- A length that is not a positive multiple of eight, or reaches past the end, is malformed.
      if alen < 8 ∨ alen % 8 ≠ 0 ∨ len < alen then none
      else
        let action :=
          if field16 m off = 0 ∧ alen = 8 then
            OfpAction.output (field16 m (off + 4)) (field16 m (off + 6))
          else OfpAction.other (field16 m off) (bytesAt m (off + 4) (alen - 4))
        (decodeActions m fuel (off + alen) (len - alen)).map (action :: ·)

/-- `struct ofp_flow_mod`. -/
structure FlowMod where
  xid : UInt32
  fields : OfpMatch
  cookie : UInt64
  command : UInt16
  idleTimeout : UInt16
  hardTimeout : UInt16
  priority : UInt16
  bufferId : UInt32
  outPort : UInt16
  flags : UInt16
  actions : List OfpAction
  deriving DecidableEq, Repr

/-- Decodes a flow-mod: a message of that type whose length field is its length, with well-formed
actions in the bytes after the 72 of the structure. -/
def FlowMod.decode (b : List UInt8) : Option FlowMod :=
  let m := ofBytes b
  if (header b).version = 1 ∧ (header b).type = ofptFlowMod ∧
      (header b).length.toNat = b.length ∧ 72 ≤ b.length then
    (decodeActions m (b.length / 8) 72 (b.length - 72)).map fun actions =>
      { xid := (header b).xid
        fields := OfpMatch.decode m 8
        cookie := be64 m 48
        command := field16 m 56
        idleTimeout := field16 m 58
        hardTimeout := field16 m 60
        priority := field16 m 62
        bufferId := field32 m 64
        outPort := field16 m 68
        flags := field16 m 70
        actions := actions }
  else none

/-- `struct ofp_packet_out`. -/
structure PacketOut where
  xid : UInt32
  bufferId : UInt32
  inPort : UInt16
  actions : List OfpAction
  data : List UInt8
  deriving DecidableEq, Repr

/-- Decodes a packet-out: a message of that type whose length field is its length, with
`actions_len` bytes of well-formed actions after the 16 of the structure, and the frame after
them. -/
def PacketOut.decode (b : List UInt8) : Option PacketOut :=
  let m := ofBytes b
  let actionsLen := (field16 m 14).toNat
  if (header b).version = 1 ∧ (header b).type = ofptPacketOut ∧
      (header b).length.toNat = b.length ∧ 16 + actionsLen ≤ b.length then
    (decodeActions m (actionsLen / 8) 16 actionsLen).map fun actions =>
      { xid := (header b).xid
        bufferId := field32 m 8
        inPort := field16 m 12
        actions := actions
        data := b.drop (16 + actionsLen) }
  else none

/-! ## The switch's flow table -/

/-- A flow entry of a switch. -/
structure FlowEntry where
  fields : OfpMatch
  priority : UInt16
  actions : List OfpAction
  deriving DecidableEq, Repr

/-- A switch's flow table, newest entry first. -/
abbrev FlowTable := List FlowEntry

/-- The entry that a flow-mod describes. -/
def FlowMod.entry (fm : FlowMod) : FlowEntry := ⟨fm.fields, fm.priority, fm.actions⟩

/-- Two entries with the identical match and priority. -/
def FlowEntry.sameFlow (e e' : FlowEntry) : Bool :=
  decide (e.fields = e'.fields ∧ e.priority = e'.priority)

/-- Adds an entry, in place of one with the identical match and priority. -/
def FlowTable.add (t : FlowTable) (e : FlowEntry) : FlowTable := e :: t.filter (!e.sameFlow ·)

/-- A bit of the wildcards: the field of that bit is not compared. -/
def OfpMatch.wild (m : OfpMatch) (bit : UInt32) : Bool := m.wildcards &&& bit != 0

/-- A field that `m` compares is compared by `m'` too, with the same value. -/
def OfpMatch.agrees {α : Type} [DecidableEq α] (m m' : OfpMatch) (bit : UInt32)
    (field : OfpMatch → α) : Bool :=
  m.wild bit || (!m'.wild bit && decide (field m = field m'))

/-- The number of low bits of an IP address that a match ignores: six bits of the wildcards from
`shift` on, where 32 and more ignore the whole address. -/
def OfpMatch.nwIgnored (m : OfpMatch) (shift : UInt32) : ℕ :=
  min (m.wildcards >>> shift &&& 0x3f).toNat 32

/-- The bits of an IP address that `m` compares are compared by `m'` too, with the same values. -/
def OfpMatch.nwAgrees (m m' : OfpMatch) (shift : UInt32) (field : OfpMatch → UInt32) : Bool :=
  decide (m'.nwIgnored shift ≤ m.nwIgnored shift ∧
    (field m).toNat >>> m.nwIgnored shift = (field m').toNat >>> m.nwIgnored shift)

/-- A match that is as specific as `m` or more specific. -/
def OfpMatch.covers (m m' : OfpMatch) : Bool :=
  m.agrees m' 0x1 OfpMatch.inPort && m.agrees m' 0x2 OfpMatch.dlVlan &&
    m.agrees m' 0x4 OfpMatch.dlSrc && m.agrees m' 0x8 OfpMatch.dlDst &&
    m.agrees m' 0x10 OfpMatch.dlType && m.agrees m' 0x20 OfpMatch.nwProto &&
    m.agrees m' 0x40 OfpMatch.tpSrc && m.agrees m' 0x80 OfpMatch.tpDst &&
    m.nwAgrees m' 8 OfpMatch.nwSrc && m.nwAgrees m' 14 OfpMatch.nwDst &&
    m.agrees m' 0x100000 OfpMatch.dlVlanPcp && m.agrees m' 0x200000 OfpMatch.nwTos

/-- The entries that a flow-mod which is not an `OFPFC_ADD` is about: the one with the identical
match and priority when the command is strict, and otherwise all that its match covers. -/
def FlowMod.selects (fm : FlowMod) (e : FlowEntry) : Bool :=
  if fm.command = ofpfcModifyStrict ∨ fm.command = ofpfcDeleteStrict then fm.entry.sameFlow e
  else fm.fields.covers e.fields

/-- Whether a deletion with this `out_port` may take an entry: it is no restriction, or one of the
entry's output actions has it. -/
def FlowEntry.leadsOut (outPort : UInt16) (e : FlowEntry) : Bool :=
  outPort == ofppNone || e.actions.any fun | .output port _ => port == outPort | .other .. => false

/-- What a flow-mod does to the switch's table, by its command. A modification that finds no entry
is an addition. -/
def FlowTable.obey (t : FlowTable) (fm : FlowMod) : FlowTable :=
  if fm.command = ofpfcAdd then t.add fm.entry
  else if fm.command = ofpfcModify ∨ fm.command = ofpfcModifyStrict then
    if t.any fm.selects then
      t.map fun e => if fm.selects e then { e with actions := fm.actions } else e
    else t.add fm.entry
  else if fm.command = ofpfcDelete ∨ fm.command = ofpfcDeleteStrict then
    t.filter fun e => !(fm.selects e && e.leadsOut fm.outPort)
  else t

/-- What a message does to the switch's table: no message but a flow-mod changes it. -/
def FlowTable.receive (t : FlowTable) (b : List UInt8) : FlowTable :=
  match FlowMod.decode b with
  | some fm => t.obey fm
  | none => t

/-- The table after a list of messages, in order. -/
def FlowTable.receiveAll (t : FlowTable) (bs : List (List UInt8)) : FlowTable :=
  bs.foldl FlowTable.receive t

/-- What a switch knows of a frame when it looks it up: the port that it came in on, the fields of
its Ethernet header, and how its protocol fields compare with a match that asks for them. -/
structure FrameHeader where
  inPort : UInt16
  dlSrc : Mac
  dlDst : Mac
  dlVlan : UInt16
  dlVlanPcp : UInt8
  dlType : UInt16
  protocol : OfpMatch → Bool

/-- Whether a frame matches: every field that is not wildcarded agrees. The protocol fields are
not compared when `dl_type` is wildcarded. -/
def OfpMatch.accepts (m : OfpMatch) (h : FrameHeader) : Bool :=
  (m.wild 0x1 || m.inPort == h.inPort) &&
    (m.wild 0x2 || m.dlVlan == h.dlVlan) &&
    (m.wild 0x4 || m.dlSrc == h.dlSrc) &&
    (m.wild 0x8 || m.dlDst == h.dlDst) &&
    (m.wild 0x100000 || m.dlVlanPcp == h.dlVlanPcp) &&
    (m.wild 0x10 || (m.dlType == h.dlType && h.protocol m))

/-- The entries that a frame matches. -/
def FlowTable.candidates (t : FlowTable) (h : FrameHeader) : FlowTable :=
  t.filter (·.fields.accepts h)

/-- The actions of the entries of highest priority among those that a frame matches. -/
def FlowTable.lookup (t : FlowTable) (h : FrameHeader) : List (List OfpAction) :=
  ((t.candidates h).filter fun e => (t.candidates h).all (·.priority ≤ e.priority)).map
    FlowEntry.actions

end SdnController
