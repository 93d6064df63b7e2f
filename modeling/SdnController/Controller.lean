import SdnController.MyGraph
import SdnController.Lib.Exec

/-!
# The controller

`controller.c`, function by function: `recvData` reads a message from a switch's socket and
dispatches it, and the handlers answer with messages of their own. A handler is a program over the
controller's globals (`State`), which may stop the process (`Stop`) and leaves a trace of events:
the messages sent, what was asked of `recv`, and the accesses to the four buffers whose sizes depend
on what a switch sends (`Buf`). What is only printed is in the trace where it is computed from a
message (`Event.features`, `Event.linkState`), and is left out where it is a fixed text.

What the code does not decide is in the environment of a call (`Env`): the bytes that memory happens
to hold where the program never wrote, how far the process can read there, and the calls of `recv`
and `send` that fail. A read past the end of a buffer finds such bytes and goes on, and kills the
process where there is no memory to read; a write past the end stops the run, since nothing that
happens later is defined.

The host is little-endian, as the x86-64 that the repository's binary is built for.
-/

namespace SdnController

open Memory Exec KeyedLists

/-! ## Lengths and message types -/

/-- `OFP_HDR_LEN`. -/
def ofpHdrLen : ℕ := 8
/-- `FEATURE_LEN`. -/
def featureLen : ℕ := 24
/-- `PORT_DATA_LEN`. -/
def portDataLen : ℕ := 48
/-- `PKT_OUT_HDR_LEN`. -/
def pktOutHdrLen : ℕ := 24
/-- `OFP_FLOWMOD_LEN`. -/
def ofpFlowmodLen : ℕ := 80
/-- The size of the buffer `payload` in `recvData`. -/
def payloadLen : ℕ := 1000

/-- `OF_HELLO`. -/
def ofHello : UInt8 := 0
/-- `OF_ECHO_REQUEST`. -/
def ofEchoRequest : UInt8 := 2
/-- `OF_FEATURE_REPLY`. -/
def ofFeatureReply : UInt8 := 6
/-- `OF_PACKET_IN`. -/
def ofPacketIn : UInt8 := 10
/-- `OF_PORT_STATUS`. -/
def ofPortStatus : UInt8 := 12

/-! ## State, environment, and events -/

/-- The buffers whose accesses are recorded. -/
inductive Buf where
  /-- `packet` of `recvData`, eight bytes. -/
  | packet
  /-- `payload` of `recvData`, 1000 bytes. -/
  | payload
  /-- `raw_pkt_in` of `handlePacketIn`, as long as the message says it is. -/
  | rawPktIn
  /-- `raw_pkt_out` of `makeSendPacketOut`, as long as the computed length. -/
  | rawPktOut
  deriving DecidableEq, Repr

/-- Whether an access reads or writes. -/
inductive AccessKind where
  | read
  | write
  deriving DecidableEq, Repr

/-- An access to a buffer of `size` bytes: `len` bytes from offset `off`. The length is the integer
that the program computed, which `memcpy` takes as a `size_t`. -/
structure Access where
  kind : AccessKind
  buf : Buf
  size : ℕ
  off : ℕ
  len : ℤ
  deriving DecidableEq, Repr

/-- The access stays inside its buffer. -/
def Access.Inside (a : Access) : Prop := 0 ≤ a.len ∧ (a.off : ℤ) + a.len ≤ a.size

instance (a : Access) : Decidable a.Inside := by unfold Access.Inside; infer_instance

/-- What a call does that can be seen from outside it. -/
inductive Event where
  /-- An access to a recorded buffer. -/
  | access (a : Access)
  /-- A call of `recv` for `asked` bytes into a buffer, which got `got`. -/
  | recv (socket : Socket) (buf : Buf) (asked got : ℕ)
  /-- A message sent. -/
  | send (socket : Socket) (bytes : List UInt8)
  /-- What `reportFeatures` prints. -/
  | features (identifier : UInt64) (version : UInt8) (numPorts : ℤ) (ports : List UInt16)
  /-- What `reportPort` prints. -/
  | linkState (reason : UInt8) (portNum : UInt16)
  deriving DecidableEq, Repr

/-- The message that an event sends. -/
def Event.sent : Event → Option (Socket × List UInt8)
  | .send s b => some (s, b)
  | _ => none

/-- The messages sent in a trace, in order, each with its socket. -/
def sends (w : List Event) : List (Socket × List UInt8) := w.filterMap Event.sent

/-- The messages sent on one socket in a trace, in order. -/
def sendsOn (s : Socket) (w : List Event) : List (List UInt8) :=
  (sends w).filterMap fun p => if p.1 = s then some p.2 else none

/-- The accesses in a trace, in order. -/
def accesses (w : List Event) : List Access :=
  w.filterMap fun | .access a => some a | _ => none

/-- Why the process stops inside a call. -/
inductive Stop where
  /-- `exit(-1)`, after a failed `recv` or `send`. -/
  | exit
  /-- A write past the end of a buffer on the stack. -/
  | overflow
  /-- A read of memory that the process does not have. -/
  | fault
  deriving DecidableEq, Repr

/-- What one call of `recvData` does not decide by itself. -/
structure Env where
  /-- What a buffer's memory, and the memory after it, holds where nothing was written. -/
  junk : Buf → Mem
  /-- Whether the `recv` into a buffer fails. -/
  recvFails : Buf → Bool
  /-- Whether the `send` of a message fails. -/
  sendFails : List UInt8 → Bool
  /-- How many bytes after the end of a buffer the process can read. -/
  mapped : Buf → ℕ
  /-- `handlePacketIn` is called by `recvData`, in whose frame is `payload`. -/
  callers : payloadLen ≤ mapped .rawPktIn

/-- The globals of `controller.c`. -/
structure State where
  ll : ListOfLists
  flows : ListOfFlows
  xid : UInt32
  deriving DecidableEq

/-- The state that `handleConnections` starts its loop from: one zero-filled node in each table. -/
def initial : State := ⟨[⟨0, []⟩], [⟨0, []⟩], 1⟩

/-- A program of the controller. -/
abbrev Ctl := Prog Env Stop State Event

/-! ## Buffers -/

/-- A pointer into a buffer of `size` bytes with the contents `mem`. -/
structure Ptr where
  buf : Buf
  size : ℕ
  mem : Mem
  off : ℕ

/-- Pointer arithmetic. -/
def Ptr.add (p : Ptr) (n : ℕ) : Ptr := { p with off := p.off + n }

/-- The process can read `len` bytes at a pointer, in the buffer or in the memory after it. -/
def Ptr.Readable (p : Ptr) (env : Env) (len : ℤ) : Prop :=
  0 ≤ len ∧ (p.off : ℤ) + len ≤ p.size + env.mapped p.buf

instance (p : Ptr) (env : Env) (len : ℤ) : Decidable (p.Readable env len) :=
  inferInstanceAs (Decidable (_ ∧ _))

/-- Records an access of `len` bytes at a pointer, and goes on unless it is a read that kills the
process. -/
def Ptr.touch (p : Ptr) (kind : AccessKind) (len : ℤ) : Ctl Unit := do
  emit (.access ⟨kind, p.buf, p.size, p.off, len⟩)
  let env ← ask
  if kind = .read ∧ ¬p.Readable env len then stop .fault else pure ()

/-- Reads a byte. -/
def Ptr.byte (p : Ptr) : Ctl UInt8 := do
  p.touch .read 1
  pure (p.mem p.off)

/-- Reads a 16-bit word into a variable. -/
def Ptr.u16 (p : Ptr) : Ctl UInt16 := do
  p.touch .read 2
  pure (load16 p.mem p.off)

/-- Copies an Ethernet address out of a buffer. -/
def Ptr.mac (p : Ptr) : Ctl Mac := do
  p.touch .read 6
  pure (Mac.at p.mem p.off)

/-- `memcpy(dst, src, n)` between two buffers, with the length as it was computed. The result is the
destination's memory. -/
def Ptr.memcpy (dst src : Ptr) (n : ℤ) : Ctl Mem := do
  src.touch .read n
  dst.touch .write n
  if 0 ≤ n ∧ (dst.off : ℤ) + n ≤ dst.size then
    pure (Memory.memcpy dst.mem dst.off (bytesAt src.mem src.off n.toNat))
  else stop .overflow

/-- `memcpy(dst, &x, n)` from a variable whose bytes in memory are `src`. -/
def Ptr.write (dst : Ptr) (src : List UInt8) : Ctl Mem := do
  dst.touch .write src.length
  if dst.off + src.length ≤ dst.size then pure (Memory.memcpy dst.mem dst.off src)
  else stop .overflow

/-- A buffer of zeros. -/
def zeros : Mem := fun _ => 0

/-- The bytes of a `struct ofp_header` variable, its length and xid as they are stored. -/
def ofpHeaderBytes (version type : UInt8) (length : UInt16) (xid : UInt32) : List UInt8 :=
  [version, type] ++ store16 length ++ store32 xid

@[simp]
theorem ofpHeaderBytes_length (version type : UInt8) (length : UInt16) (xid : UInt32) :
    (ofpHeaderBytes version type length xid).length = 8 := rfl

/-! ## Sending -/

/-- `send`, and the `exit` that follows when it fails. -/
def sendOrExit (socket : Socket) (bytes : List UInt8) : Ctl Unit := do
  let env ← ask
  if env.sendFails bytes then stop .exit else emit (.send socket bytes)

/-- `xid++`. -/
def bumpXid : Ctl Unit := modifyState fun st => { st with xid := st.xid + 1 }

/-- `estOFConnection`: a hello and a features request, both with an xid of the controller's own. The
hello that was received is not looked at. -/
def estOFConnection (clientSocket : Socket) : Ctl Unit := do
  let st ← getState
  let hPacket := memcpy zeros 0 (ofpHeaderBytes 1 0 (htons 8) (htonl st.xid))
  sendOrExit clientSocket (bytesAt hPacket 0 ofpHdrLen)
  bumpXid
  let st ← getState
  let frequestPacket := memcpy zeros 0 (ofpHeaderBytes 1 5 (htons 8) (htonl st.xid))
  sendOrExit clientSocket (bytesAt frequestPacket 0 ofpHdrLen)
  bumpXid

/-- `setConfig`: a set-config and a barrier request, and no flow-mod. -/
def setConfig (clientSocket : Socket) : Ctl Unit := do
  let st ← getState
  let cPacket := memcpy zeros 0 (ofpHeaderBytes 1 9 (htons 12) (htonl st.xid))
  let cPacket := memcpy cPacket 8 (store16 (htons 0x0000))
  let cPacket := memcpy cPacket 10 (store16 (htons 0x0080))
  sendOrExit clientSocket (bytesAt cPacket 0 12)
  bumpXid
  let st ← getState
  let bPacket := memcpy zeros 0 (ofpHeaderBytes 1 18 (htons 8) (htonl st.xid))
  sendOrExit clientSocket (bytesAt bPacket 0 ofpHdrLen)
  bumpXid

/-- `sendEchoReply`: an echo reply with the xid of the request. -/
def sendEchoReply (clientSocket : Socket) (ofpHdr : Mem) : Ctl Unit := do
  let rPacket := memcpy zeros 0 (ofpHeaderBytes 1 3 (htons 8) (load32 ofpHdr 4))
  sendOrExit clientSocket (bytesAt rPacket 0 ofpHdrLen)

/-! ## Reports -/

/-- The loop of `reportFeatures` from port number `i` on, over `n` ports. -/
def reportPorts (payload : Ptr) (i : ℕ) : ℕ → Ctl (List UInt16)
  | 0 => pure []
  | n + 1 => do
    let portNum ← (payload.add (featureLen + (i - 1) * portDataLen)).u16
    let ports ← reportPorts payload (i + 1) n
    pure (ntohs portNum :: ports)

/-- `reportFeatures`. -/
def reportFeatures (ofpHdr : Mem) (payload : Ptr) : Ctl Unit := do
  let packetLen := ntohs (load16 ofpHdr 2)
  -- The lengths are subtracted as integers, so a short message has less than no port.
  let numPorts := ((packetLen.toNat : ℤ) - ofpHdrLen - featureLen).tdiv portDataLen
  payload.touch .read 8
  let ports ← reportPorts payload 1 numPorts.toNat
  emit (.features (be64 payload.mem payload.off) (ofpHdr 0) numPorts ports)

/-- `reportPort`. -/
def reportPort (payload : Ptr) : Ctl Unit := do
  let reason ← payload.byte
  let portNum ← (payload.add 8).u16
  emit (.linkState reason (ntohs portNum))

/-! ## Packet-ins -/

/-- `isArpReply`, on a pointer to the Ethernet frame. -/
def isArpReply (payload : Ptr) : Ctl ℤ := do
  let receivedArpCode ← (payload.add 12).u16
  if ntohs receivedArpCode ≠ 0x0806 then pure 0
  else do
    let receivedArpOpcode ← (payload.add 20).u16
    if ntohs receivedArpOpcode ≠ 0x0002 then pure 0 else pure 1

/-- `isLoopback`, on a pointer to the Ethernet frame. -/
def isLoopback (payload : Ptr) : Ctl ℤ := do
  let dstMac ← payload.mac
  let srcMac ← (payload.add 6).mac
  if dstMac = srcMac then pure 1 else pure 0

/-- `pkt_in->total_len`. -/
def Ptr.totalLen (pktIn : Ptr) : Ctl UInt16 := (pktIn.add 12).u16

/-- `pkt_in->in_port`, in network byte order. -/
def Ptr.inPort (pktIn : Ptr) : Ctl UInt16 := (pktIn.add 14).u16

/-- `pkt_in->reason`. -/
def Ptr.reason (pktIn : Ptr) : Ctl UInt8 := (pktIn.add 16).byte

/-- `pkt_in->data`, the frame: two bytes before the end of the padded structure. -/
def Ptr.data (pktIn : Ptr) : Ptr := pktIn.add 18

/-- The flow-mod that `establishFlows` and `sendLoopFlow` build in the same way: the header, the
match, and one output action, each at its offset in a buffer of zeros. The port is as stored. -/
def rawFlowmod (xid : UInt32) (dlSrc dlDst : Mac) (port : UInt16) : Mem :=
  let raw := memcpy zeros 0 (ofpHeaderBytes 1 14 (htons 80) (htonl xid))
  let raw := memcpy raw 8 (store32 (htonl 0x00100013))
  let raw := memcpy raw 14 dlSrc.bytes
  let raw := memcpy raw 20 dlDst.bytes
  let raw := memcpy raw 62 (store16 (htons 0x8000))
  let raw := memcpy raw 64 (store32 (htonl 0xffffffff))
  let raw := memcpy raw 68 (store16 (htons 0xffff))
  let raw := memcpy raw 72 (store16 (htons 0x0000))
  let raw := memcpy raw 74 (store16 (htons 0x0008))
  memcpy raw 76 (store16 port)

/-- Adds a flow to the local flow table. -/
def saveFlow (clientSocket : Socket) (dstMac srcMac : Mac) (port : UInt16) : Ctl Unit :=
  modifyState fun st =>
    { st with flows := (addFlowNode clientSocket st.flows dstMac srcMac port).2 }

/-- `removeFlow`: a flow-mod for the first flow of the port that goes down, which is taken out of
the local flow table before anything is sent. The command field is left at zero. -/
def removeFlow (socket : Socket) (port : UInt16) : Ctl Unit := do
  let st ← getState
  let found := findRemoveNode socket st.flows port
  modifyState fun st => { st with flows := found.2 }
  match found.1 with
  | none => pure ()
  | some removeNode => do
    let raw := memcpy zeros 0 (ofpHeaderBytes 1 14 (htons 80) (htonl st.xid))
    let raw := memcpy raw 8 (store32 (htonl 0x00100013))
    let raw := memcpy raw 14 removeNode.srcMac.bytes
    let raw := memcpy raw 20 removeNode.dstMac.bytes
    let raw := memcpy raw 62 (store16 (htons 0x8000))
    let raw := memcpy raw 64 (store32 (htonl 0xffffffff))
    let raw := memcpy raw 68 (store16 (htons 0xffff))
    let raw := memcpy raw 72 (store16 (htons 0x0003))
    let raw := memcpy raw 74 (store16 (htons 0x0008))
    let raw := memcpy raw 76 (store16 (htons removeNode.port))
    sendOrExit socket (bytesAt raw 0 ofpFlowmodLen)
    bumpXid

/-- `establishFlows`: a flow-mod for each direction. The second is the first with its xid, its
addresses, and its port patched. -/
def establishFlows (clientSocket : Socket) (pktIn : Ptr) : Ctl Unit := do
  let port ← pktIn.inPort
  let st ← getState
  let dataDst ← pktIn.data.mac
  let dataSrc ← (pktIn.data.add 6).mac
  let raw := rawFlowmod st.xid dataDst dataSrc port
  let inPort ← pktIn.inPort
  -- The flow is recorded unless there is one for the pair, and the flow-mod is sent in any case.
  saveFlow clientSocket (Mac.at raw 20) (Mac.at raw 14) (ntohs inPort)
  sendOrExit clientSocket (bytesAt raw 0 ofpFlowmodLen)
  bumpXid
  -- The other direction leads to where the destination was learned, or to port 0.
  let st ← getState
  let dstMac ← pktIn.data.mac
  let port := htons (findPort clientSocket st.ll dstMac)
  let dataSrc ← (pktIn.data.add 6).mac
  let dataDst ← pktIn.data.mac
  let raw := memcpy raw 4 (store32 (htonl st.xid))
  let raw := memcpy raw 14 dataSrc.bytes
  let raw := memcpy raw 20 dataDst.bytes
  let raw := memcpy raw 76 (store16 port)
  saveFlow clientSocket (Mac.at raw 20) (Mac.at raw 14)
    (findPort clientSocket st.ll (Mac.at raw 20))
  sendOrExit clientSocket (bytesAt raw 0 ofpFlowmodLen)
  bumpXid

/-- `makeSendPacketOut`: a packet-out with the frame of a packet-in. The output port is as
stored. -/
def makeSendPacketOut (clientSocket : Socket) (pktIn : Ptr) (outputPort : UInt16) : Ctl Unit := do
  let totalLen ← pktIn.totalLen
  -- `pkt_out_len` has 16 bits, in which the sum wraps.
  let pktOutLen : UInt16 := UInt16.ofNat pktOutHdrLen + ntohs totalLen
  let inPort ← pktIn.inPort
  let st ← getState
  let out : Ptr := ⟨.rawPktOut, pktOutLen.toNat, zeros, 0⟩
  let raw ← out.write (ofpHeaderBytes 1 13 (htons pktOutLen) (htonl st.xid))
  let raw ← Ptr.write { out with mem := raw, off := 8 } (store32 (htonl 0xffffffff))
  let raw ← Ptr.write { out with mem := raw, off := 12 } (store16 inPort)
  let raw ← Ptr.write { out with mem := raw, off := 14 } (store16 (htons 8))
  let raw ← Ptr.write { out with mem := raw, off := 16 } (store16 (htons 0x0000))
  let raw ← Ptr.write { out with mem := raw, off := 18 } (store16 (htons 8))
  let raw ← Ptr.write { out with mem := raw, off := 20 } (store16 outputPort)
  -- As many bytes as the switch says its frame had, whatever part of it the message carries.
  let totalLen ← pktIn.totalLen
  let raw ← Ptr.memcpy { out with mem := raw, off := 24 } pktIn.data (ntohs totalLen).toNat
  sendOrExit clientSocket (bytesAt raw 0 pktOutLen.toNat)
  bumpXid

/-- `sendLoopFlow`: a flow-mod for a frame sent to its own source. The xid is not advanced. -/
def sendLoopFlow (clientSocket : Socket) (pktIn : Ptr) : Ctl Unit := do
  let port ← pktIn.inPort
  let st ← getState
  let dataDst ← pktIn.data.mac
  let dataSrc ← (pktIn.data.add 6).mac
  let raw := rawFlowmod st.xid dataDst dataSrc port
  let inPort ← pktIn.inPort
  saveFlow clientSocket (Mac.at raw 20) (Mac.at raw 14) (ntohs inPort)
  sendOrExit clientSocket (bytesAt raw 0 ofpFlowmodLen)

/-- The part of `handlePacketIn` after the message is put together again. -/
def handleFrame (clientSocket : Socket) (pktIn : Ptr) : Ctl Unit := do
  let reason ← pktIn.reason
  if reason = 0x00 then pure ()
  else do
    -- The source is learned in every branch, before anything is sent. Whether it was known already
    -- is not looked at, so the frame of a known host is handled like any other.
    let toMac ← (pktIn.data.add 6).mac
    let inPort ← pktIn.inPort
    modifyState fun st =>
      { st with ll := (addPathNode clientSocket st.ll toMac (ntohs inPort)).2 }
    let arpReply ← isArpReply pktIn.data
    if arpReply = 1 then do
      establishFlows clientSocket pktIn
      makeSendPacketOut clientSocket pktIn (htons 0xfff9)
    else do
      let loopback ← isLoopback pktIn.data
      if loopback = 1 then sendLoopFlow clientSocket pktIn
      -- Everything else is flooded, to whatever address it is.
      else makeSendPacketOut clientSocket pktIn (htons 0xfffb)

/-- `handlePacketIn`: puts the header and the payload together in one buffer of the length that the
header gives, and handles the frame in it. -/
def handlePacketIn (clientSocket : Socket) (packet payload : Ptr) (packetLen : ℕ) : Ctl Unit := do
  let env ← ask
  let pktIn : Ptr := ⟨.rawPktIn, packetLen, env.junk .rawPktIn, 0⟩
  let raw ← pktIn.memcpy packet ofpHdrLen
  -- A length below that of the header makes this size negative.
  let raw ← Ptr.memcpy { pktIn with mem := raw, off := ofpHdrLen } payload
    ((packetLen : ℤ) - ofpHdrLen)
  handleFrame clientSocket { pktIn with mem := raw }

/-! ## Receiving -/

/-- What a call of `recv` returns, the buffer's memory after it, and what the socket still
delivers. -/
structure Received where
  numBytes : ℤ
  mem : Mem
  rest : List UInt8

/-- `recv` with `MSG_WAITALL` on a socket that delivers the bytes `stream` before its peer closes
it: the `n` bytes that were asked for, or all that come when they are fewer. -/
def recv (clientSocket : Socket) (dst : Ptr) (n : ℕ) (stream : List UInt8) : Ctl Received := do
  let env ← ask
  if env.recvFails dst.buf then do
    emit (.recv clientSocket dst.buf n 0)
    pure ⟨-1, dst.mem, stream⟩
  else do
    emit (.recv clientSocket dst.buf n (stream.take n).length)
    if (stream.take n).length ≤ dst.size then
      pure ⟨(stream.take n).length, memcpy dst.mem dst.off (stream.take n), stream.drop n⟩
    else stop .overflow

/-- The second `recv` of `recvData`, for the `n` bytes after the header. Without it the buffer is
not even cleared. -/
def recvPayload (clientSocket : Socket) (n : ℤ) (stream : List UInt8) :
    Ctl (Mem × List UInt8) := do
  let env ← ask
  if 0 < n then do
    let payload : Ptr := ⟨.payload, payloadLen, memset (env.junk .payload) 0 payloadLen, 0⟩
    let r ← recv clientSocket payload n.toNat stream
    -- A payload that is cut short is not an error.
    if r.numBytes < 0 then stop .exit else pure (r.mem, r.rest)
  else pure (env.junk .payload, stream)

/-- The action on a message, by its type. -/
def dispatch (clientSocket : Socket) (packet payload : Ptr) (packetLen : ℕ) : Ctl Unit :=
  let type := packet.mem 1
  if type = ofHello then estOFConnection clientSocket
  else if type = ofFeatureReply then do
    reportFeatures packet.mem payload
    setConfig clientSocket
  else if type = ofEchoRequest then sendEchoReply clientSocket packet.mem
  else if type = ofPacketIn then handlePacketIn clientSocket packet payload packetLen
  else if type = ofPortStatus then reportPort payload
  else pure ()

/-- `recvData`, on a socket that delivers the bytes `stream` before its peer closes it: the return
value, and the bytes that are left. -/
def recvData (clientSocket : Socket) (stream : List UInt8) : Ctl (ℤ × List UInt8) := do
  let r ← recv clientSocket ⟨.packet, ofpHdrLen, zeros, 0⟩ ofpHdrLen stream
  if r.numBytes ≤ 0 then
    -- 0 when the peer has closed the connection.
    if r.numBytes ≠ 0 then stop .exit else pure (0, r.rest)
  else do
    let packetLen := (ntohs (load16 r.mem 2)).toNat
    let p ← recvPayload clientSocket ((packetLen : ℤ) - r.numBytes) r.rest
    dispatch clientSocket ⟨.packet, ofpHdrLen, r.mem, 0⟩ ⟨.payload, payloadLen, p.1, 0⟩ packetLen
    pure (1, p.2)

/-! ## Runs -/

/-- One call of `recvData`: the socket, the bytes that it delivers, and the environment. -/
structure Input where
  socket : Socket
  stream : List UInt8
  env : Env

/-- The step that an input takes. -/
def step (i : Input) : State → Outcome Stop State Event (ℤ × List UInt8) :=
  recvData i.socket i.stream i.env

end SdnController
