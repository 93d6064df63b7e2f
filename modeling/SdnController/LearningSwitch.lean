import SdnController.MyGraph
import Mathlib.Data.List.Induction

/-!
# The controller of one switch

What the controller is for, said for one switch at a time: a machine that learns on which port it
saw each address first, answers the switch's messages, and wires the two ends of a conversation to
each other when the second one answers an ARP request.

`Switch.react` is that machine. It knows nothing of sockets, of other switches, of transaction ids,
or of bytes. `Refinement.lean` shows that `recvData` is one such machine for each socket, side by
side, so what is proved here about a machine's state after any list of messages holds of the
controller's tables in every reachable state.
-/

namespace SdnController

open KeyedLists

/-- A packet-in that the controller acts on: the port, the addresses of the frame, whether it is an
ARP reply, and the frame. -/
structure PacketIn where
  inPort : UInt16
  dst : Mac
  src : Mac
  arpReply : Bool
  data : List UInt8
  deriving DecidableEq

/-- A message from the switch, as far as the controller acts on it. -/
inductive Msg where
  /-- Nothing to act on. -/
  | ignored
  | hello
  | featuresReply
  | echoRequest (xid : UInt32)
  | packetIn (p : PacketIn)
  deriving DecidableEq

/-- What is asked of a packet-in is asked of no other message. -/
instance {P : PacketIn → Prop} [DecidablePred P] (m : Msg) :
    Decidable (∀ p, m = .packetIn p → P p) :=
  match m with
  | .packetIn q => decidable_of_iff (P q) ⟨fun h _ hp => Msg.packetIn.inj hp ▸ h, fun h => h q rfl⟩
  | .ignored | .hello | .featuresReply | .echoRequest _ => .isTrue fun _ => nofun

/-- A message to the switch, without its transaction id. -/
inductive Reply where
  | hello
  | featuresRequest
  | setConfig
  | barrierRequest
  /-- An echo reply, with the xid of the request. -/
  | echoReply (xid : UInt32)
  /-- A flow from `dlSrc` to `dlDst`, out of `port`. -/
  | flowMod (dlSrc dlDst : Mac) (port : UInt16)
  | packetOut (inPort outPort : UInt16) (data : List UInt8)
  deriving DecidableEq

/-- What the controller keeps about a switch. -/
structure Switch where
  /-- The port on which each address was seen, last learned first. -/
  paths : List PathNode
  /-- The flows sent to the switch, last sent first. -/
  flows : List FlowNode
  deriving DecidableEq

/-- The switch as it is before its first message. -/
def Switch.fresh : Switch := ⟨[], []⟩

/-- The port on which an address was seen, or 0. -/
def Switch.port (v : Switch) (a : Mac) : UInt16 :=
  ((v.paths.find? (PathNode.leadsTo a)).map PathNode.port).getD 0

/-- Whether an address was seen. -/
def Switch.knows (v : Switch) (a : Mac) : Bool := (v.paths.find? (PathNode.leadsTo a)).isSome

/-- The flow to `dst` from `src`, if there is one. -/
def Switch.flow (v : Switch) (dst src : Mac) : Option FlowNode :=
  v.flows.find? (FlowNode.joins dst src)

/-- Learns the port of an address that was not seen before. -/
def Switch.learn (v : Switch) (a : Mac) (port : UInt16) : Switch :=
  { v with paths := addAbsent (PathNode.leadsTo a) ⟨a, port⟩ v.paths }

/-- Records a flow to `dst` from `src`, unless there is one. -/
def Switch.addFlow (v : Switch) (dst src : Mac) (port : UInt16) : Switch :=
  { v with flows := addAbsent (FlowNode.joins dst src) ⟨dst, src, port⟩ v.flows }

/-- The reaction to a packet-in: the source is learned, and then an ARP reply wires both directions
and is sent through the table, a frame to its own source is given a flow, and any other frame is
flooded. -/
def Switch.packetIn (v : Switch) (p : PacketIn) : Switch × List Reply :=
  let v := v.learn p.src p.inPort
  if p.arpReply then
    -- The flow to the sender has the port of this packet, the other one the port that was learned.
    ((v.addFlow p.src p.dst p.inPort).addFlow p.dst p.src (v.port p.dst),
      [.flowMod p.dst p.src p.inPort, .flowMod p.src p.dst (v.port p.dst),
        .packetOut p.inPort ofppTable p.data])
  else if p.dst = p.src then
    (v.addFlow p.src p.dst p.inPort, [.flowMod p.dst p.src p.inPort])
  else (v, [.packetOut p.inPort ofppFlood p.data])

/-- The reaction to a message. -/
def Switch.react (v : Switch) : Msg → Switch × List Reply
  | .ignored => (v, [])
  | .hello => (v, [.hello, .featuresRequest])
  | .featuresReply => (v, [.setConfig, .barrierRequest])
  | .echoRequest xid => (v, [.echoReply xid])
  | .packetIn p => v.packetIn p

/-- The switch after a list of messages. -/
def Switch.afterAll (v : Switch) (ms : List Msg) : Switch := ms.foldl (fun v m => (v.react m).1) v

/-- The switch after one more message. -/
theorem Switch.afterAll_concat (v : Switch) (ms : List Msg) (m : Msg) :
    v.afterAll (ms ++ [m]) = ((v.afterAll ms).react m).1 := by
  unfold Switch.afterAll
  rw [List.foldl_concat]

/-- The switch after two lists of messages. -/
theorem Switch.afterAll_append (v : Switch) (ms ms' : List Msg) :
    v.afterAll (ms ++ ms') = (v.afterAll ms).afterAll ms' := by
  unfold Switch.afterAll
  rw [List.foldl_append]

/-- What holds at first and is preserved by every message holds after any list of messages. -/
theorem Switch.afterAll_invariant (P : Switch → Prop) (hstep : ∀ v m, P v → P (v.react m).1)
    {v : Switch} (h : P v) (ms : List Msg) : P (v.afterAll ms) := by
  induction ms using List.reverseRecOn with
  | nil => exact h
  | append_singleton ms m ih =>
    rw [v.afterAll_concat]
    exact hstep _ m ih

/-! ## Learning -/

/-- The address and the port that a message shows. -/
def Msg.sighting : Msg → Option PathNode
  | .packetIn p => some ⟨p.src, p.inPort⟩
  | _ => none

section Learn

variable (v : Switch) (a : Mac) (port : UInt16)

@[simp] theorem Switch.flow_learn (c d : Mac) : (v.learn a port).flow c d = v.flow c d := rfl

@[simp] theorem Switch.port_addFlow (b c : Mac) : (v.addFlow a b port).port c = v.port c := rfl

/-- After an address is learned, its port is the first one. -/
theorem Switch.port_learn_self :
    (v.learn a port).port a = if v.knows a then v.port a else port := by
  unfold Switch.learn Switch.port Switch.knows
  rw [find?_addAbsent (by simp [PathNode.leadsTo])]
  cases h : v.paths.find? (PathNode.leadsTo a) with
  | none => simp
  | some n => simp

/-- Learning one address changes no other's port. -/
theorem Switch.port_learn_ne {a b : Mac} (h : b ≠ a) : (v.learn a port).port b = v.port b := by
  unfold Switch.learn Switch.port
  rw [find?_addAbsent_of_not (by simp [PathNode.leadsTo, h.symm])]

/-- An address that is not known has port 0. -/
theorem Switch.port_of_not_knows {v : Switch} {a : Mac} (h : v.knows a = false) : v.port a = 0 := by
  unfold Switch.knows at h
  unfold Switch.port
  rw [Option.isSome_eq_false_iff, Option.isNone_iff_eq_none] at h
  rw [h]
  rfl

end Learn

/-- The addresses after a message: a sighting is learned, and nothing else changes. -/
theorem Switch.react_paths (v : Switch) (m : Msg) :
    (v.react m).1.paths =
      m.sighting.elim v.paths fun n => addAbsent (PathNode.leadsTo n.toMac) n v.paths := by
  cases m with
  | packetIn p =>
    simp only [Switch.react, Switch.packetIn, Msg.sighting, Option.elim]
    split_ifs <;> rfl
  | _ => rfl

/-- No message loses, changes, or moves an address. -/
theorem Switch.suffix_paths (v : Switch) (ms : List Msg) : v.paths <:+ (v.afterAll ms).paths := by
  refine Switch.afterAll_invariant (fun v' => v.paths <:+ v'.paths) ?_ List.suffix_rfl ms
  intro v' m h
  rw [v'.react_paths m]
  cases m.sighting with
  | none => exact h
  | some n => exact h.trans (suffix_addAbsent _ n v'.paths)

/-- Every address is learned once. -/
theorem Switch.nodup_paths (ms : List Msg) :
    ((Switch.fresh.afterAll ms).paths.map PathNode.toMac).Nodup := by
  refine Switch.afterAll_invariant (v := Switch.fresh) (fun v => (v.paths.map PathNode.toMac).Nodup)
    ?_ List.nodup_nil ms
  intro v m h
  rw [v.react_paths m]
  cases m.sighting with
  | none => exact h
  | some n => exact nodup_map_addAbsent (fun x hx => by simpa [PathNode.leadsTo] using hx) h

/-- What a switch has learned of an address is what was seen of it first. -/
theorem Switch.find?_paths (ms : List Msg) (a : Mac) :
    (Switch.fresh.afterAll ms).paths.find? (PathNode.leadsTo a) =
      (ms.filterMap Msg.sighting).find? (PathNode.leadsTo a) := by
  induction ms using List.reverseRecOn with
  | nil => rfl
  | append_singleton ms m ih =>
    -- The last message is learned from only if its address was not found before.
    rw [Switch.afterAll_concat, Switch.react_paths, List.filterMap_append, List.find?_append, ← ih]
    generalize (Switch.fresh.afterAll ms).paths = paths
    cases hm : m.sighting with
    | none => simp [hm]
    | some n =>
      rw [Option.elim_some, List.filterMap_cons, hm]
      by_cases ha : n.toMac = a
      · -- The sighting is of this address: it counts if there was none before.
        have hn : PathNode.leadsTo a n = true := by simpa [PathNode.leadsTo] using ha
        rw [ha, find?_addAbsent hn]
        cases paths.find? (PathNode.leadsTo a) <;> simp [hn]
      · -- The sighting is of another address.
        have hn : PathNode.leadsTo a n = false := by simpa [PathNode.leadsTo] using ha
        rw [find?_addAbsent_of_not hn]
        simp [hn]

/-! ## Flows -/

section Flows

variable (v : Switch) (dst src : Mac) (port : UInt16)

/-- A flow that is found is a flow of the pair. -/
theorem Switch.flow_eq_some {v : Switch} {dst src : Mac} {f : FlowNode}
    (h : v.flow dst src = some f) : f ∈ v.flows ∧ f.dstMac = dst ∧ f.srcMac = src := by
  refine ⟨List.mem_of_find?_eq_some h, ?_⟩
  simpa [FlowNode.joins] using List.find?_some h

/-- The flows after one is recorded: the new one only if the pair had none. -/
theorem Switch.mem_addFlow {f : FlowNode} :
    f ∈ (v.addFlow dst src port).flows ↔
      f ∈ v.flows ∨ (v.flow dst src = none ∧ f = ⟨dst, src, port⟩) :=
  mem_addAbsent

/-- Every pair has one flow, and goes on having one. -/
theorem Switch.nodup_addFlow {v : Switch} (h : (v.flows.map fun f => (f.srcMac, f.dstMac)).Nodup) :
    ((v.addFlow dst src port).flows.map fun f => (f.srcMac, f.dstMac)).Nodup := by
  refine nodup_map_addAbsent (fun f hf => ?_) h
  obtain ⟨hsrc, hdst⟩ := Prod.mk.inj hf
  simp [FlowNode.joins, hsrc, hdst]

/-- After a flow is recorded, its pair has the first flow. -/
theorem Switch.flow_addFlow_self :
    (v.addFlow dst src port).flow dst src = some ((v.flow dst src).getD ⟨dst, src, port⟩) :=
  find?_addAbsent (by simp [FlowNode.joins]) v.flows

/-- Recording a flow changes no other pair's. -/
theorem Switch.flow_addFlow_ne {a b : Mac} (h : ¬(dst = a ∧ src = b)) :
    (v.addFlow dst src port).flow a b = v.flow a b :=
  find?_addAbsent_of_not (by simpa [FlowNode.joins] using h) v.flows

/-- The flows after a message: none, one, or both directions are recorded. -/
theorem Switch.react_flows (m : Msg) :
    (∃ p, m = .packetIn p ∧ p.arpReply = true ∧
      (v.react m).1 = ((v.learn p.src p.inPort).addFlow p.src p.dst p.inPort).addFlow p.dst p.src
        ((v.learn p.src p.inPort).port p.dst)) ∨
    (∃ p, m = .packetIn p ∧ p.arpReply = false ∧ p.dst = p.src ∧
      (v.react m).1 = (v.learn p.src p.inPort).addFlow p.src p.dst p.inPort) ∨
    (∃ p, m = .packetIn p ∧ p.arpReply = false ∧ p.dst ≠ p.src ∧
      (v.react m).1 = v.learn p.src p.inPort) ∨
    (∀ p, m ≠ .packetIn p) ∧ (v.react m).1 = v := by
  cases m with
  | packetIn p =>
    cases harp : p.arpReply with
    | true => exact .inl ⟨p, rfl, harp, by simp [Switch.react, Switch.packetIn, harp]⟩
    | false =>
      by_cases hd : p.dst = p.src
      · exact .inr (.inl ⟨p, rfl, harp, hd, by simp [Switch.react, Switch.packetIn, harp, hd]⟩)
      · exact .inr (.inr (.inl ⟨p, rfl, harp, hd,
          by simp [Switch.react, Switch.packetIn, harp, hd]⟩))
  | _ => exact .inr (.inr (.inr ⟨fun p => nofun, rfl⟩))

end Flows

end SdnController
