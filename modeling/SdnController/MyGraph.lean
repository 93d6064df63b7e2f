import SdnController.OpenFlow
import SdnController.Lib.KeyedLists

/-!
# The controller's two tables

The lists of `myGraph.h` and the functions of `myGraph.c` on them: for each switch, known by its
socket, the port on which each address was seen (`ListOfLists`), and the flows sent to it
(`ListOfFlows`). Both are keyed lists, and the searches and the insertions of the two are the same
up to the node: `addNode` is the insertion, with what its caller sees.
-/

namespace SdnController

open KeyedLists

/-- A socket descriptor, the controller's name for a switch. -/
abbrev Socket := ℤ

/-- `struct PathNode`: the port used to get to an address. -/
structure PathNode where
  toMac : Mac
  port : UInt16
  deriving DecidableEq, Repr

/-- `struct FlowNode`: a flow. -/
structure FlowNode where
  dstMac : Mac
  srcMac : Mac
  port : UInt16
  deriving DecidableEq, Repr

/-- `struct ListOfLists`, its `socket` as the key. -/
abbrev ListOfLists := List (Outer Socket PathNode)

/-- `struct ListOfFlows`, its `socket` as the key. -/
abbrev ListOfFlows := List (Outer Socket FlowNode)

/-- The comparison of a path node with an address. -/
def PathNode.leadsTo (toMac : Mac) (n : PathNode) : Bool := decide (n.toMac = toMac)

/-- The comparison of a flow node with a pair of addresses. -/
def FlowNode.joins (dstMac srcMac : Mac) (n : FlowNode) : Bool :=
  decide (n.dstMac = dstMac ∧ n.srcMac = srcMac)

/-- The comparison of a flow node with a port. -/
def FlowNode.leadsOut (port : UInt16) (n : FlowNode) : Bool := decide (n.port = port)

/-- `findNode`: 1 if the address is in the socket's list, and 0 otherwise. -/
def findNode (socket : Socket) (ll : ListOfLists) (toMac : Mac) : ℤ :=
  if (search socket (PathNode.leadsTo toMac) ll).isSome then 1 else 0

/-- `findFlow`: the flow of the pair of addresses in the socket's list, or `NULL`. -/
def findFlow (socket : Socket) (flows : ListOfFlows) (dstMac srcMac : Mac) : Option FlowNode :=
  search socket (FlowNode.joins dstMac srcMac) flows

/-- `findRemoveNode`: takes the first flow with the port out of the socket's list, and returns it,
or `NULL`. -/
def findRemoveNode (socket : Socket) (flows : ListOfFlows) (port : UInt16) :
    Option FlowNode × ListOfFlows :=
  remove socket (FlowNode.leadsOut port) flows

/-- The insertion that `addPathNode` and `addFlowNode` share: the return value, and the list that
the caller's pointer leads to afterwards. An empty list gets its first outer node through the
parameter `ll` alone, which is passed by value, so the caller's pointer stays `NULL`. -/
def addNode {ν : Type} (socket : Socket) (same : ν → Bool) (node : ν) (ll : List (Outer Socket ν)) :
    ℤ × List (Outer Socket ν) :=
  if (search socket same ll).isSome then (0, ll)
  else
    -- `ll` of the callee, of which the caller sees the changes only if it had a node.
    let param := insert socket node (if ll.isEmpty then [⟨socket, []⟩] else ll)
    (1, if ll.isEmpty then ll else param)

/-- `addPathNode`. -/
def addPathNode (socket : Socket) (ll : ListOfLists) (toMac : Mac) (port : UInt16) :
    ℤ × ListOfLists :=
  addNode socket (PathNode.leadsTo toMac) ⟨toMac, port⟩ ll

/-- `addFlowNode`. -/
def addFlowNode (socket : Socket) (flows : ListOfFlows) (dstMac srcMac : Mac) (port : UInt16) :
    ℤ × ListOfFlows :=
  addNode socket (FlowNode.joins dstMac srcMac) ⟨dstMac, srcMac, port⟩ flows

/-- `findPort` of `controller.c`: the port on which an address was seen, or 0. -/
def findPort (socket : Socket) (ll : ListOfLists) (mac : Mac) : UInt16 :=
  match search socket (PathNode.leadsTo mac) ll with
  | some node => node.port
  | none => 0

/-! ## What an insertion does -/

section AddNode

variable {ν : Type} {same : ν → Bool} {node : ν} {ll : List (Outer Socket ν)} {s s' : Socket}

/-- Nothing is inserted when the entry is there. -/
theorem addNode_of_found (h : (search s same ll).isSome = true) :
    addNode s same node ll = (0, ll) := if_pos h

/-- An entry that is not there is inserted into a list that the caller holds. -/
theorem addNode_of_not_found (h : ¬(search s same ll).isSome = true) (hne : ll ≠ []) :
    addNode s same node ll = (1, insert s node ll) := by
  have hempty : ¬ll.isEmpty = true := by simpa using hne
  unfold addNode
  simp only [if_neg h, if_neg hempty]

/-- The inner list of the socket after an insertion into a list that the caller holds. -/
theorem innerList_addNode_self (h : ll ≠ []) :
    innerList s (addNode s same node ll).2 = addAbsent same node (innerList s ll) := by
  unfold addNode addAbsent
  rw [search_eq]
  split_ifs with hf he
  · rfl
  · exact absurd (List.isEmpty_iff.mp he) h
  · exact innerList_insert_self s node ll

/-- No other socket's inner list changes. -/
theorem innerList_addNode_ne (hs : s' ≠ s) :
    innerList s' (addNode s same node ll).2 = innerList s' ll := by
  unfold addNode
  split_ifs with hf he
  · rfl
  · rfl
  · exact innerList_insert_ne hs node ll

/-- The sockets stay distinct. -/
theorem nodup_addNode (h : (ll.map Outer.key).Nodup) :
    ((addNode s same node ll).2.map Outer.key).Nodup := by
  unfold addNode
  split_ifs with hf he
  · exact h
  · exact h
  · exact nodup_insert node h

/-- A list that the caller holds does not become empty. -/
theorem addNode_ne_nil (h : ll ≠ []) : (addNode s same node ll).2 ≠ [] := by
  unfold addNode
  split_ifs with hf he
  · exact h
  · exact h
  · exact insert_ne_nil s node ll

end AddNode

end SdnController
