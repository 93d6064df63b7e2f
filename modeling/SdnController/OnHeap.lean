import SdnController.Controller
import SdnController.Lib.ListRemovals

/-!
# The two tables on the heap

The functions of `myGraph.c`, and those of `controller.c` that allocate and free, on the nodes that
they allocate: the structures point to each other on one heap, which both tables share, and the
globals `ll` and `flows` point to their first nodes. `smartalloc` fills a node with zeros, and ends
the process when there is no memory, so that every state that is reached comes from calls in which
it returned. `smartfree` of something that is not allocated only prints a message.

`call_spec` says all that a call does: it returns, keeps the shape of the two lists, and changes
what they hold as the functions of `MyGraph.lean` do. `session_spec` is what follows for any
sequence of calls from the two nodes that `handleConnections` allocates.
-/

namespace SdnController.OnHeap

open Exec KeyedLists LinkedLists

/-- A node of an inner list: `struct PathNode` or `struct FlowNode`, without its `next`. -/
inductive Node where
  | path (n : PathNode)
  | flow (n : FlowNode)
  deriving DecidableEq

/-- `struct ListOfLists` and `struct ListOfFlows` with their inner lists, on one heap. -/
abbrev TableHeap := Heap Socket Node

/-- The heap, and the globals that point into it. -/
structure Globals where
  heap : TableHeap
  ll : Link
  flows : Link
  deriving DecidableEq

/-- A program over the globals. -/
abbrev GlobalProg := Prog Unit Fault Globals HeapEvent

/-- A program over the heap, as one over the globals. -/
def onHeap {α : Type} (x : HeapProg Socket Node α) : GlobalProg α := fun e g =>
  ⟨(x e g.heap).ret, { g with heap := (x e g.heap).st }, (x e g.heap).events⟩

/-- The comparison of a node with an address. -/
def Node.leadsTo (toMac : Mac) : Node → Bool
  | .path n => n.leadsTo toMac
  | .flow _ => false

/-- The comparison of a node with a pair of addresses. -/
def Node.joins (dstMac srcMac : Mac) : Node → Bool
  | .path _ => false
  | .flow n => n.joins dstMac srcMac

/-- The comparison of a node with a port. -/
def Node.leadsOut (port : UInt16) : Node → Bool
  | .path _ => false
  | .flow n => n.leadsOut port

/-! ## The functions

Each takes the number of rounds that its loops may take. -/

/-- `findNode`. -/
def findNode (n : ℕ) (socket : Socket) (ll : Link) (toMac : Mac) : HeapProg Socket Node ℤ := do
  let found ← searchLists socket (Node.leadsTo toMac) n ll
  pure (if found.isSome then 1 else 0)

/-- `findFlow`. -/
def findFlow (n : ℕ) (socket : Socket) (flows : Link) (dstMac srcMac : Mac) :
    HeapProg Socket Node (Option Addr) :=
  searchLists socket (Node.joins dstMac srcMac) n flows

/-- `findPort`, on the list `ll`. -/
def findPort (n : ℕ) (socket : Socket) (ll : Link) (mac : Mac) : HeapProg Socket Node UInt16 := do
  let found ← searchLists socket (Node.leadsTo mac) n ll
  match found with
  | none => pure 0
  | some a => do
    let node ← inner a
    match node.value with
    | .path p => pure p.port
    | .flow _ => stop .dangling

/-- `findRemoveNode`. -/
def findRemoveNode (n : ℕ) (socket : Socket) (flows : Link) (port : UInt16) :
    HeapProg Socket Node (Option Addr) :=
  removeNode socket (Node.leadsOut port) n flows

/-- `addPathNode`. -/
def addPathNode (n : ℕ) (socket : Socket) (ll : Link) (toMac : Mac) (port : UInt16) :
    HeapProg Socket Node ℤ :=
  insertNode (Node.leadsTo toMac) socket (.path ⟨toMac, port⟩) n ll

/-- `addFlowNode`. -/
def addFlowNode (n : ℕ) (socket : Socket) (flows : Link) (dstMac srcMac : Mac) (port : UInt16) :
    HeapProg Socket Node ℤ :=
  insertNode (Node.joins dstMac srcMac) socket (.flow ⟨dstMac, srcMac, port⟩) n flows

/-- `removeFlow`, up to what it sends. A call whose `send` fails does not return. -/
def removeFlow (n : ℕ) (socket : Socket) (port : UInt16) : GlobalProg Unit := do
  let g ← getState
  let found ← onHeap (findRemoveNode n socket g.flows port)
  match found with
  | none => pure ()
  | some a => do
    -- The port and the addresses of the message are read from the node.
    let _ ← onHeap (inner a)
    onHeap (free a)

/-- `freeLL`. -/
def freeLL (n : ℕ) : GlobalProg Unit := do
  let g ← getState
  let ll ← onHeap (freeLists n g.ll)
  modifyState fun g => { g with ll := ll }

/-- `freeFlows`. -/
def freeFlows (n : ℕ) : GlobalProg Unit := do
  let g ← getState
  let flows ← onHeap (freeLists n g.flows)
  modifyState fun g => { g with flows := flows }

/-- `terminate`, between `close` and `exit`. -/
def terminate (n : ℕ) : GlobalProg Unit := do
  freeLL n
  freeFlows n

/-- The allocations of `handleConnections`: a zero-filled node for each table. -/
def allocateTables : GlobalProg Unit := do
  let ll ← onHeap (alloc (.outer ⟨0, none, none⟩))
  modifyState fun g => { g with ll := some ll }
  let flows ← onHeap (alloc (.outer ⟨0, none, none⟩))
  modifyState fun g => { g with flows := some flows }

/-- A call that changes a table. -/
inductive Call where
  | addPathNode (socket : Socket) (toMac : Mac) (port : UInt16)
  | addFlowNode (socket : Socket) (dstMac srcMac : Mac) (port : UInt16)
  | removeFlow (socket : Socket) (port : UInt16)

/-- The program of a call, with the globals as its lists. -/
def call (n : ℕ) : Call → GlobalProg Unit
  | .addPathNode socket toMac port => do
    let g ← getState
    let _ ← onHeap (addPathNode n socket g.ll toMac port)
    pure ()
  | .addFlowNode socket dstMac srcMac port => do
    let g ← getState
    let _ ← onHeap (addFlowNode n socket g.flows dstMac srcMac port)
    pure ()
  | .removeFlow socket port => removeFlow n socket port

/-- A sequence of calls, from the allocation of the tables on. -/
def session (n : ℕ) (cs : List Call) : Outcome Fault Globals HeapEvent Unit :=
  (allocateTables () ⟨⟨[]⟩, none, none⟩).andThen fun _ g => run (fun c => call n c ()) cs g

/-! ## What the tables hold -/

/-- The contents of the two tables. -/
structure Tables where
  ll : ListOfLists
  flows : ListOfFlows

/-- What a call does to the contents. -/
def Call.onTables (t : Tables) : Call → Tables
  | .addPathNode socket toMac port =>
    { t with ll := (SdnController.addPathNode socket t.ll toMac port).2 }
  | .addFlowNode socket dstMac srcMac port =>
    { t with flows := (SdnController.addFlowNode socket t.flows dstMac srcMac port).2 }
  | .removeFlow socket port =>
    { t with flows := (SdnController.findRemoveNode socket t.flows port).2 }

/-- The globals lead to two lists that hold the contents of the tables and have, between them, all
the blocks that are not freed. -/
structure Holds (g : Globals) (w : List HeapEvent) (t : Tables)
    (ll flows : List (Cell Socket Node)) : Prop where
  owned : Owned g.heap w g.ll g.flows ll flows
  ll_values : values ll = t.ll.map (Outer.map Node.path)
  flows_values : values flows = t.flows.map (Outer.map Node.flow)
  ll_ne : t.ll ≠ []
  flows_ne : t.flows ≠ []

section Calls

variable {g : Globals} {w : List HeapEvent} {t : Tables} {ll flows : List (Cell Socket Node)}

/-- A program over the heap that returns, as one over the globals. -/
theorem onHeap_apply {α : Type} {x : HeapProg Socket Node α} {a : α} {h : TableHeap}
    {w : List HeapEvent} (hx : x () g.heap = ⟨.ok a, h, w⟩) :
    onHeap x () g = ⟨.ok a, { g with heap := h }, w⟩ := by
  unfold onHeap
  rw [hx]

/-- What the two insertions have in common: on a list that the caller holds, the insertion on the
heap returns what `addNode` does, and leaves what it leaves. -/
theorem insertNode_holds {ν : Type} {f : ν → Node} {same : ν → Bool} {same' : Node → Bool}
    (hsame : same' ∘ f = same) (socket : Socket) (v : ν) {L : List (Outer Socket ν)} {p q : Link}
    {h : TableHeap} {l m : List (Cell Socket Node)} (ho : Owned h w p q l m)
    (hL : values l = L.map (Outer.map f)) (hne : L ≠ []) :
    ∃ h' w' l', (∀ n, h.size ≤ n → insertNode same' socket (f v) n p () h =
        ⟨.ok (addNode socket same v L).1, h', w'⟩) ∧
      Owned h' (w ++ w') p q l' m ∧
      values l' = (addNode socket same v L).2.map (Outer.map f) := by
  have hsearch : (search socket same' (values l)).isSome = (search socket same L).isSome := by
    rw [hL, search_map, hsame, Option.isSome_map]
  cases hfound : (search socket same L).isSome with
  | true =>
    rw [hfound] at hsearch
    rw [addNode_of_found hfound]
    refine ⟨h, [], l, fun n hn => ?_, ?_, hL⟩
    · exact insertNode_found (f v) ho.left (ho.length_le.trans hn) hsearch
    · rw [List.append_nil]
      exact ho
  | false =>
    rw [hfound] at hsearch
    rw [addNode_of_not_found (by simp [hfound]) hne]
    -- The caller's pointer leads to a node, since the list holds one.
    obtain ⟨a, rfl⟩ : ∃ a, p = some a := by
      refine ho.left.exists_addr fun hl => hne ?_
      rw [hl] at hL
      exact List.map_eq_nil_iff.mp hL.symm
    obtain ⟨h', w', l', hrun, hl', hvalues, hchanged⟩ :=
      insertNode_absent (e := ()) (f v) ho.left ho.nodup_left hsearch
    refine ⟨h', w', l', fun n hn => hrun n (ho.length_le.trans hn), ho.step hl' hchanged, ?_⟩
    rw [hvalues, hL, insert_map]

/-- A removal on the heap takes out what it takes out of the contents, and frees its node. -/
theorem removeFlow_holds (hg : Holds g w t ll flows) (socket : Socket) (port : UInt16) :
    ∃ g' w' flows', (∀ n, g.heap.size ≤ n → removeFlow n socket port () g = ⟨.ok (), g', w'⟩) ∧
      Holds g' (w ++ w')
        { t with flows := (SdnController.findRemoveNode socket t.flows port).2 } ll flows' := by
  have howned := hg.owned.symm
  have hremove : remove socket (Node.leadsOut port) (values flows) =
      ((SdnController.findRemoveNode socket t.flows port).1.map Node.flow,
        (SdnController.findRemoveNode socket t.flows port).2.map (Outer.map Node.flow)) := by
    rw [hg.flows_values, remove_map]
    rfl
  have hne : (SdnController.findRemoveNode socket t.flows port).2 ≠ [] := by
    unfold SdnController.findRemoveNode
    exact remove_ne_nil hg.flows_ne
  rcases removeNode_spec (e := ()) (k := socket) (p := Node.leadsOut port) howned.left
    howned.nodup_left with ⟨hrun, hnone⟩ | ⟨x, h', flows', hrun, hu⟩
  · rw [remove_of_not_found hnone] at hremove
    refine ⟨g, [], flows, fun n hn => ?_, ?_⟩
    · simp only [removeFlow, findRemoveNode, bind_apply, getState_apply, Outcome.andThen_ok,
        onHeap_apply (hrun n (howned.length_le.trans hn)), pure_apply, List.nil_append]
    · rw [List.append_nil]
      exact ⟨hg.owned, hg.ll_values, congrArg Prod.snd hremove, hg.ll_ne, hne⟩
  · -- The node that was found is read, and then freed.
    obtain ⟨hlists, hchanged⟩ := hu.freed howned.nodup_left
    obtain ⟨next, hnode⟩ := hu.node
    have hread : onHeap (inner x.1) () { g with heap := h' } =
        ⟨.ok ⟨x.2, next⟩, { g with heap := h' }, []⟩ := onHeap_apply (inner_apply hnode)
    have hfree : onHeap (free x.1) () { g with heap := h' } =
        ⟨.ok (), { g with heap := h'.put x.1 none }, [.free x.1]⟩ := onHeap_apply free_apply
    refine ⟨{ g with heap := h'.put x.1 none }, [.free x.1], flows', fun n hn => ?_,
      ⟨(howned.step hlists hchanged).symm, hg.ll_values, ?_, hg.ll_ne, hne⟩⟩
    · simp only [removeFlow, findRemoveNode, bind_apply, getState_apply, Outcome.andThen_ok,
        onHeap_apply (hrun n (howned.length_le.trans hn)), hread, hfree, List.nil_append]
    · rw [hu.values_eq, hremove]

/-- A call returns, when its loops may take as many rounds as there are blocks, and more rounds
change nothing. It changes the contents of the tables as the functions on lists do. -/
theorem call_spec (hg : Holds g w t ll flows) (c : Call) :
    ∃ g' w' ll' flows', (∀ n, g.heap.size ≤ n → call n c () g = ⟨.ok (), g', w'⟩) ∧
      Holds g' (w ++ w') (c.onTables t) ll' flows' := by
  -- Each call changes one list, and the other one is not touched.
  cases c with
  | addPathNode socket toMac port =>
    obtain ⟨h', w', ll', hrun, howned, hvalues⟩ := insertNode_holds
      (show Node.leadsTo toMac ∘ Node.path = PathNode.leadsTo toMac from rfl) socket
      ⟨toMac, port⟩ hg.owned hg.ll_values hg.ll_ne
    refine ⟨{ g with heap := h' }, w', ll', flows, fun n hn => ?_,
      ⟨howned, hvalues, hg.flows_values, addNode_ne_nil hg.ll_ne, hg.flows_ne⟩⟩
    simp only [call, addPathNode, bind_apply, getState_apply, Outcome.andThen_ok,
      onHeap_apply (hrun n hn), pure_apply, List.nil_append, List.append_nil]
  | addFlowNode socket dstMac srcMac port =>
    obtain ⟨h', w', flows', hrun, howned, hvalues⟩ := insertNode_holds
      (show Node.joins dstMac srcMac ∘ Node.flow = FlowNode.joins dstMac srcMac from rfl) socket
      ⟨dstMac, srcMac, port⟩ hg.owned.symm hg.flows_values hg.flows_ne
    refine ⟨{ g with heap := h' }, w', ll, flows', fun n hn => ?_,
      ⟨howned.symm, hg.ll_values, hvalues, hg.ll_ne, addNode_ne_nil hg.flows_ne⟩⟩
    simp only [call, addFlowNode, bind_apply, getState_apply, Outcome.andThen_ok,
      onHeap_apply (hrun n hn), pure_apply, List.nil_append, List.append_nil]
  | removeFlow socket port =>
    obtain ⟨g', w', flows', hrun, hholds⟩ := removeFlow_holds hg socket port
    exact ⟨g', w', ll, flows', hrun, hholds⟩

/-! ## Searches -/

/-- `findNode` on the heap finds what it finds in the contents. -/
theorem findNode_spec (hg : Holds g w t ll flows) (socket : Socket) (toMac : Mac) {n : ℕ}
    (hn : g.heap.size ≤ n) :
    findNode n socket g.ll toMac () g.heap =
      ⟨.ok (SdnController.findNode socket t.ll toMac), g.heap, []⟩ := by
  have hfound : (search socket (Node.leadsTo toMac) (values ll)).isSome =
      (search socket (PathNode.leadsTo toMac) t.ll).isSome := by
    rw [hg.ll_values, search_map, Option.isSome_map]
    rfl
  rw [search_values, Option.isSome_map] at hfound
  unfold findNode SdnController.findNode
  rw [bind_apply, searchLists_apply hg.owned.left (hg.owned.length_le.trans hn),
    Outcome.andThen_ok, Option.isSome_map, hfound]
  rfl

/-- `findFlow` on the heap finds a node with the flow that it finds in the contents. -/
theorem findFlow_spec (hg : Holds g w t ll flows) (socket : Socket) (dstMac srcMac : Mac) :
    ∃ found : Option (Addr × Node), (∀ n, g.heap.size ≤ n →
        findFlow n socket g.flows dstMac srcMac () g.heap =
          ⟨.ok (found.map Prod.fst), g.heap, []⟩) ∧
      found.map Prod.snd = (SdnController.findFlow socket t.flows dstMac srcMac).map Node.flow := by
  refine ⟨_, fun n hn => searchLists_apply hg.owned.right (hg.owned.symm.length_le.trans hn), ?_⟩
  rw [← search_values, hg.flows_values, search_map]
  rfl

/-- `findPort` on the heap finds what it finds in the contents. -/
theorem findPort_spec (hg : Holds g w t ll flows) (socket : Socket) (mac : Mac) {n : ℕ}
    (hn : g.heap.size ≤ n) :
    findPort n socket g.ll mac () g.heap =
      ⟨.ok (SdnController.findPort socket t.ll mac), g.heap, []⟩ := by
  have hfound : ((innerOf socket ll).find? (Node.leadsTo mac ·.2)).map Prod.snd =
      (search socket (PathNode.leadsTo mac) t.ll).map Node.path := by
    rw [← search_values, hg.ll_values, search_map]
    rfl
  unfold findPort SdnController.findPort
  rw [bind_apply, searchLists_apply hg.owned.left (hg.owned.length_le.trans hn),
    Outcome.andThen_ok]
  cases hx : (innerOf socket ll).find? (Node.leadsTo mac ·.2) with
  | none =>
    rw [hx] at hfound
    rw [Option.map_eq_none_iff.mp hfound.symm]
    rfl
  | some x =>
    rw [hx] at hfound
    obtain ⟨p, hp, hvalue⟩ := Option.map_eq_some_iff.mp hfound.symm
    obtain ⟨next, hnode⟩ := hg.owned.left.get_innerOf (List.mem_of_find?_eq_some hx)
    simp only [Option.map_some, hp, bind_apply, inner_apply hnode, Outcome.andThen_ok, ← hvalue,
      pure_apply, List.nil_append]

end Calls

/-! ## Sequences of calls -/

/-- The contents of the tables after a sequence of calls. -/
def tablesAfter (cs : List Call) : Tables := cs.foldl Call.onTables ⟨initial.ll, initial.flows⟩

/-- One more call. -/
theorem session_concat {n : ℕ} {cs : List Call} {c : Call} {g g' : Globals} {w w' : List HeapEvent}
    (h : session n cs = ⟨.ok (), g, w⟩) (hc : call n c () g = ⟨.ok (), g', w'⟩) :
    session n (cs ++ [c]) = ⟨.ok (), g', w ++ w'⟩ := by
  have happend : session n (cs ++ [c]) =
      (session n cs).andThen fun _ g => run (fun c => call n c ()) [c] g := by
    unfold session
    rw [Outcome.andThen_assoc]
    congr 1
    funext _ g
    exact run_append cs [c] g
  rw [happend, h]
  simp [run, hc]

/-- Every sequence of calls returns, when its loops may take rounds enough, and leaves two lists
that have all blocks between them and hold what the functions on lists leave. -/
theorem session_spec (cs : List Call) :
    ∃ g w ll flows, (∃ N, ∀ n, N ≤ n → session n cs = ⟨.ok (), g, w⟩) ∧
      Holds g w (tablesAfter cs) ll flows := by
  induction cs using List.reverseRecOn with
  | nil =>
    -- The two nodes that `handleConnections` allocates.
    refine ⟨⟨⟨[some (.outer ⟨0, none, none⟩), some (.outer ⟨0, none, none⟩)]⟩, some 0, some 1⟩,
      [.alloc 0, .alloc 1], [⟨0, 0, []⟩], [⟨1, 0, []⟩], ⟨0, fun _ _ => rfl⟩, ?_⟩
    have hleft : ListsAt (⟨[some (.outer ⟨0, none, none⟩), some (.outer ⟨0, none, none⟩)]⟩ :
        TableHeap) (some 0) [⟨0, 0, []⟩] := ⟨rfl, none, none, rfl, rfl, rfl⟩
    have hright : ListsAt (⟨[some (.outer ⟨0, none, none⟩), some (.outer ⟨0, none, none⟩)]⟩ :
        TableHeap) (some 1) [⟨1, 0, []⟩] := ⟨rfl, none, none, rfl, rfl, rfl⟩
    exact ⟨⟨hleft, hright, .refl _, rfl⟩, rfl, rfl, by decide, by decide⟩
  | append_singleton cs c ih =>
    obtain ⟨g, w, ll, flows, ⟨N, hN⟩, hg⟩ := ih
    obtain ⟨g', w', ll', flows', hrun, hg'⟩ := call_spec hg c
    refine ⟨g', w ++ w', ll', flows', ⟨max N g.heap.size, fun n hn => ?_⟩, ?_⟩
    · exact session_concat (hN n (le_of_max_le_left hn)) (hrun n (le_of_max_le_right hn))
    · unfold tablesAfter at hg' ⊢
      rw [List.foldl_concat]
      exact hg'

/-- Two flows of a new socket, and the removal of the first: the node of the flow is freed, and
nothing else. -/
example :
    frees (session 4 [.addFlowNode 4 ⟨2, 0, 0, 0, 0, 1⟩ ⟨2, 0, 0, 0, 0, 2⟩ 1,
      .addFlowNode 4 ⟨2, 0, 0, 0, 0, 2⟩ ⟨2, 0, 0, 0, 0, 1⟩ 2, .removeFlow 4 1]).events = [3] := by
  decide

end SdnController.OnHeap
