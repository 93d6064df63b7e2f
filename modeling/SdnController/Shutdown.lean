import SdnController.OnHeap

/-!
# The shape of the tables, and the shutdown

What a reached state's pointers are like (`Sound`): no path of pointers from `ll` or `flows` comes
back to a node, no two lead to the same one, and none leads to a node that was freed. So every loop
along them ends (`Traversable`), and `terminate` frees every node that is left, each once, and
leaves both globals `NULL` (`ShutsDown`).
-/

namespace SdnController.OnHeap

open Exec KeyedLists LinkedLists

/-- With rounds enough a program returns, and more rounds change nothing. -/
def Terminates {σ α : Type} (x : ℕ → Prog Unit Fault σ HeapEvent α) (s : σ) : Prop :=
  ∃ a s' w, ∃ N, ∀ n, N ≤ n → x n () s = ⟨.ok a, s', w⟩

/-- The globals that the nodes are reached from. -/
inductive Root where
  | ll
  | flows
  deriving DecidableEq

/-- The pointer in a global. -/
def Globals.root (g : Globals) : Root → Link
  | .ll => g.ll
  | .flows => g.flows

/-- Where a path of pointers leads from a global. -/
def Globals.reach (g : Globals) (r : Root) (path : List Field) : Link :=
  g.heap.follow (g.root r) path

/-- The nodes that are reached from the globals, after a trace of allocations: each by one path, by
none that comes back to it, and none that was freed. -/
structure Sound (g : Globals) (w : List HeapEvent) : Prop where
  onePath : ∀ r r' path path' a, g.reach r path = some a → g.reach r' path' = some a →
    r = r' ∧ path = path'
  acyclic : ∀ r path a cycle, g.reach r path = some a → g.heap.follow (some a) cycle = some a →
    cycle = []
  notFreed : ∀ r path a, g.reach r path = some a →
    a ∈ allocs w ∧ a ∉ frees w ∧ (g.heap.get a).isSome = true

/-- Every loop along the lists ends. -/
structure Traversable (g : Globals) : Prop where
  findNode : ∀ socket toMac, Terminates (findNode · socket g.ll toMac) g.heap
  findFlow : ∀ socket dstMac srcMac, Terminates (findFlow · socket g.flows dstMac srcMac) g.heap
  findPort : ∀ socket mac, Terminates (findPort · socket g.ll mac) g.heap
  findRemoveNode : ∀ socket port, Terminates (findRemoveNode · socket g.flows port) g.heap
  addPathNode : ∀ socket toMac port, Terminates (addPathNode · socket g.ll toMac port) g.heap
  addFlowNode : ∀ socket dstMac srcMac port,
    Terminates (addFlowNode · socket g.flows dstMac srcMac port) g.heap

/-- `terminate` returns, without touching a freed node, and has then freed all that was allocated
and not freed before, each once. -/
def ShutsDown (g : Globals) (w : List HeapEvent) : Prop :=
  ∃ g' w', (∃ N, ∀ n, N ≤ n → terminate n () g = ⟨.ok (), g', w'⟩) ∧
    g'.ll = none ∧ g'.flows = none ∧ allocs w' = [] ∧
    (frees w').Nodup ∧ (frees w').Perm ((allocs w).filter (· ∉ frees w))

section Holds

variable {g : Globals} {w : List HeapEvent} {t : Tables} {ll flows : List (Cell Socket Node)}

/-- The list behind a global. -/
theorem Holds.list_at (hg : Holds g w t ll flows) (r : Root) :
    ∃ l, ListsAt g.heap (g.root r) l ∧ (blocks l).Nodup ∧
      ∀ a ∈ blocks l, a ∈ allocs w ∧ a ∉ frees w := by
  cases r with
  | ll => exact ⟨ll, hg.owned.left, hg.owned.nodup_left, fun _ => hg.owned.not_freed⟩
  | flows =>
    exact ⟨flows, hg.owned.right, hg.owned.symm.nodup_left, fun _ => hg.owned.symm.not_freed⟩

/-- No node is reached from both globals. -/
theorem Holds.root_eq (hg : Holds g w t ll flows) {r r' : Root} {path path' : List Field}
    {a : Addr} (h : g.reach r path = some a) (h' : g.reach r' path' = some a) : r = r' := by
  have hapart : ∀ {path path' : List Field}, g.reach .ll path = some a →
      g.reach .flows path' ≠ some a := fun hll hflows =>
    hg.owned.apart (hg.owned.left.mem_of_follow hll) (hg.owned.right.mem_of_follow hflows)
  cases r with
  | ll =>
    cases r' with
    | ll => rfl
    | flows => exact absurd h' (hapart h)
  | flows =>
    cases r' with
    | ll => exact absurd h (hapart h')
    | flows => rfl

/-- No node is reached by two paths. -/
theorem Holds.path_eq (hg : Holds g w t ll flows) {r r' : Root} {path path' : List Field}
    {a : Addr} (h : g.reach r path = some a) (h' : g.reach r' path' = some a) :
    r = r' ∧ path = path' := by
  obtain rfl := hg.root_eq h h'
  obtain ⟨l, hl, hnodup, -⟩ := hg.list_at r
  exact ⟨rfl, hl.follow_injective hnodup h h'⟩

/-- The nodes of two lists that have all blocks between them are reached soundly. -/
theorem Holds.sound (hg : Holds g w t ll flows) : Sound g w where
  onePath := fun _ _ _ _ _ h h' => hg.path_eq h h'
  acyclic := by
    intro r path a cycle h hcycle
    -- The path and the path with the cycle lead to the same node.
    have hlonger : g.reach r (path ++ cycle) = some a := by
      unfold Globals.reach at h ⊢
      rw [Heap.follow_append, h, hcycle]
    have hpaths := (hg.path_eq hlonger h).2
    exact List.append_right_eq_self.mp hpaths
  notFreed := by
    intro r path a h
    obtain ⟨l, hl, -, hfreed⟩ := hg.list_at r
    have hin := hl.mem_of_follow h
    exact ⟨(hfreed a hin).1, (hfreed a hin).2, hl.get_isSome hin⟩

/-- The loops along these lists end. -/
theorem Holds.traversable (hg : Holds g w t ll flows) : Traversable g where
  findNode := fun _ _ => ⟨_, _, _, _, fun _ hn => findNode_spec hg _ _ hn⟩
  findFlow := by
    intro socket dstMac srcMac
    obtain ⟨found, hrun, -⟩ := findFlow_spec hg socket dstMac srcMac
    exact ⟨_, _, _, _, hrun⟩
  findPort := fun _ _ => ⟨_, _, _, _, fun _ hn => findPort_spec hg _ _ hn⟩
  findRemoveNode := by
    intro socket port
    rcases removeNode_spec (e := ()) (k := socket) (p := Node.leadsOut port) hg.owned.right
      hg.owned.symm.nodup_left with ⟨hrun, -⟩ | ⟨x, h', l', hrun, -⟩
    · exact ⟨_, _, _, _, hrun⟩
    · exact ⟨_, _, _, _, hrun⟩
  addPathNode := by
    intro socket toMac port
    obtain ⟨h', w', l', hrun, -⟩ := insertNode_holds
      (show Node.leadsTo toMac ∘ Node.path = PathNode.leadsTo toMac from rfl) socket
      ⟨toMac, port⟩ hg.owned hg.ll_values hg.ll_ne
    exact ⟨_, _, _, _, hrun⟩
  addFlowNode := by
    intro socket dstMac srcMac port
    obtain ⟨h', w', l', hrun, -⟩ := insertNode_holds
      (show Node.joins dstMac srcMac ∘ Node.flow = FlowNode.joins dstMac srcMac from rfl) socket
      ⟨dstMac, srcMac, port⟩ hg.owned.symm hg.flows_values hg.flows_ne
    exact ⟨_, _, _, _, hrun⟩

/-- The two loops of `terminate` free two lists that have all nodes between them, one after the
other. -/
theorem terminate_apply (ho : Owned g.heap w g.ll g.flows ll flows) :
    ∃ h', ∀ n, g.heap.size ≤ n → terminate n () g = ⟨.ok (), ⟨h', none, none⟩,
      (freeOrder ll ++ freeOrder flows).map .free⟩ := by
  obtain ⟨h₁, hrun₁, -, -, hframe₁⟩ := freeLists_spec (e := ()) ho.left ho.nodup_left
  -- The second list is still there after the first one is freed.
  have hflows : ListsAt h₁ g.flows flows := ho.right.congr fun a ha =>
    hframe₁ a (ho.symm.apart ha)
  obtain ⟨h₂, hrun₂, -⟩ := freeLists_spec (e := ()) hflows ho.symm.nodup_left
  refine ⟨h₂, fun n hn => ?_⟩
  have hll := onHeap_apply (hrun₁ n (ho.length_le.trans hn))
  have hfl : onHeap (freeLists n g.flows) () ⟨h₁, none, g.flows⟩ =
      ⟨.ok none, ⟨h₂, none, g.flows⟩, (freeOrder flows).map .free⟩ :=
    onHeap_apply (hrun₂ n (ho.symm.length_le.trans hn))
  simp only [terminate, freeLL, freeFlows, bind_apply, getState_apply, Outcome.andThen_ok, hll,
    modifyState_apply, hfl, List.nil_append, List.append_nil, List.map_append]

/-- What they free is all that the lists have. -/
theorem freeOrders_perm (ll flows : List (Cell Socket Node)) :
    (freeOrder ll ++ freeOrder flows).Perm (blocks ll ++ blocks flows) :=
  (freeOrder_perm ll).append (freeOrder_perm flows)

/-- The nodes that are left are freed, each once. -/
theorem shutsDown_of_owned (ho : Owned g.heap w g.ll g.flows ll flows) : ShutsDown g w := by
  obtain ⟨h', hrun⟩ := terminate_apply ho
  have hperm := freeOrders_perm ll flows
  refine ⟨⟨h', none, none⟩, _, ⟨g.heap.size, hrun⟩, rfl, rfl, allocs_map_free _, ?_, ?_⟩
  · rw [frees_map_free, hperm.nodup_iff]
    exact (List.nodup_append.mp ho.nodup).2.1
  · rw [frees_map_free]
    exact hperm.trans ho.unfreed

end Holds

/-- In every state that a sequence of calls leads to, the nodes are reached soundly, the loops along
the lists end, and `terminate` frees what is left. -/
theorem tables_shut_down (cs : List Call) :
    ∃ g w, (∃ N, ∀ n, N ≤ n → session n cs = ⟨.ok (), g, w⟩) ∧
      Sound g w ∧ Traversable g ∧ ShutsDown g w := by
  obtain ⟨g, w, ll, flows, hrun, hg⟩ := session_spec cs
  exact ⟨g, w, hrun, hg.sound, hg.traversable, shutsDown_of_owned hg.owned⟩

end SdnController.OnHeap
