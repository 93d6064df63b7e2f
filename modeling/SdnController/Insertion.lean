import SdnController.MyGraph

/-!
# Insert-if-absent

What the caller of `addPathNode` and of `addFlowNode` gets, for any list that it holds: nothing when
the entry is there already, and otherwise the new entry and no other change (`PathAdded`,
`FlowAdded`). The two are one insertion (`Added`), and a caller gets it from every list but the
empty one: the first node of an empty list is hung on the function's own copy of the head pointer,
and the caller's stays `NULL` (`insert_if_absent`).
-/

namespace SdnController

open KeyedLists

/-! ## One insertion -/

/-- The outcome `r` of inserting `node` for a socket in a list: the return value, and the list that
the caller then has. -/
structure Added {ν : Type} (s : Socket) (same : ν → Bool) (node : ν) (ll : List (Outer Socket ν))
    (r : ℤ × List (Outer Socket ν)) : Prop where
  /-- The return value is 0 or 1, and 0 exactly when the entry was there. -/
  returns : r.1 = if (search s same ll).isSome then 0 else 1
  /-- Nothing changes when the entry was there. -/
  kept : r.1 = 0 → r.2 = ll
  /-- Otherwise the entry is there afterwards, -/
  found : r.1 = 1 → search s same r.2 = some node
  /-- every search for another socket or another entry finds what it found before, -/
  others : r.1 = 1 → ∀ s' p, s' ≠ s ∨ p node = false → search s' p r.2 = search s' p ll
  /-- and the nodes of all other sockets are the same, in the same order. -/
  frame : r.1 = 1 → r.2.filter (·.key ≠ s) = ll.filter (·.key ≠ s)

section AddNode

variable {ν : Type} {s : Socket} {same : ν → Bool} {node : ν} {ll : List (Outer Socket ν)}

/-- An insertion into a list that the caller holds. -/
theorem added_addNode (h : ll ≠ []) (hnode : same node = true) :
    Added s same node ll (addNode s same node ll) := by
  by_cases hs : (search s same ll).isSome = true
  · rw [addNode_of_found hs]
    exact ⟨(if_pos hs).symm, fun _ => rfl, nofun, nofun, nofun⟩
  · rw [addNode_of_not_found hs h]
    refine ⟨(if_neg hs).symm, nofun, fun _ => ?_, fun _ s' p hne => ?_,
      fun _ => filter_insert s node ll⟩
    · rw [search_eq, innerList_insert_self, List.find?_cons_of_pos hnode]
    · rw [search_eq, search_eq]
      rcases hne with hne | hp
      · rw [innerList_insert_ne hne]
      by_cases hs' : s' = s
      · rw [hs', innerList_insert_self, List.find?_cons_of_neg (by simp [hp])]
      · rw [innerList_insert_ne hs']

end AddNode

/-! ## The two tables -/

/-- `addPathNode` inserts the port of an address if the address is absent. -/
structure PathAdded (s : Socket) (ll : ListOfLists) (toMac : Mac) (port : UInt16) : Prop where
  zero_iff : (addPathNode s ll toMac port).1 = 0 ↔ findNode s ll toMac = 1
  kept : (addPathNode s ll toMac port).1 = 0 → (addPathNode s ll toMac port).2 = ll
  one : (addPathNode s ll toMac port).1 ≠ 0 → (addPathNode s ll toMac port).1 = 1
  found : (addPathNode s ll toMac port).1 = 1 →
    findNode s (addPathNode s ll toMac port).2 toMac = 1 ∧
      findPort s (addPathNode s ll toMac port).2 toMac = port
  others : (addPathNode s ll toMac port).1 = 1 → ∀ s' a, ¬(s' = s ∧ a = toMac) →
    findNode s' (addPathNode s ll toMac port).2 a = findNode s' ll a ∧
      findPort s' (addPathNode s ll toMac port).2 a = findPort s' ll a
  frame : (addPathNode s ll toMac port).1 = 1 →
    (addPathNode s ll toMac port).2.filter (·.key ≠ s) = ll.filter (·.key ≠ s)

/-- `addFlowNode` inserts the flow of a pair of addresses if the pair is absent. -/
structure FlowAdded (s : Socket) (flows : ListOfFlows) (dstMac srcMac : Mac) (port : UInt16) :
    Prop where
  zero_iff : (addFlowNode s flows dstMac srcMac port).1 = 0 ↔
    (findFlow s flows dstMac srcMac).isSome = true
  kept : (addFlowNode s flows dstMac srcMac port).1 = 0 →
    (addFlowNode s flows dstMac srcMac port).2 = flows
  one : (addFlowNode s flows dstMac srcMac port).1 ≠ 0 →
    (addFlowNode s flows dstMac srcMac port).1 = 1
  found : (addFlowNode s flows dstMac srcMac port).1 = 1 →
    findFlow s (addFlowNode s flows dstMac srcMac port).2 dstMac srcMac =
      some ⟨dstMac, srcMac, port⟩
  others : (addFlowNode s flows dstMac srcMac port).1 = 1 →
    ∀ s' d a, ¬(s' = s ∧ d = dstMac ∧ a = srcMac) →
      findFlow s' (addFlowNode s flows dstMac srcMac port).2 d a = findFlow s' flows d a
  frame : (addFlowNode s flows dstMac srcMac port).1 = 1 →
    (addFlowNode s flows dstMac srcMac port).2.filter (·.key ≠ s) = flows.filter (·.key ≠ s)

/-- The return value of an insertion, as a case distinction on whether the entry was there. -/
theorem Added.returns_iff {ν : Type} {s : Socket} {same : ν → Bool} {node : ν}
    {ll : List (Outer Socket ν)} {r : ℤ × List (Outer Socket ν)} (h : Added s same node ll r) :
    (r.1 = 0 ↔ (search s same ll).isSome = true) ∧ (r.1 ≠ 0 → r.1 = 1) := by
  rw [h.returns]
  split_ifs with hs <;> simp [hs]

/-- A path is added to every list but the empty one. -/
theorem pathAdded_iff (s : Socket) (ll : ListOfLists) (toMac : Mac) (port : UInt16) :
    PathAdded s ll toMac port ↔ ll ≠ [] := by
  constructor
  · rintro h rfl
    exact absurd (h.found rfl).1 (by simp [addPathNode, addNode, search, findNode])
  · intro hne
    have h : Added s (PathNode.leadsTo toMac) ⟨toMac, port⟩ ll (addPathNode s ll toMac port) :=
      added_addNode hne (by simp [PathNode.leadsTo])
    refine ⟨?_, h.kept, h.returns_iff.2, fun h1 => ?_, fun h1 s' a hne => ?_, h.frame⟩
    · rw [h.returns_iff.1]
      unfold findNode
      split_ifs with hs <;> simp [hs]
    · unfold findNode findPort
      rw [h.found h1]
      simp
    · have ho : search s' (PathNode.leadsTo a) (addPathNode s ll toMac port).2 =
          search s' (PathNode.leadsTo a) ll := by
        refine h.others h1 s' _ ?_
        by_cases hs : s' = s
        · exact .inr (by simpa [PathNode.leadsTo] using fun ha => hne ⟨hs, ha.symm⟩)
        · exact .inl hs
      unfold findNode findPort
      rw [ho]
      exact ⟨rfl, rfl⟩

/-- A flow is added to every list but the empty one. -/
theorem flowAdded_iff (s : Socket) (flows : ListOfFlows) (dstMac srcMac : Mac) (port : UInt16) :
    FlowAdded s flows dstMac srcMac port ↔ flows ≠ [] := by
  constructor
  · rintro h rfl
    exact absurd (h.found rfl) (by simp [addFlowNode, addNode, search, findFlow])
  · intro hne
    have h : Added s (FlowNode.joins dstMac srcMac) ⟨dstMac, srcMac, port⟩ flows
        (addFlowNode s flows dstMac srcMac port) :=
      added_addNode hne (by simp [FlowNode.joins])
    refine ⟨h.returns_iff.1, h.kept, h.returns_iff.2, h.found, fun h1 s' d a hne => ?_, h.frame⟩
    refine h.others h1 s' _ ?_
    by_cases hs : s' = s
    · refine .inr ?_
      simpa [FlowNode.joins] using fun hd ha => hne ⟨hs, hd.symm, ha.symm⟩
    · exact .inl hs

/-- Both functions insert if absent, for their caller, into every list that is not empty, and into
no list that is. -/
theorem insert_if_absent (s : Socket) (port : UInt16) :
    (∀ ll toMac, PathAdded s ll toMac port ↔ ll ≠ []) ∧
      ∀ flows dstMac srcMac, FlowAdded s flows dstMac srcMac port ↔ flows ≠ [] :=
  ⟨fun ll toMac => pathAdded_iff s ll toMac port,
    fun flows dstMac srcMac => flowAdded_iff s flows dstMac srcMac port⟩

/-- The first entry of an empty list is reported as added, and not found afterwards. -/
theorem insert_lost_nil :
    let a : Mac := ⟨2, 0, 0, 0, 0, 1⟩
    ((addPathNode 4 [] a 1).1 = 1 ∧ findNode 4 (addPathNode 4 [] a 1).2 a = 0) ∧
      (addFlowNode 4 [] a a 1).1 = 1 ∧ findFlow 4 (addFlowNode 4 [] a a 1).2 a a = none :=
  ⟨⟨rfl, rfl⟩, rfl, rfl⟩

end SdnController
