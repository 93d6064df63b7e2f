import SdnController.OnHeap

/-!
# The removal of a flow from its list

`findRemoveNode` on the nodes that it walks over. It takes a node out at the head of an inner list
in one way and behind another node in another way, where the node before it is known from the loop
that passed it. `findRemoveNode_unlinks` says that both come to the same: the first node with the
port is gone from the list of its socket, and no other node has moved.
-/

namespace SdnController.OnHeap

open Exec LinkedLists

/-- A node is a flow out of a port. -/
def Node.IsFlowOut (port : UInt16) (n : Node) : Prop := ∃ f, n = .flow f ∧ f.port = port

/-- The comparison of a node with a port says whether it is a flow out of it. -/
theorem Node.leadsOut_iff (port : UInt16) (n : Node) :
    n.leadsOut port = true ↔ n.IsFlowOut port := by
  cases n with
  | path n => simp [Node.leadsOut, Node.IsFlowOut]
  | flow f => simp [Node.leadsOut, Node.IsFlowOut, FlowNode.leadsOut]

/-- What a removal may do to a two-level list, by what it returns. -/
inductive RemovesFirst (socket : Socket) (port : UInt16) (h h' : TableHeap) (q : Link)
    (l : List (Cell Socket Node)) : Option Addr → Prop
  /-- The first flow out of the port is returned, as it was, and is gone from the list of the
  socket. All else is where it was. -/
  | found {l₁ l₂ : List (Cell Socket Node)} {c : Cell Socket Node} {m₁ m₂ : List (Addr × Node)}
    {x : Addr × Node} :
    l = l₁ ++ c :: l₂ → c.key = socket → c.inner = m₁ ++ x :: m₂ → x.2.IsFlowOut port →
      (∀ y ∈ m₁, ¬y.2.IsFlowOut port) → ListsAt h' q (l₁ ++ { c with inner := m₁ ++ m₂ } :: l₂) →
      (∃ next, h'.get x.1 = some (.inner ⟨x.2, next⟩)) →
      (∀ a, a ∉ c.blocks → h'.get a = h.get a) → RemovesFirst socket port h h' q l (some x.1)
  /-- There is no flow of the socket out of the port, and nothing is changed. -/
  | absent : (∀ c ∈ l, c.key = socket → ∀ y ∈ c.inner, ¬y.2.IsFlowOut port) → h' = h →
      RemovesFirst socket port h h' q l none

section Removal

variable {h : TableHeap} {q : Link} {l : List (Cell Socket Node)}

/-- A removal from a list with one node for a socket takes out the first flow of the socket that
leads out of the port, wherever it is, or finds none and changes nothing. -/
theorem findRemoveNode_unlinks (hl : ListsAt h q l) (hnodup : (blocks l).Nodup)
    (hsockets : (l.map Cell.key).Nodup) (socket : Socket) (port : UInt16) :
    ∃ ret h', (∀ n, (blocks l).length ≤ n →
        findRemoveNode n socket q port () h = ⟨.ok ret, h', []⟩) ∧
      RemovesFirst socket port h h' q l ret := by
  unfold findRemoveNode
  rcases exists_firstAt socket (Node.leadsOut port) l with ⟨l₁, c, l₂, m₁, x, m₂, hf⟩ | hnone
  · obtain ⟨h', hrun, hu, hframe⟩ := removeNode_found (e := ()) hf hl hnodup
    refine ⟨some x.1, h', hrun, .found hf.cells hf.key hf.nodes ?_ ?_ hu.lists hu.node hframe⟩
    · exact (Node.leadsOut_iff port x.2).mp hf.found
    · exact fun y hy hout => hf.skipped y hy ((Node.leadsOut_iff port y.2).mpr hout)
  · refine ⟨none, h, fun n hn => removeNode_not_found hl hnone hn, .absent ?_ rfl⟩
    intro c hc hkey y hy hout
    -- The socket has no other list than this one.
    obtain ⟨l₁, l₂, rfl⟩ := List.append_of_mem hc
    have hl₁ : ∀ d ∈ l₁, d.key ≠ socket := by
      intro d hd hd'
      rw [List.map_append, List.map_cons] at hsockets
      exact (List.nodup_append.mp hsockets).2.2 d.key (List.mem_map_of_mem hd) c.key
        List.mem_cons_self (hd'.trans hkey.symm)
    rw [innerOf_append hl₁ hkey] at hnone
    exact hnone y hy ((Node.leadsOut_iff port y.2).mpr hout)

end Removal

/-- The flows of two sockets: two of socket 4, and one of socket 5. -/
def twoSockets : List (Cell Socket Node) :=
  [⟨0, 4, [(2, .flow ⟨⟨2, 0, 0, 0, 0, 1⟩, ⟨2, 0, 0, 0, 0, 2⟩, 1⟩),
    (3, .flow ⟨⟨2, 0, 0, 0, 0, 2⟩, ⟨2, 0, 0, 0, 0, 1⟩, 2⟩)]⟩,
    ⟨1, 5, [(4, .flow ⟨⟨2, 0, 0, 0, 0, 1⟩, ⟨2, 0, 0, 0, 0, 2⟩, 2⟩)]⟩]

/-- A heap with these flows. -/
def twoSocketsHeap : TableHeap :=
  ⟨[some (.outer ⟨4, some 2, some 1⟩), some (.outer ⟨5, some 4, none⟩),
    some (.inner ⟨.flow ⟨⟨2, 0, 0, 0, 0, 1⟩, ⟨2, 0, 0, 0, 0, 2⟩, 1⟩, some 3⟩),
    some (.inner ⟨.flow ⟨⟨2, 0, 0, 0, 0, 2⟩, ⟨2, 0, 0, 0, 0, 1⟩, 2⟩, none⟩),
    some (.inner ⟨.flow ⟨⟨2, 0, 0, 0, 0, 1⟩, ⟨2, 0, 0, 0, 0, 2⟩, 2⟩, none⟩)]⟩

/-- The second flow of socket 4 is taken out, behind the first one. -/
theorem findRemoveNode_unlinks_second :
    ∃ h', findRemoveNode 5 4 (some 0) 2 () twoSocketsHeap = ⟨.ok (some 3), h', []⟩ ∧
      RemovesFirst 4 2 twoSocketsHeap h' (some 0) twoSockets (some 3) := by
  have hl : ListsAt twoSocketsHeap (some 0) twoSockets :=
    ⟨rfl, some 2, some 1, rfl, ⟨rfl, some 3, rfl, rfl, none, rfl, rfl⟩,
      rfl, some 4, none, rfl, ⟨rfl, none, rfl, rfl⟩, rfl⟩
  obtain ⟨ret, h', hrun, hremoves⟩ := findRemoveNode_unlinks hl (by decide) (by decide) 4 2
  have hrun := hrun 5 (by decide)
  have hret : (findRemoveNode 5 4 (some 0) 2 () twoSocketsHeap).ret = .ok (some 3) := by rfl
  rw [hrun, Except.ok.injEq] at hret
  rw [hret] at hrun hremoves
  exact ⟨h', hrun, hremoves⟩

end SdnController.OnHeap
