import SdnController.Shutdown
import SdnController.NamedBlocks
import SdnController.Lib.ListEffects

/-!
# The memory of the tables

What the tables take from the allocator. A call on the tables allocates nodes with the sizes of
their structures, or frees one (`blockCalls`), and these calls are carried out by requests to the
allocator, between which the program writes the nodes that it has. Whatever calls are made, the
allocator never complains, what it reports is the size of the tables' nodes, and nothing is left
after `terminate` (`session_memory`).

The blocks of a call are those that the lists of `Holds` gain and lose, and the size of a block is
that of the structure that it was allocated for, since no block changes what it is (`Heap.Keeps`).
-/

namespace SdnController.OnHeap

open Exec KeyedLists LinkedLists Smartalloc

/-! ## Sizes -/

/-- `sizeof` of the structure of a node: `struct PathNode`, `struct FlowNode`. -/
def Node.bytes : Node → UInt64
  | .path _ => 16
  | .flow _ => 24

/-- `sizeof` of the structure of a block. An outer one is a `struct ListOfLists` or a
`struct ListOfFlows`. -/
def bytesOf (b : Block Socket Node) : UInt64 :=
  b.content.elim 24 Node.bytes

/-- The size of the block at an address. -/
def sizeAt (h : TableHeap) (a : Addr) : UInt64 := (h.get a).elim 0 bytesOf

/-- The bytes of the nodes of the tables. -/
def Tables.bytes (t : Tables) : ℕ :=
  (t.ll.map fun n => 24 + 16 * n.head.length).sum +
    (t.flows.map fun n => 24 + 24 * n.head.length).sum

/-- A call of the allocator, with the size of the block that it allocates. -/
def blockCall (h : TableHeap) : HeapEvent → BlockCall Addr
  | .alloc a => .malloc a (sizeAt h a)
  | .free a => .free a

/-- The calls of a program that leaves the blocks that it allocates. -/
def blockCalls (o : Outcome Fault Globals HeapEvent Unit) : List (BlockCall Addr) :=
  o.events.map (blockCall o.st.heap)

/-- The calls of the allocator in a sequence of calls on the tables. -/
def callsFrom (n : ℕ) : List Call → Globals → List (BlockCall Addr)
  | [], _ => []
  | c :: cs, g => blockCalls (call n c () g) ++ callsFrom n cs (call n c () g).st

/-- The calls of the allocator in a session. -/
def sessionCalls (n : ℕ) (cs : List Call) : List (BlockCall Addr) :=
  blockCalls (allocateTables () ⟨⟨[]⟩, none, none⟩) ++
    callsFrom n cs (allocateTables () ⟨⟨[]⟩, none, none⟩).st

/-- The calls of the allocator in `terminate`, after a session. -/
def shutdownCalls (n : ℕ) (cs : List Call) : List (BlockCall Addr) :=
  blockCalls (terminate n () (session n cs).st)

/-! ## What a call does to the blocks -/

/-- The effect of a program over the globals. -/
def GlobalEffect (calls : HeapEvent → Prop) (g : Globals) (w : List HeapEvent) (g' : Globals) :
    Prop :=
  Effect calls g.heap w g'.heap

theorem globalEffect_composes (calls : HeapEvent → Prop) : Composes (GlobalEffect calls) where
  refl := fun g => (effect_composes calls).refl g.heap
  trans := (effect_composes calls).trans

/-- A program over the heap does the same as one over the globals. -/
theorem onHeap_effects {α : Type} {calls : HeapEvent → Prop} {x : HeapProg Socket Node α}
    (hx : Effects calls x) : Within (GlobalEffect calls) (onHeap x) := fun e g => hx e g.heap

/-- What leaves the heap alone. -/
theorem getState_effects (calls : HeapEvent → Prop) :
    Within (GlobalEffect calls) (getState : GlobalProg Globals) :=
  fun _ g => (globalEffect_composes calls).refl g

/-- The allocation of the tables allocates only. -/
theorem allocateTables_effects : Within (GlobalEffect HeapEvent.IsAlloc) allocateTables := by
  have hR := globalEffect_composes HeapEvent.IsAlloc
  refine (onHeap_effects (alloc_effects _)).bind hR fun ll => ?_
  refine Within.bind hR (fun _ g => hR.refl g) fun _ => ?_
  exact (onHeap_effects (alloc_effects _)).bind hR fun flows _ g => hR.refl g

/-- The removal of a flow frees only. -/
theorem removeFlow_effects (n : ℕ) (socket : Socket) (port : UInt16) :
    Within (GlobalEffect HeapEvent.IsFree) (removeFlow n socket port) := by
  have hR := globalEffect_composes HeapEvent.IsFree
  refine (getState_effects _).bind hR fun g => ?_
  refine (onHeap_effects (removeNode_effects _ _ n _)).bind hR fun found => ?_
  split
  · exact within_pure hR _
  · exact (onHeap_effects (inner_effects _)).bind hR fun _ => onHeap_effects (free_effects _)

/-- The calls of the allocator that a call on the tables may make. -/
def Call.makes : Call → HeapEvent → Prop
  | .addPathNode .. | .addFlowNode .. => HeapEvent.IsAlloc
  | .removeFlow .. => HeapEvent.IsFree

/-- A call allocates only, or frees only. -/
theorem call_effects (n : ℕ) (c : Call) : Within (GlobalEffect c.makes) (call n c) := by
  have hR := globalEffect_composes HeapEvent.IsAlloc
  cases c with
  | addPathNode socket toMac port =>
    refine (getState_effects _).bind hR fun g => ?_
    exact (onHeap_effects (insertNode_effects _ _ _ n _)).bind hR fun _ => within_pure hR _
  | addFlowNode socket dstMac srcMac port =>
    refine (getState_effects _).bind hR fun g => ?_
    exact (onHeap_effects (insertNode_effects _ _ _ n _)).bind hR fun _ => within_pure hR _
  | removeFlow socket port => exact removeFlow_effects n socket port

/-- A trace that only allocates. -/
theorem eq_map_alloc {w : List HeapEvent} (hw : ∀ ev ∈ w, ev.IsAlloc) :
    w = (allocs w).map .alloc ∧ frees w = [] := by
  induction w with
  | nil => exact ⟨rfl, rfl⟩
  | cons ev w ih =>
    rw [List.forall_mem_cons] at hw
    obtain ⟨⟨a, rfl⟩, hw⟩ := hw
    obtain ⟨hmap, hfrees⟩ := ih hw
    exact ⟨congrArg (HeapEvent.alloc a :: ·) hmap, hfrees⟩

/-- A trace that only frees. -/
theorem eq_map_free {w : List HeapEvent} (hw : ∀ ev ∈ w, ev.IsFree) :
    w = (frees w).map .free ∧ allocs w = [] := by
  induction w with
  | nil => exact ⟨rfl, rfl⟩
  | cons ev w ih =>
    rw [List.forall_mem_cons] at hw
    obtain ⟨⟨a, rfl⟩, hw⟩ := hw
    obtain ⟨hmap, hallocs⟩ := ih hw
    exact ⟨congrArg (HeapEvent.free a :: ·) hmap, hallocs⟩

/-- A block that is still there has the size that it had. -/
theorem sizeAt_of_keeps {h h' : TableHeap} (hk : h.Keeps h') {a : Addr} (ha : a < h.size)
    (hsome : (h'.get a).isSome = true) : sizeAt h' a = sizeAt h a := by
  obtain ⟨b', hb'⟩ := Option.isSome_iff_exists.mp hsome
  obtain ⟨b, hb, hc⟩ := hk.content a b' ha hb'
  unfold sizeAt bytesOf
  rw [hb, hb', Option.elim_some, Option.elim_some, hc]

/-- The nodes of the tables are small. -/
theorem sizeAt_fits (h : TableHeap) (a : Addr) : (sizeAt h a).toNat + 2 * margin < 2^64 := by
  have hle : (sizeAt h a).toNat ≤ 24 := by
    unfold sizeAt bytesOf
    rcases h.get a with _ | (n | ⟨⟨p⟩ | ⟨f⟩, next⟩) <;> exact Nat.le_of_ble_eq_true rfl
  unfold margin
  omega

section Steps

variable {h h' : TableHeap} {w w' : List HeapEvent} {p q p' q' : Link}
  {l m l' m' : List (Cell Socket Node)} {live : List (Addr × UInt64)}

/-- The blocks of two lists, with their sizes. -/
def sized (h : TableHeap) (as : List Addr) : List (Addr × UInt64) := as.map fun a => (a, sizeAt h a)

@[simp] theorem sized_fst (h : TableHeap) (as : List Addr) : (sized h as).map Prod.fst = as := by
  simp [sized, Function.comp_def]

/-- What the lists have gained was allocated, and what they have lost was freed. -/
theorem blocks_step (ho : Owned h w p q l m) (ho' : Owned h' (w ++ w') p' q' l' m') :
    (frees w' ++ (blocks l' ++ blocks m')).Perm (blocks l ++ blocks m ++ allocs w') := by
  refine (List.perm_append_left_iff (frees w)).mp ?_
  calc List.Perm (frees w ++ (frees w' ++ (blocks l' ++ blocks m')))
        (frees (w ++ w') ++ (blocks l' ++ blocks m')) := .of_eq (by simp)
    List.Perm _ (allocs w ++ allocs w') := ho'.account.trans (.of_eq (allocs_append ..))
    List.Perm _ (frees w ++ (blocks l ++ blocks m) ++ allocs w') :=
      ho.account.symm.append_right _
    List.Perm _ (frees w ++ (blocks l ++ blocks m ++ allocs w')) := .of_eq (List.append_assoc ..)

/-- The blocks that both have keep their sizes. -/
theorem sized_step (ho : Owned h w p q l m) (ho' : Owned h' (w ++ w') p' q' l' m')
    (hk : h.Keeps h') {as : List Addr} (has : ∀ a ∈ as, a ∈ blocks l ++ blocks m)
    (has' : ∀ a ∈ as, a ∈ blocks l' ++ blocks m') : sized h' as = sized h as := by
  refine List.map_congr_left fun a ha => congrArg (Prod.mk a) (sizeAt_of_keeps hk ?_ ?_)
  · rcases List.mem_append.mp (has a ha) with hin | hin
    · exact ho.left.lt_size hin
    · exact ho.right.lt_size hin
  · rcases List.mem_append.mp (has' a ha) with hin | hin
    · exact ho'.left.get_isSome hin
    · exact ho'.right.get_isSome hin

/-- Allocations are tidy, and what is live is then what the lists have. -/
theorem allocates_tidy (ho : Owned h w p q l m) (ho' : Owned h' (w ++ w') p' q' l' m')
    (he : Effect HeapEvent.IsAlloc h w' h') (hlive : live.Perm (sized h (blocks l ++ blocks m))) :
    Tidy live (w'.map (blockCall h')) ∧
      (liveAfter live (w'.map (blockCall h'))).Perm (sized h' (blocks l' ++ blocks m')) := by
  obtain ⟨hw, hfrees⟩ := eq_map_alloc he.calls
  have hblocks := blocks_step ho ho'
  rw [hfrees, List.nil_append] at hblocks
  have hnodup := List.nodup_append.mp
    (hblocks.nodup_iff.mp (List.nodup_append.mp ho'.nodup).2.1)
  have hcalls : w'.map (blockCall h') = (allocs w').map fun a => .malloc a (sizeAt h' a) := by
    conv_lhs => rw [hw, List.map_map]
    rfl
  have hnames := hlive.map Prod.fst
  rw [sized_fst] at hnames
  rw [hcalls, liveAfter_mallocs]
  refine ⟨tidy_mallocs hnodup.2.1 (fun a ha hin => ?_) (sizeAt_fits h'), ?_⟩
  · exact hnodup.2.2 a (hnames.mem_iff.mp hin) a ha rfl
  · have hold : sized h' (blocks l ++ blocks m) = sized h (blocks l ++ blocks m) :=
      sized_step ho ho' he.keeps (fun a ha => ha) fun a ha =>
        hblocks.mem_iff.mpr (List.mem_append_left _ ha)
    calc List.Perm ((sized h' (allocs w')).reverse ++ live)
          (sized h' (allocs w') ++ sized h (blocks l ++ blocks m)) :=
        (List.reverse_perm _).append hlive
      List.Perm _ (sized h' (blocks l ++ blocks m) ++ sized h' (allocs w')) :=
        hold ▸ List.perm_append_comm
      List.Perm _ (sized h' (blocks l ++ blocks m ++ allocs w')) := .of_eq List.map_append.symm
      List.Perm _ (sized h' (blocks l' ++ blocks m')) := (hblocks.map _).symm

/-- To free what a list has lost is tidy, and what is live is then what the lists have. -/
theorem frees_tidy (ho : Owned h w p q l m) (ho' : Owned h' (w ++ w') p' q' l' m')
    (he : Effect HeapEvent.IsFree h w' h') (hlive : live.Perm (sized h (blocks l ++ blocks m))) :
    Tidy live (w'.map (blockCall h')) ∧
      (liveAfter live (w'.map (blockCall h'))).Perm (sized h' (blocks l' ++ blocks m')) := by
  obtain ⟨hw, hallocs⟩ := eq_map_free he.calls
  have hblocks := blocks_step ho ho'
  rw [hallocs, List.append_nil] at hblocks
  have hnodup := List.nodup_append.mp
    (hblocks.nodup_iff.mpr (List.nodup_append.mp ho.nodup).2.1)
  have hcalls : w'.map (blockCall h') = (frees w').map .free := by
    conv_lhs => rw [hw, List.map_map]
    rfl
  have hnames := hlive.map Prod.fst
  rw [sized_fst] at hnames
  rw [hcalls, liveAfter_frees]
  refine ⟨tidy_frees hnodup.1 fun a ha => ?_, ?_⟩
  · exact hnames.mem_iff.mpr (hblocks.mem_iff.mp (List.mem_append_left _ ha))
  · -- What is not freed is what the lists still have.
    have hold : sized h' (blocks l' ++ blocks m') = sized h (blocks l' ++ blocks m') :=
      sized_step ho ho' he.keeps (fun a ha => hblocks.mem_iff.mp (List.mem_append_right _ ha))
        fun a ha => ha
    have hgone : (sized h (frees w')).filter (fun p => p.1 ∉ frees w') = [] := by
      rw [List.filter_eq_nil_iff, sized, List.forall_mem_map]
      intro a ha
      simpa using ha
    have hkept : (sized h (blocks l' ++ blocks m')).filter (fun p => p.1 ∉ frees w') =
        sized h (blocks l' ++ blocks m') := by
      rw [List.filter_eq_self, sized, List.forall_mem_map]
      exact fun a ha => decide_eq_true fun hin => hnodup.2.2 a hin a ha rfl
    have hall := (hlive.trans (hblocks.symm.map _)).filter fun p => p.1 ∉ frees w'
    rw [List.map_append, List.filter_append] at hall
    rw [hold]
    calc List.Perm (live.filter fun p => p.1 ∉ frees w')
          ((sized h (frees w')).filter (fun p => p.1 ∉ frees w') ++
            (sized h (blocks l' ++ blocks m')).filter fun p => p.1 ∉ frees w') := hall
      List.Perm _ (sized h (blocks l' ++ blocks m')) := by rw [hgone, hkept, List.nil_append]

end Steps

/-! ## Sessions -/

section Sessions

variable {g g' : Globals} {w w' : List HeapEvent} {t t' : Tables}
  {ll flows ll' flows' : List (Cell Socket Node)} {live : List (Addr × UInt64)} {n : ℕ} {c : Call}

/-- A call on the tables makes tidy calls of the allocator. -/
theorem call_tidy (hg : Holds g w t ll flows) (hcall : call n c () g = ⟨.ok (), g', w'⟩)
    (hg' : Holds g' (w ++ w') t' ll' flows')
    (hlive : live.Perm (sized g.heap (blocks ll ++ blocks flows))) :
    Tidy live (blockCalls (call n c () g)) ∧
      (liveAfter live (blockCalls (call n c () g))).Perm
        (sized g'.heap (blocks ll' ++ blocks flows')) := by
  have heffect := call_effects n c () g
  rw [hcall] at heffect ⊢
  cases c with
  | addPathNode => exact allocates_tidy hg.owned hg'.owned heffect hlive
  | addFlowNode => exact allocates_tidy hg.owned hg'.owned heffect hlive
  | removeFlow => exact frees_tidy hg.owned hg'.owned heffect hlive

/-- The number of nodes that a list of lists has. -/
def nodeCount {ν : Type} (L : List (Outer Socket ν)) : ℕ := (L.map fun n => n.head.length + 1).sum

/-- The number of blocks of a two-level list. -/
theorem length_blocks (l : List (Cell Socket Node)) : (blocks l).length = nodeCount (values l) := by
  induction l with
  | nil => rfl
  | cons c l ih =>
    rw [blocks_cons, List.length_append, c.length_blocks, ih, ← List.length_map (f := Prod.snd)]
    rfl

/-- Other values are in as many nodes. -/
theorem nodeCount_map {ν : Type} (f : ν → Node) (L : List (Outer Socket ν)) :
    nodeCount (L.map (Outer.map f)) = nodeCount L := by
  simp [nodeCount, Outer.map, Function.comp_def]

/-- An insertion adds two nodes at most. -/
theorem nodeCount_addNode {ν : Type} {same : ν → Bool} (socket : Socket) (v : ν)
    {L : List (Outer Socket ν)} (hne : L ≠ []) :
    nodeCount (addNode socket same v L).2 ≤ nodeCount L + 2 := by
  by_cases hfound : (search socket same L).isSome = true
  · rw [addNode_of_found hfound]
    exact Nat.le_add_right _ 2
  rw [addNode_of_not_found hfound hne]
  clear hne hfound
  change nodeCount (KeyedLists.insert socket v L) ≤ _
  induction L with
  | nil => exact le_rfl
  | cons n L ih =>
    rw [KeyedLists.insert]
    split_ifs
    · simp only [nodeCount, List.map_cons, List.sum_cons, List.length_cons]
      omega
    · simp only [nodeCount, List.map_cons, List.sum_cons] at ih ⊢
      omega

/-- A call allocates two nodes at most. -/
theorem call_size (hg : Holds g w t ll flows) (hcall : call n c () g = ⟨.ok (), g', w'⟩)
    (hg' : Holds g' (w ++ w') (c.onTables t) ll' flows') : g'.heap.size ≤ g.heap.size + 2 := by
  have hfresh := congrArg List.length hg'.owned.allocs_eq
  rw [allocs_append, hg.owned.allocs_eq, List.length_append, List.length_range,
    List.length_range] at hfresh
  have hblocks := (blocks_step hg.owned hg'.owned).length_eq
  simp only [List.length_append, length_blocks, hg.ll_values, hg.flows_values, hg'.ll_values,
    hg'.flows_values, nodeCount_map] at hblocks
  have heffect := call_effects n c () g
  rw [hcall] at heffect
  cases c with
  | addPathNode socket toMac port =>
    rw [(eq_map_alloc heffect.calls).2, List.length_nil] at hblocks
    have hadd : nodeCount (SdnController.addPathNode socket t.ll toMac port).2 ≤ _ :=
      nodeCount_addNode socket _ hg.ll_ne
    simp only [Call.onTables] at hblocks
    omega
  | addFlowNode socket dstMac srcMac port =>
    rw [(eq_map_alloc heffect.calls).2, List.length_nil] at hblocks
    have hadd : nodeCount (SdnController.addFlowNode socket t.flows dstMac srcMac port).2 ≤ _ :=
      nodeCount_addNode socket _ hg.flows_ne
    simp only [Call.onTables] at hblocks
    omega
  | removeFlow socket port =>
    rw [(eq_map_free heffect.calls).2, List.length_nil] at hfresh
    omega

/-- The calls of the allocator in one more call. -/
theorem callsFrom_concat {cs : List Call}
    (h : run (fun c => call n c ()) cs g = ⟨.ok (), g', w⟩) (c : Call) :
    callsFrom n (cs ++ [c]) g = callsFrom n cs g ++ blockCalls (call n c () g') := by
  induction cs generalizing g w with
  | nil =>
    obtain ⟨-, rfl, -⟩ := Outcome.mk.injEq .. ▸ h
    simp [callsFrom]
  | cons d cs ih =>
    obtain ⟨⟨⟩, g₁, w₁, w₂, hd, hcs, -⟩ := Outcome.andThen_eq_ok h
    change call n d () g = _ at hd
    rw [List.cons_append, callsFrom, callsFrom, hd, ih hcs, List.append_assoc]

/-- The calls of the allocator in a session with one more call. -/
theorem sessionCalls_concat {cs : List Call} (h : session n cs = ⟨.ok (), g, w⟩) (c : Call) :
    sessionCalls n (cs ++ [c]) = sessionCalls n cs ++ blockCalls (call n c () g) := by
  obtain ⟨⟨⟩, g₀, w₀, w₁, hstart, hcs, -⟩ := Outcome.andThen_eq_ok h
  unfold sessionCalls
  rw [hstart, callsFrom_concat hcs, List.append_assoc]

/-- The rounds that the loops may need in a session. -/
def roundsFor (cs : List Call) : ℕ := 2 + 2 * cs.length

/-- A session makes tidy calls of the allocator, and the blocks that are then live are those of the
tables. -/
theorem session_tidy (cs : List Call) :
    ∃ g w ll flows calls, (∀ n, roundsFor cs ≤ n →
        session n cs = ⟨.ok (), g, w⟩ ∧ sessionCalls n cs = calls) ∧
      g.heap.size ≤ roundsFor cs ∧ Holds g w (tablesAfter cs) ll flows ∧ Tidy [] calls ∧
      (liveAfter [] calls).Perm (sized g.heap (blocks ll ++ blocks flows)) := by
  induction cs using List.reverseRecOn with
  | nil =>
    obtain ⟨g, w, ll, flows, ⟨N, hN⟩, hg⟩ := session_spec []
    have hstart : allocateTables () ⟨⟨[]⟩, none, none⟩ = ⟨.ok (), g, w⟩ := hN N le_rfl
    -- The process starts without blocks.
    have hempty : Owned (⟨[]⟩ : TableHeap) [] none none [] [] := ⟨rfl, rfl, .refl _, rfl⟩
    have heffect := allocateTables_effects () ⟨⟨[]⟩, none, none⟩
    have hsize : (allocateTables () ⟨⟨[]⟩, none, none⟩).st.heap.size = 2 := rfl
    rw [hstart] at heffect hsize
    refine ⟨g, w, ll, flows, _, fun n _ => ⟨hN N le_rfl, ?_⟩, hsize.le, hg,
      allocates_tidy hempty hg.owned heffect (.refl [])⟩
    unfold sessionCalls
    rw [hstart]
    exact List.append_nil _
  | append_singleton cs c ih =>
    obtain ⟨g, w, ll, flows, calls, hN, hsize, hg, htidy, hlive⟩ := ih
    obtain ⟨g', w', ll', flows', hrun, hg'⟩ := call_spec hg c
    have hgrow := call_size hg (hrun g.heap.size le_rfl) hg'
    have hstep := call_tidy hg (hrun g.heap.size le_rfl) hg' hlive
    rw [hrun g.heap.size le_rfl] at hstep
    have hrounds : roundsFor (cs ++ [c]) = roundsFor cs + 2 := by
      simp only [roundsFor, List.length_append, List.length_singleton]
      omega
    refine ⟨g', w ++ w', ll', flows', calls ++ blockCalls ⟨.ok (), g', w'⟩, fun n hn => ?_, ?_, ?_,
      htidy.append hstep.1, ?_⟩
    · have hn₁ := hN n (by omega)
      have hn₂ := hrun n (by omega)
      refine ⟨session_concat hn₁.1 hn₂, ?_⟩
      rw [sessionCalls_concat hn₁.1, hn₁.2, hn₂]
    · omega
    · unfold tablesAfter at hg' ⊢
      rw [List.foldl_concat]
      exact hg'
    · rw [liveAfter_append]
      exact hstep.2

/-! ## Totals -/

/-- The size of a node, as a number. -/
theorem sum_inner {h : TableHeap} {p : Link} {m : List (Addr × Node)} (hm : InnerAt h p m) :
    ((m.map Prod.fst).map fun a => (sizeAt h a).toNat).sum =
      ((m.map Prod.snd).map fun n => n.bytes.toNat).sum := by
  congr 1
  rw [List.map_map, List.map_map]
  refine List.map_congr_left fun x hx => ?_
  obtain ⟨next, hget⟩ := hm.get_mem hx
  simp only [Function.comp_apply, sizeAt, hget]
  rfl

/-- The size of a two-level list: that of what it holds. -/
theorem sum_blocks {h : TableHeap} {p : Link} {l : List (Cell Socket Node)} (hl : ListsAt h p l) :
    ((blocks l).map fun a => (sizeAt h a).toNat).sum =
      ((values l).map fun n => 24 + (n.head.map fun v => v.bytes.toNat).sum).sum := by
  induction l generalizing p with
  | nil => rfl
  | cons c l ih =>
    obtain ⟨rfl, head, next, hget, hm, hrest⟩ := hl
    have hfirst : (sizeAt h c.addr).toNat = 24 := by
      unfold sizeAt
      rw [hget]
      rfl
    rw [blocks_cons, Cell.blocks, List.map_append, List.sum_append, List.map_cons, List.sum_cons,
      hfirst, sum_inner hm, ih hrest]
    rfl

/-- A list whose nodes have one size. -/
theorem sum_values {ν : Type} (f : ν → Node) (k : ℕ) (hf : ∀ v, (f v).bytes.toNat = k)
    (L : List (Outer Socket ν)) :
    ((L.map (Outer.map f)).map fun n => 24 + (n.head.map fun v => v.bytes.toNat).sum).sum =
      (L.map fun n => 24 + k * n.head.length).sum := by
  rw [List.map_map]
  congr 1
  refine List.map_congr_left fun n _ => ?_
  have hconst : (fun v => v.bytes.toNat) ∘ f = fun _ => k := funext hf
  simp only [Function.comp_apply, Outer.map, List.map_map, hconst, List.map_const',
    List.sum_replicate_nat, Nat.mul_comm]

/-- The blocks of the tables have the size of what the tables hold. -/
theorem Holds.sum_bytes (hg : Holds g w t ll flows) :
    ((sized g.heap (blocks ll ++ blocks flows)).map fun p => p.2.toNat).sum = t.bytes := by
  have hll := sum_blocks hg.owned.left
  have hflows := sum_blocks hg.owned.right
  rw [hg.ll_values, sum_values Node.path 16 fun _ => rfl] at hll
  rw [hg.flows_values, sum_values Node.flow 24 fun _ => rfl] at hflows
  calc ((sized g.heap (blocks ll ++ blocks flows)).map fun p => p.2.toNat).sum
      = ((blocks ll ++ blocks flows).map fun a => (sizeAt g.heap a).toNat).sum := by
        rw [sized, List.map_map]
        rfl
    _ = t.bytes := by rw [List.map_append, List.sum_append, hll, hflows]; rfl

/-- `terminate` makes tidy calls of the allocator, and then no block is live. -/
theorem Holds.terminate_tidy (hg : Holds g w t ll flows)
    (hlive : live.Perm (sized g.heap (blocks ll ++ blocks flows))) :
    ∃ calls, (∀ n, g.heap.size ≤ n → blockCalls (terminate n () g) = calls) ∧
      Tidy live calls ∧ liveAfter live calls = [] := by
  obtain ⟨h', hrun⟩ := terminate_apply hg.owned
  have hperm := freeOrders_perm ll flows
  have hnames : (live.map Prod.fst).Perm (freeOrder ll ++ freeOrder flows) := by
    have hmap := hlive.map Prod.fst
    rw [sized_fst] at hmap
    exact hmap.trans hperm.symm
  refine ⟨(freeOrder ll ++ freeOrder flows).map .free, fun n hn => ?_, ?_, ?_⟩
  · rw [hrun n hn, blockCalls, List.map_map]
    rfl
  · refine tidy_frees ?_ fun a ha => hnames.mem_iff.mpr ha
    exact hperm.nodup_iff.mpr (List.nodup_append.mp hg.owned.nodup).2.1
  · rw [liveAfter_frees, List.filter_eq_nil_iff]
    intro p hp hout
    exact of_decide_eq_true hout (hnames.mem_iff.mp (List.mem_map_of_mem hp))

/-- Whatever calls are made on the tables, the allocator completes what they ask for without a
message, reports the bytes of the tables, and has nothing left after `terminate`. -/
theorem session_memory (cs : List Call) {n : ℕ} (hn : roundsFor cs ≤ n) {place : Addr → ℕ}
    {is js : List Smartalloc.Input} {mem : Memory.Mem}
    (his : Carries place [] (sessionCalls n cs) is)
    (hjs : Carries place (liveAfter [] (sessionCalls n cs)) (shutdownCalls n cs) js)
    (hdoc : Always Documented Smartalloc.step (is ++ js) (Smartalloc.initial mem)) :
    ∃ s w s' w', run Smartalloc.step is (Smartalloc.initial mem) = ⟨.ok (), s, w⟩ ∧
      run Smartalloc.step js s = ⟨.ok (), s', w'⟩ ∧ (∀ ev ∈ w ++ w', ∃ p, ev = .returned p) ∧
      (reportSpace s).toNat = (tablesAfter cs).bytes ∧
      reportSpace s' = 0 ∧ completionFunction s' = [] := by
  obtain ⟨g, w, ll, flows, calls, hN, hsize, hg, htidy, hlive⟩ := session_tidy cs
  obtain ⟨frees, hfrees, htidy', hnone⟩ := hg.terminate_tidy hlive
  obtain ⟨hsession, hcalls⟩ := hN n hn
  have hshutdown : shutdownCalls n cs = frees := by
    unfold shutdownCalls
    rw [hsession]
    exact hfrees n (hsize.trans hn)
  rw [hcalls] at his hjs
  rw [hshutdown] at hjs
  obtain ⟨s, w₁, hr, hw, hs⟩ := tidy_quiet his htidy (quiet_initial mem)
    (hdoc.of_prefix (List.prefix_append is js))
  obtain ⟨s', w₂, hr', hw', hs'⟩ := tidy_quiet hjs htidy' hs (hdoc.rest hr)
  rw [hnone] at hs'
  refine ⟨s, w₁, s', w₂, hr, hr', List.forall_mem_append.mpr ⟨hw, hw'⟩, ?_, hs'.completion⟩
  calc (reportSpace s).toNat = ((liveAfter [] calls).map fun p => p.2.toNat).sum := hs.reported
    _ = ((sized g.heap (blocks ll ++ blocks flows)).map fun p => p.2.toNat).sum :=
      (hlive.map _).sum_eq
    _ = (tablesAfter cs).bytes := hg.sum_bytes

end Sessions

/-- A flow that is added and removed again. -/
def addRemove : List Call :=
  [.addFlowNode 4 ⟨2, 0, 0, 0, 0, 1⟩ ⟨2, 0, 0, 0, 0, 2⟩ 1, .removeFlow 4 1]

/-- Four nodes of 24 bytes, a hundred bytes apart, of which the last one is freed. -/
def addRemoveRequests : List Smartalloc.Input :=
  [(.smartalloc 24 ⟨"controller.c", 515⟩ 0, ⟨some 996, none, true⟩),
    (.smartalloc 24 ⟨"controller.c", 678⟩ 0, ⟨some 1096, none, true⟩),
    (.smartalloc 24 ⟨"myGraph.c", 225⟩ 0, ⟨some 1196, none, true⟩),
    (.smartalloc 24 ⟨"myGraph.c", 190⟩ 0, ⟨some 1296, none, true⟩),
    (.smartfree 1300 ⟨"controller.c", 136⟩, ⟨none, none, false⟩)]

/-- The other three are freed by `terminate`. -/
def shutdownRequests : List Smartalloc.Input :=
  [(.smartfree 1000 ⟨"controller.c", 654⟩, ⟨none, none, false⟩),
    (.smartfree 1100 ⟨"controller.c", 654⟩, ⟨none, none, false⟩),
    (.smartfree 1200 ⟨"controller.c", 654⟩, ⟨none, none, false⟩)]

theorem session_memory_addRemove :
    ∃ s w s' w', run Smartalloc.step addRemoveRequests (Smartalloc.initial fun _ => 0) =
        ⟨.ok (), s, w⟩ ∧
      run Smartalloc.step shutdownRequests s = ⟨.ok (), s', w'⟩ ∧
      (∀ ev ∈ w ++ w', ∃ p, ev = .returned p) ∧
      (reportSpace s).toNat = (tablesAfter addRemove).bytes ∧
      reportSpace s' = 0 ∧ completionFunction s' = [] := by
  have hcalls : sessionCalls 6 addRemove =
      [.malloc 0 24, .malloc 1 24, .malloc 2 24, .malloc 3 24, .free 3] := by decide +kernel
  have hfrees : shutdownCalls 6 addRemove = [.free 0, .free 1, .free 2] := by decide +kernel
  refine @session_memory addRemove 6 (by decide) (fun a => 1000 + 100 * a) addRemoveRequests
    shutdownRequests (fun _ => 0) ?_ ?_ ?_
  · rw [hcalls]
    exact .malloc rfl rfl rfl (.malloc rfl rfl rfl (.malloc rfl rfl rfl (.malloc rfl rfl rfl
      (.free .nil))))
  · rw [hfrees]
    exact .free (.free (.free .nil))
  · iterate 4
      refine always_cons ?_ ?_
      · intro base hbase
        obtain rfl := Option.some.inj hbase
        decide
    exact always_cons trivial (always_cons trivial (always_cons trivial (always_cons trivial
      always_nil)))

end SdnController.OnHeap
