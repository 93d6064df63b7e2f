import SdnController.Shutdown
import SdnController.Lib.ListSteps

/-!
# Shutdown at any moment

`main` makes `terminate` the handler of SIGINT before the tables are allocated, and a signal does
not wait for a function to return: the handler may run between any two accesses of the functions
that work on the tables. Here these functions are given step by step. Wherever they are cut, each
global leads to a list of nodes that were not freed, or is `NULL`, so that `terminate` frees all
that the lists have and returns (`interrupted_shut_down`). What it may miss is one node, which was
allocated and is not in its list yet, or which is not in it any more and about to be freed.

A step is one access to a node, one assignment to a global, or one call of `smartalloc` or
`smartfree`. A signal in the middle of such a call, which may hold the lock of the allocator, is not
considered.
-/

namespace SdnController.OnHeap

open Exec KeyedLists LinkedLists

namespace Stepwise

/-! ## The functions -/

/-- A program over the globals, step by step. -/
abbrev GlobalSteps := Steps Unit Fault Globals HeapEvent

/-- The steps of a program over the heap, as steps over the globals. -/
def onHeap {α : Type} : HeapSteps Socket Node α → GlobalSteps α
  | .done a => .done a
  | .next x f => .next (OnHeap.onHeap x) fun b => onHeap (f b)

/-- `allocateTables`, step by step. -/
def allocateTables : GlobalSteps Unit := do
  let ll ← atomic (OnHeap.onHeap (alloc (.outer ⟨0, none, none⟩)))
  atomic (modifyState fun g => { g with ll := some ll })
  let flows ← atomic (OnHeap.onHeap (alloc (.outer ⟨0, none, none⟩)))
  atomic (modifyState fun g => { g with flows := some flows })

/-- `removeFlow`, step by step. -/
def removeFlow (n : ℕ) (socket : Socket) (port : UInt16) : GlobalSteps Unit := do
  let g ← atomic getState
  let found ← onHeap (Stepwise.removeNode socket (Node.leadsOut port) n g.flows)
  match found with
  | none => pure ()
  | some a => do
    let _ ← atomic (OnHeap.onHeap (inner a))
    atomic (OnHeap.onHeap (free a))

/-- The program of a call, step by step. -/
def call (n : ℕ) : Call → GlobalSteps Unit
  | .addPathNode socket toMac port => do
    let g ← atomic getState
    let _ ← onHeap (Stepwise.insertNode (Node.leadsTo toMac) socket (.path ⟨toMac, port⟩) n g.ll)
    pure ()
  | .addFlowNode socket dstMac srcMac port => do
    let g ← atomic getState
    let _ ← onHeap (Stepwise.insertNode (Node.joins dstMac srcMac) socket
      (.flow ⟨dstMac, srcMac, port⟩) n g.flows)
    pure ()
  | .removeFlow socket port => removeFlow n socket port

/-- A sequence of calls, step by step. -/
def calls (n : ℕ) : List Call → GlobalSteps Unit
  | [] => pure ()
  | c :: cs => do
    call n c
    calls n cs

/-- A sequence of calls from the allocation of the tables on, step by step. -/
def session (n : ℕ) (cs : List Call) : GlobalSteps Unit := do
  allocateTables
  calls n cs

/-! ## They are the same programs -/

/-- A sequence over the heap, as one over the globals. -/
theorem onHeap_bind {α β : Type} (x : HeapProg Socket Node α) (f : α → HeapProg Socket Node β) :
    OnHeap.onHeap (x >>= f) = OnHeap.onHeap x >>= fun a => OnHeap.onHeap (f a) := by
  funext e g
  rcases hx : x e g.heap with ⟨ret, h, w⟩
  cases ret <;> simp [OnHeap.onHeap, hx]

@[simp] theorem onHeap_prog {α : Type} (p : HeapSteps Socket Node α) :
    (onHeap p).prog = OnHeap.onHeap p.prog := by
  induction p with
  | done a => rfl
  | next x f ih =>
    calc (OnHeap.onHeap x >>= fun b => (onHeap (f b)).prog)
        = OnHeap.onHeap x >>= fun b => OnHeap.onHeap (f b).prog := by simp only [ih]
      _ = OnHeap.onHeap (x >>= fun b => (f b).prog) := (onHeap_bind ..).symm

theorem allocateTables_prog : allocateTables.prog = OnHeap.allocateTables := by
  simp [allocateTables, OnHeap.allocateTables]

theorem call_prog (n : ℕ) (c : Call) : (call n c).prog = OnHeap.call n c := by
  cases c with
  | addPathNode socket toMac port => simp [call, OnHeap.call, addPathNode]
  | addFlowNode socket dstMac srcMac port => simp [call, OnHeap.call, addFlowNode]
  | removeFlow socket port =>
    simp only [call, OnHeap.call, removeFlow, OnHeap.removeFlow, findRemoveNode, Steps.prog_bind,
      Steps.prog_atomic, onHeap_prog, Stepwise.removeNode_prog]
    congr 1
    funext g
    congr 1
    funext found
    rcases found with _ | a <;> simp

theorem calls_prog (n : ℕ) (cs : List Call) (g : Globals) :
    (calls n cs).prog () g = run (fun c => OnHeap.call n c ()) cs g := by
  induction cs generalizing g with
  | nil => rfl
  | cons c cs ih =>
    rw [calls, Steps.prog_bind, bind_apply, call_prog, run]
    simp only [ih]

theorem session_prog (n : ℕ) (cs : List Call) :
    (session n cs).prog () ⟨⟨[]⟩, none, none⟩ = OnHeap.session n cs := by
  rw [session, Steps.prog_bind, bind_apply, allocateTables_prog, OnHeap.session]
  simp only [calls_prog]

/-! ## Where they are cut -/

/-- The first steps of a program over the heap, as steps over the globals. -/
theorem onHeap_cut {α : Type} (p : HeapSteps Socket Node α) (k : ℕ) :
    (onHeap p).cut k = OnHeap.onHeap (p.cut k) := by
  induction p generalizing k with
  | done a => cases k <;> rfl
  | next x f ih =>
    cases k with
    | zero => rfl
    | succ k =>
      calc (OnHeap.onHeap x >>= fun b => (onHeap (f b)).cut k)
          = OnHeap.onHeap x >>= fun b => OnHeap.onHeap ((f b).cut k) := by simp only [ih]
        _ = OnHeap.onHeap (x >>= fun b => (f b).cut k) := (onHeap_bind ..).symm

/-- A program over the heap is cut as one over the globals where it is cut on the heap. -/
theorem passes_onHeap {α : Type} {p : HeapSteps Socket Node α} {g g' : Globals}
    {w : List HeapEvent} (h : Passes (onHeap p) () g g' w) :
    ∃ h', Passes p () g.heap h' w ∧ g' = { g with heap := h' } := by
  obtain ⟨k, hk⟩ := h
  rw [onHeap_cut, OnHeap.onHeap, Outcome.mk.injEq] at hk
  obtain ⟨hret, rfl, rfl⟩ := hk
  refine ⟨_, ⟨k, ?_⟩, rfl⟩
  rw [← hret]

end Stepwise

/-! ## The tables in between -/

/-- The tables are where a program was cut: but for one node at most, two lists have all nodes that
were allocated and not freed. -/
structure Interrupted (g : Globals) (w : List HeapEvent) (spare : List Addr) : Prop where
  owned : ∃ ll flows, Owned g.heap (w ++ spare.map .free) g.ll g.flows ll flows
  one : spare.length ≤ 1

section Interrupted

variable {g g' : Globals} {w w' : List HeapEvent} {t : Tables} {ll flows : List (Cell Socket Node)}
  {spare : List Addr} {n : ℕ}

/-- Between two calls nothing is missing. -/
theorem Holds.interrupted (hg : Holds g w t ll flows) : Interrupted g w [] where
  owned := by
    rw [List.map_nil, List.append_nil]
    exact ⟨ll, flows, hg.owned⟩
  one := Nat.zero_le 1

/-- A list that is cut, next to one that is not touched. -/
theorem owned_cut {h h' : TableHeap} {p q : Link} {l l' m : List (Cell Socket Node)}
    (ho : Owned h w p q l m) (hcut : Stepwise.Cut h h' w' p l l' spare) :
    Owned h' (w ++ w' ++ spare.map .free) p q l' m := by
  rw [List.append_assoc]
  exact ho.step hcut.lists hcut.changed

/-- The lists of the tables are not empty. -/
theorem ne_nil_of_values {ν : Type} {f : ν → Node} {l : List (Cell Socket Node)}
    {L : List (Outer Socket ν)} (hvalues : values l = L.map (Outer.map f)) (hne : L ≠ []) :
    l ≠ [] := by
  rintro rfl
  exact hne (List.map_eq_nil_iff.mp hvalues.symm)

/-- An insertion is cut, in a list that is not empty. -/
theorem insert_cut {same : Node → Bool} {socket : Socket} {v : Node} {h h' : TableHeap}
    {p q : Link} {l m : List (Cell Socket Node)} (ho : Owned h w p q l m) (hne : l ≠ [])
    (hn : h.size ≤ n) (hp : Passes (Stepwise.insertNode same socket v n p) () h h' w') :
    ∃ (l' : List (Cell Socket Node)) (spare : List Addr),
      Owned h' (w ++ w' ++ spare.map .free) p q l' m ∧ spare.length ≤ 1 := by
  obtain ⟨a, rfl⟩ := ho.left.exists_addr hne
  obtain ⟨l', spare, hcut⟩ :=
    Stepwise.insertNode_cut ho.left ho.nodup_left (ho.length_le.trans hn) hp
  exact ⟨l', spare, owned_cut ho hcut, hcut.one⟩

/-- A removal is cut. -/
theorem removeFlow_cut {socket : Socket} {port : UInt16} (hg : Holds g w t ll flows)
    (hn : g.heap.size ≤ n) (hp : Passes (Stepwise.removeFlow n socket port) () g g' w') :
    ∃ spare, Interrupted g' (w ++ w') spare := by
  have howned := hg.owned.symm
  have hn' := howned.length_le.trans hn
  have hrest := passes_getState hp
  obtain hremove | ⟨found, g₁, w₁, w₂, hreturn, hrest, rfl⟩ := hrest.bind_cases
  · obtain ⟨h', hheap, rfl⟩ := Stepwise.passes_onHeap hremove
    obtain ⟨flows', spare, hcut⟩ :=
      Stepwise.removeNode_cut howned.left howned.nodup_left hn' hheap
    exact ⟨spare, ⟨ll, flows', (owned_cut howned hcut).symm⟩, hcut.one⟩
  rw [Stepwise.onHeap_prog, Stepwise.removeNode_prog] at hreturn
  rcases removeNode_spec (e := ()) (k := socket) (p := Node.leadsOut port) howned.left
    howned.nodup_left with ⟨hrun, -⟩ | ⟨x, h', flows', hrun, hu⟩
  · obtain ⟨hfound, rfl, rfl⟩ :=
      Outcome.mk.injEq .. ▸ (onHeap_apply (hrun n hn')).symm.trans hreturn
    obtain rfl := Except.ok.inj hfound
    obtain ⟨rfl, rfl⟩ := passes_pure hrest
    exact ⟨[], by simpa using hg.interrupted⟩
  · obtain ⟨hfound, rfl, rfl⟩ :=
      Outcome.mk.injEq .. ▸ (onHeap_apply (hrun n hn')).symm.trans hreturn
    obtain rfl := Except.ok.inj hfound
    -- The node is out of its list, and not freed yet.
    have hout : Interrupted { g with heap := h' } (w ++ []) [x.1] :=
      ⟨⟨ll, flows', (owned_cut howned (Stepwise.cut_of_unlinked hu)).symm⟩, le_rfl⟩
    obtain ⟨next, hnode⟩ := hu.node
    have hread : onHeap (inner x.1) () { g with heap := h' } =
        ⟨.ok ⟨x.2, next⟩, { g with heap := h' }, []⟩ := onHeap_apply (inner_apply hnode)
    obtain ⟨rfl, rfl⟩ | ⟨w₃, hlast, rfl⟩ := Passes.atomic_bind hrest hread
    · exact ⟨[x.1], hout⟩
    obtain ⟨rfl, rfl⟩ | ⟨⟨⟩, hfree⟩ := passes_atomic hlast
    · exact ⟨[x.1], hout⟩
    · obtain ⟨-, rfl, rfl⟩ := Outcome.mk.injEq .. ▸ (onHeap_apply free_apply).symm.trans hfree
      obtain ⟨hlists, hchanged⟩ := hu.freed howned.nodup_left
      exact ⟨[], ⟨ll, flows', by simpa using (howned.step hlists hchanged).symm⟩, Nat.zero_le 1⟩

/-- Wherever a call is cut, one node at most is missing. -/
theorem call_cut (hg : Holds g w t ll flows) (hn : g.heap.size ≤ n) (c : Call)
    (hp : Passes (Stepwise.call n c) () g g' w') : ∃ spare, Interrupted g' (w ++ w') spare := by
  cases c with
  | addPathNode socket toMac port =>
    have hrest := passes_getState hp
    obtain ⟨h', hheap, rfl⟩ := Stepwise.passes_onHeap hrest.of_bind_pure
    obtain ⟨ll', spare, ho, hone⟩ :=
      insert_cut hg.owned (ne_nil_of_values hg.ll_values hg.ll_ne) hn hheap
    exact ⟨spare, ⟨ll', flows, ho⟩, hone⟩
  | addFlowNode socket dstMac srcMac port =>
    have hrest := passes_getState hp
    obtain ⟨h', hheap, rfl⟩ := Stepwise.passes_onHeap hrest.of_bind_pure
    obtain ⟨flows', spare, ho, hone⟩ :=
      insert_cut hg.owned.symm (ne_nil_of_values hg.flows_values hg.flows_ne) hn hheap
    exact ⟨spare, ⟨ll, flows', ho.symm⟩, hone⟩
  | removeFlow socket port => exact removeFlow_cut hg hn hp

/-- Wherever the allocation of the tables is cut, one node at most is missing. -/
theorem allocateTables_cut
    (hp : Passes Stepwise.allocateTables () ⟨⟨[]⟩, none, none⟩ g w) :
    ∃ spare, Interrupted g w spare := by
  have hleft : ListsAt (⟨[some (.outer ⟨0, none, none⟩)]⟩ : TableHeap) (some 0) [⟨0, 0, []⟩] :=
    ⟨rfl, none, none, rfl, rfl, rfl⟩
  have hboth : ListsAt (⟨[some (.outer ⟨0, none, none⟩), some (.outer ⟨0, none, none⟩)]⟩ :
      TableHeap) (some 0) [⟨0, 0, []⟩] := ⟨rfl, none, none, rfl, rfl, rfl⟩
  have hright : ListsAt (⟨[some (.outer ⟨0, none, none⟩), some (.outer ⟨0, none, none⟩)]⟩ :
      TableHeap) (some 1) [⟨1, 0, []⟩] := ⟨rfl, none, none, rfl, rfl, rfl⟩
  unfold Stepwise.allocateTables at hp
  -- One case for each of the places between the four steps.
  obtain ⟨rfl, rfl⟩ | ⟨w₁, hp₁, rfl⟩ := hp.atomic_bind rfl
  · exact ⟨[], ⟨[], [], rfl, rfl, .refl _, rfl⟩, Nat.zero_le 1⟩
  obtain ⟨rfl, rfl⟩ | ⟨w₂, hp₂, rfl⟩ := hp₁.atomic_bind rfl
  · exact ⟨[0], ⟨[], [], rfl, rfl, .refl _, rfl⟩, le_rfl⟩
  obtain ⟨rfl, rfl⟩ | ⟨w₃, hp₃, rfl⟩ := hp₂.atomic_bind rfl
  · exact ⟨[], ⟨[⟨0, 0, []⟩], [], hleft, rfl, .refl _, rfl⟩, Nat.zero_le 1⟩
  obtain ⟨rfl, rfl⟩ | ⟨⟨⟩, hdone⟩ := passes_atomic hp₃
  · exact ⟨[1], ⟨[⟨0, 0, []⟩], [], hboth, rfl, .swap .., rfl⟩, le_rfl⟩
  · obtain ⟨-, rfl, rfl⟩ := Outcome.mk.injEq .. ▸ hdone
    exact ⟨[], ⟨[⟨0, 0, []⟩], [⟨1, 0, []⟩], hboth, hright, .refl _, rfl⟩, Nat.zero_le 1⟩

/-- Wherever a sequence of calls is cut, one node at most is missing. -/
theorem calls_cut (hg : Holds g w t ll flows) (cs : List Call) :
    ∃ N, ∀ n, N ≤ n → ∀ g' w', Passes (Stepwise.calls n cs) () g g' w' →
      ∃ spare, Interrupted g' (w ++ w') spare := by
  induction cs generalizing g w t ll flows with
  | nil =>
    refine ⟨0, fun n _ g' w' hp => ⟨[], ?_⟩⟩
    obtain ⟨rfl, rfl⟩ := passes_pure hp
    simpa using hg.interrupted
  | cons c cs ih =>
    obtain ⟨g₁, w₁, ll', flows', hrun, hg₁⟩ := call_spec hg c
    obtain ⟨N, hN⟩ := ih hg₁
    refine ⟨max N g.heap.size, fun n hn g' w' hp => ?_⟩
    have hsize := le_of_max_le_right hn
    obtain hfirst | ⟨⟨⟩, g₂, w₂, w₃, hreturn, hrest, rfl⟩ := hp.bind_cases
    · exact call_cut hg hsize c hfirst
    · rw [Stepwise.call_prog, hrun n hsize, Outcome.mk.injEq] at hreturn
      obtain ⟨-, rfl, rfl⟩ := hreturn
      rw [← List.append_assoc]
      exact hN n (le_of_max_le_left hn) g' w₃ hrest

end Interrupted

/-- `terminate` can run between any two steps of any sequence of calls, from before the tables are
allocated on: it returns, without touching a node that was freed, and has then freed every node that
was allocated and not freed before, each once, but for one at most. -/
theorem interrupted_shut_down (cs : List Call) :
    ∃ N, ∀ n, N ≤ n →
      (Stepwise.session n cs).prog () ⟨⟨[]⟩, none, none⟩ = session n cs ∧
      ∀ k, ∃ (g : Globals) (w : List HeapEvent) (spare : List Addr),
        (Stepwise.session n cs).cut k () ⟨⟨[]⟩, none, none⟩ = ⟨.ok (), g, w⟩ ∧
        spare.length ≤ 1 ∧ (∀ a ∈ spare, a ∈ allocs w ∧ a ∉ frees w) ∧
        ShutsDown g (w ++ spare.map .free) := by
  obtain ⟨g₀, w₀, ll, flows, ⟨N₀, hN₀⟩, hg₀⟩ := session_spec []
  obtain ⟨N, hN⟩ := calls_cut hg₀ cs
  obtain ⟨g₁, w₁, -, -, ⟨N₁, hN₁⟩, -⟩ := session_spec cs
  refine ⟨max (max N N₀) N₁, fun n hn => ⟨Stepwise.session_prog n cs, fun k => ?_⟩⟩
  obtain ⟨hn', hn₁⟩ := max_le_iff.mp hn
  obtain ⟨hnN, hn₀⟩ := max_le_iff.mp hn'
  obtain ⟨g, w, hcut⟩ := Steps.cut_of_ok ((Stepwise.session_prog n cs).trans (hN₁ n hn₁)) k
  obtain ⟨spare, ⟨ll', flows', ho⟩, hone⟩ : ∃ spare, Interrupted g w spare := by
    obtain hfirst | ⟨⟨⟩, g₂, w₂, w₃, hreturn, hrest, rfl⟩ :=
      Passes.bind_cases (p := Stepwise.allocateTables) ⟨k, hcut⟩
    · exact allocateTables_cut hfirst
    · -- The tables are allocated, and the calls go on from there.
      have hstart := hN₀ n hn₀
      rw [Stepwise.allocateTables_prog] at hreturn
      rw [session, hreturn, Outcome.andThen_ok, run, Outcome.mk.injEq] at hstart
      obtain ⟨-, rfl, rfl⟩ := hstart
      rw [List.append_nil] at hN
      exact hN n hnN g w₃ hrest
  refine ⟨g, w, spare, hcut, hone, fun a ha => ?_, shutsDown_of_owned ho⟩
  have hnodup := ho.nodup
  rw [frees_append, frees_map_free, List.append_assoc] at hnodup
  refine ⟨?_, fun hfreed => ?_⟩
  · have hmem := ho.account.mem_iff (a := a)
    rw [allocs_append, allocs_map_free, List.append_nil, frees_append, frees_map_free] at hmem
    exact hmem.mp (by simp [ha])
  · exact (List.nodup_append.mp hnodup).2.2 a hfreed a (List.mem_append_left _ ha) rfl

/-- The outer node of a new socket is allocated, and not linked yet: the handler frees the two nodes
that the tables started with, and misses this one. -/
example :
    let cut := (Stepwise.session 4 [.addPathNode 4 ⟨2, 0, 0, 0, 0, 1⟩ 1]).cut 8 ()
      ⟨⟨[]⟩, none, none⟩
    allocs cut.events = [0, 1, 2] ∧ frees (terminate 4 () cut.st).events = [0, 1] := by
  decide

end SdnController.OnHeap
