import SdnController.TableMemory
import SdnController.Runs

/-!
# Runs of the controller on the heap

The messages of a run make calls on the tables (`runCalls`): every packet-in that is acted on learns
its source, an ARP reply records two flows, and a frame to its own source one. `run_on_heap` says
that these calls, made on the nodes that `handleConnections` allocates, lead to lists of nodes that
hold what the tables of the run hold. No node is ever freed in a run, so that a node is allocated
for every entry and every socket.
-/

namespace SdnController.OnHeap

open Exec KeyedLists LinkedLists

/-- The calls that a message on a socket makes on the tables. -/
def callsOf (st : State) (s : Socket) : Msg → List Call
  | .packetIn p =>
    let ll := (SdnController.addPathNode s st.ll p.src p.inPort).2
    .addPathNode s p.src p.inPort ::
      if p.arpReply then
        [.addFlowNode s p.src p.dst p.inPort,
          .addFlowNode s p.dst p.src (SdnController.findPort s ll p.dst)]
      else if p.dst = p.src then [.addFlowNode s p.src p.dst p.inPort] else []
  | _ => []

/-- The calls that a run makes on the tables. -/
def runCalls : List Input → State → List Call
  | [], _ => []
  | i :: is, st => callsOf st i.socket i.msg ++ runCalls is (st.after i.socket i.msg)

/-- The contents of the tables in a state. -/
def tablesOf (st : State) : Tables := ⟨st.ll, st.flows⟩

section Runs

variable {st : State} {s : Socket} {is : List Input}

/-- The calls of a message do to the tables what the message does. -/
theorem callsOf_tables (st : State) (s : Socket) (m : Msg) :
    (callsOf st s m).foldl Call.onTables (tablesOf st) = tablesOf (st.after s m) := by
  cases m with
  | packetIn p =>
    simp only [callsOf, State.after]
    split_ifs
    · rfl
    · rfl
    · rfl
  | _ => rfl

/-- The calls of a run do to the tables what the run does. -/
theorem runCalls_tables {st' : State} {w : List Event} (hst : st.Sane)
    (h : run step is st = ⟨.ok (), st', w⟩) :
    (runCalls is st).foldl Call.onTables (tablesOf st) = tablesOf st' := by
  induction is generalizing st w with
  | nil =>
    obtain ⟨-, rfl, -⟩ := Outcome.mk.injEq .. ▸ h
    rfl
  | cons i is ih =>
    obtain ⟨a, st₁, w₁, w₂, hi, his, -⟩ := Outcome.andThen_eq_ok h
    obtain rfl := (step_ok hst hi).1
    rw [runCalls, List.foldl_append, callsOf_tables]
    exact ih (hst.after i.msg) his

/-- No message removes a flow. -/
theorem runCalls_allocate (is : List Input) (st : State) :
    ∀ c ∈ runCalls is st, c.makes = HeapEvent.IsAlloc := by
  induction is generalizing st with
  | nil => exact fun c hc => absurd hc List.not_mem_nil
  | cons i is ih =>
    rw [runCalls, List.forall_mem_append]
    refine ⟨?_, ih _⟩
    cases i.msg with
    | packetIn p =>
      simp only [callsOf]
      split_ifs <;> simp [Call.makes]
    | _ => exact fun c hc => absurd hc List.not_mem_nil

/-- Calls that only allocate free nothing. -/
theorem frees_calls {n : ℕ} {cs : List Call} (hcs : ∀ c ∈ cs, c.makes = HeapEvent.IsAlloc)
    (g : Globals) : frees (run (fun c => call n c ()) cs g).events = [] := by
  induction cs generalizing g with
  | nil => rfl
  | cons c cs ih =>
    rw [List.forall_mem_cons] at hcs
    have hc := (call_effects n c () g).calls
    rw [hcs.1] at hc
    rcases hrun : call n c () g with ⟨ret, g', w⟩
    rw [hrun] at hc
    rw [run, hrun]
    cases ret with
    | ok a => rw [Outcome.andThen_ok, frees_append, (eq_map_alloc hc).2, ih hcs.2, List.nil_append]
    | error e => exact (eq_map_alloc hc).2

/-- A completed run of the controller, on the heap: the calls that it makes return, without a free,
and leave two lists that have all nodes between them and hold what the tables hold. -/
theorem run_on_heap {st : State} {w : List Event} (h : run step is initial = ⟨.ok (), st, w⟩) :
    ∃ g w' ll flows, (∀ n, roundsFor (runCalls is initial) ≤ n →
        session n (runCalls is initial) = ⟨.ok (), g, w'⟩) ∧
      Holds g w' (tablesOf st) ll flows ∧ frees w' = [] ∧
      g.heap.size = nodeCount st.ll + nodeCount st.flows := by
  obtain ⟨g, w', ll, flows, calls, hN, hsize, hg, -, -⟩ := session_tidy (runCalls is initial)
  have htables : tablesAfter (runCalls is initial) = tablesOf st := runCalls_tables sane_initial h
  rw [htables] at hg
  have hsession := (hN _ le_rfl).1
  have hfrees : frees w' = [] := by
    obtain ⟨⟨⟩, g₀, w₀, w₁, hstart, hcs, rfl⟩ := Outcome.andThen_eq_ok hsession
    have hw₀ := (allocateTables_effects () ⟨⟨[]⟩, none, none⟩).calls
    have hw₁ := frees_calls (n := roundsFor (runCalls is initial))
      (runCalls_allocate is initial) g₀
    rw [hstart] at hw₀
    rw [hcs] at hw₁
    rw [frees_append, (eq_map_alloc hw₀).2, hw₁, List.nil_append]
  refine ⟨g, w', ll, flows, fun n hn => (hN n hn).1, hg, hfrees, ?_⟩
  -- All nodes that were allocated are in one of the lists.
  have hcount := hg.owned.account.length_eq
  rw [hfrees, List.nil_append, List.length_append, hg.owned.allocs_eq, List.length_range,
    length_blocks, length_blocks, hg.ll_values, hg.flows_values, nodeCount_map,
    nodeCount_map] at hcount
  exact hcount.symm

theorem run_on_heap_conversation :
    ∃ g w' ll flows, session 10 (runCalls (conversation 4) initial) = ⟨.ok (), g, w'⟩ ∧
      Holds g w' (tablesOf (run step (conversation 4) initial).st) ll flows ∧ frees w' = [] ∧
      g.heap.size = 8 := by
  obtain ⟨g, w', ll, flows, hsession, hg, hfrees, hsize⟩ :=
    run_on_heap (run_of_isOk step (conversation 4) initial (by decide))
  exact ⟨g, w', ll, flows, hsession 10 (by decide), hg, hfrees, hsize.trans (by decide)⟩

end Runs

end SdnController.OnHeap
