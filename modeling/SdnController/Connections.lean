import SdnController.EventLoop
import SdnController.Framing

/-!
# Connections

The life of a connection in the event loop. When it is accepted, the tables hold nothing for its
descriptor (`fresh_connection`): every entry is of a descriptor that the loop watches, all of which
are open, and `accept` returns one that is not. When its peer closes it, `recvData` returns 0, which
nothing looks at: the descriptor stays watched, and is served again and again. So it leaves the loop
in no run but one in which no peer closes its connection (`closed_leave_iff`).
-/

namespace SdnController

open Memory Exec KeyedLists

section Accepted

variable {sd : ℕ} {opened : Finset ℕ} {cs : List Choice} {l : Loop} {w : List LoopEvent}

/-- The tables hold nothing for a descriptor that is not watched. -/
theorem loop_view_fresh (h : run (loopStep sd) cs (Loop.initial sd opened) = ⟨.ok (), l, w⟩)
    {fd : ℕ} (hfd : fd ∉ l.set) : l.tables.view fd = Switch.fresh := by
  obtain ⟨is, hrun, hsockets⟩ := loop_run_calls h
  have hnone : is.filterMap (Input.msgOn fd) = [] := by
    rw [List.filterMap_eq_nil_iff]
    intro i hi
    obtain ⟨fd', hfd', -, hsocket⟩ := hsockets i hi
    unfold Input.msgOn
    rw [if_neg]
    intro hs
    have heq : (fd' : ℤ) = fd := hsocket.symm.trans hs
    rw [Nat.cast_inj] at heq
    exact hfd (heq ▸ hfd')
  rw [run_view fd hrun, hnone]
  rfl

/-- Nothing is found for a socket for which the tables hold nothing. -/
theorem lookups_fresh {st : State} {s : Socket} (h : st.view s = Switch.fresh) :
    ∀ m, findNode s st.ll m = 0 ∧ findPort s st.ll m = 0 ∧
      ∀ d, findFlow s st.flows d m = none := by
  have hpaths : innerList s st.ll = [] := congrArg Switch.paths h
  have hflows : innerList s st.flows = [] := congrArg Switch.flows h
  intro m
  unfold findNode findPort findFlow
  simp [search_eq, hpaths, hflows]

/-- When `accept` returns a descriptor that the process does not have open, the tables hold nothing
for it. -/
theorem fresh_connection (h : run (loopStep sd) cs (Loop.initial sd opened) = ⟨.ok (), l, w⟩)
    {choice : Choice} {fd : ℕ} (haccept : .accept fd ∈ (loopStep sd choice l).events)
    (hfresh : fd ∉ l.opened) :
    ∀ m, findNode fd (loopStep sd choice l).st.tables.ll m = 0 ∧
      findPort fd (loopStep sd choice l).st.tables.ll m = 0 ∧
        ∀ d, findFlow fd (loopStep sd choice l).st.tables.flows d m = none := by
  have hset : fd ∉ l.set := fun hmem => hfresh ((loop_run_inv h).set_subset hmem)
  rw [loopStep_accept haccept]
  exact lookups_fresh (loop_view_fresh h hset)

end Accepted

/-- A choice for a step that leaves nothing else open. -/
def Choice.plain : Choice := ⟨some ∅, none, [], Env.plain⟩

/-- `select` finds one descriptor ready. -/
def Choice.found (fd : ℕ) : Choice := { Choice.plain with ready := some {fd} }

/-- The loop comes to the server's socket, which is ready, in its first round. -/
def startup : List Choice := Choice.found 3 :: List.replicate 3 Choice.plain

/-- The first connection of a process that was started without a standard input is on descriptor 0,
for which the tables hold a node from the start. -/
theorem fresh_connection_zero :
    let l := (loopStep 3 { Choice.plain with accepted := some 0 }
      (run (loopStep 3) startup (Loop.initial 3 {1, 2})).st).st
    ∀ m, findNode 0 l.tables.ll m = 0 ∧ findPort 0 l.tables.ll m = 0 ∧
      ∀ d, findFlow 0 l.tables.flows d m = none :=
  fresh_connection (run_of_isOk (loopStep 3) startup (Loop.initial 3 {1, 2}) (by decide +kernel))
    (by decide +kernel) (by decide +kernel)

/-! ## Connections that are closed -/

/-- Once a call of `recvData` on a descriptor has returned 0, and until `accept` returns the
descriptor again, it is not watched and the loop is not at a call on it. -/
def ClosedLeave (sd : ℕ) (cs : List Choice) (l₀ : Loop) : Prop :=
  ∀ past choice more fd l₁ w₁ l₂ w₂ l₃ w₃, past ++ choice :: more <+: cs →
    run (loopStep sd) past l₀ = ⟨.ok (), l₁, w₁⟩ → loopStep sd choice l₁ = ⟨.ok (), l₂, w₂⟩ →
    .returned fd 0 ∈ w₂ → run (loopStep sd) more l₂ = ⟨.ok (), l₃, w₃⟩ → .accept fd ∉ w₃ →
    fd ∉ l₃.set ∧ ¬l₃.At fd

/-- The peer of the socket on which the loop is about to call `recvData` has not closed the
connection, unless the call of `recv` fails, which ends the process. -/
def PeerOpen (sd : ℕ) (l : Loop) (choice : Choice) : Prop :=
  ∀ fd, l.At fd → fd ≠ sd → choice.stream ≠ [] ∨ choice.env.recvFails .packet = true

/-- `recvData` returns 0 only at the end of the stream, and when the call of `recv` did not fail. -/
theorem recvData_eq_zero {s : Socket} {e : Env} {stream rest : List UInt8} {st st' : State}
    {w : List Event} (hst : st.Sane) (h : recvData s stream e st = ⟨.ok (0, rest), st', w⟩) :
    stream = [] ∧ e.recvFails .packet = false := by
  have hanswers := recvData_answers s e stream hst
  rw [h] at hanswers
  constructor
  · by_contra hne
    have hret := congrArg Prod.fst hanswers.1
    simp [hne] at hret
  · by_contra hf
    rw [Bool.not_eq_false] at hf
    unfold recvData at h
    rw [bind_apply, recv_fails s e hf] at h
    exact absurd (congrArg Outcome.ret h) nofun

section Closed

variable {sd : ℕ} {opened : Finset ℕ} {cs : List Choice}

/-- Closed connections leave the loop in a run exactly when no peer closes its connection in it. -/
theorem closed_leave_iff :
    ClosedLeave sd cs (Loop.initial sd opened) ↔
      Always (PeerOpen sd) (loopStep sd) cs (Loop.initial sd opened) := by
  constructor
  · intro hleave past choice l₁ w₁ hp hpast fd hat hsd
    by_contra hclosed
    obtain ⟨hnil, hf⟩ := not_or.mp hclosed
    rw [not_not] at hnil
    rw [Bool.not_eq_true] at hf
    -- The call returns 0, and the descriptor is still watched after it.
    have hcall := recvData_closed fd l₁.tables hf
    rw [← hnil] at hcall
    have hstep := loopStep_call hat hsd hcall
    have hgone := hleave past choice [] fd l₁ w₁ _ _ _ _ hp hpast hstep (by simp) rfl (by simp)
    exact hgone.1 ((loop_run_inv hpast).tSet_subset hat.2.2)
  · intro hopen past choice more fd l₁ w₁ l₂ w₂ l₃ w₃ hp hpast hstep hret
    exfalso
    have hp' : past ++ [choice] <+: cs :=
      (List.prefix_append_right_inj past |>.mpr (List.prefix_append [choice] more)).trans hp
    obtain ⟨is, hrun, -⟩ := loop_run_calls hpast
    cases loopStep_ok hstep with
    | @call fd' ret rest st wc hat hsd hcall =>
      simp only [List.mem_append, List.mem_map, reduceCtorEq, and_false, exists_false,
        List.mem_singleton, LoopEvent.returned.injEq, false_or] at hret
      rw [← hret.2] at hcall
      obtain ⟨hnil, hf⟩ := recvData_eq_zero (run_sane hrun) hcall
      rcases hopen past choice l₁ w₁ hp' hpast fd' hat hsd with hne | hfails
      · exact hne hnil
      · rw [hf] at hfails
        exact absurd hfails (by decide)
    | _ => simp at hret

end Closed

/-- A switch connects on descriptor 4 and closes the connection; the loop is at a call on it again
in the next round. -/
def closing : List Choice :=
  startup ++ { Choice.plain with accepted := some 4 } ::
    List.replicate 2 Choice.plain ++ Choice.found 4 :: List.replicate 4 Choice.plain

/-- A connection that was closed stays watched, and is served in the next round as well. -/
theorem closed_stays :
    ¬ClosedLeave 3 (closing ++ Choice.plain :: Choice.plain :: Choice.found 4 ::
      List.replicate 4 Choice.plain) (Loop.initial 3 {0, 1, 2}) := by
  intro hleave
  have hpast := run_of_isOk (loopStep 3) closing (Loop.initial 3 {0, 1, 2}) (by decide +kernel)
  obtain ⟨a, hstep⟩ := Outcome.eq_ok (show (loopStep 3 Choice.plain
    (run (loopStep 3) closing (Loop.initial 3 {0, 1, 2})).st).ret.isOk = true by decide +kernel)
  have hmore := run_of_isOk (loopStep 3)
    (Choice.plain :: Choice.found 4 :: List.replicate 4 Choice.plain) _
    (show (run (loopStep 3) (Choice.plain :: Choice.found 4 :: List.replicate 4 Choice.plain)
      (loopStep 3 Choice.plain (run (loopStep 3) closing
        (Loop.initial 3 {0, 1, 2})).st).st).ret.isOk = true by decide +kernel)
  have hgone := hleave closing Choice.plain _ 4 _ _ _ _ _ _ List.prefix_rfl hpast hstep
    (by decide +kernel) hmore (by decide +kernel)
  exact hgone.1 (by decide +kernel)

end SdnController
