import SdnController.Runs
import Mathlib.Data.Finset.Basic

/-!
# The event loop

`handleConnections`: `select` over the watched descriptors, and a `for` loop over all descriptors
that accepts a connection on the server's socket and calls `recvData` on every other socket that is
ready. One step (`loopStep`) is one call of `select` or one iteration of the `for` loop, and what
the step does not decide is in a `Choice`: which descriptors are ready, which descriptor `accept`
returns, and what a switch sends. A run of the loop is a run of such steps.

`loopStep_ok` says all that a step does (`LoopRule`). From it come the invariant of the watched set
(`LoopInv`) and the connection to the runs of `Runs.lean`: the calls of `recvData` that the loop
makes, all on sockets that it watches, are a run of the controller (`loop_run_calls`), so all that
holds of any run of the controller holds of the loop.
-/

namespace SdnController

open Memory Exec

/-- `FD_SETSIZE`, the number of descriptors that an `fd_set` has room for. -/
def fdSetsize : ℕ := 1024

/-- The variables of `handleConnections`, with the tables, and with what the process has open. -/
structure Loop where
  /-- The globals. -/
  tables : State
  /-- `set`, the descriptors that are watched. -/
  set : Finset ℕ
  /-- `t_set`, those of them that `select` found ready. -/
  tSet : Finset ℕ
  nfds : ℕ
  /-- The index of the `for` loop, or nothing when `select` is next. -/
  i : Option ℕ
  /-- The descriptors that the process has open. It closes none of them. -/
  opened : Finset ℕ

/-- The loop before its first call of `select`, on a server socket among the descriptors that the
process has open. -/
def Loop.initial (sd : ℕ) (opened : Finset ℕ) : Loop :=
  ⟨SdnController.initial, {sd}, ∅, sd, none, insert sd opened⟩

/-- What a step of the loop does not decide by itself. -/
structure Choice where
  /-- The descriptors that `select` finds ready, or nothing when it fails. -/
  ready : Option (Finset ℕ)
  /-- The descriptor that `accept` returns, or nothing when it fails. -/
  accepted : Option ℕ
  /-- What the socket delivers before its peer closes it. -/
  stream : List UInt8
  /-- What the call of `recvData` does not decide. -/
  env : Env

/-- What the loop does that can be seen. -/
inductive LoopEvent where
  | select
  /-- `accept` returned a descriptor. -/
  | accept (fd : ℕ)
  /-- An event inside a call of `recvData`. -/
  | within (ev : Event)
  /-- A call of `recvData` on a descriptor returned. -/
  | returned (fd : ℕ) (ret : ℤ)
  deriving DecidableEq

/-- The event of the controller in an event of the loop. -/
def LoopEvent.inner : LoopEvent → Option Event
  | .within ev => some ev
  | _ => none

/-- A program of the loop. -/
abbrev LoopCtl := Prog Choice Stop Loop LoopEvent

/-! ## The loop -/

/-- `FD_SET` on `set`. A descriptor that the set has no room for is written past its end. -/
def fdSet (fd : ℕ) : LoopCtl Unit :=
  if fd < fdSetsize then modifyState fun l => { l with set := insert fd l.set }
  else stop .overflow

/-- `tcpAccept`. -/
def tcpAccept : LoopCtl ℕ := do
  let choice ← ask
  match choice.accepted with
  | none => stop .exit
  | some fd => do
    modifyState fun l => { l with opened := insert fd l.opened }
    emit (.accept fd)
    pure fd

/-- The call of `recvData` on a descriptor. -/
def callRecvData (fd : ℕ) : LoopCtl ℤ := fun choice l =>
  let o := recvData fd choice.stream choice.env l.tables
  ⟨o.ret.map Prod.fst, { l with tables := o.st }, o.events.map .within⟩

/-- The body of the `for` loop. -/
def serve (sd i : ℕ) : LoopCtl Unit := do
  let l ← getState
  if i ∈ l.tSet then
    if i = sd then do
      let clientSocket ← tcpAccept
      fdSet clientSocket
      modifyState fun l => if l.nfds < clientSocket then { l with nfds := clientSocket } else l
    else do
      -- The result is not looked at: nothing takes a descriptor out of the set.
      let ret ← callRecvData i
      emit (.returned i ret)
  else pure ()

/-- One call of `select`, or one iteration of the `for` loop. -/
def handleConnections (sd : ℕ) : LoopCtl Unit := do
  let l ← getState
  match l.i with
  | none => do
    let choice ← ask
    match choice.ready with
    | none => stop .exit
    | some ready => do
      emit .select
      modifyState fun l => { l with tSet := l.set ∩ ready, i := some 0 }
  | some i =>
    if i ≤ l.nfds then do
      serve sd i
      modifyState fun l => { l with i := some (i + 1) }
    else modifyState fun l => { l with i := none }

/-- The step that a choice takes. -/
def loopStep (sd : ℕ) (choice : Choice) : Loop → Outcome Stop Loop LoopEvent Unit :=
  handleConnections sd choice

/-! ## What a step does -/

/-- The state after a call of `recvData` on a descriptor, and after the `for` loop went on. -/
def Loop.afterCall (l : Loop) (fd : ℕ) (st : State) : Loop :=
  { l with tables := st, i := some (fd + 1) }

/-- The state after a connection was accepted on the server's socket. -/
def Loop.afterAccept (l : Loop) (sd fd : ℕ) : Loop :=
  { l with
    set := insert fd l.set, nfds := max l.nfds fd, i := some (sd + 1),
    opened := insert fd l.opened }

/-- The `for` loop is at a descriptor that is ready. -/
def Loop.At (l : Loop) (fd : ℕ) : Prop := l.i = some fd ∧ fd ≤ l.nfds ∧ fd ∈ l.tSet

/-- A step that completes: the state and the events that it leaves. -/
inductive LoopRule (sd : ℕ) (choice : Choice) (l : Loop) : Loop → List LoopEvent → Prop
  | select {ready : Finset ℕ} (hi : l.i = none) (hr : choice.ready = some ready) :
    LoopRule sd choice l { l with tSet := l.set ∩ ready, i := some 0 } [.select]
  | roundEnd {i : ℕ} (hi : l.i = some i) (hn : l.nfds < i) :
    LoopRule sd choice l { l with i := none } []
  | skip {i : ℕ} (hi : l.i = some i) (hn : i ≤ l.nfds) (ht : i ∉ l.tSet) :
    LoopRule sd choice l { l with i := some (i + 1) } []
  | accept {fd : ℕ} (hat : l.At sd) (ha : choice.accepted = some fd) (hroom : fd < fdSetsize) :
    LoopRule sd choice l (l.afterAccept sd fd) [.accept fd]
  | call {fd : ℕ} {ret : ℤ} {rest : List UInt8} {st : State} {w : List Event} (hat : l.At fd)
    (hsd : fd ≠ sd)
    (hcall : recvData fd choice.stream choice.env l.tables = ⟨.ok (ret, rest), st, w⟩) :
    LoopRule sd choice l (l.afterCall fd st) (w.map .within ++ [.returned fd ret])

section Step

variable {sd : ℕ} {choice : Choice} {l l' : Loop} {w : List LoopEvent}

/-- A call of `recvData` that returns. -/
theorem callRecvData_ok {fd : ℕ} {ret : ℤ} {rest : List UInt8} {st : State} {w : List Event}
    (h : recvData fd choice.stream choice.env l.tables = ⟨.ok (ret, rest), st, w⟩) :
    callRecvData fd choice l = ⟨.ok ret, { l with tables := st }, w.map .within⟩ := by
  unfold callRecvData
  rw [h]
  rfl

/-- A call of `recvData` that stops the process. -/
theorem callRecvData_error {fd : ℕ} {x : Stop} {st : State} {w : List Event}
    (h : recvData fd choice.stream choice.env l.tables = ⟨.error x, st, w⟩) :
    callRecvData fd choice l = ⟨.error x, { l with tables := st }, w.map .within⟩ := by
  unfold callRecvData
  rw [h]
  rfl

/-- A connection that is accepted is watched from then on, and `nfds` is raised to it if need be. -/
theorem accept_ok {fd : ℕ} (ha : choice.accepted = some fd) (hroom : fd < fdSetsize) :
    (do
      let clientSocket ← tcpAccept
      fdSet clientSocket
      modifyState fun l => if l.nfds < clientSocket then { l with nfds := clientSocket } else l :
      LoopCtl Unit) choice l =
      ⟨.ok (), { l with
        set := insert fd l.set, nfds := max l.nfds fd, opened := insert fd l.opened },
        [.accept fd]⟩ := by
  unfold tcpAccept fdSet
  simp only [ha, hroom, if_true, bind_apply, ask_apply, Outcome.andThen_ok, modifyState_apply,
    emit_apply, pure_apply, List.nil_append, List.append_nil]
  split_ifs with hlt
  · rw [max_eq_right hlt.le]
  · rw [max_eq_left (not_lt.mp hlt)]

/-- The loop goes on after `accept` only with a descriptor that the set has room for. -/
theorem accept_isOk {k : ℕ → LoopCtl Unit}
    (h : ((do
      let clientSocket ← tcpAccept
      fdSet clientSocket
      k clientSocket : LoopCtl Unit) choice l).ret.isOk = true) :
    ∃ fd, choice.accepted = some fd ∧ fd < fdSetsize := by
  unfold tcpAccept fdSet at h
  rcases ha : choice.accepted with _ | fd
  · simp [ha, Except.isOk, Except.toBool] at h
  · refine ⟨fd, rfl, ?_⟩
    by_contra hroom
    simp [ha, hroom, Except.isOk, Except.toBool] at h

/-- The body of the `for` loop, and its next index. -/
theorem serve_ok {i : ℕ} (hi : l.i = some i) (hn : i ≤ l.nfds)
    (h : (serve sd i >>= fun _ => modifyState fun l => { l with i := some (i + 1) }) choice l =
      ⟨.ok (), l', w⟩) : LoopRule sd choice l l' w := by
  obtain ⟨⟨⟩, l₁, w₁, w₂, hserve, hnext, rfl⟩ := Outcome.andThen_eq_ok h
  simp only [modifyState_apply, Outcome.mk.injEq, true_and] at hnext
  obtain ⟨rfl, rfl⟩ := hnext
  rw [List.append_nil]
  unfold serve at hserve
  rw [bind_apply, getState_apply, Outcome.andThen_ok] at hserve
  by_cases ht : i ∈ l.tSet
  swap
  · simp only [if_neg ht, pure_apply, List.nil_append, Outcome.mk.injEq, true_and] at hserve
    obtain ⟨rfl, rfl⟩ := hserve
    exact .skip hi hn ht
  by_cases hsd : i = sd
  · subst hsd
    simp only [if_pos ht, if_true, List.nil_append] at hserve
    obtain ⟨fd, ha, hroom⟩ := accept_isOk (congrArg (fun o => o.ret.isOk) hserve)
    rw [accept_ok ha hroom, Outcome.mk.injEq] at hserve
    obtain ⟨-, rfl, rfl⟩ := hserve
    exact .accept ⟨hi, hn, ht⟩ ha hroom
  · simp only [if_pos ht, if_neg hsd, List.nil_append] at hserve
    rcases hcall : recvData i choice.stream choice.env l.tables with ⟨ret, st, wc⟩
    cases ret with
    | error x =>
      rw [bind_apply, callRecvData_error hcall, Outcome.andThen_error] at hserve
      exact absurd (congrArg Outcome.ret hserve) nofun
    | ok a =>
      obtain ⟨ret, rest⟩ := a
      rw [bind_apply, callRecvData_ok hcall] at hserve
      simp only [Outcome.andThen_ok, emit_apply, Outcome.mk.injEq, true_and] at hserve
      obtain ⟨rfl, rfl⟩ := hserve
      exact .call ⟨hi, hn, ht⟩ hsd hcall

/-- All that a step which completes does. -/
theorem loopStep_ok (h : loopStep sd choice l = ⟨.ok (), l', w⟩) : LoopRule sd choice l l' w := by
  unfold loopStep handleConnections at h
  rw [bind_apply, getState_apply, Outcome.andThen_ok] at h
  rcases hi : l.i with _ | i
  · rcases hr : choice.ready with _ | ready
    · simp [hi, hr] at h
    · simp only [hi, hr, bind_apply, ask_apply, Outcome.andThen_ok, emit_apply, modifyState_apply,
        List.nil_append, List.append_nil, Outcome.mk.injEq, true_and] at h
      obtain ⟨rfl, rfl⟩ := h
      exact .select hi hr
  · by_cases hn : i ≤ l.nfds
    · simp only [hi, if_pos hn, List.nil_append] at h
      exact serve_ok hi hn h
    · simp only [hi, if_neg hn, modifyState_apply, List.nil_append, Outcome.mk.injEq,
        true_and] at h
      obtain ⟨rfl, rfl⟩ := h
      exact .roundEnd hi (not_le.mp hn)

/-- A call of `recvData` that returns, as a step of the loop. -/
theorem loopStep_call {fd : ℕ} {ret : ℤ} {rest : List UInt8} {st : State} {wc : List Event}
    (hat : l.At fd) (hsd : fd ≠ sd)
    (hcall : recvData fd choice.stream choice.env l.tables = ⟨.ok (ret, rest), st, wc⟩) :
    loopStep sd choice l =
      ⟨.ok (), l.afterCall fd st, wc.map .within ++ [.returned fd ret]⟩ := by
  obtain ⟨hi, hn, ht⟩ := hat
  unfold loopStep handleConnections serve
  rw [bind_apply, getState_apply, Outcome.andThen_ok]
  simp only [hi, if_pos hn, prog_bind_assoc]
  rw [bind_apply, getState_apply, Outcome.andThen_ok]
  simp only [if_pos ht, if_neg hsd]
  rw [bind_apply, bind_apply, callRecvData_ok hcall]
  simp [Loop.afterCall]

/-- A step in which a connection is accepted leaves the tables, even if the descriptor is one that
the set has no room for. -/
theorem loopStep_accept {fd : ℕ} (h : .accept fd ∈ (loopStep sd choice l).events) :
    (loopStep sd choice l).st.tables = l.tables := by
  unfold loopStep handleConnections serve at h ⊢
  rw [bind_apply, getState_apply, Outcome.andThen_ok] at h ⊢
  rcases hi : l.i with _ | i
  · rcases hr : choice.ready with _ | ready <;> simp [hr]
  by_cases hn : i ≤ l.nfds
  swap
  · simp [hn]
  simp only [hi, if_pos hn, prog_bind_assoc] at h ⊢
  rw [bind_apply, getState_apply, Outcome.andThen_ok] at h ⊢
  by_cases ht : i ∈ l.tSet
  swap
  · simp [ht]
  by_cases hsd : i = sd
  · subst hsd
    unfold tcpAccept fdSet
    rcases ha : choice.accepted with _ | fd'
    · simp [ht, ha]
    · by_cases hroom : fd' < fdSetsize <;> by_cases hlt : l.nfds < fd' <;>
        simp [ht, ha, hroom, hlt]
  · -- No connection is accepted in a call of `recvData`.
    exfalso
    simp only [if_pos ht, if_neg hsd] at h
    rcases hcall : recvData i choice.stream choice.env l.tables with ⟨ret, st, wc⟩
    cases ret with
    | error x =>
      rw [bind_apply, bind_apply, callRecvData_error hcall] at h
      simp at h
    | ok a =>
      obtain ⟨ret, rest⟩ := a
      rw [bind_apply, bind_apply, callRecvData_ok hcall] at h
      simp at h

/-- A step outside the `for` loop is a call of `select`. -/
theorem LoopRule.select_of_none (h : LoopRule sd choice l l' w) (hi : l.i = none) :
    ∃ ready, choice.ready = some ready ∧ l' = { l with tSet := l.set ∩ ready, i := some 0 } ∧
      w = [.select] := by
  cases h with
  | select _ hready => exact ⟨_, hready, rfl, rfl⟩
  | roundEnd hi' => exact absurd (hi.symm.trans hi') nofun
  | skip hi' => exact absurd (hi.symm.trans hi') nofun
  | accept hat => exact absurd (hi.symm.trans hat.1) nofun
  | call hat => exact absurd (hi.symm.trans hat.1) nofun

/-- A step takes no descriptor out of the watched set. -/
theorem LoopRule.set_subset (h : LoopRule sd choice l l' w) : l.set ⊆ l'.set := by
  cases h with
  | accept => exact Finset.subset_insert _ _
  | _ => exact Finset.Subset.refl _

end Step

/-! ## Runs of the loop -/

/-- What is ready is watched, and what is watched is open. -/
structure LoopInv (l : Loop) : Prop where
  tSet_subset : l.tSet ⊆ l.set
  set_subset : l.set ⊆ l.opened

theorem loopInv_initial (sd : ℕ) (opened : Finset ℕ) : LoopInv (Loop.initial sd opened) :=
  ⟨Finset.empty_subset _, Finset.singleton_subset_iff.mpr (Finset.mem_insert_self sd opened)⟩

/-- A step keeps the invariant. -/
theorem LoopInv.step {sd : ℕ} {choice : Choice} {l l' : Loop} {w : List LoopEvent} (h : LoopInv l)
    (hrule : LoopRule sd choice l l' w) : LoopInv l' := by
  cases hrule with
  | select => exact ⟨Finset.inter_subset_left, h.set_subset⟩
  | accept =>
    exact ⟨h.tSet_subset.trans (Finset.subset_insert _ _),
      Finset.insert_subset_insert _ h.set_subset⟩
  | _ => exact ⟨h.tSet_subset, h.set_subset⟩

section LoopRun

variable {sd : ℕ} {opened : Finset ℕ} {cs : List Choice} {l : Loop} {w : List LoopEvent}

/-- What is ready is watched, and what is watched is open, in every reachable state. -/
theorem loop_run_inv (h : run (loopStep sd) cs (Loop.initial sd opened) = ⟨.ok (), l, w⟩) :
    LoopInv l := by
  refine run_induction (fun _ l _ => LoopInv l) (loopInv_initial sd opened) ?_ h
  intro past choice l₁ w₁ a l₂ w₂ _ _ hstep hinv
  exact hinv.step (loopStep_ok hstep)

/-- The controller's part of a step: nothing, or a call of `recvData` on a watched socket. -/
theorem LoopRule.calls {choice : Choice} {l l' : Loop} {w : List LoopEvent} (hinv : LoopInv l)
    (h : LoopRule sd choice l l' w) :
    (l'.tables = l.tables ∧ w.filterMap LoopEvent.inner = []) ∨
      ∃ (i : Input) (a : ℤ × List UInt8), (∃ fd ∈ l.set, fd ≠ sd ∧ i.socket = fd) ∧
        SdnController.step i l.tables = ⟨.ok a, l'.tables, w.filterMap LoopEvent.inner⟩ := by
  cases h with
  | @call fd ret rest st wc hat hsd hcall =>
    refine .inr ⟨⟨fd, choice.stream, choice.env⟩, (ret, rest),
      ⟨fd, hinv.tSet_subset hat.2.2, hsd, rfl⟩, ?_⟩
    have hinner : (wc.map LoopEvent.within ++ [LoopEvent.returned fd ret]).filterMap
        LoopEvent.inner = wc := by
      rw [List.filterMap_append, List.filterMap_map]
      simp [LoopEvent.inner, Function.comp_def]
    rw [hinner]
    exact hcall
  | _ => exact .inl ⟨rfl, rfl⟩

/-- The calls of `recvData` that the loop makes are a run of the controller, on sockets that the
loop watches. -/
theorem loop_run_calls (h : run (loopStep sd) cs (Loop.initial sd opened) = ⟨.ok (), l, w⟩) :
    ∃ is, run step is initial = ⟨.ok (), l.tables, w.filterMap LoopEvent.inner⟩ ∧
      ∀ i ∈ is, ∃ fd ∈ l.set, fd ≠ sd ∧ i.socket = fd := by
  refine run_induction (fun _ l w =>
    ∃ is, run step is initial = ⟨.ok (), l.tables, w.filterMap LoopEvent.inner⟩ ∧
      ∀ i ∈ is, ∃ fd ∈ l.set, fd ≠ sd ∧ i.socket = fd) ⟨[], rfl, by simp⟩ ?_ h
  rintro past choice l₁ w₁ a l₂ w₂ - hpast hstep ⟨is, hrun, hsockets⟩
  have hrule := loopStep_ok hstep
  have hkeep : ∀ i ∈ is, ∃ fd ∈ l₂.set, fd ≠ sd ∧ i.socket = fd := by
    intro i hi
    obtain ⟨fd, hfd, hsocket⟩ := hsockets i hi
    exact ⟨fd, hrule.set_subset hfd, hsocket⟩
  rw [List.filterMap_append]
  rcases hrule.calls (loop_run_inv hpast) with ⟨htables, hw⟩ | ⟨i, a, ⟨fd, hfd, hsocket⟩, hcall⟩
  · rw [htables, hw, List.append_nil]
    exact ⟨is, hrun, hkeep⟩
  · refine ⟨is ++ [i], run_concat_ok hrun hcall, ?_⟩
    intro j hj
    rcases List.mem_append.mp hj with hj | hj
    · exact hkeep j hj
    · rw [List.mem_singleton.mp hj]
      exact ⟨fd, hrule.set_subset hfd, hsocket⟩

end LoopRun

end SdnController
