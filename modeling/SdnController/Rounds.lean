import SdnController.Connections
import SdnController.Lib.Scans
import Mathlib.Order.Bounds.Basic

/-!
# Rounds of the event loop

A round is one call of `select` and the iterations of the `for` loop up to the next. The loop counts
`i` up to `nfds`, which an iteration raises when it accepts a connection, and asks at each `i` for
its bit in `t_set`, the copy of the watched set that `select` has left. Between two calls of
`select`, the loop calls `recvData` once on every ready client socket, in increasing order, accepts
one connection if the server's socket is ready, and comes to its end (`ServesRound`): what `accept`
returns goes into the watched set and not into the copy, and where it lies, below `i` or above, is
nothing to the iterations that are left. A call is seen by its return, and by the one header that it
receives from its socket (`recvData_headerFrom`).

It rests on two invariants. Over the whole run, `nfds` is the largest of the watched descriptors
(`Watched`), so that no ready one is out of the loop's reach. Inside a round, what has been served
is what a counter at `i` has met of the ready clients (`Round`), which one lemma carries over an
iteration of each kind (`Round.next`).
-/

namespace SdnController

open Memory Exec Scans

/-- The connections that are accepted in a trace. -/
def accepts (w : List LoopEvent) : List ℕ :=
  w.filterMap fun | .accept fd => some fd | _ => none

/-- The descriptors on which calls of `recvData` return in a trace. -/
def serves (w : List LoopEvent) : List ℕ :=
  w.filterMap fun | .returned fd _ => some fd | _ => none

/-- The socket from which an event receives a header. -/
def Event.headerFrom : Event → Option Socket
  | .recv s .packet _ _ => some s
  | _ => none

/-- The sockets from which a header is received in a trace. -/
def headersFrom (w : List LoopEvent) : List Socket :=
  (w.filterMap LoopEvent.inner).filterMap Event.headerFrom

@[simp]
theorem accepts_append (w₁ w₂ : List LoopEvent) : accepts (w₁ ++ w₂) = accepts w₁ ++ accepts w₂ :=
  List.filterMap_append

@[simp]
theorem serves_append (w₁ w₂ : List LoopEvent) : serves (w₁ ++ w₂) = serves w₁ ++ serves w₂ :=
  List.filterMap_append

@[simp]
theorem headersFrom_append (w₁ w₂ : List LoopEvent) :
    headersFrom (w₁ ++ w₂) = headersFrom w₁ ++ headersFrom w₂ := by
  unfold headersFrom
  rw [List.filterMap_append, List.filterMap_append]

@[simp]
theorem accepts_accept (fd : ℕ) : accepts [.accept fd] = [fd] := rfl

@[simp]
theorem serves_accept (fd : ℕ) : serves [.accept fd] = [] := rfl

@[simp]
theorem accepts_call (w : List Event) (fd : ℕ) (ret : ℤ) :
    accepts (w.map .within ++ [.returned fd ret]) = [] := by
  simp [accepts, List.filterMap_map]

@[simp]
theorem serves_call (w : List Event) (fd : ℕ) (ret : ℤ) :
    serves (w.map .within ++ [.returned fd ret]) = [fd] := by
  simp [serves, List.filterMap_map]

@[simp]
theorem headersFrom_call (w : List Event) (fd : ℕ) (ret : ℤ) :
    headersFrom (w.map .within ++ [.returned fd ret]) = w.filterMap Event.headerFrom := by
  unfold headersFrom
  rw [List.filterMap_append, List.filterMap_map]
  simp [LoopEvent.inner, Function.comp_def]

/-! ## Calls -/

section Calls

variable {s : Socket} {e : Env} {st : State} {stream : List UInt8}

/-- No header is received into the payload. -/
theorem recvPayload_no_header (n : ℤ) :
    (recvPayload s n stream e st).Safe (·.headerFrom = none) (fun _ => False) := by
  by_cases hn : 0 < n
  swap
  · rw [recvPayload_none s e (not_lt.mp hn), Outcome.safe_ok]
    simp
  by_cases hfails : e.recvFails .payload = true
  · rw [recvPayload_fails s e hn hfails, Outcome.safe_error]
    simp [Event.headerFrom]
  rw [Bool.not_eq_true] at hfails
  by_cases hfit : (stream.take n.toNat).length ≤ payloadLen
  · rw [recvPayload_stores s e hn hfails hfit, Outcome.safe_ok]
    simp [Event.headerFrom]
  · rw [recvPayload_overflows s e hn hfails hfit, Outcome.safe_error]
    simp [Event.headerFrom]

/-- Nothing is received after the payload. -/
theorem dispatch_no_header (n : ℕ) (hm pm : Mem) :
    (dispatch s ⟨.packet, ofpHdrLen, hm, 0⟩ ⟨.payload, payloadLen, pm, 0⟩ n e st).Safe
      (·.headerFrom = none) (fun _ => False) := by
  have hfits := (fits_dispatch (c := False) (k := 0) s e st n hm pm False.elim).mpr False.elim
  refine ⟨fun ev hev => ?_, hfits.2⟩
  have hev' := hfits.1 ev hev
  cases ev with
  | recv => exact absurd hev' id
  | _ => rfl

/-- A call of `recvData` receives one header, from its socket. -/
theorem recvData_headerFrom (s : Socket) (stream : List UInt8) (e : Env) (st : State) :
    (recvData s stream e st).events.filterMap Event.headerFrom = [s] := by
  by_cases hfails : e.recvFails .packet = true
  · rw [recvData_events_of_fails hfails]
    rfl
  rw [Bool.not_eq_true] at hfails
  have hfit : (stream.take ofpHdrLen).length ≤ ofpHdrLen := by simp
  have hfirst : ∀ {n : ℕ} {o : Outcome Stop State Event (ℤ × List UInt8)},
      o.Safe (·.headerFrom = none) (fun _ => False) →
        ([Event.recv s .packet ofpHdrLen n] ++ o.events).filterMap Event.headerFrom = [s] := by
    intro n o ho
    rw [List.filterMap_append, List.filterMap_eq_nil_iff.mpr ho.1]
    rfl
  unfold recvData
  rw [bind_apply, recv_stores s e hfails hfit, Outcome.andThen_ok]
  apply hfirst
  rw [prog_ite_apply]
  split_ifs
  · simp [Outcome.Safe]
  · simp [Outcome.Safe]
  · refine safe_bind (recvPayload_no_header _) fun p st' => ?_
    exact (safe_bind_pure _).mpr (dispatch_no_header _ _ _)

end Calls

/-! ## The watched set -/

/-- What is watched is the server's socket and what was accepted, and `nfds` is the largest. -/
structure Watched (sd : ℕ) (l : Loop) (w : List LoopEvent) : Prop where
  set_eq : l.set = insert sd (accepts w).toFinset
  nfds_greatest : IsGreatest (l.set : Set ℕ) l.nfds

theorem watched_initial (sd : ℕ) (opened : Finset ℕ) : Watched sd (Loop.initial sd opened) [] := by
  refine ⟨rfl, ?_⟩
  show IsGreatest (({sd} : Finset ℕ) : Set ℕ) sd
  rw [Finset.coe_singleton]
  exact isGreatest_singleton

section Watching

variable {sd : ℕ} {opened : Finset ℕ} {choice : Choice} {l l' : Loop} {w w' : List LoopEvent}

/-- A step keeps track of what is watched: a connection that it accepts is watched from then on, and
`nfds` is raised to it if it is larger. -/
theorem Watched.step (h : Watched sd l w) (hrule : LoopRule sd choice l l' w') :
    Watched sd l' (w ++ w') := by
  obtain ⟨hset, hgreatest⟩ := h
  cases hrule with
  | @accept fd hat ha hroom =>
    constructor
    · show insert fd l.set = _
      rw [hset, accepts_append, accepts_accept, List.toFinset_append, Finset.insert_comm,
        Finset.union_comm]
      rfl
    · show IsGreatest ((insert fd l.set : Finset ℕ) : Set ℕ) (max l.nfds fd)
      rw [Finset.coe_insert, max_comm]
      exact hgreatest.insert fd
  | call => exact ⟨by rw [accepts_append, accepts_call, List.append_nil]; exact hset, hgreatest⟩
  | select => exact ⟨by rw [accepts_append]; simpa [accepts] using hset, hgreatest⟩
  | _ => exact ⟨by rw [List.append_nil]; exact hset, hgreatest⟩

/-- What is watched, in every reachable state. -/
theorem loop_run_watched {cs : List Choice}
    (h : run (loopStep sd) cs (Loop.initial sd opened) = ⟨.ok (), l, w⟩) : Watched sd l w := by
  refine run_induction (fun _ l w => Watched sd l w) (watched_initial sd opened) ?_ h
  intro past choice l₁ w₁ a l₂ w₂ _ _ hstep hwatched
  exact hwatched.step (loopStep_ok hstep)

end Watching

/-! ## The iterations of a round -/

/-- How far a round has come when its counter is at `n`, where `select` found `ready`: what has been
served is what the counter has met of the ready clients. All that is ready is within `nfds`, which
stays below `bound`. -/
structure Round (sd bound : ℕ) (ready : Finset ℕ) (n : ℕ) (l : Loop) (w : List LoopEvent) :
    Prop where
  tSet_eq : l.tSet = ready
  ready_le : ∀ fd ∈ ready, fd ≤ l.nfds
  le_nfds : n ≤ l.nfds + 1
  nfds_lt : l.nfds < bound
  serves_eq : serves w = scan (ready.erase sd) n
  accepts_eq : (accepts w).length = if sd ∈ ready ∧ sd < n then 1 else 0

section Iterations

variable {sd bound n : ℕ} {ready : Finset ℕ} {choice : Choice} {l l' : Loop}
  {w w' : List LoopEvent}

/-- An iteration takes a round on by one when it leaves `t_set`, does not lower `nfds`, and serves
the descriptor that the counter is at if that is ready, and nothing else. -/
theorem Round.next (h : Round sd bound ready n l w) (hn : n ≤ l.nfds) (ht : l'.tSet = l.tSet)
    (hle : l.nfds ≤ l'.nfds) (hlt : l'.nfds < bound)
    (hserves : serves w' = if n ∈ ready.erase sd then [n] else [])
    (haccepts : (accepts w').length = if n ∈ ready ∧ n = sd then 1 else 0) :
    Round sd bound ready (n + 1) l' (w ++ w') where
  tSet_eq := ht.trans h.tSet_eq
  ready_le fd hfd := (h.ready_le fd hfd).trans hle
  le_nfds := Nat.succ_le_succ (hn.trans hle)
  nfds_lt := hlt
  serves_eq := by rw [serves_append, h.serves_eq, hserves, scan_succ]
  accepts_eq := by
    rw [accepts_append, List.length_append, h.accepts_eq, haccepts]
    -- The counter is before the server's socket, at it, or past it.
    rcases lt_trichotomy n sd with hlt | rfl | hgt
    · simp [hlt.ne, show ¬sd < n by omega, show ¬sd < n + 1 by omega]
    · simp
    · simp [hgt.ne', hgt, show sd < n + 1 by omega]

/-- An iteration that completes takes a round on by one, or ends it, with its counter past `nfds`
and nothing more served. -/
theorem Round.step (h : Round sd bound ready n l w) (hi : l.i = some n) (hb : fdSetsize ≤ bound)
    (hrule : LoopRule sd choice l l' w') :
    (l'.i = some (n + 1) ∧ Round sd bound ready (n + 1) l' (w ++ w')) ∨
      (l'.i = none ∧ l'.nfds < n ∧ Round sd bound ready n l' (w ++ w')) := by
  cases hrule with
  | select hi' => exact absurd (hi'.symm.trans hi) nofun
  | @roundEnd i hi' hn =>
    obtain rfl : i = n := Option.some.inj (hi'.symm.trans hi)
    rw [List.append_nil]
    exact .inr ⟨rfl, hn, h.tSet_eq, h.ready_le, h.le_nfds, h.nfds_lt, h.serves_eq, h.accepts_eq⟩
  | @skip i hi' hn ht =>
    obtain rfl : i = n := Option.some.inj (hi'.symm.trans hi)
    rw [h.tSet_eq] at ht
    refine .inl ⟨rfl, h.next hn rfl le_rfl h.nfds_lt ?_ ?_⟩
    · rw [if_neg (fun hmem => ht (Finset.mem_of_mem_erase hmem))]
      rfl
    · rw [if_neg (fun hmem => ht hmem.1)]
      rfl
  | @accept fd hat ha hroom =>
    obtain ⟨hi', hn, ht⟩ := hat
    obtain rfl : sd = n := Option.some.inj (hi'.symm.trans hi)
    rw [h.tSet_eq] at ht
    refine .inl ⟨rfl, h.next hn rfl (le_max_left _ _)
      (max_lt h.nfds_lt (hroom.trans_le hb)) ?_ ?_⟩
    · rw [serves_accept, if_neg (Finset.notMem_erase sd ready)]
    · rw [accepts_accept, if_pos ⟨ht, rfl⟩]
      rfl
  | @call fd ret rest st wc hat hsd hcall =>
    obtain ⟨hi', hn, ht⟩ := hat
    obtain rfl : fd = n := Option.some.inj (hi'.symm.trans hi)
    rw [h.tSet_eq] at ht
    refine .inl ⟨rfl, h.next hn rfl le_rfl h.nfds_lt ?_ ?_⟩
    · rw [serves_call, if_pos (Finset.mem_erase.mpr ⟨hsd, ht⟩)]
    · rw [accepts_call, if_neg (fun heq => hsd heq.2)]
      rfl

/-- What a step serves is a call of `recvData` on the descriptor, which receives one header. -/
theorem LoopRule.headersFrom_eq (hrule : LoopRule sd choice l l' w) :
    headersFrom w = (serves w).map Nat.cast := by
  cases hrule with
  | @call fd ret rest st wc hat hsd hcall =>
    have hheader := recvData_headerFrom fd choice.stream choice.env l.tables
    rw [hcall] at hheader
    rw [headersFrom_call, serves_call]
    exact hheader
  | _ => rfl

/-- What a run serves is a call of `recvData` each time. -/
theorem run_headersFrom {cs : List Choice} (h : run (loopStep sd) cs l = ⟨.ok (), l', w⟩) :
    headersFrom w = (serves w).map Nat.cast := by
  refine run_induction (fun _ _ w => headersFrom w = (serves w).map Nat.cast) rfl ?_ h
  intro past choice l₁ w₁ a l₂ w₂ _ _ hstep ih
  rw [headersFrom_append, serves_append, List.map_append, ih, (loopStep_ok hstep).headersFrom_eq]

/-- A round `k` steps after its call of `select`: it is in its iteration `k`, or it has ended with
the last of them. -/
def InRound (sd bound : ℕ) (ready : Finset ℕ) (k : ℕ) (l : Loop) (w : List LoopEvent) : Prop :=
  (l.i = some k ∧ Round sd bound ready k l w) ∨
    ∃ n, k = n + 1 ∧ l.i = none ∧ l.nfds < n ∧ Round sd bound ready n l w

/-- A step that is no call of `select` stays in the round. -/
theorem InRound.step {k : ℕ} (h : InRound sd bound ready k l w) (hb : fdSetsize ≤ bound)
    (hrule : LoopRule sd choice l l' w') (hw : .select ∉ w') :
    InRound sd bound ready (k + 1) l' (w ++ w') := by
  rcases h with ⟨hi, hround⟩ | ⟨n, rfl, hi, -, -⟩
  · rcases hround.step hi hb hrule with hnext | ⟨hi', hn, hround'⟩
    · exact .inl hnext
    · exact .inr ⟨k, rfl, hi', hn, hround'⟩
  · -- A round that has ended takes no step but a call of `select`.
    obtain ⟨ready', -, -, rfl⟩ := hrule.select_of_none hi
    exact absurd (List.mem_singleton_self _) hw

/-- Whether it has ended or not, a round is as far as its counter. -/
theorem InRound.round {k : ℕ} (h : InRound sd bound ready k l w) :
    ∃ n, k ≤ n + 1 ∧ Round sd bound ready n l w := by
  rcases h with ⟨-, hround⟩ | ⟨n, hk, -, -, hround⟩
  · exact ⟨k, Nat.le_succ k, hround⟩
  · exact ⟨n, hk.le, hround⟩

/-- A round takes no more steps than there are numbers below the bound, and the one that ends it. -/
theorem InRound.length_le {k : ℕ} (h : InRound sd bound ready k l w) : k ≤ bound + 1 := by
  obtain ⟨n, hk, hround⟩ := h.round
  have hle := hround.le_nfds
  have hlt := hround.nfds_lt
  omega

/-- The start of a round: `select` has left the ready ones among the watched, all of which are
within `nfds`. -/
theorem inRound_start (hnfds : IsGreatest (l.set : Set ℕ) l.nfds) (found : Finset ℕ) :
    InRound sd (max (l.nfds + 1) fdSetsize) (l.set ∩ found) 0
      { l with tSet := l.set ∩ found, i := some 0 } [] := by
  refine .inl ⟨rfl, rfl, ?_, Nat.zero_le _, lt_max_of_lt_left (Nat.lt_succ_self _), ?_, ?_⟩
  · exact fun fd hfd => hnfds.2 (Finset.mem_inter.mp hfd).1
  · rw [scan_zero]
    rfl
  · rw [if_neg (fun hmem => Nat.not_lt_zero sd hmem.2)]
    rfl

/-- A run without a call of `select` stays in the round that it starts in. -/
theorem run_inRound {body : List Choice} {l₀ : Loop} (h₀ : InRound sd bound ready 0 l₀ [])
    (hb : fdSetsize ≤ bound) (h : run (loopStep sd) body l₀ = ⟨.ok (), l, w⟩)
    (hw : .select ∉ w) : InRound sd bound ready body.length l w := by
  refine run_induction (fun past l w => .select ∉ w → InRound sd bound ready past.length l w)
    (fun _ => h₀) ?_ h hw
  intro past choice l₁ w₁ a l₂ w₂ _ _ hstep hround hw
  obtain ⟨hw₁, hw₂⟩ := not_or.mp (mt List.mem_append.mpr hw)
  rw [List.length_append, List.length_singleton]
  exact (hround hw₁).step hb (loopStep_ok hstep) hw₂

end Iterations

/-! ## Every ready socket is served -/

/-- The part of a round that a run has gone through, where `select` found `ready`, with the loop
that it leaves and its trace. -/
structure ServesRound (sd : ℕ) (ready : Finset ℕ) (l : Loop) (w : List LoopEvent) : Prop where
  /-- What has been served is the first of the ready clients in increasing order, each once. -/
  served : serves w <+: (ready.erase sd).sort
  /-- Each of them is served by a call of `recvData`: these descriptors, and no others, have had a
  header received from them. -/
  called : headersFrom w = (serves w).map Nat.cast
  /-- No more than one connection has been accepted, and none if the server is not ready. -/
  accepted : (accepts w).length ≤ if sd ∈ ready then 1 else 0
  /-- The loop is at no descriptor but one that is ready and has not had its turn. -/
  turn : ∀ fd, l.At fd → fd ∈ ready ∧ fd ∉ serves w ∧ (fd = sd → accepts w = [])
  /-- When the `for` loop has ended, all of them have had their turn. -/
  whole : l.i = none → serves w = (ready.erase sd).sort ∧
    (accepts w).length = if sd ∈ ready then 1 else 0

section Served

variable {sd bound n : ℕ} {ready : Finset ℕ} {l : Loop} {w : List LoopEvent}

theorem Round.accepts_le (h : Round sd bound ready n l w) :
    (accepts w).length ≤ if sd ∈ ready then 1 else 0 := by
  rw [h.accepts_eq]
  by_cases hsd : sd ∈ ready
  · rw [if_pos hsd]
    split_ifs <;> omega
  · rw [if_neg hsd, if_neg (fun hmem => hsd hmem.1)]

/-- The counter comes to a number once, so the descriptor that it is at has not had its turn. -/
theorem Round.turn (h : Round sd bound ready n l w) (hi : l.i = some n) {fd : ℕ} (hat : l.At fd) :
    fd ∈ ready ∧ fd ∉ serves w ∧ (fd = sd → accepts w = []) := by
  obtain ⟨hi', -, ht⟩ := hat
  obtain rfl : fd = n := Option.some.inj (hi'.symm.trans hi)
  rw [h.tSet_eq] at ht
  refine ⟨ht, ?_, ?_⟩
  · rw [h.serves_eq, mem_scan]
    exact fun hmem => lt_irrefl _ hmem.1
  · rintro rfl
    have hlength := h.accepts_eq
    rw [if_neg (fun hmem => lt_irrefl _ hmem.2)] at hlength
    exact List.length_eq_zero_iff.mp hlength

/-- A counter past `nfds` has met all that is ready. -/
theorem Round.whole (h : Round sd bound ready n l w) (hn : l.nfds < n) :
    serves w = (ready.erase sd).sort ∧ (accepts w).length = if sd ∈ ready then 1 else 0 := by
  have hpast : ∀ fd ∈ ready, fd < n := fun fd hfd => (h.ready_le fd hfd).trans_lt hn
  constructor
  · rw [h.serves_eq]
    exact scan_eq_sort fun fd hfd => hpast fd (Finset.mem_of_mem_erase hfd)
  · rw [h.accepts_eq]
    exact if_congr ⟨And.left, fun hsd => ⟨hsd, hpast sd hsd⟩⟩ rfl rfl

/-- What the invariant of a round says of what has been served in it. -/
theorem InRound.servesRound {k : ℕ} (h : InRound sd bound ready k l w)
    (hcalled : headersFrom w = (serves w).map Nat.cast) : ServesRound sd ready l w := by
  obtain ⟨n, -, hround⟩ := h.round
  refine ⟨?_, hcalled, hround.accepts_le, ?_, ?_⟩
  · rw [hround.serves_eq]
    exact scan_prefix_sort
  · intro fd hat
    rcases h with ⟨hi, hround⟩ | ⟨n, -, hi, -⟩
    · exact hround.turn hi hat
    · exact absurd (hi.symm.trans hat.1) nofun
  · intro hnone
    rcases h with ⟨hi, -⟩ | ⟨n, -, -, hn, hround⟩
    · exact absurd (hnone.symm.trans hi) nofun
    · exact hround.whole hn

end Served

section Rounds

variable {sd : ℕ} {opened : Finset ℕ} {past : List Choice} {l : Loop} {w : List LoopEvent}

/-- At every call of `select`, `nfds` is the largest of the watched descriptors, which are the
server's socket and the connections accepted so far. Whatever it finds ready, up to the next call
each ready client is served once, one connection is accepted if the server is ready, and nothing
else is served, in no more steps than there can be descriptors. -/
theorem rounds_serve_ready
    (hpast : run (loopStep sd) past (Loop.initial sd opened) = ⟨.ok (), l, w⟩)
    (hselect : l.i = none) :
    Watched sd l w ∧ ∀ choice found body l' w', choice.ready = some found →
      run (loopStep sd) (choice :: body) l = ⟨.ok (), l', .select :: w'⟩ → .select ∉ w' →
        ServesRound sd (l.set ∩ found) l' w' ∧
          body.length ≤ max (l.nfds + 1) fdSetsize + 1 := by
  have hwatched := loop_run_watched hpast
  refine ⟨hwatched, ?_⟩
  intro choice found body l' w' hfound hrun hw
  obtain ⟨⟨⟩, l₁, w₁, w₂, hstep, hbody, heq⟩ := Outcome.andThen_eq_ok hrun
  -- The first step is the call of `select`.
  obtain ⟨ready, hready, rfl, rfl⟩ := (loopStep_ok hstep).select_of_none hselect
  obtain rfl : found = ready := Option.some.inj (hfound.symm.trans hready)
  obtain rfl : w' = w₂ := List.tail_eq_of_cons_eq heq
  have hround := run_inRound (inRound_start hwatched.nfds_greatest found) (le_max_right _ _)
    hbody hw
  exact ⟨hround.servesRound (run_headersFrom hbody), hround.length_le⟩

end Rounds

/-- A switch has connected on descriptor 5, and `select` is next. -/
def connected : List Choice :=
  startup ++ { Choice.plain with accepted := some 5 } :: List.replicate 3 Choice.plain

/-- The server and the switch are ready in one round, and the connection that is accepted first is
on descriptor 7, past the end of the `for` loop at that time. -/
def growing : List Choice :=
  { Choice.plain with ready := some {3, 5} } :: List.replicate 3 Choice.plain ++
    { Choice.plain with accepted := some 7 } :: List.replicate 5 Choice.plain

/-- In that round the switch is served, and the new connection is not. -/
theorem rounds_serve_ready_growing :
    let o := run (loopStep 3) connected (Loop.initial 3 {0, 1, 2})
    let o' := run (loopStep 3) growing o.st
    Watched 3 o.st o.events ∧ ServesRound 3 (o.st.set ∩ {3, 5}) o'.st o'.events.tail := by
  intro o o'
  have hpast := run_of_isOk (loopStep 3) connected (Loop.initial 3 {0, 1, 2}) (by decide +kernel)
  obtain ⟨hwatched, hround⟩ := rounds_serve_ready hpast (by decide +kernel)
  have hrun := run_of_isOk (loopStep 3) growing o.st (by decide +kernel)
  rw [show (run (loopStep 3) growing o.st).events = .select :: o'.events.tail by decide +kernel]
    at hrun
  exact ⟨hwatched, (hround _ {3, 5} _ _ _ rfl hrun (by decide +kernel)).1⟩

end SdnController
