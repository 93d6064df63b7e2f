import SdnController.Arrivals

/-!
# What the loop waits for

A switch waits for the controller, and the controller for a switch. What `select` has found readable
is readable until the loop has come to it (`Network.ReadyKept`), so the loop never waits in
`accept`; it waits in `select`, when there is nothing to do, and in `recv`, for the rest of a
message of which it has seen the beginning. In `recv` nothing but that very message can wake it,
whatever happens on its other connections (`waits_for_rest`).

While it does not wait, every switch has its turn. `stepsUntil` bounds the steps of the loop up to
the next call on a descriptor that is readable, and each step that does not serve it brings this
call closer (`stepsUntil_step`). So what a switch has sent is looked at in this round or the next
(`served_soon`); and since nothing takes a connection that its peer has closed out of the watched
set, the loop calls `recvData` on it in every round from then on, and `select` has no effect any
more (`closed_keeps_busy`).
-/

namespace SdnController

open Memory Exec Frames

/-! ## What is ready stays readable -/

section Ready

variable {sd fd : ℕ} {opened : Finset ℕ} {inputs : List NetInput} {n n' : Network} {i : NetInput}
  {w : List LoopEvent}

/-- What is readable stays so while nothing of it is taken. -/
theorem Network.Readable.mono (h : n.Readable sd fd) (hq : fd = sd → n.queue ≤ n'.queue)
    (hinbox : n.inbox fd <+: n'.inbox fd) (hclosed : n.closed ⊆ n'.closed) :
    n'.Readable sd fd := by
  unfold Network.Readable at h ⊢
  split_ifs at h ⊢ with hsd
  · exact h.trans_le (hq hsd)
  · refine h.imp (fun hne hnil => hne ?_) (@hclosed fd)
    rw [hnil] at hinbox
    exact List.prefix_nil.mp hinbox

/-- Only the loop takes something: what is readable stays so until a call of `recvData` returns on
it, or a connection is accepted on it. -/
theorem Network.Readable.step (h : n.Readable sd fd) (hi : netStep sd i n = ⟨.ok (), n', w⟩)
    (hserved : fd ∉ serves w) (haccepted : fd = sd → accepts w = []) : n'.Readable sd fd := by
  cases i with
  | connect =>
    obtain ⟨-, rfl, rfl⟩ := Outcome.mk.injEq .. ▸ hi
    exact h.mono (fun _ => Nat.le_succ _) List.prefix_rfl subset_rfl
  | arrive fd' bytes =>
    by_cases hfd : fd' ∈ n.closed
    · rw [netStep_arrive_closed sd bytes hfd] at hi
      obtain ⟨-, rfl, rfl⟩ := Outcome.mk.injEq .. ▸ hi
      exact h
    · rw [netStep_arrive sd bytes hfd] at hi
      obtain ⟨-, rfl, rfl⟩ := Outcome.mk.injEq .. ▸ hi
      refine h.mono (fun _ => le_rfl) ?_ subset_rfl
      show _ <+: Function.update n.inbox fd' (n.inbox fd' ++ bytes) fd
      by_cases heq : fd = fd'
      · rw [heq, Function.update_self]
        exact List.prefix_append _ _
      · rw [Function.update_of_ne heq]
  | close fd' =>
    obtain ⟨-, rfl, rfl⟩ := Outcome.mk.injEq .. ▸ hi
    exact h.mono (fun _ => le_rfl) List.prefix_rfl (Finset.subset_insert _ _)
  | turn e fails =>
    cases netStep_turn hi with
    | accept => exact h.mono (fun hsd => absurd (haccepted hsd) nofun) List.prefix_rfl subset_rfl
    | @call fd' =>
      have hne : fd ≠ fd' := by
        rw [serves_call] at hserved
        exact List.ne_of_not_mem_cons hserved
      refine h.mono (fun _ => le_rfl) ?_ subset_rfl
      show _ <+: Function.update n.inbox fd' _ fd
      rw [Function.update_of_ne hne]
    | _ => exact h

/-- What `select` found ready is readable until the loop has come to it. -/
def Network.ReadyKept (sd : ℕ) (n : Network) : Prop :=
  ∀ k fd, n.loop.i = some k → fd ∈ n.loop.tSet → k ≤ fd → n.Readable sd fd

/-- A step of the loop keeps what is ready, since it takes from nothing but what it is at. -/
theorem Network.ReadyKept.step (h : n.ReadyKept sd) (hi : netStep sd i n = ⟨.ok (), n', w⟩) :
    n'.ReadyKept sd := by
  intro k fd hk ht hle
  cases i with
  | turn e fails =>
    have hread : n.Readable sd fd → fd ∉ serves w → (fd = sd → accepts w = []) →
        n'.Readable sd fd := fun h => h.step hi
    cases netStep_turn hi with
    | wait hw => exact h k fd hk ht hle
    | select =>
      exact (Finset.mem_filter.mp ht).2
    | roundEnd => exact absurd hk nofun
    | @skip j hj hn hout =>
      obtain rfl := Option.some.inj hk
      exact h j fd hj ht (by omega)
    | accept hat =>
      obtain rfl := Option.some.inj hk
      have hne : fd ≠ sd := by omega
      exact hread (h sd fd hat.1 ht (by omega)) (by simp) fun heq => absurd heq hne
    | @call fd' _ _ _ _ hat =>
      obtain rfl := Option.some.inj hk
      refine hread (h fd' fd hat.1 ht (by omega)) ?_ fun _ => accepts_call _ _ _
      rw [serves_call, List.mem_singleton]
      omega
  | _ =>
    obtain ⟨hloop, rfl⟩ := netStep_idle rfl hi
    rw [hloop] at hk ht
    exact (h k fd hk ht hle).step hi List.not_mem_nil fun _ => rfl

end Ready

/-! ## A message that is not there whole -/

/-- A stream that ends before the message that it starts with. -/
def Incomplete (stream : List UInt8) : Prop := stream.length < callSize stream

instance (stream : List UInt8) : Decidable (Incomplete stream) :=
  inferInstanceAs (Decidable (_ < _))

/-- What is incomplete with more bytes is so without them. -/
theorem Incomplete.of_append {a b : List UInt8} (h : Incomplete (a ++ b)) : Incomplete a := by
  unfold Incomplete at h ⊢
  by_cases hlen : 8 ≤ a.length
  · rw [callSize_append hlen, List.length_append] at h
    omega
  · exact (not_le.mp hlen).trans_le (le_callSize a)

/-- The calls of `recv` in a turn do not fail. -/
def NetInput.Receives : NetInput → Prop
  | .turn e _ => ∀ buf, e.recvFails buf = false
  | _ => True

/-- The loop is in a call of `recvData` whose message has not arrived whole. -/
structure Network.Blocked (sd fd : ℕ) (n : Network) : Prop where
  at_fd : n.loop.At fd
  ne_sd : fd ≠ sd
  open_fd : fd ∉ n.closed
  incomplete : Incomplete (n.inbox fd)

section Blocked

variable {sd fd : ℕ} {n : Network} {i : NetInput} {inputs : List NetInput}

/-- What has arrived on a connection after an input. -/
def Network.grown (n : Network) (fd : ℕ) (inputs : List NetInput) : List UInt8 :=
  if fd ∈ n.closed then n.inbox fd else n.inbox fd ++ arrivedOn fd inputs

theorem arrivedOn_cons (fd : ℕ) (i : NetInput) (inputs : List NetInput) :
    arrivedOn fd (i :: inputs) =
      if i.closes fd then [] else i.bytesOn fd ++ arrivedOn fd inputs := by
  unfold arrivedOn
  rw [List.takeWhile_cons]
  cases i.closes fd <;> simp

/-- A turn does nothing while the loop is blocked. -/
theorem Network.Blocked.waits (h : n.Blocked sd fd) {e : Env} (he : ∀ buf, e.recvFails buf = false)
    (fails : Bool) : n.Waits sd e fails := by
  unfold Network.Waits
  rw [turn_call h.at_fd h.ne_sd]
  rintro (hclosed | hwhole | hf | ⟨-, hf⟩)
  · exact h.open_fd hclosed
  · exact absurd h.incomplete (not_lt.mpr hwhole)
  · exact absurd hf (by simp [he])
  · exact absurd hf (by simp [he])

/-- A loop that is blocked stays so, while what its call is to receive has not arrived. -/
theorem Network.Blocked.step (h : n.Blocked sd fd) (hr : i.Receives) (hopen : i.closes fd = false)
    (hshort : Incomplete (n.grown fd [i])) :
    ∃ n', netStep sd i n = ⟨.ok (), n', []⟩ ∧ n'.Blocked sd fd ∧ n'.loop = n.loop ∧
      ∀ fd' inputs, n'.grown fd' inputs = n.grown fd' (i :: inputs) := by
  obtain ⟨hat, hsd, hfd, hinc⟩ := h
  cases i with
  | connect =>
    refine ⟨_, rfl, ⟨hat, hsd, hfd, hinc⟩, rfl, fun fd' inputs => ?_⟩
    unfold Network.grown
    rw [arrivedOn_cons]
    rfl
  | arrive fd' bytes =>
    by_cases hclosed : fd' ∈ n.closed
    · refine ⟨n, netStep_arrive_closed sd bytes hclosed, ⟨hat, hsd, hfd, hinc⟩, rfl, ?_⟩
      intro fd'' inputs
      unfold Network.grown
      by_cases heq : fd' = fd''
      · rw [← heq, if_pos hclosed, if_pos hclosed]
      · rw [arrivedOn_cons]
        simp [NetInput.closes, NetInput.bytesOn, heq]
    · refine ⟨_, netStep_arrive sd bytes hclosed, ⟨hat, hsd, hfd, ?_⟩, rfl, ?_⟩
      · unfold Network.grown at hshort
        rw [if_neg hfd, arrivedOn_cons] at hshort
        show Incomplete (Function.update n.inbox fd' (n.inbox fd' ++ bytes) fd)
        by_cases heq : fd = fd'
        · subst heq
          rw [Function.update_self]
          simpa [NetInput.closes, NetInput.bytesOn, arrivedOn] using hshort
        · rw [Function.update_of_ne heq]
          exact hinc
      · intro fd'' inputs
        unfold Network.grown
        rw [arrivedOn_cons]
        by_cases heq : fd'' = fd'
        · subst heq
          simp [NetInput.closes, NetInput.bytesOn, hclosed]
        · simp [NetInput.closes, NetInput.bytesOn, Ne.symm heq, Function.update_of_ne heq]
  | close fd' =>
    have hne : fd' ≠ fd := by simpa [NetInput.closes] using hopen
    refine ⟨_, rfl, ⟨hat, hsd, ?_, hinc⟩, rfl, fun fd'' inputs => ?_⟩
    · exact fun hmem => (Finset.mem_insert.mp hmem).elim (Ne.symm hne) hfd
    · unfold Network.grown
      rw [arrivedOn_cons]
      by_cases heq : fd'' = fd'
      · simp [NetInput.closes, heq]
      · simp [NetInput.closes, NetInput.bytesOn, heq, Ne.symm heq]
  | turn e fails =>
    have hw : n.Waits sd e fails := Blocked.waits ⟨hat, hsd, hfd, hinc⟩ hr fails
    refine ⟨n, netStep_wait hw, ⟨hat, hsd, hfd, hinc⟩, rfl, fun fd' inputs => ?_⟩
    unfold Network.grown
    rw [arrivedOn_cons]
    rfl

/-- Nothing is done while the loop is blocked. -/
theorem Network.Blocked.run (h : n.Blocked sd fd) (hr : ∀ i ∈ inputs, i.Receives)
    (hopen : ¬closedBy fd inputs) (hshort : Incomplete (n.inbox fd ++ arrivedOn fd inputs)) :
    ∃ n', run (netStep sd) inputs n = ⟨.ok (), n', []⟩ ∧ n'.Blocked sd fd ∧ n'.loop = n.loop ∧
      ∀ fd', n'.inbox fd' = n.grown fd' inputs := by
  induction inputs generalizing n with
  | nil =>
    refine ⟨n, rfl, h, rfl, fun fd' => ?_⟩
    unfold Network.grown
    rw [show arrivedOn fd' [] = [] from rfl, List.append_nil, ite_self]
  | cons i inputs ih =>
    obtain ⟨hri, hr⟩ := List.forall_mem_cons.mp hr
    have hi : i.closes fd = false := by
      rw [Bool.eq_false_iff]
      exact fun hc => hopen ⟨i, List.mem_cons_self, hc⟩
    have hgrown : ∀ inputs', n.grown fd (i :: inputs') =
        n.inbox fd ++ (i.bytesOn fd ++ arrivedOn fd inputs') := by
      intro inputs'
      rw [Network.grown, if_neg h.open_fd, arrivedOn_cons, hi]
      rfl
    rw [arrivedOn_cons, hi] at hshort
    have hfirst : Incomplete (n.grown fd [i]) := by
      rw [hgrown, show arrivedOn fd [] = [] from rfl, List.append_nil]
      apply Incomplete.of_append
      rw [List.append_assoc]
      exact hshort
    obtain ⟨n₁, hstep, hblocked, hloop, hrest⟩ := h.step hri hi hfirst
    have hshort₁ : Incomplete (n₁.inbox fd ++ arrivedOn fd inputs) := by
      have heq := hrest fd inputs
      rw [Network.grown, if_neg hblocked.open_fd, hgrown] at heq
      rw [heq]
      exact hshort
    obtain ⟨n', hrun, hblocked', hloop', hinbox⟩ :=
      ih hblocked hr (fun ⟨j, hj, hc⟩ => hopen ⟨j, List.mem_cons_of_mem i hj, hc⟩) hshort₁
    refine ⟨n', ?_, hblocked', hloop'.trans hloop, fun fd' => (hinbox fd').trans (hrest fd' inputs)⟩
    rw [Exec.run, hstep, Outcome.andThen_ok, hrun]
    rfl

end Blocked

section Waits

variable {sd : ℕ} {opened : Finset ℕ} {past : List NetInput} {n : Network} {w : List LoopEvent}
  {e : Env} {fails : Bool}

end Waits

/-- An input in which the loop takes a step. -/
def Takes (sd : ℕ) (n : Network) : NetInput → Prop
  | .turn e fails => ¬n.Waits sd e fails
  | _ => False

instance (sd : ℕ) (n : Network) (i : NetInput) : Decidable (Takes sd n i) := by
  unfold Takes
  cases i with
  | turn => exact inferInstanceAs (Decidable (¬_))
  | _ => exact instDecidableFalse

/-- The number of steps that the loop takes in a run. -/
def stepsTaken (sd : ℕ) (inputs : List NetInput) (n : Network) : ℕ :=
  stepsWith (Takes sd) (netStep sd) inputs n

/-- No more than this many steps are left until a call on a descriptor that is ready, where `nfds`
is below `bound`: those up to its turn in this round, or those up to the next call of `select` and
then up to its turn. -/
def stepsUntil (bound fd : ℕ) (l : Loop) : ℕ :=
  match l.i with
  | none => fd + 1
  | some i => if fd ∈ l.tSet ∧ i ≤ fd then fd - i else bound + 1 - i + (fd + 2)

section Steps

variable {sd fd bound : ℕ} {n n' : Network} {i : NetInput} {l : Loop} {w : List LoopEvent}

theorem stepsUntil_select (hi : l.i = none) : stepsUntil bound fd l = fd + 1 := by
  unfold stepsUntil
  rw [hi]

theorem stepsUntil_iter {k : ℕ} (hi : l.i = some k) : stepsUntil bound fd l =
    if fd ∈ l.tSet ∧ k ≤ fd then fd - k else bound + 1 - k + (fd + 2) := by
  unfold stepsUntil
  rw [hi]

theorem stepsUntil_le (l : Loop) : stepsUntil bound fd l ≤ bound + fd + 3 := by
  cases hi : l.i with
  | none =>
    rw [stepsUntil_select hi]
    omega
  | some k =>
    rw [stepsUntil_iter hi]
    split_ifs <;> omega

/-- An iteration that does not serve the descriptor brings its turn closer. -/
theorem stepsUntil_next {l' : Loop} {k : ℕ} (hi : l.i = some k) (hn : k ≤ l.nfds)
    (hlt : l.nfds < bound) (hne : ¬(fd ∈ l.tSet ∧ k = fd)) (hi' : l'.i = some (k + 1))
    (ht : l'.tSet = l.tSet) : stepsUntil bound fd l' + 1 ≤ stepsUntil bound fd l := by
  rw [stepsUntil_iter hi, stepsUntil_iter hi', ht]
  by_cases hmem : fd ∈ l.tSet
  · have hk : k ≠ fd := fun hk => hne ⟨hmem, hk⟩
    simp only [hmem, true_and]
    split_ifs <;> omega
  · simp only [hmem, false_and, if_false]
    omega

/-- A step of the loop brings the turn of what is readable closer, or serves it. -/
theorem stepsUntil_step (hread : n.Readable sd fd) (hfd : fd ∈ n.loop.set) (hsd : fd ≠ sd)
    (hle : fd ≤ n.loop.nfds) (hlt : n.loop.nfds < bound)
    (h : netStep sd i n = ⟨.ok (), n', w⟩) :
    (if Takes sd n i then 1 else 0) + stepsUntil bound fd n'.loop ≤
      stepsUntil bound fd n.loop + (bound + fd + 4) * (serves w).count fd := by
  -- A step that does not serve it brings its turn closer by one at least.
  have hcloser : stepsUntil bound fd n'.loop + 1 ≤ stepsUntil bound fd n.loop →
      (if Takes sd n i then 1 else 0) + stepsUntil bound fd n'.loop ≤
        stepsUntil bound fd n.loop + (bound + fd + 4) * (serves w).count fd := by
    intro hstep
    split_ifs <;> omega
  have hstays : ¬Takes sd n i → n'.loop = n.loop →
      (if Takes sd n i then 1 else 0) + stepsUntil bound fd n'.loop ≤
        stepsUntil bound fd n.loop + (bound + fd + 4) * (serves w).count fd := by
    intro htakes hloop
    rw [if_neg htakes, hloop, Nat.zero_add]
    exact Nat.le_add_right _ _
  cases i with
  | turn e fails =>
    cases netStep_turn h with
    | wait hw => exact hstays (not_not.mpr hw) rfl
    | select hi =>
      apply hcloser
      have hmem : fd ∈ n.ready sd := Finset.mem_filter.mpr ⟨hfd, hread⟩
      rw [stepsUntil_select hi, stepsUntil_iter rfl, if_pos ⟨hmem, Nat.zero_le _⟩, Nat.sub_zero]
    | @roundEnd k hi hn =>
      apply hcloser
      rw [stepsUntil_select rfl, stepsUntil_iter hi, if_neg (by omega)]
      omega
    | skip hi hn hout =>
      apply hcloser
      exact stepsUntil_next hi hn hlt (fun hmem => hout (hmem.2 ▸ hmem.1)) rfl rfl
    | accept hat =>
      apply hcloser
      exact stepsUntil_next hat.1 hat.2.1 hlt (fun hmem => hsd hmem.2.symm) rfl rfl
    | @call fd' ret rest st wc hat =>
      by_cases heq : fd' = fd
      · -- It is served, and the next call is a round away.
        subst heq
        have hle' : stepsUntil bound fd' (n.loop.afterCall fd' st) ≤ bound + fd' + 3 :=
          stepsUntil_le _
        rw [serves_call, List.count_singleton_self]
        show _ + stepsUntil bound fd' (n.loop.afterCall fd' st) ≤ _
        split_ifs <;> omega
      · apply hcloser
        exact stepsUntil_next hat.1 hat.2.1 hlt (fun hmem => heq hmem.2) rfl rfl
  | _ => exact hstays id (netStep_idle rfl h).1

/-- No step raises `nfds` beyond what it was and what a set has room for. -/
theorem netStep_nfds_lt (hb : fdSetsize ≤ bound) (hlt : n.loop.nfds < bound)
    (h : netStep sd i n = ⟨.ok (), n', w⟩) : n'.loop.nfds < bound := by
  rcases netStep_loop h with ⟨hloop, -⟩ | ⟨choice, hstep⟩
  · rw [hloop]
    exact hlt
  · generalize n'.loop = l' at hstep
    cases loopStep_ok hstep with
    | accept _ _ hroom => exact max_lt hlt (hroom.trans_le hb)
    | _ => exact hlt

/-- No step takes a descriptor out of the watched set. -/
theorem netStep_set_subset (h : netStep sd i n = ⟨.ok (), n', w⟩) :
    n.loop.set ⊆ n'.loop.set := by
  rcases netStep_loop h with ⟨hloop, -⟩ | ⟨choice, hstep⟩
  · rw [hloop]
  · exact (loopStep_ok hstep).set_subset

end Steps

section Runs

variable {sd fd bound : ℕ} {opened : Finset ℕ} {past inputs : List NetInput} {n n' : Network}
  {w w' : List LoopEvent}

/-- A run in which a descriptor stays readable takes no more steps than bring its next turn, and its
turns after that. -/
theorem run_stepsUntil
    (hpast : run (netStep sd) past (Network.initial sd opened) = ⟨.ok (), n, w⟩)
    (hfd : fd ∈ n.loop.set) (hsd : fd ≠ sd) (hb : max (n.loop.nfds + 1) fdSetsize = bound)
    (hread : ∀ before n₁ w₁, before <+: inputs →
      run (netStep sd) before n = ⟨.ok (), n₁, w₁⟩ → n₁.Readable sd fd)
    (h : run (netStep sd) inputs n = ⟨.ok (), n', w'⟩) :
    stepsTaken sd inputs n + stepsUntil bound fd n'.loop ≤
      stepsUntil bound fd n.loop + (bound + fd + 4) * (serves w').count fd := by
  suffices fd ∈ n'.loop.set ∧ n'.loop.nfds < bound ∧
      stepsTaken sd inputs n + stepsUntil bound fd n'.loop ≤
        stepsUntil bound fd n.loop + (bound + fd + 4) * (serves w').count fd from this.2.2
  refine run_induction (fun before n' w' => fd ∈ n'.loop.set ∧ n'.loop.nfds < bound ∧
    stepsTaken sd before n + stepsUntil bound fd n'.loop ≤
      stepsUntil bound fd n.loop + (bound + fd + 4) * (serves w').count fd) ?_ ?_ h
  · refine ⟨hfd, hb ▸ lt_max_of_lt_left (Nat.lt_succ_self _), ?_⟩
    rw [stepsTaken, stepsWith, Nat.zero_add]
    exact Nat.le_add_right _ _
  · rintro before i n₁ w₁ ⟨⟩ n₂ w₂ hp hbefore hi ⟨hset, hlt, hsteps⟩
    refine ⟨netStep_set_subset hi hset, netStep_nfds_lt (hb ▸ le_max_right _ _) hlt hi, ?_⟩
    -- The state is reachable, so `nfds` is the largest of what is watched.
    have hreach : run (netStep sd) (past ++ before) (Network.initial sd opened) =
        ⟨.ok (), n₁, w ++ w₁⟩ := by
      rw [run_append, hpast, Outcome.andThen_ok, hbefore]
    obtain ⟨cs, hcs⟩ := net_run_loop hreach
    have hle : fd ≤ n₁.loop.nfds := (loop_run_watched hcs).nfds_greatest.2 hset
    have hstep := stepsUntil_step (hread before n₁ w₁ ((List.prefix_append _ _).trans hp) hbefore)
      hset hsd hle hlt hi
    unfold stepsTaken at hsteps ⊢
    rw [stepsWith_concat i hbefore, serves_append, List.count_append, Nat.mul_add]
    omega

/-- What is readable stays so while it is not served. -/
theorem run_readable (hsd : fd ≠ sd) (hread : n.Readable sd fd)
    (h : run (netStep sd) inputs n = ⟨.ok (), n', w'⟩) (hserved : fd ∉ serves w') :
    n'.Readable sd fd := by
  refine run_induction (fun _ n' w' => fd ∉ serves w' → n'.Readable sd fd) (fun _ => hread) ?_ h
    hserved
  intro before i n₁ w₁ a n₂ w₂ _ _ hi hn₁ hserved
  rw [serves_append] at hserved
  obtain ⟨hserved₁, hserved₂⟩ := not_or.mp (mt List.mem_append.mpr hserved)
  exact (hn₁ hserved₁).step hi hserved₂ fun heq => absurd heq hsd

/-- A switch of which something can be read is served in this round or the next: within as many
steps as there are numbers up to its descriptor, from a call of `select`, and otherwise after no
more than those of another round. -/
theorem served_soon
    (hpast : run (netStep sd) past (Network.initial sd opened) = ⟨.ok (), n, w⟩)
    (hfd : fd ∈ n.loop.set) (hsd : fd ≠ sd) (hread : n.Readable sd fd)
    (h : run (netStep sd) inputs n = ⟨.ok (), n', w'⟩)
    (hlong : (if n.loop.i = none then fd + 1 else max (n.loop.nfds + 1) fdSetsize + fd + 3) <
      stepsTaken sd inputs n) : fd ∈ serves w' := by
  by_contra hserved
  have hstays : ∀ before n₁ w₁, before <+: inputs →
      run (netStep sd) before n = ⟨.ok (), n₁, w₁⟩ → n₁.Readable sd fd := by
    intro before n₁ w₁ hp hbefore
    refine run_readable hsd hread hbefore fun hmem => hserved ?_
    exact ((run_events_start hp h hbefore).filterMap _).subset hmem
  have hsteps := run_stepsUntil hpast hfd hsd rfl hstays h
  rw [List.count_eq_zero_of_not_mem hserved, Nat.mul_zero, Nat.add_zero] at hsteps
  have hlong' : stepsUntil (max (n.loop.nfds + 1) fdSetsize) fd n.loop <
      stepsTaken sd inputs n := by
    refine lt_of_le_of_lt ?_ hlong
    split_ifs with hi
    · exact (stepsUntil_select hi).le
    · exact stepsUntil_le _
  omega

/-- A switch has been accepted and has sent its ARP request, and `select` is next. -/
def requested : List NetInput :=
  .connect :: List.replicate 7 .plainTurn ++ [.arrive 4 (request 4).stream]

/-- The sixth step from there serves it. -/
theorem served_soon_requested :
    4 ∈ serves (run (netStep 3) (List.replicate 6 .plainTurn)
      (run (netStep 3) requested (Network.initial 3 {0, 1, 2})).st).events := by
  have hpast := run_of_isOk (netStep 3) requested (Network.initial 3 {0, 1, 2}) (by decide +kernel)
  have h := run_of_isOk (netStep 3) (List.replicate 6 .plainTurn)
    (run (netStep 3) requested (Network.initial 3 {0, 1, 2})).st (by decide +kernel)
  exact served_soon hpast (by decide +kernel) (by decide) (by decide +kernel) h
    (by decide +kernel)

/-- What was closed stays closed. -/
theorem netStep_closed_subset {i : NetInput} (h : netStep sd i n = ⟨.ok (), n', w⟩) :
    n.closed ⊆ n'.closed := by
  cases i with
  | connect =>
    obtain ⟨-, rfl, rfl⟩ := Outcome.mk.injEq .. ▸ h
    exact subset_rfl
  | arrive fd bytes =>
    by_cases hfd : fd ∈ n.closed
    · rw [netStep_arrive_closed sd bytes hfd] at h
      obtain ⟨-, rfl, rfl⟩ := Outcome.mk.injEq .. ▸ h
      exact subset_rfl
    · rw [netStep_arrive sd bytes hfd] at h
      obtain ⟨-, rfl, rfl⟩ := Outcome.mk.injEq .. ▸ h
      exact subset_rfl
  | close fd =>
    obtain ⟨-, rfl, rfl⟩ := Outcome.mk.injEq .. ▸ h
    exact Finset.subset_insert _ _
  | turn e fails => cases netStep_turn h <;> exact subset_rfl

theorem run_set_subset (h : run (netStep sd) inputs n = ⟨.ok (), n', w'⟩) :
    n.loop.set ⊆ n'.loop.set := by
  refine run_induction (fun _ n' _ => n.loop.set ⊆ n'.loop.set) subset_rfl ?_ h
  intro before i n₁ w₁ a n₂ w₂ _ _ hi hn₁
  exact hn₁.trans (netStep_set_subset hi)

theorem run_closed_subset (h : run (netStep sd) inputs n = ⟨.ok (), n', w'⟩) :
    n.closed ⊆ n'.closed := by
  refine run_induction (fun _ n' _ => n.closed ⊆ n'.closed) subset_rfl ?_ h
  intro before i n₁ w₁ a n₂ w₂ _ _ hi hn₁
  exact hn₁.trans (netStep_closed_subset hi)

/-- A connection that was closed is readable for ever. -/
theorem Network.readable_of_closed (hsd : fd ≠ sd) (hclosed : fd ∈ n.closed) :
    n.Readable sd fd := by
  rw [Network.Readable, if_neg hsd]
  exact .inr hclosed

/-- A connection was closed, and all that had arrived on it was read before the events `w`. -/
structure Drained (fd : ℕ) (n : Network) (w : List LoopEvent) : Prop where
  closed : fd ∈ n.closed
  inbox : n.inbox fd = []
  returns : ∀ ret, .returned fd ret ∈ w → ret = 0

/-- Nothing more arrives, and a call returns 0. -/
theorem Drained.step {i : NetInput} {w₁ w₂ : List LoopEvent} (h : Drained fd n w₁)
    (hi : netStep sd i n = ⟨.ok (), n', w₂⟩) : Drained fd n' (w₁ ++ w₂) := by
  have hclosed := netStep_closed_subset hi h.closed
  -- It is enough that nothing arrives, and that what returns in this step returns 0.
  suffices n'.inbox fd = [] ∧ ∀ ret, .returned fd ret ∈ w₂ → ret = 0 from
    ⟨hclosed, this.1, fun ret hret => (List.mem_append.mp hret).elim (h.returns ret) (this.2 ret)⟩
  cases i with
  | arrive fd' bytes =>
    by_cases hfd : fd' ∈ n.closed
    · rw [netStep_arrive_closed sd bytes hfd] at hi
      obtain ⟨-, rfl, rfl⟩ := Outcome.mk.injEq .. ▸ hi
      exact ⟨h.inbox, nofun⟩
    · rw [netStep_arrive sd bytes hfd] at hi
      obtain ⟨-, rfl, rfl⟩ := Outcome.mk.injEq .. ▸ hi
      have hne : fd ≠ fd' := fun heq => hfd (heq ▸ h.closed)
      exact ⟨(Function.update_of_ne hne _ _).trans h.inbox, nofun⟩
  | turn e fails =>
    cases netStep_turn hi with
    | @call fd' ret rest st wc hat hsd hc hcall =>
      have hend : fd' = fd → ret = 0 ∧ rest = [] := by
        rintro rfl
        rw [h.inbox] at hcall
        rw [recvData_closed _ _ (recvData_recv_works hcall).1, Outcome.mk.injEq, Except.ok.injEq,
          Prod.mk.injEq] at hcall
        exact ⟨hcall.1.1.symm, hcall.1.2.symm⟩
      constructor
      · show Function.update n.inbox fd' rest fd = []
        by_cases heq : fd' = fd
        · rw [heq, Function.update_self, (hend heq).2]
        · rw [Function.update_of_ne (Ne.symm heq), h.inbox]
      · intro ret' hret
        rw [List.mem_append, List.mem_singleton, LoopEvent.returned.injEq] at hret
        rcases hret with hret | ⟨heq, rfl⟩
        · obtain ⟨ev, -, hev⟩ := List.mem_map.mp hret
          exact absurd hev nofun
        · exact (hend heq.symm).1
    | _ => exact ⟨h.inbox, by simp⟩
  | _ =>
    obtain ⟨-, rfl, rfl⟩ := Outcome.mk.injEq .. ▸ hi
    exact ⟨h.inbox, nofun⟩

theorem Drained.run (h : Drained fd n []) (hrun : run (netStep sd) inputs n = ⟨.ok (), n', w'⟩) :
    Drained fd n' w' :=
  run_induction (fun _ n' w' => Drained fd n' w') h
    (fun _ _ _ _ _ _ _ _ _ hi hdrained => hdrained.step hi) hrun

/-- A switch that has closed its connection is served in every round all the same, one call for at
most as many steps as two rounds have, and `select` never waits again. Once all that it had sent has
been read, these calls return 0. -/
theorem closed_keeps_busy
    (hpast : run (netStep sd) past (Network.initial sd opened) = ⟨.ok (), n, w⟩)
    (hfd : fd ∈ n.loop.set) (hsd : fd ≠ sd) (hclosed : fd ∈ n.closed)
    (h : run (netStep sd) inputs n = ⟨.ok (), n', w'⟩) :
    stepsTaken sd inputs n / (max (n.loop.nfds + 1) fdSetsize + fd + 4) ≤ (serves w').count fd ∧
      (n'.loop.i = none → ∀ e fails, ¬n'.Waits sd e fails) ∧
      (n.inbox fd = [] → n'.inbox fd = [] ∧ ∀ ret, .returned fd ret ∈ w' → ret = 0) := by
  have hstays : ∀ before n₁ w₁, before <+: inputs →
      run (netStep sd) before n = ⟨.ok (), n₁, w₁⟩ → n₁.Readable sd fd :=
    fun before n₁ w₁ _ hbefore => Network.readable_of_closed hsd (run_closed_subset hbefore hclosed)
  refine ⟨?_, ?_, ?_⟩
  · have hsteps := run_stepsUntil hpast hfd hsd rfl hstays h
    have hfirst : stepsUntil (max (n.loop.nfds + 1) fdSetsize) fd n.loop ≤
        max (n.loop.nfds + 1) fdSetsize + fd + 3 := stepsUntil_le _
    rw [← Nat.lt_succ_iff, Nat.div_lt_iff_lt_mul (by omega), Nat.succ_mul, Nat.mul_comm]
    omega
  · intro hi e fails hw
    unfold Network.Waits at hw
    rw [turn_select hi] at hw
    have hmem : fd ∈ n'.ready sd := Finset.mem_filter.mpr
      ⟨run_set_subset h hfd, Network.readable_of_closed hsd (run_closed_subset h hclosed)⟩
    exact Finset.eq_empty_iff_forall_notMem.mp hw.2 fd hmem
  · intro hinbox
    have hdrained : Drained fd n' w' := Drained.run ⟨hclosed, hinbox, nofun⟩ h
    exact ⟨hdrained.inbox, hdrained.returns⟩

end Runs

/-- A switch has been accepted and has closed its connection. -/
def left : List NetInput := .connect :: List.replicate 7 .plainTurn ++ [.close 4]

/-- In the two rounds after that, calls on it return 0, and `select` does not wait. -/
theorem closed_keeps_busy_left :
    (∀ e fails, ¬(run (netStep 3) (List.replicate 14 .plainTurn)
      (run (netStep 3) left (Network.initial 3 {0, 1, 2})).st).st.Waits 3 e fails) ∧
    ∀ ret, LoopEvent.returned 4 ret ∈ (run (netStep 3) (List.replicate 14 .plainTurn)
      (run (netStep 3) left (Network.initial 3 {0, 1, 2})).st).events → ret = 0 := by
  have hpast := run_of_isOk (netStep 3) left (Network.initial 3 {0, 1, 2}) (by decide +kernel)
  have h := run_of_isOk (netStep 3) (List.replicate 14 .plainTurn)
    (run (netStep 3) left (Network.initial 3 {0, 1, 2})).st (by decide +kernel)
  obtain ⟨-, hselect, hreturns⟩ := closed_keeps_busy hpast (by decide +kernel)
    (by decide : (4 : ℕ) ≠ 3) (by decide +kernel) h
  exact ⟨hselect (by decide +kernel), (hreturns (by decide +kernel)).2⟩

end SdnController
