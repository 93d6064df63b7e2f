import SdnController.Network
import SdnController.Lib.Scans

/-!
# The descriptors of the connections

`accept` returns the lowest descriptor that is not open, and nothing of the event loop closes one.
So the connections of a run have the descriptors that were not open when the process started, from
the lowest on and each of them once, whichever of the peers are still there (`descriptors_used_up`).
There are as many of them below `FD_SETSIZE` as connections can ever be accepted: the next one is
added to the watched set past its end.
-/

namespace SdnController

open Memory Exec Scans

/-! ## The lowest descriptor -/

/-- There is a number that is not open. -/
theorem lowestFree_spec (opened : Finset ℕ) :
    lowestFree opened ∉ opened ∧ ∀ k < lowestFree opened, k ∈ opened := by
  obtain ⟨k, hk, hfree⟩ : ∃ k ∈ Finset.range (opened.card + 1), k ∉ opened := by
    apply Finset.exists_mem_notMem_of_card_lt_card
    rw [Finset.card_range]
    exact Nat.lt_succ_self _
  unfold lowestFree
  cases hfind : (List.range (opened.card + 1)).find? (· ∉ opened) with
  | none =>
    have hnone := List.find?_eq_none.mp hfind k (List.mem_range.mpr (Finset.mem_range.mp hk))
    exact absurd hfree (by simpa using hnone)
  | some j =>
    obtain ⟨hj, -, hbelow⟩ := List.find?_range_eq_some.mp hfind
    exact ⟨by simpa using hj, fun k hk => by simpa using hbelow k hk⟩

/-- The descriptors that a set has room for and that are not open when the process starts. -/
def freeDescriptors (sd : ℕ) (opened : Finset ℕ) : List ℕ :=
  (List.range fdSetsize).filter (· ∉ insert sd opened)

/-- The connections accepted so far have the first of the free descriptors, and are what is open
beside what was. -/
structure Numbered (sd : ℕ) (opened : Finset ℕ) (l : Loop) (w : List LoopEvent) : Prop where
  opened_eq : l.opened = insert sd opened ∪ (accepts w).toFinset
  start : accepts w <+: freeDescriptors sd opened

section Numbers

variable {sd fd : ℕ} {opened : Finset ℕ} {inputs : List NetInput} {n n' : Network} {i : NetInput}
  {l : Loop} {choice : Choice} {w w' : List LoopEvent} {e : Env}

theorem mem_freeDescriptors :
    fd ∈ freeDescriptors sd opened ↔ fd < fdSetsize ∧ fd ∉ insert sd opened := by
  unfold freeDescriptors
  simp

/-- The lowest descriptor that is not open is the next of the free ones. -/
theorem Numbered.next (h : Numbered sd opened l w) (hroom : lowestFree l.opened < fdSetsize) :
    accepts w ++ [lowestFree l.opened] <+: freeDescriptors sd opened := by
  obtain ⟨hfree, hbelow⟩ := lowestFree_spec l.opened
  rw [h.opened_eq] at hfree hbelow hroom ⊢
  obtain ⟨hold, hnew⟩ := not_or.mp (mt Finset.mem_union.mpr hfree)
  refine concat_start (List.pairwise_lt_range.filter _) h.start
    (mem_freeDescriptors.mpr ⟨hroom, hold⟩) (mt List.mem_toFinset.mpr hnew) ?_
  intro k hk hkw
  by_contra hlt
  rcases Finset.mem_union.mp (hbelow k (not_le.mp hlt)) with hmem | hmem
  · exact (mem_freeDescriptors.mp hk).2 hmem
  · exact hkw (List.mem_toFinset.mp hmem)

/-- Nothing but `accept` opens a descriptor, and nothing closes one. -/
theorem Numbered.step (h : Numbered sd opened n.loop w)
    (hi : netStep sd i n = ⟨.ok (), n', w'⟩) : Numbered sd opened n'.loop (w ++ w') := by
  have hkeep : n'.loop.opened = n.loop.opened → accepts w' = [] →
      Numbered sd opened n'.loop (w ++ w') := by
    intro hopened hw'
    have hw : accepts (w ++ w') = accepts w := by rw [accepts_append, hw', List.append_nil]
    exact ⟨by rw [hopened, hw, h.opened_eq], by rw [hw]; exact h.start⟩
  cases i with
  | turn e fails =>
    cases netStep_turn hi with
    | accept hat hq hroom =>
      constructor
      · show insert _ n.loop.opened = _
        rw [accepts_append, accepts_accept, List.toFinset_append, ← Finset.union_assoc,
          ← h.opened_eq, Finset.union_comm]
        rfl
      · rw [accepts_append, accepts_accept]
        exact h.next hroom
    | call => exact hkeep rfl (accepts_call _ _ _)
    | _ => exact hkeep rfl rfl
  | _ =>
    obtain ⟨hloop, rfl⟩ := netStep_idle rfl hi
    exact hkeep (by rw [hloop]) rfl

/-- In every reachable state. -/
theorem run_numbered (h : run (netStep sd) inputs (Network.initial sd opened) = ⟨.ok (), n, w⟩) :
    Numbered sd opened n.loop w := by
  refine run_induction (fun _ n w => Numbered sd opened n.loop w) ?_ ?_ h
  · exact ⟨(Finset.union_empty _).symm, List.nil_prefix⟩
  · intro past i n₁ w₁ a n₂ w₂ _ _ hi hnumbered
    exact hnumbered.step hi

/-- A connection whose descriptor the set has no room for is added past the end of the set. -/
theorem accept_overflows (hat : n.loop.At sd) (hq : 0 < n.queue)
    (hfull : fdSetsize ≤ lowestFree n.loop.opened) :
    (netStep sd (.turn e false) n).ret = .error .overflow := by
  have hw : ¬n.Waits sd e false := by
    unfold Network.Waits
    rw [turn_accept hat]
    exact fun hw => hq.ne' hw.2
  have ha : (n.choice sd e false).accepted = some (lowestFree n.loop.opened) := rfl
  simp only [netStep, if_neg hw]
  obtain ⟨hi, hn, ht⟩ := hat
  unfold loopStep handleConnections serve tcpAccept fdSet
  simp [hi, hn, ht, ha, not_lt.mpr hfull]

/-- The connections of a run have the lowest descriptors that were not open, in increasing order,
and none is used twice, whichever of the peers have closed theirs. Once there is one connection for
each of these descriptors, the next one that comes stops the process. -/
theorem descriptors_used_up
    (h : run (netStep sd) inputs (Network.initial sd opened) = ⟨.ok (), n, w⟩) :
    accepts w <+: freeDescriptors sd opened ∧
      (accepts w = freeDescriptors sd opened → n.loop.At sd → 0 < n.queue →
        ∀ e, (netStep sd (.turn e false) n).ret = .error .overflow) := by
  have hnumbered := run_numbered h
  refine ⟨hnumbered.start, fun hall hat hq e => accept_overflows hat hq ?_⟩
  by_contra hroom
  -- The next descriptor would be one more of the free ones.
  have hnext := (hnumbered.next (not_le.mp hroom)).length_le
  rw [hall, List.length_append, List.length_singleton] at hnext
  omega

end Numbers

/-- All that a set has room for is open but 5. -/
def crowded : Finset ℕ := (Finset.range fdSetsize).erase 5

/-- Two switches connect, one after the other. -/
def twoConnect : List NetInput :=
  .connect :: List.replicate 8 .plainTurn ++ .connect :: List.replicate 4 .plainTurn

/-- The second stops the process. -/
theorem descriptors_used_up_crowded :
    (netStep 3 .plainTurn (run (netStep 3) twoConnect (Network.initial 3 crowded)).st).ret =
      .error .overflow := by
  have h := run_of_isOk (netStep 3) twoConnect (Network.initial 3 crowded) (by decide +kernel)
  have hfree : freeDescriptors 3 crowded = [5] := by
    unfold freeDescriptors crowded
    simp only [Finset.mem_insert, Finset.mem_erase, Finset.mem_range]
    decide +kernel
  refine (descriptors_used_up h).2 ?_
    ⟨by decide +kernel, by decide +kernel, by decide +kernel⟩ (by decide +kernel) _
  rw [hfree]
  decide +kernel

end SdnController
