import SdnController.History

/-!
# What a client sees of its blocks

Over a whole run, and whatever else is allocated, freed, or written in it: each byte of a live block
is what the client wrote last to it (`live_bytes`); the `free` of a block, allocated or reallocated,
complains of a write past the bounds exactly when a margin was last written with another byte than
the pattern, and a second `free` is reported and does nothing (`overrun_reported_iff`); and a
reallocation keeps the data, up to the number of bytes that an `int` holds (`realloc_keeps`).
-/

namespace SdnController.Smartalloc

open Exec Memory HashChains

variable {mem : Mem} {past mid is : List Input} {i : Input} {e : Env} {s : Store} {w : List Event}
  {A : Allocation} {data : ℕ} {bytes : UInt64}

/-- A byte of a block that was allocated in a run and not freed since is what was written last to
it, or what it was at first: the fill, or the pattern in a margin. No other request changes it. -/
theorem live_bytes (hdoc : Always Documented step (past ++ i :: mid) (initial mem))
    (hrun : run step (past ++ i :: mid) (initial mem) = ⟨.ok (), s, w⟩) (hA : creates i = some A)
    (hlive : ∀ j ∈ mid, ¬frees A.data j) {k : ℕ} (hk : k < A.size) :
    s.mem (A.base + k) = (lastWrite (A.base + k) mid).getD (A.cells k) := by
  obtain ⟨L, hinv, B, hB, hAB⟩ := run_live hdoc hrun hA hlive
  have hsize : B.size = A.size := by
    unfold Allocation.size
    rw [hAB.space]
  have hcell := hinv.owns.cells B hB k (hsize ▸ hk)
  rw [hAB.base] at hcell
  rw [hcell, hAB.cells k hk]

/-- The write behind a client's first block is what is there. -/
theorem live_bytes_scribble :
    (run step ([] ++ firstBlock :: scribble) (initial fun _ => 0)).st.mem (96 + 7) = 7 :=
  live_bytes scribble_documented (run_of_isOk step _ _ (by decide)) rfl (by simp [scribble, frees])
    (k := 7) (by decide)

/-- A byte of a margin of a block was last written with another byte than the pattern. -/
def Overrun (data : ℕ) (bytes : UInt64) (mid : List Input) : Prop :=
  ∃ k, k < bytes.toNat + 2 * margin ∧ ¬(margin ≤ k ∧ k < margin + bytes.toNat) ∧
    ∃ v, lastWrite (data - margin + k) mid = some v ∧ v ≠ pattern

/-- The margins of an allocation, byte by byte. -/
theorem broken_iff (A : Allocation) :
    A.broken = true ↔
      ∃ k, k < A.size ∧ ¬(margin ≤ k ∧ k < margin + A.space.toNat) ∧ A.cells k ≠ pattern := by
  unfold Allocation.broken Allocation.size
  simp only [List.any_eq_true, List.mem_range, Bool.or_eq_true, bne_iff_ne]
  constructor
  · rintro ⟨j, hj, hafter | hbefore⟩
    · exact ⟨margin + A.space.toNat + j, by omega, by omega, hafter⟩
    · exact ⟨j, by omega, by omega, hbefore⟩
  · rintro ⟨k, hk, hmargin, hcell⟩
    by_cases hbefore : k < margin
    · exact ⟨k, hbefore, .inr hcell⟩
    · obtain ⟨j, rfl⟩ := Nat.exists_eq_add_of_le (show margin + A.space.toNat ≤ k by omega)
      exact ⟨j, by omega, .inl hcell⟩

/-- The margins that a run leaves of a block that was handed out are broken when it was overrun. -/
theorem Allocation.Becomes.broken_iff {B : Allocation} (h : A.Becomes (lastWrite · mid) B)
    (hA : A.Given data bytes) : B.broken = true ↔ Overrun data bytes mid := by
  have hbase : A.base = data - margin := by
    rw [← hA.data]
    exact (Nat.add_sub_cancel A.base margin).symm
  rw [Smartalloc.broken_iff]
  unfold Overrun Allocation.size
  rw [h.space, hA.space]
  refine exists_congr fun k => and_congr_right fun hk => and_congr_right fun hmargin => ?_
  have hsize : k < A.size := by
    unfold Allocation.size
    rw [hA.space]
    exact hk
  rw [h.cells k hsize, hA.margins k hmargin, hbase]
  cases lastWrite (data - margin + k) mid with
  | none => simp
  | some v => simp

/-- In a state of the allocator, the `free` of a live pointer. -/
theorem free_live {L : Ledger} {B : Allocation} (hinv : Inv [] s L) (hB : B ∈ L) (site : Site) :
    ∃ s' L', step (.smartfree B.data site, e) s = ⟨.ok (), s', B.complaints site⟩ ∧
      Inv [] s' L' ∧ L.Perm (B :: L') := by
  cases hu : unlink (fun A => decide (A.data = B.data)) L with
  | none => exact absurd (decide_eq_true rfl) (unlink_eq_none_iff.mp hu B hB)
  | some r =>
    obtain ⟨hr, hperm⟩ := unlink_perm hu
    obtain rfl : B = r.1 := hinv.owns.data_inj hB (hperm.mem_iff.mpr List.mem_cons_self)
      (of_decide_eq_true hr).symm
    have hledger : Ledger.step (.smartfree r.1.data site, e) L =
        ⟨.ok (), r.2, r.1.complaints site⟩ := by
      simp only [Ledger.step, Ledger.serve, Ledger.free, bind_of_silent _ (take_some hu),
        check_apply]
    obtain ⟨s', hs, hinv'⟩ := hinv.ok_of_ledger hledger trivial
    exact ⟨s', r.2, hs, hinv', hperm⟩

/-- In a state of the allocator, the `free` of anything else. -/
theorem free_unknown {L : Ledger} (hinv : Inv [] s L) {address : ℕ} (h : ∀ B ∈ L, B.data ≠ address)
    (site : Site) :
    step (.smartfree address site, e) s = ⟨.ok (), s, [.print (.nonMalloced site)]⟩ := by
  have hnone : unlink (fun t => decide (t.data = address)) (s.trackHash (smartallocHash address)) =
      none := by
    refine (hinv.tracks.placed.unlink_eq_none_iff fun t ht => ?_).mpr fun t ht => ?_
    · rw [of_decide_eq_true ht]
    · obtain ⟨B, hB, rfl⟩ := List.mem_map.mp (hinv.tracks.entries.mem_iff.mp ht)
      exact fun hdata => h B hB (of_decide_eq_true hdata)
  simp only [step, serve, smartfree, removeTrackNode, bind_apply, getState_apply,
    Outcome.andThen_ok, hnone, pure_apply, emit_apply, List.nil_append]

/-- A block that was handed out in a run, by an allocation or a reallocation, and not freed or
reallocated since can be freed. This is reported as a write past the bounds exactly when the block
was overrun. Freeing it once more is reported, and changes nothing. -/
theorem overrun_reported_iff (hdoc : Always Documented step (past ++ i :: mid) (initial mem))
    (hrun : run step (past ++ i :: mid) (initial mem) = ⟨.ok (), s, w⟩)
    (hgiven : HandedOut mem past i mid data bytes) (site : Site) :
    ∃ s' w', step (.smartfree data site, e) s = ⟨.ok (), s', w'⟩ ∧
      (Overrun data bytes mid → w' = [.print (.pastBounds site)]) ∧
      (¬Overrun data bytes mid → w' = []) ∧
      ∀ site' e', step (.smartfree data site', e') s' =
        ⟨.ok (), s', [.print (.nonMalloced site')]⟩ := by
  obtain ⟨L, hinv, A, hA, B, hB, hAB⟩ := run_handedOut hdoc hrun hgiven
  have hdata : data = B.data := hA.data.symm.trans (congrArg (· + margin) hAB.base.symm)
  obtain ⟨s', L', hstep, hinv', hperm⟩ := free_live (e := e) hinv hB site
  have hbroken := hAB.broken_iff hA
  refine ⟨s', B.complaints site, hdata ▸ hstep, fun hover => if_pos (hbroken.mpr hover),
    fun hnot => if_neg fun hb => hnot (hbroken.mp hb), fun site' e' => ?_⟩
  refine free_unknown hinv' (fun C hC hCdata => ?_) site'
  -- A second allocation with the pointer would overlap the one that was freed.
  have hdistinct : ((B :: L').map Allocation.data).Nodup :=
    (hperm.map _).nodup_iff.mp hinv.accounted.apart.1
  rw [List.map_cons, List.nodup_cons] at hdistinct
  exact hdistinct.1 (List.mem_map.mpr ⟨C, hC, hCdata.trans hdata⟩)

/-- The first block is made twice as large. -/
def growBlock : Input :=
  (.smartrealloc 100 6 false ⟨"client.c", 5⟩ 0x66, ⟨some 300, none, true⟩)

/-- These requests are answered as documented, and so is a write behind the larger block. -/
theorem growBlock_documented : Always Documented step
    ([firstBlock] ++ growBlock :: [(.write 310 7, ⟨none, none, false⟩)]) (initial fun _ => 0) := by
  refine always_cons ?_ (always_cons ?_ (always_cons trivial always_nil))
  · intro base hbase
    obtain rfl := Option.some.inj hbase
    decide
  · intro base hbase
    obtain rfl := Option.some.inj hbase
    decide

/-- The `free` of the larger block complains of the write behind it. -/
theorem overrun_reported_growBlock :
    ∃ s', step (.smartfree 304 ⟨"client.c", 6⟩, ⟨none, none, false⟩)
        (run step ([firstBlock] ++ growBlock :: [(.write 310 7, ⟨none, none, false⟩)])
          (initial fun _ => 0)).st = ⟨.ok (), s', [.print (.pastBounds ⟨"client.c", 6⟩)]⟩ ∧
      step (.smartfree 304 ⟨"client.c", 7⟩, ⟨none, none, false⟩) s' =
        ⟨.ok (), s', [.print (.nonMalloced ⟨"client.c", 7⟩)]⟩ := by
  have hgiven : HandedOut (fun _ => 0) [firstBlock] growBlock
      [(.write 310 7, ⟨none, none, false⟩)] 304 6 :=
    ⟨rfl, by decide, by decide, by simp [frees]⟩
  have hover : Overrun 304 6 [(.write 310 7, ⟨none, none, false⟩)] :=
    ⟨10, by decide, by decide, 7, rfl, by decide⟩
  obtain ⟨s', w', hstep, hreported, -, hagain⟩ := overrun_reported_iff (e := ⟨none, none, false⟩)
    growBlock_documented (run_of_isOk step _ _ (by decide)) hgiven ⟨"client.c", 6⟩
  obtain rfl := hreported hover
  exact ⟨s', hstep, hagain ⟨"client.c", 7⟩ ⟨none, none, false⟩⟩

/-! ## Reallocation -/

/-- What `smartrealloc` copies is the smaller size exactly when this fits into an `int`. -/
theorem limit_eq_iff (newSize space : UInt64) :
    (limit newSize space).toNat = (min newSize space).toNat ↔ (min newSize space).toNat < 2^31 := by
  unfold limit
  rw [Int.bmod_def]
  split_ifs <;> omega

/-- What a reallocation leaves: the new block has the first `n` bytes of the old one, then the fill,
and its margins; the old pointer is not tracked any more, and every other block that was tracked
still is, with the bytes that it had. -/
structure Reallocated (s s' : Store) (old : Track) (newData newSize n : ℕ) (fill : UInt8) :
    Prop where
  data : ∀ k, k < newSize → s'.mem (newData + k) = if k < n then s.mem (old.data + k) else fill
  margins : ∀ k, k < margin →
    s'.mem (newData - margin + k) = pattern ∧ s'.mem (newData + newSize + k) = pattern
  tracked : ∃ t ∈ entries s'.trackHash, t.data = newData ∧ t.space.toNat = newSize
  freed : ∀ t ∈ entries s'.trackHash, t.data ≠ old.data
  others : ∀ t ∈ entries s.trackHash, t ≠ old → t ∈ entries s'.trackHash ∧
    ∀ k, k < t.space.toNat + 2 * margin →
      s'.mem (t.data - margin + k) = s.mem (t.data - margin + k)

/-- The ledger after a reallocation, and what it says of the two stores. -/
theorem reallocated_of_ledger {s' : Store} {rest : Ledger} {base : ℕ} {newSize : UInt64}
    {fill : UInt8} (hinv : Inv [] s (A :: rest)) (hnew : base ≠ A.base)
    (hinv' : Inv [] s' ((Allocation.fresh base newSize fill).keep A
      (limit newSize A.space).toNat :: rest)) :
    Reallocated s s' A.track (base + margin) newSize.toNat (limit newSize A.space).toNat fill := by
  obtain ⟨hlimit, hlimit'⟩ := limit_le newSize A.space
  have hsize : ((Allocation.fresh base newSize fill).keep A (limit newSize A.space).toNat).size =
      newSize.toNat + 2 * margin := rfl
  have hcells := hinv'.owns.cells _ List.mem_cons_self
  rw [hsize] at hcells
  have hcell : ∀ k, k < newSize.toNat + 2 * margin → s'.mem (base + k) =
      if margin ≤ k ∧ k < margin + (limit newSize A.space).toNat then A.cells k
      else if margin ≤ k ∧ k < margin + newSize.toNat then fill else pattern := hcells
  have hold := hinv.owns.cells A List.mem_cons_self
  have hdistinct := hinv.accounted.apart.1
  rw [List.map_cons, List.nodup_cons] at hdistinct
  refine ⟨fun k hk => ?_, fun k hk => ⟨?_, ?_⟩, ⟨_, hinv'.track_mem List.mem_cons_self, rfl, rfl⟩,
    fun t ht hdata => ?_, fun t ht hne => ?_⟩
  · rw [Nat.add_assoc, hcell (margin + k) (by omega)]
    by_cases hkept : k < (limit newSize A.space).toNat
    · rw [if_pos ⟨by omega, by omega⟩, if_pos hkept,
        ← hold (margin + k) (by unfold Allocation.size; omega), ← Nat.add_assoc]
      rfl
    · rw [if_neg (by omega), if_pos ⟨by omega, by omega⟩, if_neg hkept]
  · rw [Nat.add_sub_cancel, hcell k (by omega), if_neg (by omega), if_neg (by omega)]
  · rw [Nat.add_assoc, Nat.add_assoc, hcell _ (by omega), if_neg (by omega), if_neg (by omega)]
  · obtain ⟨C, hC, rfl⟩ := hinv'.exists_of_track ht
    rcases List.mem_cons.mp hC with rfl | hC
    · exact hnew (Nat.add_right_cancel hdata)
    · exact hdistinct.1 (List.mem_map.mpr ⟨C, hC, hdata⟩)
  · obtain ⟨C, hC, rfl⟩ := hinv.exists_of_track ht
    rcases List.mem_cons.mp hC with rfl | hrest
    · exact absurd rfl hne
    · refine ⟨hinv'.track_mem (List.mem_cons_of_mem _ hrest), fun k hk => ?_⟩
      have hbase : C.track.data - margin = C.base := Nat.add_sub_cancel _ _
      rw [hbase, hinv.owns.cells C hC k hk]
      exact hinv'.owns.cells C (List.mem_cons_of_mem _ hrest) k hk

/-- A reallocation of a live pointer, in any state that a run leads to: the new block keeps as many
bytes of the old one as `limit` says, which is the smaller of the sizes exactly when this is below
`2^31`. -/
theorem realloc_keeps {ptr : ℕ} {newSize : UInt64} {onFailure : Bool} {site : Site} {fill : UInt8}
    {s' : Store} {w' : List Event} {old : Track}
    (hdoc : Always Documented step (is ++ [(.smartrealloc ptr newSize onFailure site fill, e)])
      (initial mem))
    (hrun : run step is (initial mem) = ⟨.ok (), s, w⟩) (hold : old ∈ entries s.trackHash)
    (hptr : old.data = ptr)
    (hstep : step (.smartrealloc ptr newSize onFailure site fill, e) s = ⟨.ok (), s', w'⟩) :
    ∃ newData, w'.getLast? = some (.returned newData) ∧
      Reallocated s s' old newData newSize.toNat (limit newSize old.space).toNat fill ∧
      ((limit newSize old.space).toNat = (min newSize old.space).toNat ↔
        (min newSize old.space).toNat < 2^31) := by
  have hdocs : Answers s.blocks e.malloc newSize := hdoc is _ s w List.prefix_rfl hrun
  have hbefore := hdoc.of_prefix (List.prefix_append is _)
  obtain ⟨L, -, hinv⟩ := (inv_initial mem).run_ok hbefore hrun
  obtain ⟨L', hL', hinv'⟩ := hinv.step_ok (hdoc is _ s w List.prefix_rfl hrun) hstep
  obtain ⟨A, hA, rfl⟩ := hinv.exists_of_track hold
  obtain rfl : A.data = ptr := hptr
  have hnull := A.data_ne_zero
  -- Of the rules for a reallocation, only the one for a live pointer applies.
  cases step_rule hL' with
  | allocated hcreates => simp [creates, hnull] at hcreates
  | unknownMoved _ hu => exact absurd (decide_eq_true rfl) (unlink_eq_none_iff.mp hu A hA)
  | @moved _ _ _ _ _ _ C rest base _ hu hbase =>
    obtain ⟨hC, hperm⟩ := unlink_perm hu
    obtain rfl : A = C := hinv.owns.data_inj hA (hperm.mem_iff.mpr List.mem_cons_self)
      (of_decide_eq_true hC).symm
    have hinvA : Inv [] s (A :: rest) := ⟨hinv.owns.perm hperm, hinv.tracks.perm hperm⟩
    refine ⟨base + margin, by simp, reallocated_of_ledger hinvA ?_ hinv', limit_eq_iff _ _⟩
    -- The new block was handed out while the old one was there.
    rintro rfl
    have hfits := (hinv'.owns.fits _ List.mem_cons_self).2.1
    simp only [Allocation.size, Allocation.keep, Allocation.fresh, margin] at hfits
    have hapart := (hdocs A.base hbase).2.2.2 A.region
      (hinv.owns.blocks.mem_iff.mpr (List.mem_map_of_mem hA))
    rw [asked_toNat (by unfold margin; omega)] at hapart
    simp only [Region.Apart, Allocation.region, Allocation.size, margin] at hapart
    omega

theorem realloc_keeps_growBlock :
    ∃ newData, (step growBlock (run step [firstBlock] (initial fun _ => 0)).st).events.getLast? =
        some (.returned newData) ∧
      Reallocated (run step [firstBlock] (initial fun _ => 0)).st
        (step growBlock (run step [firstBlock] (initial fun _ => 0)).st).st ⟨100, 3, 1, 4⟩ newData 6
        (limit 6 3).toNat 0x66 ∧
      ((limit 6 3).toNat = (min 6 3 : UInt64).toNat ↔ (min 6 3 : UInt64).toNat < 2^31) := by
  have hdoc : Always Documented step ([firstBlock] ++ [growBlock]) (initial fun _ => 0) :=
    growBlock_documented.of_prefix ⟨_, rfl⟩
  have hold : (⟨100, 3, 1, 4⟩ : Track) ∈
      entries (run step [firstBlock] (initial fun _ => 0)).st.trackHash :=
    mem_entries.mpr ⟨smartallocHash 100, by decide⟩
  obtain ⟨⟨⟩, hstep⟩ := Outcome.eq_ok
    (o := step growBlock (run step [firstBlock] (initial fun _ => 0)).st) (by decide)
  exact realloc_keeps hdoc (run_of_isOk step _ _ (by decide)) hold rfl hstep

end SdnController.Smartalloc
