import SdnController.Tracking
import SdnController.Lib.Simulations

/-!
# The allocator keeps the ledger

Each function of `smartalloc.c` against the program on the ledger: an allocation
(`allocate_matches`), the removal of a track, after which the block is held without one
(`removeTrackNode_matches`), the checks of a block that is freed (`freechecks_matches`), and its
`free` (`freeTracked_apply`). Every request then matches the one on the ledger (`serve_matches`): it
ends in the same way, prints and returns the same, and keeps the invariant; and so does every run
(`run_serve_matches`).
-/

namespace SdnController.Smartalloc

open Exec Memory HashChains

section Functions

variable {s : Store} {e : Env} {L : Ledger} {K : List Allocation} {A : Allocation}

theorem memset_apply {off n : ℕ} {c : UInt8} (h : s.blocks.any (·.covers off n) = true) :
    memset off c n e s = ⟨.ok (), { s with mem := fillAt s.mem off c n }, []⟩ := by
  simp only [memset, bind_apply, getState_apply, Outcome.andThen_ok, prog_ite_apply, if_pos h,
    modifyState_apply, List.nil_append]

theorem memset_stops {off n : ℕ} {c : UInt8} (h : ¬s.blocks.any (·.covers off n) = true) :
    memset off c n e s = ⟨.error .undefined, s, []⟩ := by
  simp only [memset, bind_apply, getState_apply, Outcome.andThen_ok, prog_ite_apply, if_neg h,
    stop_apply, List.nil_append]

theorem takeBlock_none (size : ℕ) : takeBlock none size e s = ⟨.ok none, s, []⟩ := by
  simp [takeBlock]

theorem takeBlock_some (base size : ℕ) :
    takeBlock (some base) size e s =
      ⟨.ok (some base), { s with blocks := ⟨base, size⟩ :: s.blocks }, []⟩ := by
  simp [takeBlock]

theorem smartallocTrack_stops (data : ℕ) (space : UInt64) (needsFree : UInt8) (margin : UInt16)
    (h : e.track = false) :
    ∃ s', smartallocTrack data space needsFree margin e s =
      ⟨.error .exit, s', [.print .trackFailure]⟩ := by
  simp [smartallocTrack, h]

theorem smartallocTrack_apply (A : Allocation) (h : e.track = true) :
    smartallocTrack A.data A.space 1 (UInt16.ofNat margin) e s = ⟨.ok (), { s with
      inited := true
      allocated := s.allocated + A.space
      trackHash := s.cleared.add (smartallocHash A.data) A.track }, []⟩ := by
  unfold Store.cleared
  simp only [smartallocTrack, bind_apply, modifyState_apply, Outcome.andThen_ok, ask_apply, h,
    reduceCtorEq, if_false, List.nil_append]
  split_ifs <;> simp_all [Allocation.track]

/-- The size that `smartalloc` asks for, when it does not wrap around. -/
theorem asked_toNat {bytes : UInt64} (h : bytes.toNat + 2 * margin < 2^64) :
    (bytes + 2 * UInt64.ofNat margin).toNat = bytes.toNat + 2 * margin := by
  rw [UInt64.toNat_add]
  exact Nat.mod_eq_of_lt h

/-- Memory after the three `memset` calls of an allocation. -/
def filled (mem : Mem) (base : ℕ) (bytes : UInt64) (fill : UInt8) : Mem :=
  fillAt (fillAt (fillAt mem (base + margin) fill bytes.toNat) base pattern margin)
    (base + margin + bytes.toNat) pattern margin

/-- The three `memset` calls write the allocation, and nothing else. -/
theorem filled_eq (mem : Mem) (base : ℕ) (bytes : UInt64) (fill : UInt8) (i : ℕ) :
    filled mem base bytes fill i =
      if (Allocation.fresh base bytes fill).region.Contains i then
        (Allocation.fresh base bytes fill).cells (i - base)
      else mem i := by
  simp only [filled, fillAt, Allocation.fresh, Region.Contains, Allocation.region, Allocation.size,
    margin]
  grind

/-- A size that wraps around: the data is longer than its block, and than any other one. -/
theorem allocate_wraps {M : List Allocation} (h : Owns s.mem s.blocks M) (base : ℕ)
    {bytes : UInt64} (site : Site) (fill : UInt8) (hwrap : 2^64 ≤ bytes.toNat + 2 * margin)
    (hsize : (bytes + 2 * UInt64.ofNat margin).toNat < 2^63) :
    ∃ s', allocate (some base) bytes site fill e s = ⟨.error .undefined, s', []⟩ := by
  have hblock : ¬(⟨base, (bytes + 2 * UInt64.ofNat margin).toNat⟩ : Region).covers
      (base + margin) bytes.toNat = true := by
    rw [Region.covers_iff]
    simp only [margin] at *
    omega
  have hnone : ¬(⟨base, (bytes + 2 * UInt64.ofNat margin).toNat⟩ :: s.blocks).any
      (·.covers (base + margin) bytes.toNat) = true := by
    rw [List.any_cons, Bool.or_eq_true, not_or]
    exact ⟨hblock, h.not_covers (by simp only [margin] at hwrap; omega)⟩
  have hstop := memset_stops (s := { s with blocks := _ :: s.blocks }) (e := e) (c := fill) hnone
  simp only [allocate, bind_apply, takeBlock_some, Outcome.andThen_ok, hstop, Outcome.andThen_error]
  exact ⟨_, rfl⟩

/-- An allocation that fits, up to its track. -/
theorem allocate_fits {base : ℕ} {bytes : UInt64} (site : Site) (fill : UInt8)
    (hfit : bytes.toNat + 2 * margin < 2^64) :
    allocate (some base) bytes site fill e s =
      (smartallocTrack (base + margin) bytes 1 (UInt16.ofNat margin) e { s with
        mem := filled s.mem base bytes fill
        blocks := ⟨base, bytes.toNat + 2 * margin⟩ :: s.blocks }).andThen fun _ s' =>
          ⟨.ok (base + margin), s', []⟩ := by
  -- Each `memset` stays inside the block.
  have hset : ∀ m off n c, base ≤ off → off + n ≤ base + (bytes.toNat + 2 * margin) →
      memset off c n e { s with
        mem := m, blocks := ⟨base, bytes.toNat + 2 * margin⟩ :: s.blocks } =
      ⟨.ok (), { s with
        mem := fillAt m off c n, blocks := ⟨base, bytes.toNat + 2 * margin⟩ :: s.blocks }, []⟩ := by
    intro m off n c hoff hn
    apply memset_apply
    rw [List.any_cons, Bool.or_eq_true]
    exact .inl (Region.covers_iff.mpr ⟨hoff, hn⟩)
  have hset₁ := hset s.mem (base + margin) bytes.toNat fill (by omega) (by omega)
  have hset₂ := hset (fillAt s.mem (base + margin) fill bytes.toNat) base margin pattern
    le_rfl (by omega)
  have hset₃ := hset (fillAt (fillAt s.mem (base + margin) fill bytes.toNat) base pattern margin)
    (base + margin + bytes.toNat) margin pattern (by omega) (by omega)
  simp only [allocate, bind_apply, takeBlock_some, Outcome.andThen_ok, asked_toNat hfit, hset₁,
    Nat.add_sub_cancel, hset₂, hset₃, List.nil_append]
  rfl

/-- What an allocation leaves: one more allocation, at the head of the ledger. -/
structure Allocated (K L : List Allocation) (bytes : UInt64) (p : ℕ) (B : Allocation) (s : Store)
    (L' : Ledger) : Prop where
  pointer : p = B.data
  space : B.space = bytes
  ledger : L' = B :: L
  inv : Inv K s L'

/-- An allocation matches the one on the ledger. -/
theorem allocate_matches (h : Inv K s L) {answer : Option ℕ} {bytes : UInt64} (site : Site)
    (fill : UInt8) (ha : Answers s.blocks answer bytes) :
    (allocate answer bytes site fill e s).Matches (Allocated K L bytes)
      (Ledger.allocate answer bytes site fill e L) := by
  cases answer with
  | none =>
    simp only [allocate, Ledger.allocate, bind_apply, takeBlock_none, Outcome.andThen_ok,
      emit_apply, stop_apply]
    exact Outcome.matches_error _ _ _ _
  | some base =>
    obtain ⟨hbase, hsize, hend, hapart⟩ := ha base rfl
    by_cases hwrap : 2^64 ≤ bytes.toNat + 2 * margin
    · obtain ⟨s', hstop⟩ := allocate_wraps (e := e) h.owns base site fill hwrap hsize
      rw [hstop]
      simp only [Ledger.allocate, hwrap, if_true, stop_apply]
      exact Outcome.matches_error _ _ _ _
    · rw [allocate_fits site fill (not_le.mp hwrap)]
      rw [asked_toNat (not_le.mp hwrap)] at hsize hend hapart
      simp only [Ledger.allocate, hwrap, if_false, bind_apply, ask_apply, Outcome.andThen_ok,
        prog_ite_apply, List.nil_append]
      cases htrack : e.track with
      | false =>
        obtain ⟨s', hstop⟩ := smartallocTrack_stops (s := { s with
          mem := filled s.mem base bytes fill
          blocks := ⟨base, bytes.toNat + 2 * margin⟩ :: s.blocks }) (base + margin) bytes 1
          (UInt16.ofNat margin) htrack
        rw [hstop]
        exact Outcome.matches_error _ _ _ _
      | true =>
        have htracked := smartallocTrack_apply (s := { s with
          mem := filled s.mem base bytes fill
          blocks := ⟨base, bytes.toNat + 2 * margin⟩ :: s.blocks })
          (Allocation.fresh base bytes fill) htrack
        simp only [Allocation.data, Allocation.fresh] at htracked
        have howns : Owns (filled s.mem base bytes fill)
            ((Allocation.fresh base bytes fill).region :: s.blocks)
            (K ++ Allocation.fresh base bytes fill :: L) := by
          refine (h.owns.add (A := Allocation.fresh base bytes fill) ⟨hbase, hsize, hend⟩ hapart
            (fun k hk => ?_) (fun i hi => ?_)).perm List.perm_middle.symm
          · rw [filled_eq, if_pos ⟨Nat.le_add_right _ _, Nat.add_lt_add_left hk _⟩]
            exact congrArg _ (Nat.add_sub_cancel_left base k)
          · rw [filled_eq, if_neg hi]
        rw [htracked]
        refine Outcome.matches_ok _ ⟨rfl, rfl, rfl, howns, ?_⟩
        exact (h.tracks.congr _ _).add (Allocation.fresh base bytes fill)

/-- The removal of a track matches the removal from the ledger. What was removed is held. -/
theorem removeTrackNode_matches (h : Inv [] s L) (address : ℕ) :
    (removeTrackNode address e s).Matches
      (fun t A s' L' => t = A.map Allocation.track ∧ (∀ B ∈ A, B.data = address) ∧
        s'.blocks = s.blocks ∧ Inv A.toList s' L') (Ledger.take address e L) := by
  have hplaced : ∀ t : Track, decide (t.data = address) = true →
      smartallocHash t.data = smartallocHash address := fun t ht => by
    rw [of_decide_eq_true ht]
  have hdata : ∀ B : Allocation, B.track.data = B.data := fun _ => rfl
  cases hu : unlink (fun t => decide (t.data = address)) (s.trackHash (smartallocHash address)) with
  | none =>
    -- No track of the table has this pointer, and so no allocation does.
    have habsent := (h.tracks.placed.unlink_eq_none_iff hplaced).mp hu
    have hnone : unlink (fun A => decide (A.data = address)) L = none := by
      refine unlink_eq_none_iff.mpr fun A hA => habsent A.track ?_
      exact h.tracks.entries.mem_iff.mpr (List.mem_map_of_mem hA)
    simp only [removeTrackNode, Ledger.take, bind_apply, getState_apply, Outcome.andThen_ok, hu,
      hnone, pure_apply, List.nil_append]
    exact Outcome.matches_ok _ ⟨rfl, by simp, rfl, h⟩
  | some r =>
    obtain ⟨hr, hentries⟩ := entries_unlink hu
    obtain ⟨A, hA, hAr⟩ := List.mem_map.mp
      (h.tracks.entries.mem_iff.mp (hentries.mem_iff.mpr List.mem_cons_self))
    have hAdata : A.data = address := by
      rw [← hdata, hAr]
      exact of_decide_eq_true hr
    cases hL : unlink (fun A => decide (A.data = address)) L with
    | none => exact absurd (decide_eq_true hAdata) (unlink_eq_none_iff.mp hL A hA)
    | some q =>
      obtain ⟨hq, hperm⟩ := unlink_perm hL
      have hqL : q.1 ∈ L := hperm.mem_iff.mpr List.mem_cons_self
      -- The two removals are of the same allocation.
      obtain rfl : A = q.1 :=
        h.owns.data_inj hA hqL (hAdata.trans (of_decide_eq_true hq).symm)
      have hrest : (HashChains.entries (Function.update s.trackHash (smartallocHash address)
          r.2)).Perm (q.2.map Allocation.track) := by
        have hboth := hentries.symm.trans (h.tracks.entries.trans (hperm.map _))
        rw [List.map_cons, hAr] at hboth
        exact hboth.cons_inv
      have hspace : s.allocated - r.1.space = UInt64.ofNat (Ledger.space q.2) := by
        have htotal : s.allocated = UInt64.ofNat (Ledger.space q.2) + q.1.space := by
          rw [h.tracks.allocated, space_perm hperm, space_cons, UInt64.ofNat_add,
            UInt64.ofNat_toNat, UInt64.add_comm]
        rw [htotal, ← hAr]
        exact UInt64.add_sub_cancel _ _
      simp only [removeTrackNode, Ledger.take, bind_apply, getState_apply, Outcome.andThen_ok, hu,
        hL, modifyState_apply, pure_apply, List.nil_append]
      refine Outcome.matches_ok _ ⟨by rw [Option.map_some, hAr], by simp [hAdata], rfl, ?_, hrest,
        h.tracks.placed.unlink hu, hspace, fun hi => ?_⟩
      · exact h.owns.perm hperm
      · have hnil := h.tracks.inited hi
        rw [hnil] at hA
        exact absurd hA List.not_mem_nil

/-- The margins in memory are those of the allocation. -/
theorem brokenMargin_eq {mem : Mem} {blocks : List Region} {M : List Allocation}
    (h : Owns mem blocks M) (hA : A ∈ M) : brokenMargin mem A.track = A.broken := by
  have hcells := h.cells A hA
  unfold brokenMargin Allocation.broken
  rw [Bool.eq_iff_iff, List.any_eq_true, List.any_eq_true]
  refine exists_congr fun i => and_congr_right fun hi => ?_
  have hlt : i < margin := List.mem_range.mp hi
  have hafter := hcells (margin + A.space.toNat + i) (by unfold Allocation.size; omega)
  have hbefore := hcells i (by unfold Allocation.size; omega)
  simp only [Allocation.track, Allocation.data, margin_toNat, Nat.add_sub_cancel]
  rw [hbefore, ← hafter, ← Nat.add_assoc, ← Nat.add_assoc]

/-- An allocation whose data is overwritten. -/
def Allocation.wiped (A : Allocation) : Allocation :=
  { A with cells := fun k =>
      if margin ≤ k ∧ k < margin + A.space.toNat then pattern else A.cells k }

/-- The data of a block that is held is overwritten. -/
theorem Inv.wipe (h : Inv (A :: K) s L) :
    memset A.data pattern A.space.toNat e s =
        ⟨.ok (), { s with mem := fillAt s.mem A.data pattern A.space.toNat }, []⟩ ∧
      Inv (A.wiped :: K) { s with mem := fillAt s.mem A.data pattern A.space.toNat } L := by
  have hend : A.data + A.space.toNat ≤ A.base + A.size := by
    unfold Allocation.data Allocation.size
    omega
  have hcovers := h.owns.covers List.mem_cons_self (Nat.le_add_right A.base margin) hend
  refine ⟨memset_apply hcovers, h.owns.update rfl (fun k hk => ?_) (fun i hi => ?_),
    h.tracks.congr _ _⟩
  · have hcell := h.owns.cells A List.mem_cons_self k hk
    simp only [fillAt, Allocation.wiped, Allocation.data, ← hcell]
    exact if_congr (by omega) rfl rfl
  · refine if_neg fun hdata => hi ?_
    unfold Allocation.data at hdata
    simp only [Region.Contains, Allocation.region, Allocation.size]
    omega

/-- The checks of a block that is freed match the check on the ledger. -/
theorem freechecks_matches (h : Inv (A :: K) s L) (site : Site) :
    (freechecks A.track site e s).Matches (fun _ _ s' L' => L' = L ∧ Inv (A.wiped :: K) s' L)
      (Ledger.check A site e L) := by
  obtain ⟨hset, hinv⟩ := h.wipe (e := e)
  unfold freechecks Ledger.check
  simp only [bind_apply, getState_apply, Outcome.andThen_ok, prog_ite_apply,
    brokenMargin_eq h.owns List.mem_cons_self]
  cases A.broken with
  | true =>
    simp only [if_true, emit_apply, Outcome.andThen_ok, Allocation.track, hset]
    exact Outcome.matches_ok _ ⟨rfl, hinv⟩
  | false =>
    simp only [reduceCtorEq, if_false, pure_apply, Allocation.track, hset]
    exact Outcome.matches_ok _ ⟨rfl, hinv⟩

/-- The `free` of a block that was overwritten. -/
theorem freeTracked_apply (h : Inv (A.wiped :: K) s L) :
    ∃ s', freeTracked A.track e s = ⟨.ok (), s', []⟩ ∧ Inv K s' L := by
  obtain ⟨r, rest, hu, howns⟩ := h.owns.release
  have hu' : unlink (fun r => decide (r.base = A.track.data - A.track.margin.toNat)) s.blocks =
      some (r, rest) := hu
  have hneeds : A.track.needsFree ≠ 0 := show (1 : UInt8) ≠ 0 by decide
  refine ⟨{ s with blocks := rest }, ?_, howns, h.tracks.congr _ _⟩
  simp only [freeTracked, if_pos hneeds, release, bind_apply, getState_apply, Outcome.andThen_ok,
    hu', modifyState_apply, List.nil_append]

/-- `smartfree` matches what is freed on the ledger. -/
theorem smartfree_matches (h : Inv [] s L) (address : ℕ) (site : Site) :
    (smartfree address site e s).Matches (fun _ _ => Inv []) (Ledger.free address site e L) := by
  unfold smartfree Ledger.free
  refine Matches.bind (removeTrackNode_matches h address) fun t A s₁ L₁ hremoved => ?_
  obtain ⟨rfl, -, -, hinv⟩ := hremoved
  cases A with
  | none => exact Outcome.matches_ok _ hinv
  | some A =>
    refine Matches.bind_silent (freechecks_matches hinv site) fun _ _ s₂ L₂ hchecked => ?_
    obtain ⟨rfl, hinv₂⟩ := hchecked
    obtain ⟨s₃, hfree, hinv₃⟩ := freeTracked_apply (e := e) hinv₂
    exact ⟨(), s₃, hfree, hinv₃⟩

/-- What `smartrealloc` copies is in both allocations. -/
theorem limit_le (newSize space : UInt64) :
    (limit newSize space).toNat ≤ newSize.toNat ∧ (limit newSize space).toNat ≤ space.toNat := by
  have hmin : (min newSize space).toNat ≤ newSize.toNat ∧
      (min newSize space).toNat ≤ space.toNat := by
    have hif : min newSize space = if newSize ≤ space then newSize else space := rfl
    rw [hif]
    split_ifs with hle
    · exact ⟨le_rfl, UInt64.le_iff_toNat_le.mp hle⟩
    · exact ⟨(not_le.mp fun hge => hle (UInt64.le_iff_toNat_le.mpr hge)).le, le_rfl⟩
  have hbmod : ((min newSize space).toNat : ℤ).bmod (2^32) ≤ (min newSize space).toNat := by
    rw [Int.bmod_def]
    split_ifs <;> omega
  unfold limit
  omega

/-- The copy of `smartrealloc`, from an allocation that is held to the newest one. -/
theorem Inv.copy {B : Allocation} (h : Inv (A :: K) s (B :: L)) {n : ℕ} (hB : n ≤ B.space.toNat)
    (hA : n ≤ A.space.toNat) :
    s.blocks.any (·.covers B.data n) = true ∧
      Inv (A :: K) { s with mem := copyBytes n B.data A.data s.mem } (B.keep A n :: L) := by
  have howns : Owns s.mem s.blocks (B :: (A :: K ++ L)) := h.owns.perm List.perm_middle
  have hapart := howns.apart_head (List.mem_cons_self (a := A))
  unfold Region.Apart at hapart
  simp only [Allocation.region, Allocation.size] at hapart
  refine ⟨howns.covers List.mem_cons_self (Nat.le_add_right _ _) ?_, ?_, ?_⟩
  · unfold Allocation.data Allocation.size
    omega
  · refine (howns.update (B := B.keep A n) rfl (fun k hk => ?_) (fun i hi => ?_)).perm
      List.perm_middle.symm
    · by_cases hcopied : margin ≤ k ∧ k < margin + n
      · obtain ⟨j, rfl⟩ := Nat.exists_eq_add_of_le hcopied.1
        have hj : j < n := by omega
        have hsource := h.owns.cells A (by simp) (margin + j) (by unfold Allocation.size; omega)
        simp only [Allocation.keep, if_pos hcopied, Allocation.data, ← hsource]
        rw [← Nat.add_assoc, copyBytes_of_lt _ (by omega) hj, Nat.add_assoc]
      · have hcell := howns.cells B List.mem_cons_self k hk
        simp only [Allocation.keep, if_neg hcopied, Allocation.data, ← hcell]
        exact copyBytes_of_not_mem _ (by omega)
    · simp only [Region.Contains, Allocation.region, Allocation.size] at hi
      exact copyBytes_of_not_mem _ (by unfold Allocation.data; omega)
  · exact (h.tracks.congr _ _).replace rfl

/-- No pointer of a client is `NULL`: there is a margin before it. -/
theorem Allocation.data_ne_zero (A : Allocation) : A.data ≠ 0 := by
  unfold Allocation.data margin
  omega

/-- `smartrealloc` matches the reallocation on the ledger. -/
theorem smartrealloc_matches (h : Inv [] s L) (ptr : ℕ) (newSize : UInt64) (freeOnFailure : Bool)
    (site : Site) (fill : UInt8) (ha : Answers s.blocks e.malloc newSize) :
    (smartrealloc ptr newSize freeOnFailure site fill e s).Matches
      (fun p q s' L' => p = q ∧ Inv [] s' L') (Ledger.realloc ptr newSize site fill e L) := by
  unfold smartrealloc Ledger.realloc
  rw [ask_bind]
  by_cases hnull : ptr = 0
  · simp only [if_pos hnull, smartalloc, ask_bind]
    refine Matches.bind_right ((allocate_matches h site fill ha)) fun p B s₁ L₁ hB => ?_
    exact ⟨hB.pointer, hB.inv⟩
  · simp only [if_neg hnull]
    refine Matches.bind (removeTrackNode_matches h ptr) fun t A s₁ L₁ hremoved => ?_
    obtain ⟨rfl, hptr, hblocks, hinv⟩ := hremoved
    cases A with
    | none =>
      exact Outcome.matches_ok _ ⟨rfl, hinv⟩
    | some A =>
      -- The track that was removed is of the pointer, which is not `NULL`.
      obtain rfl : A.data = ptr := hptr A rfl
      refine Matches.bind (allocate_matches hinv site fill (hblocks ▸ ha)) fun p B s₂ L₂ hB => ?_
      obtain ⟨rfl, rfl, rfl, hinv₂⟩ := hB
      have hlimit := limit_le B.space A.space
      obtain ⟨hcovers, hinv₃⟩ := hinv₂.copy hlimit.1 hlimit.2
      have hnew : ¬B.data = 0 := B.data_ne_zero
      have hcovers' : s₂.blocks.any
          (·.covers B.data (limit B.space A.track.space).toNat) = true := hcovers
      simp only [if_neg hnew]
      rw [getState_bind, prog_ite_apply, if_pos hcovers']
      refine Matches.bind (R := fun _ _ => Inv [A]) (Outcome.matches_ok [] hinv₃)
        fun _ _ s₃ L₃ hinv₃ => ?_
      refine Matches.bind (freechecks_matches hinv₃ site) fun _ _ s₄ L₄ hchecked => ?_
      obtain ⟨rfl, hinv₄⟩ := hchecked
      obtain ⟨s₅, hfree, hinv₅⟩ := freeTracked_apply (e := e) hinv₄
      rw [bind_apply, hfree]
      exact Outcome.matches_ok _ ⟨rfl, hinv₅⟩

/-- A write leaves an allocation where it is. -/
theorem Allocation.write_region (A : Allocation) (address : ℕ) (value : UInt8) :
    (A.write address value).region = A.region := by
  unfold Allocation.write
  split_ifs <;> rfl

theorem Allocation.write_track (A : Allocation) (address : ℕ) (value : UInt8) :
    (A.write address value).track = A.track := by
  unfold Allocation.write
  split_ifs <;> rfl

/-- A write of a client matches the write on the ledger. -/
theorem write_matches (h : Inv [] s L) (address : ℕ) (value : UInt8) :
    (write address value e s).Matches (fun _ _ => Inv []) (Ledger.write address value e L) := by
  have hregion := fun A : Allocation => A.write_region address value
  have htrack := fun A : Allocation => A.write_track address value
  have hregions : (L.map (·.write address value)).map Allocation.region =
      L.map Allocation.region := by
    rw [List.map_map]
    exact List.map_congr_left fun A _ => hregion A
  have htracks : (L.map (·.write address value)).map Allocation.track = L.map Allocation.track := by
    rw [List.map_map]
    exact List.map_congr_left fun A _ => htrack A
  have hspace : Ledger.space (L.map (·.write address value)) = Ledger.space L := by
    unfold Ledger.space
    rw [List.map_map]
    exact congrArg List.sum (List.map_congr_left fun A _ =>
      congrArg (fun t : Track => t.space.toNat) (htrack A))
  have hsize : ∀ A : Allocation, (A.write address value).base = A.base ∧
      (A.write address value).size = A.size := fun A =>
    ⟨congrArg Region.base (hregion A), congrArg Region.size (hregion A)⟩
  unfold write Ledger.write
  rw [getState_bind, getState_bind, h.owns.covers_one address]
  simp only [prog_ite_apply, List.nil_append]
  split_ifs
  · refine Outcome.matches_ok _ ⟨⟨?_, ?_, ?_, ?_⟩, ?_, h.tracks.placed, ?_, fun hi => ?_⟩
    · simpa only [List.nil_append, hregions] using h.owns.blocks
    · refine List.pairwise_map.mpr (h.owns.apart.imp fun hapart => ?_)
      rwa [hregion, hregion]
    · refine List.forall_mem_map.mpr fun A hA => ?_
      rw [(hsize A).1, (hsize A).2]
      exact h.owns.fits A hA
    · refine List.forall_mem_map.mpr fun A hA k hk => ?_
      rw [(hsize A).2] at hk
      have hcell := h.owns.cells A hA k hk
      rw [(hsize A).1]
      -- The byte that is written is one of this allocation, or none of them is.
      unfold Allocation.write
      split_ifs with hin
      · obtain ⟨hle, -⟩ := hin
        simp only [Function.update_apply, ← hcell]
        exact if_congr (by change A.base ≤ address at hle; omega) rfl rfl
      · rw [← hcell]
        refine Function.update_of_ne (fun haddress => hin ?_) _ _
        rw [← haddress]
        exact ⟨Nat.le_add_right _ _, Nat.add_lt_add_left hk _⟩
    · rw [htracks]
      exact h.tracks.entries
    · rw [hspace]
      exact h.tracks.allocated
    · rw [h.tracks.inited hi]
      rfl
  · exact Outcome.matches_error _ _ _ _

/-- Every request matches the one on the ledger. -/
theorem serve_matches (h : Inv [] s L) (i : Input) (hdoc : Documented s i) :
    (step i s).Matches (fun _ _ => Inv []) (Ledger.step i L) := by
  obtain ⟨r, e⟩ := i
  have hreturned : ∀ (p : ℕ) (s : Store) (L : Ledger), Inv [] s L →
      ((emit (.returned p) : AllocProg Unit) e s).Matches (fun _ _ => Inv [])
        ((emit (.returned p) : LedgerProg Unit) e L) :=
    fun p s L h => Outcome.matches_ok [Event.returned p] h
  unfold step Ledger.step
  cases r with
  | smartalloc bytes site fill =>
    simp only [serve, Ledger.serve, smartalloc, ask_bind]
    refine Matches.bind (allocate_matches h site fill hdoc) fun p B s₁ L₁ hB => ?_
    rw [hB.pointer]
    exact hreturned B.data s₁ L₁ hB.inv
  | smartvalloc bytes site fill =>
    simp only [serve, Ledger.serve, smartvalloc, ask_bind]
    refine Matches.bind (allocate_matches h site fill hdoc) fun p B s₁ L₁ hB => ?_
    rw [hB.pointer]
    exact hreturned B.data s₁ L₁ hB.inv
  | smartfree address site => exact smartfree_matches h address site
  | smartrealloc ptr newSize freeOnFailure site fill =>
    refine Matches.bind (smartrealloc_matches h ptr newSize freeOnFailure site fill hdoc) ?_
    rintro p q s₁ L₁ ⟨rfl, hinv⟩
    exact hreturned p s₁ L₁ hinv
  | write address value => exact write_matches h address value

/-- A process starts with nothing allocated. -/
theorem inv_initial (mem : Mem) : Inv [] (initial mem) [] where
  owns := ⟨.refl _, .nil, by simp, by simp⟩
  tracks := ⟨by rw [initial, entries_empty]; exact .refl _, placed_empty, rfl, fun _ => rfl⟩

/-- Every run matches the run on the ledger. -/
theorem run_serve_matches {mem : Mem} {is : List Input}
    (hdoc : Always Documented step is (initial mem)) :
    (run step is (initial mem)).Matches (fun _ _ => Inv []) (run Ledger.step is []) :=
  run_matches (fun i _ _ h hC => serve_matches h i hC) is (inv_initial mem) hdoc

/-- A request that completes does so on the ledger. -/
theorem Inv.step_ok (h : Inv [] s L) {i : Input} (hdoc : Documented s i) {s' : Store}
    {w : List Event} (hi : step i s = ⟨.ok (), s', w⟩) :
    ∃ L', Ledger.step i L = ⟨.ok (), L', w⟩ ∧ Inv [] s' L' := by
  have hmatches := serve_matches h i hdoc
  rw [hi] at hmatches
  obtain ⟨⟨⟩, L', hL', hinv⟩ := hmatches.of_ok
  exact ⟨L', hL', hinv⟩

/-- A request that completes on the ledger does so in the allocator. -/
theorem Inv.ok_of_ledger (h : Inv [] s L) {i : Input} {L' : Ledger} {w : List Event}
    (hi : Ledger.step i L = ⟨.ok (), L', w⟩) (hdoc : Documented s i) :
    ∃ s', step i s = ⟨.ok (), s', w⟩ ∧ Inv [] s' L' := by
  have hmatches := serve_matches h i hdoc
  rw [hi] at hmatches
  obtain ⟨⟨⟩, s', hs', hinv⟩ := hmatches.to_ok
  exact ⟨s', hs', hinv⟩

/-- A run that completes does so on the ledger. -/
theorem Inv.run_ok (h : Inv [] s L) {is : List Input} (hdoc : Always Documented step is s)
    {s' : Store} {w : List Event} (hrun : run step is s = ⟨.ok (), s', w⟩) :
    ∃ L', run Ledger.step is L = ⟨.ok (), L', w⟩ ∧ Inv [] s' L' := by
  have hmatches := run_matches (fun i _ _ h hC => serve_matches h i hC) is h hdoc
  rw [hrun] at hmatches
  obtain ⟨⟨⟩, L', hL', hinv⟩ := hmatches.of_ok
  exact ⟨L', hL', hinv⟩

/-- What is in the ledger is tracked. -/
theorem Inv.track_mem (h : Inv [] s L) {A : Allocation} (hA : A ∈ L) :
    A.track ∈ entries s.trackHash :=
  h.tracks.entries.mem_iff.mpr (List.mem_map_of_mem hA)

/-- What is tracked is in the ledger. -/
theorem Inv.exists_of_track (h : Inv [] s L) {t : Track} (ht : t ∈ entries s.trackHash) :
    ∃ A ∈ L, A.track = t :=
  List.mem_map.mp (h.tracks.entries.mem_iff.mp ht)

end Functions

end SdnController.Smartalloc
