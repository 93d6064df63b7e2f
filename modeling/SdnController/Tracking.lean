import SdnController.Ledger

/-!
# Blocks, tracks, and the ledger

The store of `smartalloc.c` against the ledger: the blocks of the C library are those of the
allocations, no two overlap, and memory holds the bytes of each (`Owns`); the hash table has a track
for each live allocation, in the chain of its pointer, and the counter is the sum of their sizes
(`Tracks`). Between the removal of a track and the `free` of its block there are allocations that
are held without a track, so the invariant has a list of these as well (`Inv`).

Of the C library this assumes what is documented (`Answers`): a block is not at `NULL`, is no larger
than `PTRDIFF_MAX`, is inside the address space, and overlaps no other block. Then every request
matches the one on the ledger (`serve_matches`): it ends in the same way, prints and returns the
same, and keeps the invariant.
-/

namespace SdnController.Smartalloc

open Exec Memory HashChains

/-- The blocks of the C library are those of the allocations, and memory holds their bytes. -/
structure Owns (mem : Mem) (blocks : List Region) (M : List Allocation) : Prop where
  blocks : blocks.Perm (M.map Allocation.region)
  apart : M.Pairwise fun A B => A.region.Apart B.region
  fits : ∀ A ∈ M, 0 < A.base ∧ A.size < 2^63 ∧ A.base + A.size ≤ 2^64
  cells : ∀ A ∈ M, ∀ k, k < A.size → mem (A.base + k) = A.cells k

/-- The hash table has a track for each live allocation, and the counter is their size. -/
structure Tracks (s : Store) (L : Ledger) : Prop where
  entries : (entries s.trackHash).Perm (L.map Allocation.track)
  placed : Placed (fun t => smartallocHash t.data) s.trackHash
  allocated : s.allocated = UInt64.ofNat L.space
  inited : s.inited = false → L = []

/-- The ledger is tracked, and the allocations `K` are held without a track. -/
structure Inv (K : List Allocation) (s : Store) (L : Ledger) : Prop where
  owns : Owns s.mem s.blocks (K ++ L)
  tracks : Tracks s L

/-- An answer of `malloc` or `valloc` as it is documented. -/
def Answers (blocks : List Region) (answer : Option ℕ) (bytes : UInt64) : Prop :=
  ∀ base, answer = some base →
    0 < base ∧ (bytes + 2 * UInt64.ofNat margin).toNat < 2^63 ∧
      base + (bytes + 2 * UInt64.ofNat margin).toNat ≤ 2^64 ∧
      ∀ r ∈ blocks, r.Apart ⟨base, (bytes + 2 * UInt64.ofNat margin).toNat⟩

/-- The C library answers as documented during a request. -/
def Documented (s : Store) : Input → Prop
  | (.smartalloc bytes _ _, e) => Answers s.blocks e.malloc bytes
  | (.smartvalloc bytes _ _, e) => Answers s.blocks e.valloc bytes
  | (.smartrealloc _ newSize _ _ _, e) => Answers s.blocks e.malloc newSize
  | _ => True

/-! ## The allocations and their bytes -/

section Owns

variable {mem mem' : Mem} {blocks : List Region} {M M' : List Allocation} {A B : Allocation}

theorem margin_toNat : (UInt16.ofNat margin).toNat = margin := rfl

/-- The order of the allocations does not matter. -/
theorem Owns.perm (h : Owns mem blocks M) (hM : M.Perm M') : Owns mem blocks M' where
  blocks := h.blocks.trans (hM.map _)
  apart := (hM.pairwise_iff fun hab => Region.Apart.symm hab).mp h.apart
  fits := fun A hA => h.fits A (hM.mem_iff.mpr hA)
  cells := fun A hA => h.cells A (hM.mem_iff.mpr hA)

/-- The first allocation, against the others. -/
theorem Owns.apart_head (h : Owns mem blocks (A :: M)) (hB : B ∈ M) :
    A.region.Apart B.region := (List.pairwise_cons.mp h.apart).1 B hB

/-- A range inside an allocation is inside a block. -/
theorem Owns.covers (h : Owns mem blocks M) (hA : A ∈ M) {off n : ℕ} (hoff : A.base ≤ off)
    (hend : off + n ≤ A.base + A.size) : blocks.any (·.covers off n) = true := by
  rw [List.any_eq_true]
  exact ⟨A.region, h.blocks.mem_iff.mpr (List.mem_map_of_mem hA),
    Region.covers_iff.mpr ⟨hoff, hend⟩⟩

/-- An address is in a block exactly when it is in an allocation. -/
theorem Owns.covers_one (h : Owns mem blocks M) (address : ℕ) :
    blocks.any (·.covers address 1) = M.any fun A => decide (A.region.Contains address) := by
  rw [h.blocks.any_eq, List.any_map]
  rfl

/-- No block has room for so many bytes. -/
theorem Owns.not_covers (h : Owns mem blocks M) {off n : ℕ} (hn : 2^63 ≤ n) :
    ¬blocks.any (·.covers off n) = true := by
  rw [List.any_eq_true]
  rintro ⟨r, hr, hcovers⟩
  obtain ⟨A, hA, rfl⟩ := List.mem_map.mp (h.blocks.mem_iff.mp hr)
  have hcovers := Region.covers_iff.mp hcovers
  have hsize := (h.fits A hA).2.1
  simp only [Allocation.region] at hcovers
  omega

/-- The first allocation changes: memory has the new bytes in its block, and what it had
elsewhere. -/
theorem Owns.update (h : Owns mem blocks (A :: M)) (hregion : B.region = A.region)
    (hin : ∀ k, k < A.size → mem' (A.base + k) = B.cells k)
    (hout : ∀ i, ¬A.region.Contains i → mem' i = mem i) : Owns mem' blocks (B :: M) where
  blocks := by
    rw [List.map_cons, hregion]
    exact h.blocks
  apart := by
    rw [List.pairwise_cons, hregion]
    exact List.pairwise_cons.mp h.apart
  fits := by
    obtain ⟨hbase, hsize⟩ := Region.mk.injEq .. ▸ hregion
    rw [List.forall_mem_cons, hbase, hsize]
    exact List.forall_mem_cons.mp h.fits
  cells := by
    obtain ⟨hbase, hsize⟩ := Region.mk.injEq .. ▸ hregion
    rw [List.forall_mem_cons, hbase, hsize]
    refine ⟨hin, fun C hC k hk => ?_⟩
    rw [← h.cells C (List.mem_cons_of_mem A hC) k hk]
    exact (h.apart_head hC).unchanged hout hk

/-- A new block, with what is written in it. -/
theorem Owns.add (h : Owns mem blocks M)
    (hfits : 0 < A.base ∧ A.size < 2^63 ∧ A.base + A.size ≤ 2^64)
    (hapart : ∀ r ∈ blocks, r.Apart A.region)
    (hin : ∀ k, k < A.size → mem' (A.base + k) = A.cells k)
    (hout : ∀ i, ¬A.region.Contains i → mem' i = mem i) :
    Owns mem' (A.region :: blocks) (A :: M) where
  blocks := h.blocks.cons _
  apart := by
    refine List.pairwise_cons.mpr ⟨fun B hB => ?_, h.apart⟩
    exact (hapart B.region (h.blocks.mem_iff.mpr (List.mem_map_of_mem hB))).symm
  fits := List.forall_mem_cons.mpr ⟨hfits, h.fits⟩
  cells := by
    refine List.forall_mem_cons.mpr ⟨hin, fun B hB k hk => ?_⟩
    rw [← h.cells B hB k hk]
    have hB' := hapart B.region (h.blocks.mem_iff.mpr (List.mem_map_of_mem hB))
    exact hB'.symm.unchanged hout hk

/-- No two allocations have their first byte at the same address. -/
theorem Owns.base_eq (h : Owns mem blocks M) (hA : A ∈ M) (hB : B ∈ M) (hbase : A.base = B.base) :
    A = B := by
  by_contra hne
  have hsymm : Std.Symm fun A B : Allocation => A.region.Apart B.region :=
    ⟨fun _ _ => Region.Apart.symm⟩
  have hapart := h.apart.forall hA hB hne
  simp only [Region.Apart, Allocation.region, Allocation.size, margin] at hapart
  omega

/-- No two allocations have the same pointer. -/
theorem Owns.data_inj (h : Owns mem blocks M) (hA : A ∈ M) (hB : B ∈ M) (hdata : A.data = B.data) :
    A = B := by
  apply h.base_eq hA hB
  unfold Allocation.data at hdata
  omega

/-- The block of the first allocation is freed. -/
theorem Owns.release (h : Owns mem blocks (A :: M)) :
    ∃ r rest, unlink (fun r => decide (r.base = A.base)) blocks = some (r, rest) ∧
      Owns mem rest M := by
  cases hu : unlink (fun r => decide (r.base = A.base)) blocks with
  | none =>
    have hA : A.region ∈ blocks := h.blocks.mem_iff.mpr List.mem_cons_self
    exact absurd (decide_eq_true rfl) (unlink_eq_none_iff.mp hu A.region hA)
  | some r =>
    obtain ⟨hr, hperm⟩ := unlink_perm hu
    have hmem : r.1 ∈ (A :: M).map Allocation.region :=
      h.blocks.mem_iff.mp (hperm.mem_iff.mpr List.mem_cons_self)
    obtain ⟨B, hB, hBr⟩ := List.mem_map.mp hmem
    -- Only the first allocation has its block there.
    have hbase : B.base = A.base := by
      rw [← hBr] at hr
      exact of_decide_eq_true hr
    obtain rfl := h.base_eq hB List.mem_cons_self hbase
    refine ⟨r.1, r.2, rfl, ?_, (List.pairwise_cons.mp h.apart).2,
      (List.forall_mem_cons.mp h.fits).2, (List.forall_mem_cons.mp h.cells).2⟩
    rw [← hBr] at hperm
    exact (hperm.symm.trans h.blocks).cons_inv

end Owns

/-! ## The tracks -/

section Tracks

variable {s : Store} {L L' : Ledger} {A B : Allocation}

theorem space_cons : Ledger.space (A :: L) = A.space.toNat + Ledger.space L := by
  simp [Ledger.space]

theorem space_perm (h : L.Perm L') : Ledger.space L = Ledger.space L' := (h.map _).sum_eq

/-- The order of the ledger does not matter. -/
theorem Tracks.perm (h : Tracks s L) (hL : L.Perm L') : Tracks s L' where
  entries := h.entries.trans (hL.map _)
  placed := h.placed
  allocated := by rw [h.allocated, space_perm hL]
  inited := fun hi => by
    rw [h.inited hi] at hL
    exact hL.nil_eq.symm

/-- The tracks do not depend on memory or on the blocks. -/
theorem Tracks.congr (h : Tracks s L) (mem : Mem) (blocks : List Region) :
    Tracks { s with mem := mem, blocks := blocks } L :=
  ⟨h.entries, h.placed, h.allocated, h.inited⟩

/-- The tracks of the ledger, with one of its allocations in a changed form. -/
theorem Tracks.replace (h : Tracks s (A :: L)) (htrack : B.track = A.track) :
    Tracks s (B :: L) := by
  have hspace : B.space = A.space := congrArg Track.space htrack
  refine ⟨?_, h.placed, ?_, fun hi => absurd (h.inited hi) (by simp)⟩
  · rw [List.map_cons, htrack]
    exact h.entries
  · rw [space_cons, hspace, ← space_cons]
    exact h.allocated

/-- The table to which a track is added: it is cleared the first time. -/
def Store.cleared (s : Store) : Table hashSize Track :=
  if s.inited = false then fun _ => [] else s.trackHash

/-- The table that is cleared was empty. -/
theorem Tracks.cleared (h : Tracks s L) :
    (HashChains.entries s.cleared).Perm (L.map Allocation.track) ∧
      Placed (fun t => smartallocHash t.data) s.cleared := by
  unfold Store.cleared
  split_ifs with hi
  · rw [h.inited hi, entries_empty]
    exact ⟨.refl _, placed_empty⟩
  · exact ⟨h.entries, h.placed⟩

/-- One more track. -/
theorem Tracks.add (h : Tracks s L) (A : Allocation) :
    Tracks { s with
      inited := true
      allocated := s.allocated + A.space
      trackHash := s.cleared.add (smartallocHash A.data) A.track } (A :: L) := by
  obtain ⟨hsame, hplaced⟩ := h.cleared
  refine ⟨(entries_add _ _ _).trans (hsame.cons _), hplaced.add A.track, ?_, by simp⟩
  show s.allocated + A.space = UInt64.ofNat (Ledger.space (A :: L))
  rw [space_cons, UInt64.ofNat_add, UInt64.ofNat_toNat, h.allocated, UInt64.add_comm]

end Tracks

end SdnController.Smartalloc
