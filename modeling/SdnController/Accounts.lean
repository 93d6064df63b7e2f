import SdnController.Requests
import Mathlib.Tactic.Ring

/-!
# What the allocator accounts for

What the invariant of the allocator says of a state, in terms of the ledger (`Accounted`): each live
allocation has one track, in the chain of its pointer, memory holds its bytes, and `report_space` is
the sum of the sizes. The sum does not wrap around, since the blocks do not overlap and have a
margin each.
-/

namespace SdnController.Smartalloc

open Exec Memory HashChains

/-- The store accounts for the live allocations of the ledger. -/
structure Accounted (s : Store) (L : Ledger) : Prop where
  /-- There is one track for each allocation, and no other. -/
  tracks : (entries s.trackHash).Perm (L.map Allocation.track)
  /-- Each is in the chain that is searched for its pointer. -/
  placed : ∀ b, ∀ t ∈ s.trackHash b, smartallocHash t.data = b
  /-- No two allocations have the same pointer, or share a byte. -/
  apart : (L.map Allocation.data).Nodup ∧ L.Pairwise fun A B => A.region.Apart B.region
  /-- Memory holds the bytes of each, margins included. -/
  cells : ∀ A ∈ L, ∀ k, k < A.size → s.mem (A.base + k) = A.cells k
  /-- The counter is the sum of the sizes. -/
  reported : (reportSpace s).toNat = L.space
  /-- What is printed at the end of the process. -/
  completion : completionFunction s =
    if L.space = 0 then [] else [.leftUnfreed (UInt64.ofNat L.space)]

variable {s : Store} {L : Ledger}

/-- The sizes of the blocks, which have two margins each. -/
theorem sum_sizes (L : Ledger) :
    ((L.map Allocation.region).map Region.size).sum = L.space + 2 * margin * L.length := by
  induction L with
  | nil => rfl
  | cons A L ih =>
    rw [List.map_cons, List.map_cons, List.sum_cons, ih, space_cons, List.length_cons]
    simp only [Allocation.region, Allocation.size]
    ring

/-- The live allocations fit into the address space, with their margins. -/
theorem space_le {mem : Mem} {blocks : List Region} (h : Owns mem blocks L) :
    L.space + 2 * margin * L.length ≤ 2^64 := by
  rw [← sum_sizes]
  apply Region.sum_size_le (List.pairwise_map.mpr h.apart)
  exact List.forall_mem_map.mpr fun A hA => (h.fits A hA).2.2

/-- The counter does not wrap around. -/
theorem Inv.reported (h : Inv [] s L) : (reportSpace s).toNat = L.space := by
  have hle := space_le h.owns
  have hlt : L.space < 2^64 := by
    cases L with
    | nil => exact Nat.two_pow_pos 64
    | cons A L =>
      simp only [List.nil_append, List.length_cons, margin] at hle
      omega
  calc (reportSpace s).toNat = (UInt64.ofNat L.space).toNat := congrArg _ h.tracks.allocated
    _ = L.space := UInt64.toNat_ofNat_of_lt' hlt

/-- A state of the allocator accounts for the ledger. -/
theorem Inv.accounted (h : Inv [] s L) : Accounted s L where
  tracks := h.tracks.entries
  placed := h.tracks.placed
  apart := by
    refine ⟨?_, h.owns.apart⟩
    refine List.pairwise_map.mpr (h.owns.apart.imp fun hapart hdata => ?_)
    simp only [Region.Apart, Allocation.region, Allocation.size, Allocation.data, margin] at *
    omega
  cells := h.owns.cells
  reported := h.reported
  completion := by
    have hzero : s.allocated = 0 ↔ L.space = 0 := by
      rw [← h.reported]
      exact UInt64.toNat_inj.symm
    unfold completionFunction
    by_cases hspace : L.space = 0
    · rw [if_neg (fun hprint => hprint.2 (hzero.mpr hspace)), if_pos hspace]
    · -- Something is allocated, so that a track was made.
      have hinited : s.inited = true := by
        by_contra hnot
        rw [h.tracks.inited (Bool.eq_false_of_not_eq_true hnot)] at hspace
        exact hspace rfl
      rw [if_pos ⟨hinited, fun h0 => hspace (hzero.mp h0)⟩, if_neg hspace, h.tracks.allocated]

/-- Every run of the allocator ends as the run on the ledger does, prints and returns the same, and
leaves a store that accounts for the live allocations. -/
theorem run_accounted (mem : Mem) (is : List Input)
    (hdoc : Always Documented step is (initial mem)) :
    (run step is (initial mem)).Matches (fun _ _ => Accounted) (run Ledger.step is []) :=
  (run_serve_matches hdoc).imp fun _ _ _ _ => Inv.accounted

/-- A client's first block. -/
def firstBlock : Input := (.smartalloc 3 ⟨"client.c", 1⟩ 0x55, ⟨some 96, none, true⟩)

/-- A second block, and a write behind the first one. -/
def scribble : List Input :=
  [(.smartalloc 5 ⟨"client.c", 2⟩ 0, ⟨some 200, none, true⟩), (.write 103 7, ⟨none, none, false⟩)]

/-- These requests are answered as documented. -/
theorem scribble_documented :
    Always Documented step ([] ++ firstBlock :: scribble) (initial fun _ => 0) := by
  refine always_cons ?_ (always_cons ?_ (always_cons trivial always_nil))
  · intro base hbase
    obtain rfl := Option.some.inj hbase
    decide
  · intro base hbase
    obtain rfl := Option.some.inj hbase
    decide

theorem run_accounted_scribble :
    (run step ([] ++ firstBlock :: scribble) (initial fun _ => 0)).Matches (fun _ _ => Accounted)
      (run Ledger.step ([] ++ firstBlock :: scribble) []) :=
  run_accounted (fun _ => 0) ([] ++ firstBlock :: scribble) scribble_documented

end SdnController.Smartalloc
