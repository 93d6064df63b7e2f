import Mathlib.Data.Finset.Sort

/-!
# Scans of a set

A loop that counts up from 0 and does its work at the members of a set meets them in increasing
order, each of them once. `scan` is what it has met when the counter is at a number: it grows as the
counter does (`scan_succ`), it is a beginning of the members in increasing order
(`scan_prefix_sort`), and all of them once the counter is past the largest (`scan_eq_sort`).

Whoever takes the least number that is left again and again meets the members in the same order
(`concat_start`).
-/

namespace Scans

/-- The members of the set that a counter has passed when it is at `n`, in the order of its way. -/
def scan (s : Finset ℕ) (n : ℕ) : List ℕ := (List.range n).filter (· ∈ s)

variable {s : Finset ℕ} {n k : ℕ}

@[simp]
theorem scan_zero : scan s 0 = [] := rfl

theorem scan_succ : scan s (n + 1) = scan s n ++ if n ∈ s then [n] else [] := by
  unfold scan
  rw [List.range_succ, List.filter_append]
  split_ifs with hn <;> simp [hn]

@[simp]
theorem mem_scan : k ∈ scan s n ↔ k < n ∧ k ∈ s := by
  unfold scan
  simp

/-- A counter that has passed every member has met them all, in increasing order. -/
theorem scan_eq_sort (h : ∀ k ∈ s, k < n) : scan s n = s.sort := by
  have hset : (scan s n).toFinset = s := by
    ext k
    rw [List.mem_toFinset, mem_scan]
    exact ⟨And.right, fun hk => ⟨h k hk, hk⟩⟩
  have hnodup : (scan s n).Nodup := List.nodup_range.filter _
  have hsorted : (scan s n).Pairwise (· ≤ ·) :=
    (List.pairwise_lt_range.imp (fun hlt => hlt.le)).filter _
  have hsort : (scan s n).toFinset.sort = scan s n := (List.toFinset_sort _ hnodup).mpr hsorted
  rw [hset] at hsort
  exact hsort.symm

/-- What a counter has met is a beginning of the members in increasing order. -/
theorem scan_prefix_sort : scan s n <+: s.sort := by
  have hall : ∀ k ∈ s, k < max n (s.sup id + 1) := by
    intro k hk
    exact lt_max_of_lt_right (Nat.lt_succ_of_le (Finset.le_sup (f := id) hk))
  have hrange : List.range n <+: List.range (max n (s.sup id + 1)) := by
    have htake := List.take_prefix n (List.range (max n (s.sup id + 1)))
    rwa [List.take_range, min_eq_left (le_max_left _ _)] at htake
  rw [← scan_eq_sort hall]
  exact hrange.filter _

/-- Of a list in increasing order, the element after a beginning is the least that this lacks. -/
theorem concat_start {l m : List ℕ} (hm : m.Pairwise (· < ·)) (hl : l <+: m) (hn : n ∈ m)
    (hnl : n ∉ l) (hleast : ∀ k ∈ m, k ∉ l → n ≤ k) : l ++ [n] <+: m := by
  obtain ⟨r, rfl⟩ := hl
  obtain ⟨-, hr, hlr⟩ := List.pairwise_append.mp hm
  have hnr : n ∈ r := (List.mem_append.mp hn).resolve_left hnl
  cases r with
  | nil => exact absurd hnr List.not_mem_nil
  | cons a r =>
    have hal : a ∉ l := fun hmem => lt_irrefl a (hlr a hmem a List.mem_cons_self)
    have hle : n ≤ a := hleast a (by simp) hal
    obtain rfl | hnr := List.mem_cons.mp hnr
    · exact ⟨r, by simp⟩
    · exact absurd ((List.pairwise_cons.mp hr).1 n hnr) (not_lt.mpr hle)

end Scans
