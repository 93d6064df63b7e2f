import SdnController.Lib.Memory
import Mathlib.Order.Interval.Finset.Nat
import Mathlib.Algebra.BigOperators.Group.List.Basic

/-!
# Regions of an address space

A region is a stretch of addresses (`Region`). Regions of which no two overlap (`Region.Apart`) have
together no more bytes than there are addresses (`sum_size_le`), and what is written in one of them
does not change what another one holds (`Region.Apart.unchanged`).
-/

namespace Memory

/-- Sets `n` bytes from offset `off` on to `c`. -/
def fillAt (m : Mem) (off : ℕ) (c : UInt8) (n : ℕ) : Mem :=
  fun i => if off ≤ i ∧ i < off + n then c else m i

/-- Copies `n` bytes within a memory, one at a time, from the first to the last. -/
def copyBytes : ℕ → ℕ → ℕ → Mem → Mem
  | 0, _, _, m => m
  | n + 1, dst, src, m => copyBytes n (dst + 1) (src + 1) (Function.update m dst (m src))

/-- Outside the destination nothing changes. -/
theorem copyBytes_of_not_mem {n dst src i : ℕ} (m : Mem) (h : i < dst ∨ dst + n ≤ i) :
    copyBytes n dst src m i = m i := by
  induction n generalizing dst src m with
  | zero => rfl
  | succ n ih =>
    unfold copyBytes
    rw [ih _ (by omega), Function.update_of_ne (by omega)]

/-- The destination gets what the source had, when the two do not overlap. -/
theorem copyBytes_of_lt {n dst src k : ℕ} (m : Mem) (h : src + n ≤ dst ∨ dst + n ≤ src)
    (hk : k < n) : copyBytes n dst src m (dst + k) = m (src + k) := by
  induction n generalizing dst src k m with
  | zero => omega
  | succ n ih =>
    unfold copyBytes
    cases k with
    | zero =>
      -- The byte that is copied now is not written again.
      show copyBytes n (dst + 1) (src + 1) (Function.update m dst (m src)) dst = m src
      rw [copyBytes_of_not_mem _ (by omega), Function.update_self]
    | succ k =>
      rw [show dst + (k + 1) = dst + 1 + k by omega, ih _ (by omega) (by omega),
        Function.update_of_ne (by omega), show src + 1 + k = src + (k + 1) by omega]

/-- A stretch of addresses. -/
structure Region where
  base : ℕ
  size : ℕ
  deriving DecidableEq, Repr

namespace Region

/-- The address is in the region. -/
def Contains (r : Region) (i : ℕ) : Prop := r.base ≤ i ∧ i < r.base + r.size

instance (r : Region) (i : ℕ) : Decidable (r.Contains i) := by unfold Contains; infer_instance

/-- The `n` addresses from `off` on are in the region. -/
def covers (r : Region) (off n : ℕ) : Bool := decide (r.base ≤ off ∧ off + n ≤ r.base + r.size)

/-- One region ends where the other begins, or before. -/
def Apart (r q : Region) : Prop := r.base + r.size ≤ q.base ∨ q.base + q.size ≤ r.base

instance (r q : Region) : Decidable (r.Apart q) := by unfold Apart; infer_instance

variable {r q : Region} {l : List Region}

@[simp]
theorem covers_iff {off n : ℕ} :
    r.covers off n = true ↔ r.base ≤ off ∧ off + n ≤ r.base + r.size := by
  simp [covers]

theorem Apart.symm (h : r.Apart q) : q.Apart r := Or.symm h

/-- No address is in two regions that are apart. -/
theorem Apart.not_contains (h : r.Apart q) {i : ℕ} (hr : r.Contains i) : ¬q.Contains i := by
  unfold Apart Contains at *
  omega

/-- A memory that changes inside a region only holds the same in a region apart from it. -/
theorem Apart.unchanged (h : r.Apart q) {m m' : Mem} (hm : ∀ i, ¬r.Contains i → m' i = m i) {k : ℕ}
    (hk : k < q.size) : m' (q.base + k) = m (q.base + k) := by
  refine hm _ (h.symm.not_contains ?_)
  unfold Contains
  omega

/-- Regions of which no two overlap have together no more bytes than there are addresses. -/
theorem sum_size_le {n : ℕ} (h : l.Pairwise Apart) (hn : ∀ r ∈ l, r.base + r.size ≤ n) :
    (l.map size).sum ≤ n := by
  -- The addresses of the regions, as a set of numbers below `n`.
  suffices ∃ s : Finset ℕ, s ⊆ Finset.range n ∧ (l.map size).sum = s.card ∧
      ∀ i ∈ s, ∃ r ∈ l, r.Contains i by
    obtain ⟨s, hs, hcard, -⟩ := this
    rw [hcard, ← Finset.card_range n]
    exact Finset.card_le_card hs
  induction l with
  | nil => exact ⟨∅, by simp, rfl, by simp⟩
  | cons r l ih =>
    obtain ⟨hr, hl⟩ := List.pairwise_cons.mp h
    obtain ⟨s, hs, hcard, hin⟩ := ih hl fun q hq => hn q (List.mem_cons_of_mem r hq)
    have hlast := hn r List.mem_cons_self
    have hdisj : Disjoint (Finset.Ico r.base (r.base + r.size)) s := by
      rw [Finset.disjoint_left]
      intro i hi his
      obtain ⟨q, hq, hqi⟩ := hin i his
      exact (hr q hq).not_contains (Finset.mem_Ico.mp hi) hqi
    refine ⟨Finset.Ico r.base (r.base + r.size) ∪ s, ?_, ?_, ?_⟩
    · refine Finset.union_subset (fun i hi => ?_) hs
      rw [Finset.mem_range]
      exact (Finset.mem_Ico.mp hi).2.trans_le hlast
    · rw [Finset.card_union_of_disjoint hdisj, Nat.card_Ico, List.map_cons, List.sum_cons, hcard]
      omega
    · intro i hi
      rcases Finset.mem_union.mp hi with hi | hi
      · exact ⟨r, List.mem_cons_self, Finset.mem_Ico.mp hi⟩
      · obtain ⟨q, hq, hqi⟩ := hin i hi
        exact ⟨q, List.mem_cons_of_mem r hq, hqi⟩

end Region

end Memory
