import Mathlib.Data.List.FinRange
import Mathlib.Data.List.Perm.Basic
import Mathlib.Logic.Function.Basic

/-!
# Chained hash tables

A table of chains (`Table`): an entry goes to the front of the chain that its hash selects, and the
first entry of a chain that meets a test is unlinked from it (`unlink`). While every entry is in its
own chain (`Placed`), a test that only entries of one hash meet finds an entry of the table exactly
when there is one (`Placed.unlink_eq_none_iff`), and the entries, whatever their chains, are those
there were, with the one that was added or without the one that was taken out
(`entries_add`, `entries_unlink`).
-/

namespace HashChains

variable {ν : Type} {n : ℕ}

/-- A table of `n` chains. -/
abbrev Table (n : ℕ) (ν : Type) := Fin n → List ν

/-- Adds an entry at the front of a chain. -/
def Table.add (t : Table n ν) (b : Fin n) (v : ν) : Table n ν := Function.update t b (v :: t b)

/-- The first entry of a chain that meets a test, and the chain without it. -/
def unlink (p : ν → Bool) : List ν → Option (ν × List ν)
  | [] => none
  | v :: l => if p v then some (v, l) else (unlink p l).map fun r => (r.1, v :: r.2)

/-- All entries of a table, chain by chain. -/
def entries (t : Table n ν) : List ν := (List.finRange n).flatMap t

/-- Every entry is in the chain that its hash selects. -/
def Placed (hash : ν → Fin n) (t : Table n ν) : Prop := ∀ b, ∀ v ∈ t b, hash v = b

variable {hash : ν → Fin n} {p : ν → Bool} {t : Table n ν} {b : Fin n} {v : ν} {l : List ν}

@[simp]
theorem mem_entries : v ∈ entries t ↔ ∃ b, v ∈ t b := by simp [entries]

theorem entries_empty : entries (fun _ => [] : Table n ν) = [] := by simp [entries]

/-- A chain that loses an entry. -/
theorem entries_update (h : (t b).Perm (v :: l)) :
    (entries t).Perm (v :: entries (Function.update t b l)) := by
  have hb : (List.finRange n).Perm (b :: (List.finRange n).erase b) :=
    List.perm_cons_erase (List.mem_finRange b)
  -- The chains apart from this one are the same in both tables.
  have hrest : ((List.finRange n).erase b).flatMap (Function.update t b l) =
      ((List.finRange n).erase b).flatMap t := by
    refine List.flatMap_congr fun c hc => ?_
    have hcb : c ≠ b := ((List.nodup_finRange n).mem_erase_iff.mp hc).1
    rw [Function.update_of_ne hcb]
  have hleft : (entries t).Perm (v :: l ++ ((List.finRange n).erase b).flatMap t) :=
    (hb.flatMap_right t).trans (by simpa using h.append_right _)
  have hright : (entries (Function.update t b l)).Perm
      (l ++ ((List.finRange n).erase b).flatMap t) := by
    refine (hb.flatMap_right _).trans ?_
    rw [List.flatMap_cons, Function.update_self, hrest]
  exact hleft.trans (hright.symm.cons v)

/-- What is in a table after an entry is added. -/
theorem entries_add (t : Table n ν) (b : Fin n) (v : ν) :
    (entries (t.add b v)).Perm (v :: entries t) := by
  have h : ((t.add b v) b).Perm (v :: t b) := by
    unfold Table.add
    rw [Function.update_self]
  have hback : Function.update (t.add b v) b (t b) = t := by
    unfold Table.add
    rw [Function.update_idem, Function.update_eq_self]
  have hupdate := entries_update h
  rwa [hback] at hupdate

/-- What an entry that was unlinked is, and what is left. -/
theorem unlink_perm {r : ν × List ν} (h : unlink p l = some r) :
    p r.1 = true ∧ l.Perm (r.1 :: r.2) := by
  induction l generalizing r with
  | nil => simp [unlink] at h
  | cons w l ih =>
    unfold unlink at h
    split_ifs at h with hw
    · obtain rfl := Option.some.inj h
      exact ⟨hw, .refl _⟩
    · obtain ⟨r', hr', rfl⟩ := Option.map_eq_some_iff.mp h
      obtain ⟨hp, hperm⟩ := ih hr'
      exact ⟨hp, (hperm.cons w).trans (.swap _ _ _)⟩

/-- Nothing is unlinked exactly when no entry of the chain meets the test. -/
theorem unlink_eq_none_iff : unlink p l = none ↔ ∀ v ∈ l, ¬p v = true := by
  induction l with
  | nil => simp [unlink]
  | cons w l ih =>
    unfold unlink
    split_ifs with hw
    · simp [hw]
    · rw [Option.map_eq_none_iff, ih, List.forall_mem_cons, and_iff_right hw]

/-- What is in a table after an entry is unlinked. -/
theorem entries_unlink {r : ν × List ν} (h : unlink p (t b) = some r) :
    p r.1 = true ∧ (entries t).Perm (r.1 :: entries (Function.update t b r.2)) :=
  ⟨(unlink_perm h).1, entries_update (unlink_perm h).2⟩

theorem placed_empty : Placed hash (fun _ => []) := by simp [Placed]

theorem Placed.add (h : Placed hash t) (v : ν) : Placed hash (t.add (hash v) v) := by
  intro c w hw
  unfold Table.add at hw
  rcases eq_or_ne c (hash v) with rfl | hc
  · rw [Function.update_self] at hw
    rcases List.mem_cons.mp hw with rfl | hw
    · rfl
    · exact h _ _ hw
  · rw [Function.update_of_ne hc] at hw
    exact h _ _ hw

theorem Placed.unlink (h : Placed hash t) {r : ν × List ν} (hr : unlink p (t b) = some r) :
    Placed hash (Function.update t b r.2) := by
  intro c w hw
  rcases eq_or_ne c b with rfl | hc
  · rw [Function.update_self] at hw
    exact h _ _ ((unlink_perm hr).2.symm.subset (List.mem_cons_of_mem _ hw))
  · rw [Function.update_of_ne hc] at hw
    exact h _ _ hw

/-- A test that only entries of one hash meet finds nothing in their chain exactly when no entry of
the table meets it. -/
theorem Placed.unlink_eq_none_iff (h : Placed hash t) (hp : ∀ v, p v = true → hash v = b) :
    HashChains.unlink p (t b) = none ↔ ∀ v ∈ entries t, ¬p v = true := by
  rw [HashChains.unlink_eq_none_iff]
  constructor
  · intro hb v hv hpv
    obtain ⟨c, hc⟩ := mem_entries.mp hv
    have hcb : c = b := (h c v hc).symm.trans (hp v hpv)
    exact hb v (hcb ▸ hc) hpv
  · intro ht v hv
    exact ht v (mem_entries.mpr ⟨b, hv⟩)

end HashChains
