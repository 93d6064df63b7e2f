import Mathlib.Data.List.Nodup
import Mathlib.Data.List.Basic

/-!
# Lists of keyed lists

An outer list whose nodes carry a key and an inner list. A search walks the outer list to the first
node with the key, and then only that node's inner list (`search`); an insertion puts a value at the
head of that inner list, and appends a node for a key that has none (`insert`); a removal takes the
first value that a search finds out of that inner list (`remove`). All see the structure through one
projection, the inner list of a key (`innerList`): `search_eq`, `innerList_insert_self`,
`innerList_remove_self` and their companions for other keys are the whole interface, and
`nodup_insert` keeps the keys distinct, under which every outer node is the node of its key
(`innerList_of_mem`).

`addAbsent` is the insertion into one inner list of a value that no element is the same as.
-/

namespace KeyedLists

/-- A node of the outer list: its key, and its inner list. -/
structure Outer (κ ν : Type) where
  /-- The key of the node. -/
  key : κ
  /-- The inner list. -/
  head : List ν
  deriving DecidableEq

section Keyed

variable {κ ν : Type} [DecidableEq κ]

/-- The inner list of the first node with the key, empty when there is none. -/
def innerList (k : κ) : List (Outer κ ν) → List ν
  | [] => []
  | n :: l => if n.key = k then n.head else innerList k l

/-- The first value that satisfies `p` in the inner list of the first node with the key. -/
def search (k : κ) (p : ν → Bool) : List (Outer κ ν) → Option ν
  | [] => none
  | n :: l => if n.key = k then n.head.find? p else search k p l

/-- Puts a value at the head of the inner list of the first node with the key, after appending a
node for a key that has none. -/
def insert (k : κ) (v : ν) : List (Outer κ ν) → List (Outer κ ν)
  | [] => [⟨k, [v]⟩]
  | n :: l => if n.key = k then ⟨n.key, v :: n.head⟩ :: l else n :: insert k v l

/-- Takes the first value that satisfies `p` out of the inner list of the first node with the key:
the value, if there is one, and the lists without it. -/
def remove (k : κ) (p : ν → Bool) : List (Outer κ ν) → Option ν × List (Outer κ ν)
  | [] => (none, [])
  | n :: l =>
    if n.key = k then (n.head.find? p, ⟨n.key, n.head.eraseP p⟩ :: l)
    else ((remove k p l).1, n :: (remove k p l).2)

/-- A search looks only at the inner list of its key. -/
theorem search_eq (k : κ) (p : ν → Bool) (l : List (Outer κ ν)) :
    search k p l = (innerList k l).find? p := by
  induction l with
  | nil => rfl
  | cons n l ih =>
    simp only [search, innerList]
    split_ifs
    · rfl
    · exact ih

/-- The inner list that an insertion changes. -/
theorem innerList_insert_self (k : κ) (v : ν) (l : List (Outer κ ν)) :
    innerList k (insert k v l) = v :: innerList k l := by
  induction l with
  | nil => simp [insert, innerList]
  | cons n l ih =>
    by_cases h : n.key = k
    · simp [insert, innerList, h]
    · simp [insert, innerList, h, ih]

/-- An insertion changes no other key's inner list. -/
theorem innerList_insert_ne {j k : κ} (h : j ≠ k) (v : ν) (l : List (Outer κ ν)) :
    innerList j (insert k v l) = innerList j l := by
  induction l with
  | nil => simp [insert, innerList, h.symm]
  | cons n l ih =>
    by_cases hn : n.key = k
    · have hj : n.key ≠ j := by rw [hn]; exact h.symm
      simp [insert, innerList, hn, h.symm]
    · simp [insert, innerList, hn, ih]

/-- The keys after an insertion: the same, with a new key at the end. -/
theorem keys_insert (k : κ) (v : ν) (l : List (Outer κ ν)) :
    (insert k v l).map Outer.key =
      if k ∈ l.map Outer.key then l.map Outer.key else l.map Outer.key ++ [k] := by
  induction l with
  | nil => simp [insert]
  | cons n l ih =>
    by_cases hn : n.key = k
    · simp [insert, hn]
    · have hk : k ≠ n.key := Ne.symm hn
      simp only [insert, if_neg hn, List.map_cons, ih, List.mem_cons, hk, false_or]
      split_ifs <;> simp

/-- An insertion keeps the keys distinct. -/
theorem nodup_insert {k : κ} (v : ν) {l : List (Outer κ ν)} (h : (l.map Outer.key).Nodup) :
    ((insert k v l).map Outer.key).Nodup := by
  rw [keys_insert]
  split_ifs with hk
  · exact h
  · -- A new key comes after all others, and is none of them.
    rw [List.nodup_append]
    refine ⟨h, by simp, ?_⟩
    rintro a ha b hb rfl
    rw [List.mem_singleton] at hb
    exact hk (hb ▸ ha)

/-- When the keys are distinct, every node is the node of its key. -/
theorem innerList_of_mem {l : List (Outer κ ν)} (h : (l.map Outer.key).Nodup) {n : Outer κ ν}
    (hn : n ∈ l) : innerList n.key l = n.head := by
  induction l with
  | nil => simp at hn
  | cons m l ih =>
    rw [List.map_cons, List.nodup_cons] at h
    rcases List.mem_cons.mp hn with rfl | hn
    · simp [innerList]
    · -- A node further on has another key than the first.
      have hne : m.key ≠ n.key := by
        intro e
        exact h.1 (e ▸ List.mem_map_of_mem hn)
      simp [innerList, hne, ih h.2 hn]

/-- An insertion leaves the nodes of all other keys, in their order. -/
theorem filter_insert (k : κ) (v : ν) (l : List (Outer κ ν)) :
    (insert k v l).filter (·.key ≠ k) = l.filter (·.key ≠ k) := by
  induction l with
  | nil => simp [insert]
  | cons n l ih =>
    by_cases h : n.key = k
    · simp [insert, h]
    · simp only [insert, if_neg h, List.filter_cons, ih]

/-- An insertion never leaves the outer list empty. -/
theorem insert_ne_nil (k : κ) (v : ν) (l : List (Outer κ ν)) : insert k v l ≠ [] := by
  cases l with
  | nil => simp [insert]
  | cons n l =>
    simp only [insert]
    split_ifs <;> simp

/-- A removal returns what a search finds. -/
theorem remove_fst (k : κ) (p : ν → Bool) (l : List (Outer κ ν)) :
    (remove k p l).1 = search k p l := by
  induction l with
  | nil => rfl
  | cons n l ih =>
    simp only [remove, search]
    split_ifs
    · rfl
    · exact ih

/-- A removal that finds nothing changes nothing. -/
theorem remove_of_not_found {k : κ} {p : ν → Bool} {l : List (Outer κ ν)}
    (h : search k p l = none) : remove k p l = (none, l) := by
  induction l with
  | nil => rfl
  | cons n l ih =>
    unfold search at h
    unfold remove
    split_ifs at h ⊢ with hn
    · rw [h, List.eraseP_of_forall_not fun v hv => List.find?_eq_none.mp h v hv]
    · rw [ih h]

/-- Nothing that satisfies `p` is left of a list exactly when there was at most one such value. -/
theorem forall_mem_eraseP {p : ν → Bool} (l : List ν) :
    (∀ v ∈ l.eraseP p, ¬p v = true) ↔ l.countP p ≤ 1 := by
  induction l with
  | nil => simp
  | cons v l ih =>
    by_cases hv : p v = true
    · rw [List.eraseP_cons_of_pos hv, List.countP_cons_of_pos hv, ← List.countP_eq_zero]
      omega
    · rw [List.eraseP_cons_of_neg hv, List.countP_cons_of_neg hv, List.forall_mem_cons, ih]
      exact and_iff_right hv

/-- A removal leaves the values that do not satisfy `p`, in their order. -/
theorem filter_not_eraseP {p : ν → Bool} (l : List ν) :
    (l.eraseP p).filter (!p ·) = l.filter (!p ·) := by
  induction l with
  | nil => rfl
  | cons v l ih =>
    by_cases hv : p v = true
    · rw [List.eraseP_cons_of_pos hv, List.filter_cons_of_neg (by simp [hv])]
    · rw [List.eraseP_cons_of_neg hv, List.filter_cons, List.filter_cons, ih]

/-- The inner list that a removal changes. -/
theorem innerList_remove_self (k : κ) (p : ν → Bool) (l : List (Outer κ ν)) :
    innerList k (remove k p l).2 = (innerList k l).eraseP p := by
  induction l with
  | nil => rfl
  | cons n l ih =>
    by_cases h : n.key = k
    · simp [remove, innerList, h]
    · simp [remove, innerList, h, ih]

/-- A removal changes no other key's inner list. -/
theorem innerList_remove_ne {j k : κ} (h : j ≠ k) (p : ν → Bool) (l : List (Outer κ ν)) :
    innerList j (remove k p l).2 = innerList j l := by
  induction l with
  | nil => rfl
  | cons n l ih =>
    by_cases hn : n.key = k
    · simp [remove, innerList, hn, h.symm]
    · simp [remove, innerList, hn, ih]

/-- A removal leaves every outer node. -/
theorem remove_ne_nil {k : κ} {p : ν → Bool} {l : List (Outer κ ν)} (h : l ≠ []) :
    (remove k p l).2 ≠ [] := by
  cases l with
  | nil => exact absurd rfl h
  | cons n l =>
    unfold remove
    split_ifs <;> simp

/-- An insertion at the first node with the key. -/
theorem insert_append {k : κ} (v : ν) {l₁ l₂ : List (Outer κ ν)} {n : Outer κ ν}
    (h₁ : ∀ m ∈ l₁, m.key ≠ k) (hn : n.key = k) :
    insert k v (l₁ ++ n :: l₂) = l₁ ++ ⟨n.key, v :: n.head⟩ :: l₂ := by
  induction l₁ with
  | nil => simp [insert, hn]
  | cons m l₁ ih =>
    rw [List.forall_mem_cons] at h₁
    simp only [List.cons_append, insert, if_neg h₁.1, ih h₁.2]

/-- An insertion for a key without a node. -/
theorem insert_of_absent {k : κ} (v : ν) {l : List (Outer κ ν)} (h : ∀ m ∈ l, m.key ≠ k) :
    insert k v l = l ++ [⟨k, [v]⟩] := by
  induction l with
  | nil => rfl
  | cons m l ih =>
    rw [List.forall_mem_cons] at h
    simp only [List.cons_append, insert, if_neg h.1, ih h.2]

/-- A removal at the first node with the key. -/
theorem remove_append {k : κ} {p : ν → Bool} {l₁ l₂ : List (Outer κ ν)} {n : Outer κ ν}
    (h₁ : ∀ m ∈ l₁, m.key ≠ k) (hn : n.key = k) :
    remove k p (l₁ ++ n :: l₂) = (n.head.find? p, l₁ ++ ⟨n.key, n.head.eraseP p⟩ :: l₂) := by
  induction l₁ with
  | nil => simp [remove, hn]
  | cons m l₁ ih =>
    rw [List.forall_mem_cons] at h₁
    simp only [List.cons_append, remove, if_neg h₁.1, ih h₁.2]

section Map

variable {ν' : Type}

/-- A node with other values. -/
def Outer.map (f : ν → ν') (n : Outer κ ν) : Outer κ ν' := ⟨n.key, n.head.map f⟩

/-- A search among other values. -/
theorem search_map (k : κ) (p : ν' → Bool) (f : ν → ν') (l : List (Outer κ ν)) :
    search k p (l.map (Outer.map f)) = (search k (p ∘ f) l).map f := by
  induction l with
  | nil => rfl
  | cons n l ih =>
    simp only [List.map_cons, search, Outer.map, List.find?_map]
    split_ifs
    · rfl
    · exact ih

/-- An insertion among other values. -/
theorem insert_map (k : κ) (v : ν) (f : ν → ν') (l : List (Outer κ ν)) :
    insert k (f v) (l.map (Outer.map f)) = (insert k v l).map (Outer.map f) := by
  induction l with
  | nil => rfl
  | cons n l ih =>
    simp only [List.map_cons, insert, Outer.map] at ih ⊢
    split_ifs
    · rfl
    · exact congrArg _ ih

/-- A removal among other values. -/
theorem remove_map (k : κ) (p : ν' → Bool) (f : ν → ν') (l : List (Outer κ ν)) :
    remove k p (l.map (Outer.map f)) =
      ((remove k (p ∘ f) l).1.map f, (remove k (p ∘ f) l).2.map (Outer.map f)) := by
  induction l with
  | nil => rfl
  | cons n l ih =>
    simp only [List.map_cons, remove, Outer.map, List.find?_map, List.eraseP_map] at ih ⊢
    split_ifs
    · rfl
    · rw [ih]
      rfl

end Map

end Keyed

section AddAbsent

variable {ν : Type}

/-- Puts `v` at the head of a list, unless `same` finds an element already there. -/
def addAbsent (same : ν → Bool) (v : ν) (l : List ν) : List ν :=
  if (l.find? same).isSome then l else v :: l

/-- An insertion keeps the list as a suffix: no element is lost, changed, or moved. -/
theorem suffix_addAbsent (same : ν → Bool) (v : ν) (l : List ν) : l <:+ addAbsent same v l := by
  unfold addAbsent
  split_ifs
  · exact List.suffix_rfl
  · exact List.suffix_cons v l

/-- The elements after an insertion. -/
theorem mem_addAbsent {same : ν → Bool} {v x : ν} {l : List ν} :
    x ∈ addAbsent same v l ↔ x ∈ l ∨ (l.find? same = none ∧ x = v) := by
  unfold addAbsent
  cases h : l.find? same with
  | none => simp [or_comm]
  | some y => simp

/-- After an insertion the search finds what it found before, or else the new value. -/
theorem find?_addAbsent {same : ν → Bool} {v : ν} (hv : same v = true) (l : List ν) :
    (addAbsent same v l).find? same = some ((l.find? same).getD v) := by
  unfold addAbsent
  cases h : l.find? same with
  | none => simp [hv]
  | some y => simp [h]

/-- A search for something that the new value is not finds what it found before. -/
theorem find?_addAbsent_of_not {same p : ν → Bool} {v : ν} (hv : p v = false) (l : List ν) :
    (addAbsent same v l).find? p = l.find? p := by
  unfold addAbsent
  split_ifs
  · rfl
  · simp [hv]

/-- Insertions keep an injective labelling of the elements injective, when `same` compares with
the label of the new value. -/
theorem nodup_map_addAbsent {β : Type} {f : ν → β} {same : ν → Bool} {v : ν}
    (hs : ∀ x, f x = f v → same x = true) {l : List ν} (h : (l.map f).Nodup) :
    ((addAbsent same v l).map f).Nodup := by
  unfold addAbsent
  split_ifs with hf
  · exact h
  · rw [List.map_cons, List.nodup_cons]
    refine ⟨?_, h⟩
    -- An element with the new label would have been found.
    intro hmem
    obtain ⟨x, hx, he⟩ := List.mem_map.mp hmem
    exact hf (List.find?_isSome.mpr ⟨x, hx, hs x he⟩)

end AddAbsent

end KeyedLists
