import SdnController.Lib.Heap
import SdnController.Lib.KeyedLists

/-!
# Two-level linked lists

An outer list of nodes, each with a key and an inner list of its own, as blocks of a heap that point
to each other. `ListsAt` says that a pointer leads to the outer list with given nodes, and which
blocks these are (`blocks`). When no block is there twice, every block is at the end of exactly one
path of pointers (`follow_injective`), so the lists share nothing and have no cycle.

What the lists hold is a keyed list of `KeyedLists` (`values`). A program that turns a list into
another one accounts for the blocks of both and touches no other block (`Changed`). Two lists that
have all blocks of the heap between them (`Owned`) go on having them when one of them is changed
(`Owned.step`), so what is shown of their shape holds after any sequence of such programs.
-/

namespace LinkedLists

open Exec KeyedLists

variable {κ ν : Type}

/-! ## Shapes -/

/-- A node of the outer list: the address of its block, its key, and the addresses and values of its
inner list. -/
structure Cell (κ ν : Type) where
  addr : Addr
  key : κ
  inner : List (Addr × ν)

/-- The blocks of an outer node and its inner list. -/
def Cell.blocks (c : Cell κ ν) : List Addr := c.addr :: c.inner.map Prod.fst

/-- The blocks of a two-level list. -/
def blocks (l : List (Cell κ ν)) : List Addr := l.flatMap Cell.blocks

/-- What a two-level list holds. -/
def values (l : List (Cell κ ν)) : List (Outer κ ν) :=
  l.map fun c => ⟨c.key, c.inner.map Prod.snd⟩

@[simp] theorem blocks_nil : blocks ([] : List (Cell κ ν)) = [] := rfl

theorem blocks_cons (c : Cell κ ν) (l : List (Cell κ ν)) : blocks (c :: l) = c.blocks ++ blocks l :=
  rfl

@[simp] theorem Cell.mem_blocks {c : Cell κ ν} {a : Addr} :
    a ∈ c.blocks ↔ a = c.addr ∨ a ∈ c.inner.map Prod.fst := List.mem_cons

@[simp] theorem blocks_append (l l' : List (Cell κ ν)) : blocks (l ++ l') = blocks l ++ blocks l' :=
  List.flatMap_append

/-- The number of blocks of an outer node and its inner list. -/
theorem Cell.length_blocks (c : Cell κ ν) : c.blocks.length = c.inner.length + 1 := by
  rw [Cell.blocks, List.length_cons, List.length_map]

/-- Every outer node is a block. -/
theorem length_le_blocks (l : List (Cell κ ν)) : l.length ≤ (blocks l).length := by
  induction l with
  | nil => exact le_rfl
  | cons c l ih =>
    rw [blocks_cons, List.length_cons, List.length_append, c.length_blocks]
    omega

/-- The blocks of one outer node among those of a two-level list. -/
theorem blocks_perm (l₁ l₂ : List (Cell κ ν)) (c : Cell κ ν) :
    (blocks (l₁ ++ c :: l₂)).Perm (c.blocks ++ (blocks l₁ ++ blocks l₂)) := by
  rw [blocks_append, blocks_cons, ← List.append_assoc, ← List.append_assoc]
  exact List.perm_append_comm.append_right _

/-- A change of the blocks of one outer node is one of the blocks of the two-level list. -/
theorem blocks_perm_of_cell {c c' : Cell κ ν} {s s' : List Addr}
    (hc : (s ++ c.blocks).Perm (s' ++ c'.blocks)) (l₁ l₂ : List (Cell κ ν)) :
    (s ++ blocks (l₁ ++ c :: l₂)).Perm (s' ++ blocks (l₁ ++ c' :: l₂)) := by
  have hfront : ∀ (s : List Addr) (c : Cell κ ν), (s ++ blocks (l₁ ++ c :: l₂)).Perm
      (s ++ c.blocks ++ (blocks l₁ ++ blocks l₂)) := by
    intro s c
    rw [List.append_assoc]
    exact (blocks_perm l₁ l₂ c).append_left s
  calc List.Perm (s ++ blocks (l₁ ++ c :: l₂)) (s ++ c.blocks ++ (blocks l₁ ++ blocks l₂)) :=
        hfront s c
    List.Perm _ (s' ++ c'.blocks ++ (blocks l₁ ++ blocks l₂)) := hc.append_right _
    List.Perm _ (s' ++ blocks (l₁ ++ c' :: l₂)) := (hfront s' c').symm

/-- What one outer node of a two-level list holds. -/
theorem values_middle (l₁ l₂ : List (Cell κ ν)) (c : Cell κ ν) :
    values (l₁ ++ c :: l₂) = values l₁ ++ ⟨c.key, c.inner.map Prod.snd⟩ :: values l₂ := by
  simp [values]

/-- A key that no outer node has. -/
theorem values_absent {k : κ} {l : List (Cell κ ν)} (h : ∀ c ∈ l, c.key ≠ k) :
    ∀ n ∈ values l, n.key ≠ k := by
  simpa [values] using h

/-- A pointer leads to an inner list. -/
def InnerAt (h : Heap κ ν) : Link → List (Addr × ν) → Prop
  | p, [] => p = none
  | p, x :: m => p = some x.1 ∧ ∃ q, h.get x.1 = some (.inner ⟨x.2, q⟩) ∧ InnerAt h q m

/-- A pointer leads to a two-level list. -/
def ListsAt (h : Heap κ ν) : Link → List (Cell κ ν) → Prop
  | p, [] => p = none
  | p, c :: l => p = some c.addr ∧
    ∃ head next, h.get c.addr = some (.outer ⟨c.key, head, next⟩) ∧ InnerAt h head c.inner ∧
      ListsAt h next l

section Frame

variable {h h' : Heap κ ν} {p : Link}

/-- An inner list depends on its own blocks only. -/
theorem InnerAt.congr {m : List (Addr × ν)} (hm : InnerAt h p m)
    (heq : ∀ a ∈ m.map Prod.fst, h'.get a = h.get a) : InnerAt h' p m := by
  induction m generalizing p with
  | nil => exact hm
  | cons x m ih =>
    obtain ⟨hp, q, hget, hrest⟩ := hm
    rw [List.map_cons, List.forall_mem_cons] at heq
    exact ⟨hp, q, heq.1.trans hget, ih hrest heq.2⟩

/-- A two-level list depends on its own blocks only. -/
theorem ListsAt.congr {l : List (Cell κ ν)} (hl : ListsAt h p l)
    (heq : ∀ a ∈ blocks l, h'.get a = h.get a) : ListsAt h' p l := by
  induction l generalizing p with
  | nil => exact hl
  | cons c l ih =>
    obtain ⟨hp, head, next, hget, hinner, hrest⟩ := hl
    rw [blocks_cons, List.forall_mem_append, Cell.blocks, List.forall_mem_cons] at heq
    exact ⟨hp, head, next, heq.1.1.trans hget, hinner.congr heq.1.2, ih hrest heq.2⟩

/-- A node of an inner list. -/
theorem InnerAt.get_mem {m : List (Addr × ν)} (hm : InnerAt h p m) {x : Addr × ν} (hx : x ∈ m) :
    ∃ next, h.get x.1 = some (.inner ⟨x.2, next⟩) := by
  induction m generalizing p with
  | nil => exact absurd hx List.not_mem_nil
  | cons y m ih =>
    obtain ⟨-, q, hget, hrest⟩ := hm
    rcases List.mem_cons.mp hx with rfl | hx
    · exact ⟨q, hget⟩
    · exact ih hrest hx

/-- The blocks of an inner list are there. -/
theorem InnerAt.get_isSome {m : List (Addr × ν)} (hm : InnerAt h p m) {a : Addr}
    (ha : a ∈ m.map Prod.fst) : (h.get a).isSome = true := by
  obtain ⟨x, hx, rfl⟩ := List.mem_map.mp ha
  obtain ⟨next, hget⟩ := hm.get_mem hx
  rw [hget]
  rfl

/-- The blocks of an inner list were handed out. -/
theorem InnerAt.lt_size {m : List (Addr × ν)} (hm : InnerAt h p m) {a : Addr}
    (ha : a ∈ m.map Prod.fst) : a < h.size := by
  obtain ⟨b, hb⟩ := Option.isSome_iff_exists.mp (hm.get_isSome ha)
  exact Heap.lt_size hb

/-- The blocks of a two-level list are there. -/
theorem ListsAt.get_isSome {l : List (Cell κ ν)} (hl : ListsAt h p l) {a : Addr}
    (ha : a ∈ blocks l) : (h.get a).isSome = true := by
  induction l generalizing p with
  | nil => exact absurd ha List.not_mem_nil
  | cons c l ih =>
    obtain ⟨-, head, next, hget, hinner, hrest⟩ := hl
    rw [blocks_cons, List.mem_append, Cell.mem_blocks] at ha
    rcases ha with (rfl | ha) | ha
    · rw [hget]; rfl
    · exact hinner.get_isSome ha
    · exact ih hrest ha

/-- The pointer to a two-level list that is not empty. -/
theorem ListsAt.exists_addr {l : List (Cell κ ν)} (hl : ListsAt h p l) (hne : l ≠ []) :
    ∃ a, p = some a := by
  cases l with
  | nil => exact absurd rfl hne
  | cons c l => exact ⟨c.addr, hl.1⟩

/-- An outer node in the middle of a two-level list. -/
theorem ListsAt.get_cell {l₁ l₂ : List (Cell κ ν)} {c : Cell κ ν}
    (hl : ListsAt h p (l₁ ++ c :: l₂)) :
    ∃ head next, h.get c.addr = some (.outer ⟨c.key, head, next⟩) ∧ InnerAt h head c.inner := by
  induction l₁ generalizing p with
  | nil =>
    obtain ⟨-, head, next, hget, hinner, -⟩ := hl
    exact ⟨head, next, hget, hinner⟩
  | cons d l₁ ih =>
    obtain ⟨-, _, _, -, -, hrest⟩ := hl
    exact ih hrest

/-- The blocks of a two-level list were handed out. -/
theorem ListsAt.lt_size {l : List (Cell κ ν)} (hl : ListsAt h p l) {a : Addr} (ha : a ∈ blocks l) :
    a < h.size := by
  obtain ⟨b, hb⟩ := Option.isSome_iff_exists.mp (hl.get_isSome ha)
  exact Heap.lt_size hb

/-- One outer node of a two-level list is changed, in its head pointer and the inner list that this
leads to, and no block of the other nodes is touched. -/
theorem ListsAt.replace {l₁ l₂ : List (Cell κ ν)} {c : Cell κ ν} {m : List (Addr × ν)}
    (hl : ListsAt h p (l₁ ++ c :: l₂)) (hnodup : (blocks (l₁ ++ c :: l₂)).Nodup)
    (hframe : ∀ a, a < h.size → a ∉ c.blocks → h'.get a = h.get a)
    (hc : ∀ head next, h.get c.addr = some (.outer ⟨c.key, head, next⟩) → InnerAt h head c.inner →
      ∃ head', h'.get c.addr = some (.outer ⟨c.key, head', next⟩) ∧ InnerAt h' head' m) :
    ListsAt h' p (l₁ ++ { c with inner := m } :: l₂) := by
  have heq : ∀ a ∈ blocks l₁ ++ blocks l₂, h'.get a = h.get a := by
    intro a ha
    have hall := (blocks_perm l₁ l₂ c).nodup_iff.mp hnodup
    have hlt := hl.lt_size ((blocks_perm l₁ l₂ c).mem_iff.mpr (List.mem_append_right _ ha))
    exact hframe a hlt fun hin => (List.nodup_append.mp hall).2.2 a hin a ha rfl
  clear hnodup hframe
  induction l₁ generalizing p with
  | nil =>
    obtain ⟨hp, head, next, hget, hinner, hrest⟩ := hl
    obtain ⟨head', hget', hinner'⟩ := hc head next hget hinner
    exact ⟨hp, head', next, hget', hinner', hrest.congr heq⟩
  | cons d l₁ ih =>
    obtain ⟨hp, head, next, hget, hinner, hrest⟩ := hl
    rw [blocks_cons, List.append_assoc, List.forall_mem_append, Cell.blocks,
      List.forall_mem_cons] at heq
    exact ⟨hp, head, next, heq.1.1.trans hget, hinner.congr heq.1.2, ih hrest heq.2⟩

end Frame

/-! ## Changes -/

/-- What a program does that turns a two-level list into another one: it accounts for every block of
both, hands out the addresses that come next, and touches no other block. -/
structure Changed (h h' : Heap κ ν) (w : List HeapEvent) (l l' : List (Cell κ ν)) : Prop where
  account : (frees w ++ blocks l').Perm (blocks l ++ allocs w)
  fresh : List.range h.size ++ allocs w = List.range h'.size
  frame : ∀ a, a < h.size → a ∉ blocks l → h'.get a = h.get a

section Changed

variable {h h₁ h₂ : Heap κ ν} {w w₁ w₂ : List HeapEvent} {l l₁ l₂ : List (Cell κ ν)}

/-- Nothing is changed. -/
theorem Changed.refl (h : Heap κ ν) (l : List (Cell κ ν)) : Changed h h [] l l where
  account := by simp [frees, allocs]
  fresh := by simp [allocs]
  frame := fun _ _ _ => rfl

/-- The heap does not shrink. -/
theorem Changed.size_le (hc : Changed h h₁ w l l₁) : h.size ≤ h₁.size := by
  have hlen := congrArg List.length hc.fresh
  rw [List.length_append, List.length_range, List.length_range] at hlen
  omega

/-- An address handed out in between was not handed out before. -/
theorem Changed.not_mem_allocs (hc : Changed h h₁ w l l₁) {a : Addr} (ha : a < h.size) :
    a ∉ allocs w := by
  have hnodup : (List.range h.size ++ allocs w).Nodup := hc.fresh ▸ List.nodup_range
  intro hin
  exact (List.nodup_append.mp hnodup).2.2 a (List.mem_range.mpr ha) a hin rfl

/-- A block of the new list is one of the old list, or a new one. -/
theorem Changed.mem_blocks (hc : Changed h h₁ w l l₁) {a : Addr} (ha : a ∈ blocks l₁) :
    a ∈ blocks l ∨ a ∈ allocs w :=
  List.mem_append.mp (hc.account.mem_iff.mp (List.mem_append_right _ ha))

/-- No block of the new list is there twice, if none of the old one was. -/
theorem Changed.nodup (hc : Changed h h₁ w l l₁) (hlt : ∀ a ∈ blocks l, a < h.size)
    (hnodup : (blocks l).Nodup) : (blocks l₁).Nodup := by
  have hfresh : (List.range h.size ++ allocs w).Nodup := hc.fresh ▸ List.nodup_range
  have hall : (blocks l ++ allocs w).Nodup := by
    refine List.nodup_append.mpr ⟨hnodup, (List.nodup_append.mp hfresh).2.1, ?_⟩
    rintro a ha _ hb rfl
    exact hc.not_mem_allocs (hlt a ha) hb
  exact (List.nodup_append.mp (hc.account.nodup_iff.mpr hall)).2.1

/-- One change after another. -/
theorem Changed.trans (hc₁ : Changed h h₁ w₁ l l₁) (hc₂ : Changed h₁ h₂ w₂ l₁ l₂) :
    Changed h h₂ (w₁ ++ w₂) l l₂ where
  account := by
    -- The blocks of the list in between are accounted for by both.
    calc List.Perm (frees (w₁ ++ w₂) ++ blocks l₂) (frees w₁ ++ (frees w₂ ++ blocks l₂)) :=
          .of_eq (by simp)
      List.Perm _ (frees w₁ ++ (blocks l₁ ++ allocs w₂)) := hc₂.account.append_left _
      List.Perm _ (frees w₁ ++ blocks l₁ ++ allocs w₂) := .of_eq (List.append_assoc ..).symm
      List.Perm _ (blocks l ++ allocs w₁ ++ allocs w₂) := hc₁.account.append_right _
      List.Perm _ (blocks l ++ allocs (w₁ ++ w₂)) := .of_eq (by simp)
  fresh := by rw [allocs_append, ← List.append_assoc, hc₁.fresh, hc₂.fresh]
  frame := by
    intro a ha hout
    have hout₁ : a ∉ blocks l₁ := fun hin =>
      (hc₁.mem_blocks hin).elim hout (hc₁.not_mem_allocs ha)
    rw [hc₂.frame a (ha.trans_le hc₁.size_le) hout₁, hc₁.frame a ha hout]

end Changed

/-- A two-level list has a first node with the key, or none. -/
theorem exists_first [DecidableEq κ] (k : κ) (l : List (Cell κ ν)) :
    (∃ l₁ c l₂, l = l₁ ++ c :: l₂ ∧ c.key = k ∧ ∀ d ∈ l₁, d.key ≠ k) ∨ ∀ d ∈ l, d.key ≠ k := by
  cases hfind : l.find? (·.key = k) with
  | none => exact .inr fun d hd => by simpa using List.find?_eq_none.mp hfind d hd
  | some c =>
    obtain ⟨hc, l₁, l₂, rfl, hl₁⟩ := List.find?_eq_some_iff_append.mp hfind
    exact .inl ⟨l₁, c, l₂, rfl, by simpa using hc, fun d hd => by simpa using hl₁ d hd⟩

/-! ## Paths -/

/-- The pointers of a block. -/
inductive Field where
  | head
  | next
  deriving DecidableEq

/-- A pointer of a block. A node of an inner list has no `head`. -/
def Block.link : Block κ ν → Field → Link
  | .outer n, .head => n.head
  | .outer n, .next => n.next
  | .inner n, .next => n.next
  | .inner _, .head => none

/-- Where a path of pointers leads from a pointer. -/
def Heap.follow (h : Heap κ ν) : Link → List Field → Link
  | p, [] => p
  | none, _ :: _ => none
  | some a, f :: path => h.follow ((h.get a).elim none (·.link f)) path

section Paths

variable {h : Heap κ ν} {p : Link} {a : Addr}

@[simp] theorem Heap.follow_none (path : List Field) : h.follow none path = none := by
  cases path <;> rfl

/-- A path in two parts. -/
theorem Heap.follow_append (p : Link) (path path' : List Field) :
    h.follow p (path ++ path') = h.follow (h.follow p path) path' := by
  induction path generalizing p with
  | nil => rfl
  | cons f path ih =>
    cases p with
    | none => simp
    | some a => exact ih _

/-- A path into an inner list ends at one of its blocks. -/
theorem InnerAt.mem_of_follow {m : List (Addr × ν)} (hm : InnerAt h p m) {path : List Field}
    (hf : h.follow p path = some a) : a ∈ m.map Prod.fst := by
  induction m generalizing p path with
  | nil =>
    rw [show p = none from hm, Heap.follow_none] at hf
    exact absurd hf (by simp)
  | cons x m ih =>
    obtain ⟨rfl, q, hget, hrest⟩ := hm
    rw [List.map_cons, List.mem_cons]
    rcases path with _ | ⟨f, path⟩
    · exact .inl (Option.some.inj hf).symm
    · rw [Heap.follow, hget] at hf
      cases f with
      | next => exact .inr (ih hrest hf)
      | head => exact absurd (hf.symm.trans (Heap.follow_none path)) (by simp)

/-- A path into a two-level list ends at one of its blocks. -/
theorem ListsAt.mem_of_follow {l : List (Cell κ ν)} (hl : ListsAt h p l) {path : List Field}
    (hf : h.follow p path = some a) : a ∈ blocks l := by
  induction l generalizing p path with
  | nil =>
    rw [show p = none from hl, Heap.follow_none] at hf
    exact absurd hf (by simp)
  | cons c l ih =>
    obtain ⟨rfl, head, next, hget, hinner, hrest⟩ := hl
    rw [blocks_cons, List.mem_append, Cell.mem_blocks]
    rcases path with _ | ⟨f, path⟩
    · exact .inl (.inl (Option.some.inj hf).symm)
    · rw [Heap.follow, hget] at hf
      cases f with
      | head => exact .inl (.inr (hinner.mem_of_follow hf))
      | next => exact .inr (ih hrest hf)

/-- Two paths into an inner list without a repeated block lead to different blocks. -/
theorem InnerAt.follow_injective {m : List (Addr × ν)} (hm : InnerAt h p m)
    (hnodup : (m.map Prod.fst).Nodup) {path path' : List Field} (hf : h.follow p path = some a)
    (hf' : h.follow p path' = some a) : path = path' := by
  induction m generalizing p path path' with
  | nil =>
    rw [show p = none from hm, Heap.follow_none] at hf
    exact absurd hf (by simp)
  | cons x m ih =>
    obtain ⟨rfl, q, hget, hrest⟩ := hm
    rw [List.map_cons, List.nodup_cons] at hnodup
    -- A path that goes on does not come back to the first block.
    have hgo : ∀ {f : Field} {path : List Field}, h.follow (some x.1) (f :: path) = some a →
        f = .next ∧ h.follow q path = some a := by
      intro f path hf
      rw [Heap.follow, hget] at hf
      cases f with
      | next => exact ⟨rfl, hf⟩
      | head => exact absurd (hf.symm.trans (Heap.follow_none path)) (by simp)
    have hne : ∀ {path : List Field}, h.follow q path = some a → x.1 ≠ a := by
      rintro path hf rfl
      exact hnodup.1 (hrest.mem_of_follow hf)
    rcases path with _ | ⟨f, path⟩ <;> rcases path' with _ | ⟨f', path'⟩
    · rfl
    · exact absurd (Option.some.inj hf) (hne (hgo hf').2)
    · exact absurd (Option.some.inj hf') (hne (hgo hf).2)
    · rw [(hgo hf).1, (hgo hf').1, ih hrest hnodup.2 (hgo hf).2 (hgo hf').2]

/-- Two paths into a two-level list without a repeated block lead to different blocks. -/
theorem ListsAt.follow_injective {l : List (Cell κ ν)} (hl : ListsAt h p l)
    (hnodup : (blocks l).Nodup) {path path' : List Field} (hf : h.follow p path = some a)
    (hf' : h.follow p path' = some a) : path = path' := by
  induction l generalizing p path path' with
  | nil =>
    rw [show p = none from hl, Heap.follow_none] at hf
    exact absurd hf (by simp)
  | cons c l ih =>
    obtain ⟨rfl, head, next, hget, hinner, hrest⟩ := hl
    rw [blocks_cons, Cell.blocks, List.cons_append, List.nodup_cons, List.nodup_append] at hnodup
    obtain ⟨hfirst, hnodupInner, hnodupRest, hapart⟩ := hnodup
    have hmem : ∀ {f : Field} {path : List Field}, h.follow (some c.addr) (f :: path) = some a →
        h.follow (Field.rec head next f) path = some a := by
      intro f path hf
      rw [Heap.follow, hget] at hf
      cases f with
      | head => exact hf
      | next => exact hf
    -- A path that goes on does not come back to the first block.
    have hne : ∀ {f : Field} {path : List Field},
        h.follow (some c.addr) (f :: path) = some a → c.addr ≠ a := by
      rintro f path hf rfl
      refine hfirst (List.mem_append.mpr ?_)
      cases f with
      | head => exact .inl (hinner.mem_of_follow (hmem hf))
      | next => exact .inr (hrest.mem_of_follow (hmem hf))
    rcases path with _ | ⟨f, path⟩ <;> rcases path' with _ | ⟨f', path'⟩
    · rfl
    · exact absurd (Option.some.inj hf) (hne hf')
    · exact absurd (Option.some.inj hf') (hne hf)
    · -- The inner list and the rest of the outer one have no block in common.
      have hmem₁ := hmem hf
      have hmem₂ := hmem hf'
      cases f <;> cases f'
      · rw [hinner.follow_injective hnodupInner hmem₁ hmem₂]
      · exact absurd rfl (hapart _ (hinner.mem_of_follow hmem₁) _ (hrest.mem_of_follow hmem₂))
      · exact absurd rfl (hapart _ (hinner.mem_of_follow hmem₂) _ (hrest.mem_of_follow hmem₁))
      · rw [ih hrest hnodupRest hmem₁ hmem₂]

end Paths

/-! ## Two lists on one heap -/

/-- Two two-level lists have, between them and once each, all the blocks that were handed out and
not freed. -/
structure Owned (h : Heap κ ν) (w : List HeapEvent) (p q : Link) (l m : List (Cell κ ν)) :
    Prop where
  left : ListsAt h p l
  right : ListsAt h q m
  account : (frees w ++ (blocks l ++ blocks m)).Perm (allocs w)
  allocs_eq : allocs w = List.range h.size

section Owned

variable {h h' : Heap κ ν} {w w' : List HeapEvent} {p q : Link} {l l' m : List (Cell κ ν)}
  {a : Addr}

theorem Owned.symm (ho : Owned h w p q l m) : Owned h w q p m l :=
  ⟨ho.right, ho.left, (List.perm_append_comm.append_left _).trans ho.account, ho.allocs_eq⟩

/-- No block is freed and still in a list, or in a list twice. -/
theorem Owned.nodup (ho : Owned h w p q l m) : (frees w ++ (blocks l ++ blocks m)).Nodup :=
  ho.account.nodup_iff.mpr (ho.allocs_eq ▸ List.nodup_range)

theorem Owned.nodup_left (ho : Owned h w p q l m) : (blocks l).Nodup :=
  (List.nodup_append.mp (List.nodup_append.mp ho.nodup).2.1).1

/-- The lists have no block in common. -/
theorem Owned.apart (ho : Owned h w p q l m) (ha : a ∈ blocks l) : a ∉ blocks m := fun hin =>
  (List.nodup_append.mp (List.nodup_append.mp ho.nodup).2.1).2.2 a ha a hin rfl

/-- A block of a list was handed out, and was not freed. -/
theorem Owned.not_freed (ho : Owned h w p q l m) (ha : a ∈ blocks l) :
    a ∈ allocs w ∧ a ∉ frees w := by
  have hin : a ∈ blocks l ++ blocks m := List.mem_append_left _ ha
  refine ⟨ho.account.mem_iff.mp (List.mem_append_right _ hin), fun hfreed => ?_⟩
  exact (List.nodup_append.mp ho.nodup).2.2 a hfreed a hin rfl

/-- There are no more blocks in a list than addresses handed out. -/
theorem Owned.length_le (ho : Owned h w p q l m) : (blocks l).length ≤ h.size := by
  have hlen := ho.account.length_eq
  rw [ho.allocs_eq, List.length_range, List.length_append, List.length_append] at hlen
  omega

/-- The other list is not touched by a change of one. -/
theorem Owned.step {p' : Link} (ho : Owned h w p q l m) (hl : ListsAt h' p' l')
    (hc : Changed h h' w' l l') : Owned h' (w ++ w') p' q l' m where
  left := hl
  right := ho.right.congr fun a ha => hc.frame a (ho.right.lt_size ha) (ho.symm.apart ha)
  account := by
    have hswap : (blocks l ++ allocs w' ++ blocks m).Perm (blocks l ++ blocks m ++ allocs w') := by
      rw [List.append_assoc, List.append_assoc]
      exact List.perm_append_comm.append_left _
    -- What the change frees and leaves comes from the list and from what it allocates.
    calc List.Perm (frees (w ++ w') ++ (blocks l' ++ blocks m))
          (frees w ++ (frees w' ++ blocks l' ++ blocks m)) := .of_eq (by simp)
      List.Perm _ (frees w ++ (blocks l ++ allocs w' ++ blocks m)) :=
        (hc.account.append_right _).append_left _
      List.Perm _ (frees w ++ (blocks l ++ blocks m ++ allocs w')) := hswap.append_left _
      List.Perm _ (frees w ++ (blocks l ++ blocks m) ++ allocs w') :=
        .of_eq (List.append_assoc ..).symm
      List.Perm _ (allocs w ++ allocs w') := ho.account.append_right _
      List.Perm _ (allocs (w ++ w')) := .of_eq (allocs_append ..).symm
  allocs_eq := by rw [allocs_append, ho.allocs_eq, hc.fresh]

/-- The blocks of both lists are those that were handed out and not freed. -/
theorem Owned.unfreed (ho : Owned h w p q l m) :
    (blocks l ++ blocks m).Perm ((allocs w).filter (· ∉ frees w)) := by
  have hfilter := ho.account.filter (fun a => decide (a ∉ frees w))
  have hfreed : (frees w).filter (fun a => decide (a ∉ frees w)) = [] := by
    rw [List.filter_eq_nil_iff]
    intro a ha
    simpa using ha
  have hkept : (blocks l ++ blocks m).filter (fun a => decide (a ∉ frees w)) =
      blocks l ++ blocks m := by
    rw [List.filter_eq_self]
    intro a ha
    refine decide_eq_true fun hin => ?_
    exact (List.nodup_append.mp ho.nodup).2.2 a hin a ha rfl
  rw [List.filter_append, hfreed, hkept, List.nil_append] at hfilter
  exact hfilter

end Owned

end LinkedLists
