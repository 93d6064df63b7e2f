import SdnController.Lib.LinkedLists

/-!
# Programs on two-level linked lists

The loops of a C program over two-level linked lists: the searches (`searchLists`), the insertion at
the head of a key's inner list, with a new outer node at the end for a key that has none
(`insertNode`), the removal of a node from an inner list (`removeNode`), and the loop that frees
everything (`freeLists`).

A specification says what a program does to lists of which no block is there twice: what it returns,
when it has as many rounds as there are blocks, what lists it leaves, and that it touches no block
but theirs (`Changed`). What the lists hold changes as the keyed lists of `KeyedLists` do. The
searches and the insertions are specified here, the rest in `ListRemovals.lean`.
-/

namespace LinkedLists

open Exec KeyedLists

variable {κ ν : Type}

/-! ## Programs -/

/-- The search along an inner list for a value that satisfies `p`. -/
def searchInner (p : ν → Bool) : ℕ → Link → HeapProg κ ν (Option Addr)
  | _, none => pure none
  | 0, some _ => stop .endless
  | n + 1, some a => do
    let curNode ← inner a
    if p curNode.value then pure (some a) else searchInner p n curNode.next

/-- The loop that runs along an inner list to the first value that satisfies `p`, with `prev` one
node behind. `prev` has no value before the first round. -/
def scan (p : ν → Bool) : ℕ → Option Addr → Link → HeapProg κ ν (Option Addr × Link)
  | _, prev, none => pure (prev, none)
  | 0, _, some _ => stop .endless
  | n + 1, prev, some a => do
    let tmp ← inner a
    if p tmp.value then pure (prev, some a) else scan p n (some a) tmp.next

/-- Takes the first value that satisfies `p` out of the inner list of an outer node. -/
def unlink (p : ν → Bool) (n : ℕ) (cur : Addr) : HeapProg κ ν (Option Addr) := do
  let node ← outer cur
  match node.head with
  | none => pure none
  | some b => do
    let tmp ← inner b
    if p tmp.value then do
      updateOuter cur fun cur => { cur with head := tmp.next }
      pure (some b)
    else do
      let found ← scan p n none (some b)
      match found with
      | (_, none) => pure none
      | (none, some _) => stop .unset
      | (some prev, some c) => do
        let tmp ← inner c
        updateInner prev fun prev => { prev with next := tmp.next }
        pure (some c)

/-- The loop that frees the inner list of an outer node, head by head. -/
def freeInner : ℕ → Addr → HeapProg κ ν Unit
  | 0, a => do
    let ll ← outer a
    match ll.head with
    | none => pure ()
    | some _ => stop .endless
  | n + 1, a => do
    let ll ← outer a
    match ll.head with
    | none => pure ()
    | some b => do
      let tmpNode ← inner b
      updateOuter a fun ll => { ll with head := tmpNode.next }
      free b
      freeInner n a

/-- The loop that frees a two-level list, and what it leaves in the caller's pointer. -/
def freeLists : ℕ → Link → HeapProg κ ν Link
  | _, none => pure none
  | 0, some _ => stop .endless
  | n + 1, some a => do
    freeInner n a
    let ll ← outer a
    free a
    freeLists n ll.next

section Keyed

variable [DecidableEq κ]

/-- The search along the outer list for the first node with a key, and then along its inner list. -/
def searchLists (k : κ) (p : ν → Bool) : ℕ → Link → HeapProg κ ν (Option Addr)
  | _, none => pure none
  | 0, some _ => stop .endless
  | n + 1, some a => do
    let cur ← outer a
    if cur.key = k then searchInner p n cur.head else searchLists k p n cur.next

/-- The loop that stops at the first outer node with a key, or appends one. -/
def locate (k : κ) : ℕ → Addr → HeapProg κ ν Addr
  | 0, _ => stop .endless
  | n + 1, a => do
    let cur ← outer a
    if cur.key = k then pure a
    else
      match cur.next with
      | none => do
        let listHead ← alloc (.outer ⟨k, none, none⟩)
        updateOuter a fun cur => { cur with next := some listHead }
        pure listHead
      | some b => locate k n b

/-- The insertion of a new node at the head of the inner list of an outer node. -/
def pushInner (v : ν) (cur : Addr) : HeapProg κ ν Unit := do
  let newNode ← alloc (.inner ⟨v, none⟩)
  let node ← outer cur
  updateInner newNode fun new => { new with next := node.head }
  updateOuter cur fun cur => { cur with head := some newNode }

/-- The insertion of a value that is not there: 1, or 0 when it is there. The parameter `ll` is the
caller's pointer by value, so that a list that starts here is lost to the caller. -/
def insertNode (same : ν → Bool) (k : κ) (v : ν) (n : ℕ) (ll : Link) : HeapProg κ ν ℤ := do
  let found ← searchLists k same n ll
  match found with
  | some _ => pure 0
  | none => do
    let ll ← match ll with
      | some a => pure a
      | none => alloc (.outer ⟨k, none, none⟩)
    let cur ← locate k n ll
    pushInner v cur
    pure 1

/-- The removal of the first value that satisfies `p` from the inner list of the first outer node
with a key. The block is taken out, but not freed. -/
def removeNode (k : κ) (p : ν → Bool) : ℕ → Link → HeapProg κ ν (Option Addr)
  | _, none => pure none
  | 0, some _ => stop .endless
  | n + 1, some a => do
    let cur ← outer a
    if cur.key = k then unlink p n a else removeNode k p n cur.next

end Keyed

/-! ## Searches -/

section Search

variable {h : Heap κ ν} {q : Link} {e : Unit} {n : ℕ} {p : ν → Bool}

/-- A search along an inner list returns the first node that satisfies `p`. -/
theorem searchInner_apply {m : List (Addr × ν)} (hm : InnerAt h q m) (hn : m.length ≤ n) :
    searchInner p n q e h = ⟨.ok ((m.find? (p ·.2)).map Prod.fst), h, []⟩ := by
  induction m generalizing q n with
  | nil =>
    rw [show q = none from hm]
    cases n <;> rfl
  | cons x m ih =>
    obtain ⟨rfl, next, hget, hrest⟩ := hm
    obtain ⟨n, rfl⟩ := Nat.exists_eq_add_of_lt hn
    rw [searchInner, bind_apply, inner_apply hget, Outcome.andThen_ok, prog_ite_apply,
      List.find?_cons]
    cases hp : p x.2 with
    | true => rfl
    | false =>
      rw [if_neg (by simp), ih hrest (Nat.le_add_right ..)]
      rfl

variable {k : κ} [DecidableEq κ]

/-- The inner list of the first outer node with a key. -/
def innerOf (k : κ) : List (Cell κ ν) → List (Addr × ν)
  | [] => []
  | c :: l => if c.key = k then c.inner else innerOf k l

/-- A key that no outer node has has no inner list. -/
theorem innerOf_of_absent {l : List (Cell κ ν)} (hl : ∀ d ∈ l, d.key ≠ k) : innerOf k l = [] := by
  induction l with
  | nil => rfl
  | cons d l ih =>
    rw [List.forall_mem_cons] at hl
    rw [innerOf, if_neg hl.1, ih hl.2]

/-- The inner list of the first outer node with a key. -/
theorem innerOf_append {l₁ l₂ : List (Cell κ ν)} {c : Cell κ ν} (hl₁ : ∀ d ∈ l₁, d.key ≠ k)
    (hc : c.key = k) : innerOf k (l₁ ++ c :: l₂) = c.inner := by
  induction l₁ with
  | nil => exact if_pos hc
  | cons d l₁ ih =>
    rw [List.forall_mem_cons] at hl₁
    rw [List.cons_append, innerOf, if_neg hl₁.1, ih hl₁.2]

/-- The values of that inner list. -/
theorem map_innerOf (l : List (Cell κ ν)) :
    (innerOf k l).map Prod.snd = innerList k (values l) := by
  induction l with
  | nil => rfl
  | cons c l ih =>
    simp only [innerOf, values, List.map_cons, innerList]
    split_ifs
    · rfl
    · exact ih

/-- The nodes of that inner list. -/
theorem ListsAt.get_innerOf {l : List (Cell κ ν)} (hl : ListsAt h q l) {x : Addr × ν}
    (hx : x ∈ innerOf k l) : ∃ next, h.get x.1 = some (.inner ⟨x.2, next⟩) := by
  induction l generalizing q with
  | nil => exact absurd hx List.not_mem_nil
  | cons c l ih =>
    obtain ⟨-, head, next, -, hinner, hrest⟩ := hl
    unfold innerOf at hx
    split_ifs at hx
    · exact hinner.get_mem hx
    · exact ih hrest hx

/-- The value that a search finds in the keyed list is the one of the node that it finds here. -/
theorem search_values (l : List (Cell κ ν)) :
    KeyedLists.search k p (values l) = ((innerOf k l).find? (p ·.2)).map Prod.snd := by
  rw [search_eq, ← map_innerOf, List.find?_map]
  rfl

/-- A search returns the first node that satisfies `p` in the first inner list of the key. -/
theorem searchLists_apply {l : List (Cell κ ν)} (hl : ListsAt h q l)
    (hn : (blocks l).length ≤ n) :
    searchLists k p n q e h = ⟨.ok (((innerOf k l).find? (p ·.2)).map Prod.fst), h, []⟩ := by
  induction l generalizing q n with
  | nil =>
    rw [show q = none from hl]
    cases n <;> rfl
  | cons c l ih =>
    obtain ⟨rfl, head, next, hget, hinner, hrest⟩ := hl
    rw [blocks_cons, List.length_append, c.length_blocks] at hn
    obtain ⟨n, rfl⟩ := Nat.exists_eq_add_one_of_ne_zero (show n ≠ 0 by omega)
    rw [searchLists, bind_apply, outer_apply hget, Outcome.andThen_ok, prog_ite_apply, innerOf]
    split_ifs with hk
    · rw [searchInner_apply hinner (by omega)]
      rfl
    · rw [ih hrest (by omega)]
      rfl

end Search

/-! ## Insertions -/

section Insertion

variable {h : Heap κ ν} {q : Link} {e : Unit} {n : ℕ}

/-- A new node is put at the head of the inner list of an outer node. -/
theorem pushInner_spec (v : ν) {l₁ l₂ : List (Cell κ ν)} {c : Cell κ ν}
    (hl : ListsAt h q (l₁ ++ c :: l₂)) (hnodup : (blocks (l₁ ++ c :: l₂)).Nodup) :
    ∃ h', pushInner v c.addr e h = ⟨.ok (), h', [.alloc h.size]⟩ ∧
      ListsAt h' q (l₁ ++ { c with inner := (h.size, v) :: c.inner } :: l₂) ∧
      Changed h h' [.alloc h.size] (l₁ ++ c :: l₂)
        (l₁ ++ { c with inner := (h.size, v) :: c.inner } :: l₂) := by
  obtain ⟨head, next, hget, hm⟩ := hl.get_cell
  have hc : c.addr < h.size := Heap.lt_size hget
  have hnew : ((h.push (.inner ⟨v, none⟩)).put h.size (some (.inner ⟨v, head⟩))).get c.addr =
      some (.outer ⟨c.key, head, next⟩) := by
    rw [Heap.get_put_ne hc.ne, Heap.get_push_of_lt hc, hget]
  -- The new node first points to the old head, and only then becomes the head.
  let h' := ((h.push (.inner ⟨v, none⟩)).put h.size (some (.inner ⟨v, head⟩))).put c.addr
    (some (.outer ⟨c.key, some h.size, next⟩))
  have hframe : ∀ b, b < h.size → b ≠ c.addr → h'.get b = h.get b := by
    intro b hb hne
    rw [Heap.get_put_ne hne, Heap.get_put_ne hb.ne, Heap.get_push_of_lt hb]
  have hpush : (h.push (.inner ⟨v, none⟩)).get c.addr = some (.outer ⟨c.key, head, next⟩) := by
    rw [Heap.get_push_of_lt hc, hget]
  refine ⟨h', ?_, ?_, ?_, ?_, ?_⟩
  · unfold pushInner
    simp only [bind_apply, alloc_apply, Outcome.andThen_ok, outer_apply hpush,
      updateInner_apply Heap.get_push_self, updateOuter_apply hnew, List.append_nil]
    rfl
  · refine hl.replace hnodup (fun b hb hout => hframe b hb ?_) fun head₁ next₁ hget₁ hm₁ => ?_
    · rintro rfl
      exact hout (Cell.mem_blocks.mpr (.inl rfl))
    · rw [hget, Option.some.injEq, Block.outer.injEq, OuterNode.mk.injEq] at hget₁
      obtain ⟨-, rfl, rfl⟩ := hget₁
      have hself : h'.get c.addr = some (.outer ⟨c.key, some h.size, next⟩) :=
        Heap.get_put_self (by rw [Heap.size_put, Heap.size_push]; exact Nat.lt_succ_of_lt hc) _
      have hnode : h'.get h.size = some (.inner ⟨v, head⟩) := by
        have hroom : h.size < (h.push (.inner ⟨v, none⟩)).size := by
          rw [Heap.size_push]
          exact h.size.lt_succ_self
        rw [Heap.get_put_ne hc.ne', Heap.get_put_self hroom]
      refine ⟨some h.size, hself, rfl, head, hnode, hm₁.congr fun b hb => ?_⟩
      -- The nodes behind the new one are those that were there.
      have hblocks := (blocks_perm l₁ l₂ c).nodup_iff.mp hnodup
      refine hframe b (hl.lt_size ((blocks_perm l₁ l₂ c).mem_iff.mpr ?_)) ?_
      · exact List.mem_append_left _ (Cell.mem_blocks.mpr (.inr hb))
      · rintro rfl
        exact (List.nodup_cons.mp (List.nodup_append.mp hblocks).1).1 hb
  · -- The only block that is not accounted for by the old list is the new one.
    have hcell : ([h.size] ++ c.blocks).Perm
        ([] ++ ({ c with inner := (h.size, v) :: c.inner } : Cell κ ν).blocks) := .swap ..
    exact (blocks_perm_of_cell hcell l₁ l₂).symm.trans List.perm_append_comm
  · exact (List.range_succ).symm.trans (by rw [Heap.size_put, Heap.size_put, Heap.size_push])
  · intro b hb hout
    refine hframe b hb ?_
    rintro rfl
    exact hout ((blocks_perm l₁ l₂ c).mem_iff.mpr
      (List.mem_append_left _ (Cell.mem_blocks.mpr (.inl rfl))))

variable [DecidableEq κ] {k : κ} {a : Addr}

/-- The loop of an insertion stops at the first outer node with the key. -/
theorem locate_first {l₁ l₂ : List (Cell κ ν)} {c : Cell κ ν}
    (hl : ListsAt h (some a) (l₁ ++ c :: l₂)) (hl₁ : ∀ d ∈ l₁, d.key ≠ k) (hc : c.key = k)
    (hn : l₁.length < n) : locate k n a e h = ⟨.ok c.addr, h, []⟩ := by
  induction l₁ generalizing a n with
  | nil =>
    obtain ⟨n, rfl⟩ := Nat.exists_eq_add_of_lt hn
    obtain ⟨ha, head, next, hget, -⟩ := hl
    obtain rfl := Option.some.inj ha
    rw [locate, bind_apply, outer_apply hget, Outcome.andThen_ok, prog_ite_apply, if_pos hc]
    rfl
  | cons d l₁ ih =>
    obtain ⟨n, rfl⟩ := Nat.exists_eq_add_of_lt hn
    obtain ⟨ha, head, next, hget, -, hrest⟩ := hl
    obtain rfl := Option.some.inj ha
    rw [List.forall_mem_cons] at hl₁
    obtain ⟨b, rfl⟩ := hrest.exists_addr (by simp)
    have hfirst := ih hrest hl₁.2 (n := (d :: l₁).length + n) (by rw [List.length_cons]; omega)
    rw [locate, bind_apply, outer_apply hget, Outcome.andThen_ok, prog_ite_apply, if_neg hl₁.1]
    simp only [hfirst, List.nil_append]

/-- At the last outer node, when that does not have the key, the loop appends one that has. -/
theorem locate_last {d : Cell κ ν} (hl : ListsAt h (some a) [d]) (hnodup : d.blocks.Nodup)
    (hk : d.key ≠ k) :
    ∃ h', (∀ n, 1 ≤ n → locate k n a e h = ⟨.ok h.size, h', [.alloc h.size]⟩) ∧
      ListsAt h' (some a) [d, ⟨h.size, k, []⟩] ∧ h'.size = h.size + 1 ∧
      ∀ b, b < h.size → b ∉ d.blocks → h'.get b = h.get b := by
  obtain ⟨ha, head, next, hget, hm, hend⟩ := hl
  obtain rfl := Option.some.inj ha
  obtain rfl : next = none := hend
  have hlt : d.addr < h.size := Heap.lt_size hget
  have hpush : (h.push (.outer ⟨k, none, none⟩)).get d.addr =
      some (.outer ⟨d.key, head, none⟩) := by rw [Heap.get_push_of_lt hlt, hget]
  -- The new node is allocated, and the last one then points to it.
  let h' := (h.push (.outer ⟨k, none, none⟩)).put d.addr
    (some (.outer ⟨d.key, head, some h.size⟩))
  have hframe : ∀ b, b < h.size → b ≠ d.addr → h'.get b = h.get b := by
    intro b hb hne
    rw [Heap.get_put_ne hne, Heap.get_push_of_lt hb]
  have hself : h'.get d.addr = some (.outer ⟨d.key, head, some h.size⟩) :=
    Heap.get_put_self (by rw [Heap.size_push]; exact Nat.lt_succ_of_lt hlt) _
  have hnew : h'.get h.size = some (.outer ⟨k, none, none⟩) := by
    rw [Heap.get_put_ne hlt.ne', Heap.get_push_self]
  refine ⟨h', fun n hn => ?_,
    ⟨rfl, head, some h.size, hself, ?_, rfl, none, none, hnew, rfl, rfl⟩, ?_, ?_⟩
  · obtain ⟨n, rfl⟩ := Nat.exists_eq_add_of_lt hn
    rw [locate, bind_apply, outer_apply hget, Outcome.andThen_ok, prog_ite_apply, if_neg hk]
    simp only [bind_apply, alloc_apply, Outcome.andThen_ok, updateOuter_apply hpush,
      pure_apply, List.append_nil, List.nil_append]
    rfl
  · refine hm.congr fun b hb => hframe b (hm.lt_size hb) ?_
    rintro rfl
    exact (List.nodup_cons.mp hnodup).1 hb
  · rw [Heap.size_put, Heap.size_push]
  · intro b hb hout
    refine hframe b hb ?_
    rintro rfl
    exact hout (Cell.mem_blocks.mpr (.inl rfl))

/-- The loop of an insertion appends an outer node when none has the key. -/
theorem locate_absent {l : List (Cell κ ν)} (hl : ListsAt h (some a) l)
    (hnodup : (blocks l).Nodup) (hk : ∀ d ∈ l, d.key ≠ k) :
    ∃ h', (∀ n, l.length ≤ n → locate k n a e h = ⟨.ok h.size, h', [.alloc h.size]⟩) ∧
      ListsAt h' (some a) (l ++ [⟨h.size, k, []⟩]) ∧ h'.size = h.size + 1 ∧
      ∀ b, b < h.size → b ∉ blocks l → h'.get b = h.get b := by
  induction l generalizing a with
  | nil => exact absurd hl (by simp [ListsAt])
  | cons d l ih =>
    rw [List.forall_mem_cons] at hk
    rw [blocks_cons, List.nodup_append] at hnodup
    obtain ⟨hd, hnodup, hapart⟩ := hnodup
    rcases l with _ | ⟨d', l⟩
    · rw [blocks_cons, blocks_nil, List.append_nil]
      exact locate_last hl hd hk.1
    obtain ⟨ha, head, next, hget, hm, hrest⟩ := hl
    obtain rfl := Option.some.inj ha
    obtain ⟨b, rfl⟩ := hrest.exists_addr (List.cons_ne_nil _ _)
    obtain ⟨h', hrun, hl', hsize, hframe⟩ := ih hrest hnodup hk.2
    -- The node is not among those behind it, which is where the list is changed.
    have hd' : ∀ b ∈ d.blocks, b < h.size → h'.get b = h.get b := fun b hb hlt =>
      hframe b hlt fun hin => hapart b hb b hin rfl
    refine ⟨h', fun n hn => ?_, ⟨rfl, head, some b, ?_, ?_, hl'⟩, hsize, ?_⟩
    · obtain ⟨n, rfl⟩ := Nat.exists_eq_add_of_lt hn
      rw [locate, bind_apply, outer_apply hget, Outcome.andThen_ok, prog_ite_apply, if_neg hk.1]
      simp only [hrun _ (Nat.le_add_right _ n), List.nil_append]
    · rw [hd' _ (Cell.mem_blocks.mpr (.inl rfl)) (Heap.lt_size hget), hget]
    · exact hm.congr fun b hb => hd' b (Cell.mem_blocks.mpr (.inr hb)) (hm.lt_size hb)
    · intro b hb hout
      exact hframe b hb fun hin => hout (List.mem_append_right _ hin)

/-- The loop of an insertion ends at an outer node with the key, in a list that has it where the
keyed list is given a value for the key. -/
theorem locate_spec {l : List (Cell κ ν)} (hl : ListsAt h (some a) l)
    (hnodup : (blocks l).Nodup) :
    ∃ h₁ w l₁ c l₂, (∀ n, l.length ≤ n → locate k n a e h = ⟨.ok c.addr, h₁, w⟩) ∧
      ListsAt h₁ (some a) (l₁ ++ c :: l₂) ∧ Changed h h₁ w l (l₁ ++ c :: l₂) ∧
      ∀ v, insert k v (values l) =
        values l₁ ++ ⟨c.key, v :: c.inner.map Prod.snd⟩ :: values l₂ := by
  rcases exists_first k l with ⟨l₁, c, l₂, rfl, hc, hl₁⟩ | habsent
  · refine ⟨h, [], l₁, c, l₂, fun n hn => locate_first hl hl₁ hc ?_, hl, .refl .., fun v => ?_⟩
    · rw [List.length_append, List.length_cons] at hn
      omega
    rw [values_middle, insert_append v (values_absent hl₁)
      (show (Outer.mk c.key (c.inner.map Prod.snd)).key = k from hc)]
  · obtain ⟨h₁, hrun, hl₁, hsize, hframe⟩ := locate_absent (e := e) hl hnodup habsent
    refine ⟨h₁, _, l, ⟨h.size, k, []⟩, [], hrun, hl₁, ⟨?_, ?_, hframe⟩, fun v => ?_⟩
    · exact .of_eq (blocks_append _ _)
    · rw [hsize]
      exact List.range_succ.symm
    · exact insert_of_absent v (values_absent habsent)

/-- An insertion of a value that is there changes nothing. -/
theorem insertNode_found {same : ν → Bool} (v : ν) {l : List (Cell κ ν)} (hl : ListsAt h q l)
    (hn : (blocks l).length ≤ n) (hfound : (search k same (values l)).isSome = true) :
    insertNode same k v n q e h = ⟨.ok 0, h, []⟩ := by
  obtain ⟨x, hx⟩ : ∃ x, (innerOf k l).find? (same ·.2) = some x := by
    rw [search_values, Option.isSome_map] at hfound
    exact Option.isSome_iff_exists.mp hfound
  unfold insertNode
  rw [bind_apply, searchLists_apply hl hn, hx]
  rfl

/-- An insertion of a value that is not there, into a list that the caller holds, puts it where the
keyed list has it. -/
theorem insertNode_absent {same : ν → Bool} (v : ν) {l : List (Cell κ ν)}
    (hl : ListsAt h (some a) l) (hnodup : (blocks l).Nodup)
    (habsent : (search k same (values l)).isSome = false) :
    ∃ h' w l', (∀ n, (blocks l).length ≤ n →
        insertNode same k v n (some a) e h = ⟨.ok 1, h', w⟩) ∧
      ListsAt h' (some a) l' ∧ values l' = insert k v (values l) ∧ Changed h h' w l l' := by
  have hnone : (innerOf k l).find? (same ·.2) = none := by
    rw [search_values, Option.isSome_map] at habsent
    simpa using habsent
  obtain ⟨h₁, w₁, l₁, c, l₂, hlocate, hl₁, hchanged₁, hvalues⟩ :=
    locate_spec (e := e) (k := k) hl hnodup
  have hnodup₁ := hchanged₁.nodup (fun b hb => hl.lt_size hb) hnodup
  obtain ⟨h₂, hpush, hl₂, hchanged₂⟩ := pushInner_spec (e := e) v hl₁ hnodup₁
  refine ⟨h₂, _, _, fun n hn => ?_, hl₂, ?_, hchanged₁.trans hchanged₂⟩
  · have hfind := hlocate n ((length_le_blocks l).trans hn)
    unfold insertNode
    rw [bind_apply, searchLists_apply hl hn, hnone]
    simp only [Option.map_none, Outcome.andThen_ok, bind_apply, pure_apply, hfind, hpush,
      List.nil_append, List.append_nil]
  · rw [values_middle, hvalues v]
    rfl

end Insertion

end LinkedLists
