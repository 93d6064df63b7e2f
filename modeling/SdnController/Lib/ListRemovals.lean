import SdnController.Lib.ListPrograms

/-!
# Removals from two-level linked lists

What the programs of `ListPrograms.lean` that take nodes out do: `removeNode_spec`, by which a
removal takes out the first node with a value that is asked for and leaves its block, which can then
be freed (`Unlinked.freed`), and `freeLists_spec`, by which the loop that frees everything frees
each block once.

A removal writes the pointer that led to the node, in the outer node when it is the first one, and
else in the node before it. The loop that looks for that node is `scan`, and `scanned` says where
it stops.
-/

namespace LinkedLists

open Exec KeyedLists

variable {κ ν : Type}

/-! ## Removals -/

section Removal

variable {h : Heap κ ν} {q : Link} {e : Unit} {n : ℕ} {p : ν → Bool}

/-- Where the loop of `scan` ends, and the node before it. -/
def scanned (p : ν → Bool) : Option Addr → List (Addr × ν) → Option Addr × Link
  | prev, [] => (prev, none)
  | prev, x :: m => if p x.2 then (prev, some x.1) else scanned p (some x.1) m

theorem scan_apply {m : List (Addr × ν)} (hm : InnerAt h q m) (hn : m.length ≤ n)
    (prev : Option Addr) : scan p n prev q e h = ⟨.ok (scanned p prev m), h, []⟩ := by
  induction m generalizing q n prev with
  | nil =>
    rw [show q = none from hm]
    cases n <;> rfl
  | cons x m ih =>
    obtain ⟨rfl, next, hget, hrest⟩ := hm
    obtain ⟨n, rfl⟩ := Nat.exists_eq_add_of_lt hn
    rw [scan, bind_apply, inner_apply hget, Outcome.andThen_ok, prog_ite_apply, scanned]
    split_ifs with hp
    · rfl
    · rw [ih hrest (Nat.le_add_right ..)]
      rfl

/-- The loop runs to the end of a list without a value that satisfies `p`. -/
theorem scanned_not_found {m : List (Addr × ν)} (hp : ∀ x ∈ m, ¬p x.2 = true)
    (prev : Option Addr) : (scanned p prev m).2 = none := by
  induction m generalizing prev with
  | nil => rfl
  | cons x m ih =>
    rw [List.forall_mem_cons] at hp
    rw [scanned, if_neg hp.1]
    exact ih hp.2 _

/-- The loop stops at the first value that satisfies `p`, with the node before it. -/
theorem scanned_found {m₁ m₂ : List (Addr × ν)} {x y : Addr × ν}
    (hp : ∀ z ∈ m₁ ++ [y], ¬p z.2 = true) (hx : p x.2 = true) (prev : Option Addr) :
    scanned p prev (m₁ ++ y :: x :: m₂) = (some y.1, some x.1) := by
  induction m₁ generalizing prev with
  | nil =>
    rw [List.nil_append, scanned, if_neg (hp y (by simp)), scanned, if_pos hx]
  | cons z m₁ ih =>
    rw [List.cons_append, List.forall_mem_cons] at hp
    rw [List.cons_append, scanned, if_neg hp.1]
    exact ih hp.2 _

/-- A node of an inner list is passed over by the node before it. -/
theorem InnerAt.unlink_next {m₁ m₂ : List (Addr × ν)} {x y : Addr × ν}
    (hm : InnerAt h q (m₁ ++ y :: x :: m₂)) (hnodup : ((m₁ ++ y :: x :: m₂).map Prod.fst).Nodup) :
    ∃ nx ny, h.get x.1 = some (.inner ⟨x.2, nx⟩) ∧ h.get y.1 = some (.inner ⟨y.2, ny⟩) ∧
      InnerAt (h.put y.1 (some (.inner ⟨y.2, nx⟩))) q (m₁ ++ y :: m₂) := by
  induction m₁ generalizing q with
  | nil =>
    obtain ⟨hq, ny, hgety, -, nx, hgetx, hrest⟩ := hm
    refine ⟨nx, ny, hgetx, hgety, hq, nx, Heap.get_put_self (Heap.lt_size hgety) _, ?_⟩
    refine hrest.congr fun a ha => Heap.get_put_ne ?_ _
    rintro rfl
    rw [List.nil_append, List.map_cons, List.nodup_cons] at hnodup
    exact hnodup.1 (List.mem_cons_of_mem _ ha)
  | cons z m₁ ih =>
    obtain ⟨hq, nz, hgetz, hrest⟩ := hm
    rw [List.cons_append, List.map_cons, List.nodup_cons] at hnodup
    obtain ⟨nx, ny, hgetx, hgety, hlist⟩ := ih hrest hnodup.2
    refine ⟨nx, ny, hgetx, hgety, hq, nz, (Heap.get_put_ne ?_ _).trans hgetz, hlist⟩
    intro hz
    exact hnodup.1 (by simp [hz])

section Unlink

variable {a : Addr} {k : κ} {head next : Link} {m m₁ m₂ : List (Addr × ν)} {x : Addr × ν}

/-- Nothing is taken out of an inner list without a value that satisfies `p`. -/
theorem unlink_not_found (hget : h.get a = some (.outer ⟨k, head, next⟩)) (hm : InnerAt h head m)
    (hn : m.length ≤ n) (hp : ∀ x ∈ m, ¬p x.2 = true) : unlink p n a e h = ⟨.ok none, h, []⟩ := by
  unfold unlink
  rw [bind_apply, outer_apply hget, Outcome.andThen_ok]
  cases m with
  | nil =>
    rw [show head = none from hm]
    rfl
  | cons x m =>
    have hscan := scan_apply (p := p) (e := e) hm hn none
    have hnone := scanned_not_found hp (none : Option Addr)
    obtain ⟨rfl, _, hgetx, -⟩ := hm
    rw [List.forall_mem_cons] at hp
    rcases hs : scanned p none (x :: m) with ⟨prev, tmp⟩
    rw [hs] at hscan hnone
    obtain rfl : tmp = none := hnone
    simp only [bind_apply, inner_apply hgetx, Outcome.andThen_ok, prog_ite_apply, if_neg hp.1,
      hscan, pure_apply, List.nil_append]

/-- The first node with a value that satisfies `p` is taken out of an inner list. The pointer that
led to it is in the outer node, or in the node before it, and nothing else is written. -/
theorem unlink_found (hget : h.get a = some (.outer ⟨k, head, next⟩))
    (hm : InnerAt h head (m₁ ++ x :: m₂)) (hnodup : (a :: (m₁ ++ x :: m₂).map Prod.fst).Nodup)
    (hp : ∀ y ∈ m₁, ¬p y.2 = true) (hx : p x.2 = true) :
    ∃ h' head', (∀ n, (m₁ ++ x :: m₂).length ≤ n →
        unlink p n a e h = ⟨.ok (some x.1), h', []⟩) ∧ h'.size = h.size ∧
      h'.get a = some (.outer ⟨k, head', next⟩) ∧ InnerAt h' head' (m₁ ++ m₂) ∧
      ∀ b, b ≠ a → b ∉ m₁.map Prod.fst → h'.get b = h.get b := by
  rw [List.nodup_cons] at hnodup
  unfold unlink
  rcases List.eq_nil_or_concat m₁ with rfl | ⟨m₁, y, rfl⟩
  · -- The head of the list.
    obtain ⟨rfl, nx, hgetx, hrest⟩ := hm
    refine ⟨h.put a (some (.outer ⟨k, nx, next⟩)), nx, fun n _ => ?_, Heap.size_put _,
      Heap.get_put_self (Heap.lt_size hget) _, ?_, fun b hb _ => Heap.get_put_ne hb _⟩
    · simp only [bind_apply, outer_apply hget, Outcome.andThen_ok, inner_apply hgetx,
        prog_ite_apply, if_pos hx, updateOuter_apply hget, pure_apply, List.nil_append]
    · refine hrest.congr fun b hb => Heap.get_put_ne ?_ _
      rintro rfl
      exact hnodup.1 (List.mem_cons_of_mem _ hb)
  · -- A node further on, behind `y`.
    have hlist : (m₁ ++ [y]) ++ x :: m₂ = m₁ ++ y :: x :: m₂ := by simp
    rw [List.concat_eq_append] at hm hnodup hp ⊢
    rw [hlist] at hm hnodup ⊢
    obtain ⟨nx, ny, hgetx, hgety, hnew⟩ := hm.unlink_next hnodup.2
    have hya : a ≠ y.1 := by
      rintro rfl
      exact hnodup.1 (by simp)
    refine ⟨h.put y.1 (some (.inner ⟨y.2, nx⟩)), head, fun n hn => ?_, Heap.size_put _,
      (Heap.get_put_ne hya _).trans hget, ?_, ?_⟩
    · have hscan := scan_apply (p := p) (e := e) hm hn none
      rw [scanned_found hp hx] at hscan
      -- The list starts with a node whose value does not satisfy `p`.
      obtain ⟨b, v, nb, rfl, hgetb, hb⟩ : ∃ b v nb, head = some b ∧
          h.get b = some (.inner ⟨v, nb⟩) ∧ ¬p v = true := by
        cases m₁ with
        | nil => exact ⟨y.1, y.2, ny, hm.1, hgety, hp y (by simp)⟩
        | cons z m₁ =>
          obtain ⟨hq, nz, hgetz, -⟩ := hm
          exact ⟨z.1, z.2, nz, hq, hgetz, hp z (by simp)⟩
      simp only [bind_apply, outer_apply hget, Outcome.andThen_ok, inner_apply hgetb,
        prog_ite_apply, if_neg hb, hscan, inner_apply hgetx, updateInner_apply hgety, pure_apply,
        List.nil_append]
    · rw [List.append_assoc]
      exact hnew
    · intro b _ hb
      refine Heap.get_put_ne ?_ _
      rintro rfl
      exact hb (by simp)

end Unlink

variable [DecidableEq κ] {k : κ}

/-- The loop of a removal stops at the first outer node with the key. -/
theorem removeNode_first {l₁ l₂ : List (Cell κ ν)} {c : Cell κ ν}
    (hl : ListsAt h q (l₁ ++ c :: l₂)) (hl₁ : ∀ d ∈ l₁, d.key ≠ k) (hc : c.key = k) :
    removeNode k p (n + 1 + l₁.length) q e h = unlink p n c.addr e h := by
  induction l₁ generalizing q with
  | nil =>
    obtain ⟨rfl, head, next, hget, -⟩ := hl
    rw [List.length_nil, Nat.add_zero, removeNode, bind_apply, outer_apply hget,
      Outcome.andThen_ok, prog_ite_apply, if_pos hc, List.nil_append]
  | cons d l₁ ih =>
    obtain ⟨rfl, head, next, hget, -, hrest⟩ := hl
    rw [List.forall_mem_cons] at hl₁
    rw [List.length_cons, ← Nat.add_assoc, removeNode, bind_apply, outer_apply hget,
      Outcome.andThen_ok, prog_ite_apply, if_neg hl₁.1, ih hrest hl₁.2, List.nil_append]

/-- The loop of a removal runs to the end when no outer node has the key. -/
theorem removeNode_absent {l : List (Cell κ ν)} (hl : ListsAt h q l) (hn : l.length ≤ n)
    (hk : ∀ d ∈ l, d.key ≠ k) : removeNode k p n q e h = ⟨.ok none, h, []⟩ := by
  induction l generalizing q n with
  | nil =>
    rw [show q = none from hl]
    cases n <;> rfl
  | cons d l ih =>
    obtain ⟨rfl, head, next, hget, -, hrest⟩ := hl
    obtain ⟨n, rfl⟩ := Nat.exists_eq_add_of_lt hn
    rw [List.forall_mem_cons] at hk
    rw [removeNode, bind_apply, outer_apply hget, Outcome.andThen_ok, prog_ite_apply,
      if_neg hk.1, ih hrest (Nat.le_add_right ..) hk.2]
    rfl

/-- A removal has taken a node out of a two-level list: its block is still there, and is all that
the list has lost. -/
structure Unlinked (k : κ) (p : ν → Bool) (h h' : Heap κ ν) (q : Link) (l l' : List (Cell κ ν))
    (x : Addr × ν) : Prop where
  lists : ListsAt h' q l'
  found : search k p (values l) = some x.2
  values_eq : values l' = (remove k p (values l)).2
  account : (blocks l).Perm (x.1 :: blocks l')
  size : h'.size = h.size
  node : ∃ next, h'.get x.1 = some (.inner ⟨x.2, next⟩)
  frame : ∀ b, b ∉ blocks l → h'.get b = h.get b

/-- A node is taken out of the inner list of an outer node, which is the first one with the key. -/
theorem unlinked_of_unlink {l₁ l₂ : List (Cell κ ν)} {c : Cell κ ν} {m₁ m₂ : List (Addr × ν)}
    {x : Addr × ν} {h' : Heap κ ν} (hl : ListsAt h q (l₁ ++ c :: l₂))
    (hnodup : (blocks (l₁ ++ c :: l₂)).Nodup) (hl₁ : ∀ d ∈ l₁, d.key ≠ k) (hc : c.key = k)
    (hsplit : c.inner = m₁ ++ x :: m₂) (hp : ∀ y ∈ m₁, ¬p y.2 = true) (hx : p x.2 = true)
    (hsize : h'.size = h.size)
    (hcell : ∀ head next, h.get c.addr = some (.outer ⟨c.key, head, next⟩) →
      ∃ head', h'.get c.addr = some (.outer ⟨c.key, head', next⟩) ∧ InnerAt h' head' (m₁ ++ m₂))
    (hframe : ∀ b, b ≠ c.addr → b ∉ m₁.map Prod.fst → h'.get b = h.get b) :
    Unlinked k p h h' q (l₁ ++ c :: l₂) (l₁ ++ { c with inner := m₁ ++ m₂ } :: l₂) x := by
  have hblocks : c.blocks = c.addr :: (m₁.map Prod.fst ++ x.1 :: m₂.map Prod.fst) := by
    rw [Cell.blocks, hsplit, List.map_append, List.map_cons]
  have hout : ∀ b, b ∉ c.blocks → h'.get b = h.get b := by
    intro b hb
    rw [hblocks, List.mem_cons, not_or] at hb
    exact hframe b hb.1 fun hin => hb.2 (List.mem_append_left _ hin)
  have hpv : ∀ v ∈ m₁.map Prod.snd, ¬p v = true := by
    rw [List.forall_mem_map]
    exact hp
  -- What the keyed list loses at the first node with the key.
  have hremove : remove k p (values (l₁ ++ c :: l₂)) = (some x.2,
      values l₁ ++ ⟨c.key, (m₁ ++ m₂).map Prod.snd⟩ :: values l₂) := by
    rw [values_middle, remove_append (values_absent hl₁)
      (show (Outer.mk c.key (c.inner.map Prod.snd)).key = k from hc)]
    simp only [hsplit, List.map_append, List.map_cons]
    rw [List.find?_append, List.find?_eq_none.mpr hpv, List.find?_cons_of_pos hx,
      List.eraseP_append_right _ hpv, List.eraseP_cons_of_pos hx]
    rfl
  refine ⟨hl.replace hnodup (fun b _ => hout b) fun head next hget _ => hcell head next hget,
    ?_, ?_, ?_, hsize, ?_, ?_⟩
  · rw [← remove_fst, hremove]
  · rw [hremove, values_middle]
  · -- The block of the node is the one that is missing.
    have hone : ([] ++ c.blocks).Perm
        ([x.1] ++ ({ c with inner := m₁ ++ m₂ } : Cell κ ν).blocks) := by
      rw [List.nil_append, hblocks, Cell.blocks, List.map_append]
      exact (List.perm_middle.cons _).trans (.swap ..)
    exact blocks_perm_of_cell hone l₁ l₂
  · obtain ⟨head, next, hget, hm⟩ := hl.get_cell
    obtain ⟨nx, hgetx⟩ := hm.get_mem (hsplit ▸ List.mem_append_right _ List.mem_cons_self)
    have hcell : c.blocks.Nodup :=
      (List.nodup_append.mp ((blocks_perm l₁ l₂ c).nodup_iff.mp hnodup)).1
    rw [hblocks, List.nodup_cons] at hcell
    refine ⟨nx, (hframe x.1 (fun hxc => hcell.1 ?_) fun hin => ?_).trans hgetx⟩
    · exact hxc ▸ List.mem_append_right _ List.mem_cons_self
    · exact (List.nodup_append.mp hcell.2).2.2 _ hin _ List.mem_cons_self rfl
  · intro b hb
    exact hout b fun hin => hb ((blocks_perm l₁ l₂ c).mem_iff.mpr (List.mem_append_left _ hin))

/-- Where the first node that satisfies `p` is, in the first inner list of a key. -/
structure FirstAt (k : κ) (p : ν → Bool) (l l₁ : List (Cell κ ν)) (c : Cell κ ν)
    (l₂ : List (Cell κ ν)) (m₁ : List (Addr × ν)) (x : Addr × ν) (m₂ : List (Addr × ν)) :
    Prop where
  cells : l = l₁ ++ c :: l₂
  key : c.key = k
  before : ∀ d ∈ l₁, d.key ≠ k
  nodes : c.inner = m₁ ++ x :: m₂
  skipped : ∀ y ∈ m₁, ¬p y.2 = true
  found : p x.2 = true

/-- There is a first node that satisfies `p`, or none. -/
theorem exists_firstAt (k : κ) (p : ν → Bool) (l : List (Cell κ ν)) :
    (∃ l₁ c l₂ m₁ x m₂, FirstAt k p l l₁ c l₂ m₁ x m₂) ∨ ∀ x ∈ innerOf k l, ¬p x.2 = true := by
  cases hfind : (innerOf k l).find? (p ·.2) with
  | none => exact .inr (List.find?_eq_none.mp hfind)
  | some x =>
    obtain ⟨hx, m₁, m₂, hsplit, hm₁⟩ := List.find?_eq_some_iff_append.mp hfind
    rcases exists_first k l with ⟨l₁, c, l₂, rfl, hc, hl₁⟩ | habsent
    · rw [innerOf_append hl₁ hc] at hsplit
      exact .inl ⟨l₁, c, l₂, m₁, x, m₂, rfl, hc, hl₁, hsplit, fun y hy => by simpa using hm₁ y hy,
        hx⟩
    · -- A list without the key has no inner list of it.
      rw [innerOf_of_absent habsent] at hsplit
      simp at hsplit

section Found

variable {l l₁ l₂ : List (Cell κ ν)} {c : Cell κ ν} {m₁ m₂ : List (Addr × ν)} {x : Addr × ν}

/-- The rounds that are left when the loop has reached the node with the key are enough for the
inner list. -/
theorem removeNode_reaches (hl : ListsAt h q (l₁ ++ c :: l₂)) (hl₁ : ∀ d ∈ l₁, d.key ≠ k)
    (hc : c.key = k) (hn : (blocks (l₁ ++ c :: l₂)).length ≤ n) :
    ∃ n', c.inner.length ≤ n' ∧ removeNode k p n q e h = unlink p n' c.addr e h := by
  rw [(blocks_perm l₁ l₂ c).length_eq, List.length_append, List.length_append,
    c.length_blocks] at hn
  have hrounds := length_le_blocks l₁
  obtain ⟨n', rfl⟩ : ∃ n', n = n' + 1 + l₁.length := ⟨n - 1 - l₁.length, by omega⟩
  exact ⟨n', by omega, removeNode_first hl hl₁ hc⟩

/-- A removal takes out the first node that satisfies `p`, and writes nothing outside the inner list
that it is in. -/
theorem removeNode_found (hf : FirstAt k p l l₁ c l₂ m₁ x m₂) (hl : ListsAt h q l)
    (hnodup : (blocks l).Nodup) :
    ∃ h', (∀ n, (blocks l).length ≤ n → removeNode k p n q e h = ⟨.ok (some x.1), h', []⟩) ∧
      Unlinked k p h h' q l (l₁ ++ { c with inner := m₁ ++ m₂ } :: l₂) x ∧
      ∀ b, b ∉ c.blocks → h'.get b = h.get b := by
  obtain ⟨rfl, hc, hl₁, hsplit, hp, hx⟩ := hf
  obtain ⟨head, next, hget, hm⟩ := hl.get_cell
  have hcell := (List.nodup_append.mp ((blocks_perm l₁ l₂ c).nodup_iff.mp hnodup)).1
  rw [Cell.blocks, hsplit] at hcell
  rw [hsplit] at hm
  obtain ⟨h', head', hunlink, hsize, hget', hm', hframe⟩ :=
    unlink_found (e := e) hget hm hcell hp hx
  refine ⟨h', fun n hn => ?_, unlinked_of_unlink hl hnodup hl₁ hc hsplit hp hx hsize ?_ hframe,
    fun b hb => hframe b ?_ ?_⟩
  · obtain ⟨n', hn', hrun⟩ := removeNode_reaches hl hl₁ hc hn
    rw [hrun, hunlink n' (hsplit ▸ hn')]
  · intro head₁ next₁ hget₁
    rw [hget, Option.some.injEq, Block.outer.injEq, OuterNode.mk.injEq] at hget₁
    obtain ⟨-, -, rfl⟩ := hget₁
    exact ⟨head', hget', hm'⟩
  · rintro rfl
    exact hb (Cell.mem_blocks.mpr (.inl rfl))
  · intro hin
    rw [Cell.mem_blocks, hsplit, List.map_append] at hb
    exact hb (.inr (List.mem_append_left _ hin))

/-- A removal changes nothing when no node of the first inner list of the key satisfies `p`. -/
theorem removeNode_not_found (hl : ListsAt h q l) (hp : ∀ x ∈ innerOf k l, ¬p x.2 = true)
    (hn : (blocks l).length ≤ n) : removeNode k p n q e h = ⟨.ok none, h, []⟩ := by
  rcases exists_first k l with ⟨l₁, c, l₂, rfl, hc, hl₁⟩ | habsent
  · rw [innerOf_append hl₁ hc] at hp
    obtain ⟨head, next, hget, hm⟩ := hl.get_cell
    obtain ⟨n', hn', hrun⟩ := removeNode_reaches hl hl₁ hc hn
    rw [hrun, unlink_not_found hget hm hn' hp]
  · exact removeNode_absent hl ((length_le_blocks l).trans hn) habsent

/-- A removal returns the first node that satisfies `p` of the first inner list of the key, and
takes it out, or finds none and changes nothing. -/
theorem removeNode_spec (hl : ListsAt h q l) (hnodup : (blocks l).Nodup) :
    ((∀ n, (blocks l).length ≤ n → removeNode k p n q e h = ⟨.ok none, h, []⟩) ∧
        search k p (values l) = none) ∨
      ∃ x h' l', (∀ n, (blocks l).length ≤ n →
          removeNode k p n q e h = ⟨.ok (some x.1), h', []⟩) ∧
        Unlinked k p h h' q l l' x := by
  rcases exists_firstAt k p l with ⟨l₁, c, l₂, m₁, x, m₂, hf⟩ | hnone
  · obtain ⟨h', hrun, hu, -⟩ := removeNode_found (e := e) hf hl hnodup
    exact .inr ⟨x, h', _, hrun, hu⟩
  · refine .inl ⟨fun n hn => removeNode_not_found hl hnone hn, ?_⟩
    rw [search_values, List.find?_eq_none.mpr hnone]
    rfl

end Found

/-- A node that was taken out is freed: the lists are those without it, and its block is accounted
for. -/
theorem Unlinked.freed {h' : Heap κ ν} {l l' : List (Cell κ ν)} {x : Addr × ν}
    (hu : Unlinked k p h h' q l l' x) (hnodup : (blocks l).Nodup) :
    ListsAt (h'.put x.1 none) q l' ∧ Changed h (h'.put x.1 none) [.free x.1] l l' := by
  have hout := List.nodup_cons.mp (hu.account.nodup_iff.mp hnodup)
  refine ⟨hu.lists.congr fun b hb => Heap.get_put_ne ?_ _, ?_, ?_, ?_⟩
  · rintro rfl
    exact hout.1 hb
  · exact hu.account.symm.trans (.of_eq (List.append_nil _).symm)
  · rw [Heap.size_put, hu.size]
    exact List.append_nil _
  · intro b _ hb
    rw [Heap.get_put_ne _ none, hu.frame b hb]
    rintro rfl
    exact hb (hu.account.mem_iff.mpr List.mem_cons_self)

end Removal

/-! ## Freeing everything -/

section Free

variable {h : Heap κ ν} {q : Link} {e : Unit} {n : ℕ}

/-- The inner list of an outer node is freed, node by node, and the node's head is then `NULL`. -/
theorem freeInner_spec {a : Addr} {k : κ} {head next : Link} {m : List (Addr × ν)}
    (hget : h.get a = some (.outer ⟨k, head, next⟩)) (hm : InnerAt h head m)
    (hnodup : (a :: m.map Prod.fst).Nodup) :
    ∃ h', (∀ n, m.length ≤ n →
        freeInner n a e h = ⟨.ok (), h', (m.map Prod.fst).map .free⟩) ∧ h'.size = h.size ∧
      h'.get a = some (.outer ⟨k, none, next⟩) ∧ (∀ b ∈ m.map Prod.fst, h'.get b = none) ∧
      ∀ b, b ≠ a → b ∉ m.map Prod.fst → h'.get b = h.get b := by
  induction m generalizing h head with
  | nil =>
    obtain rfl : head = none := hm
    refine ⟨h, fun n _ => ?_, rfl, hget, fun b hb => absurd hb List.not_mem_nil, fun _ _ _ => rfl⟩
    cases n <;> rw [freeInner, bind_apply, outer_apply hget] <;> rfl
  | cons x m ih =>
    obtain ⟨rfl, nx, hgetx, hrest⟩ := hm
    rw [List.map_cons, List.nodup_cons, List.mem_cons, not_or, List.nodup_cons] at hnodup
    obtain ⟨⟨hax, ham⟩, hxm, hmnodup⟩ := hnodup
    -- The head is moved on before its block is freed.
    let h₁ := (h.put a (some (.outer ⟨k, nx, next⟩))).put x.1 none
    have hframe₁ : ∀ b, b ≠ a → b ≠ x.1 → h₁.get b = h.get b := by
      intro b hba hbx
      rw [Heap.get_put_ne hbx, Heap.get_put_ne hba]
    have hget₁ : h₁.get a = some (.outer ⟨k, nx, next⟩) := by
      rw [Heap.get_put_ne hax, Heap.get_put_self (Heap.lt_size hget)]
    have hm₁ : InnerAt h₁ nx m := by
      refine hrest.congr fun b hb => hframe₁ b ?_ ?_
      · rintro rfl
        exact ham hb
      · rintro rfl
        exact hxm hb
    obtain ⟨h', hrun, hsize, hget', hfreed, hframe⟩ :=
      ih hget₁ hm₁ (List.nodup_cons.mpr ⟨ham, hmnodup⟩)
    refine ⟨h', fun n hn => ?_, ?_, hget', ?_, ?_⟩
    · obtain ⟨n, rfl⟩ := Nat.exists_eq_add_of_lt hn
      simp only [freeInner, bind_apply, outer_apply hget, Outcome.andThen_ok, inner_apply hgetx,
        updateOuter_apply hget, free_apply]
      rw [show (h.put a (some (.outer ⟨k, nx, next⟩))).put x.1 none = h₁ from rfl,
        hrun _ (Nat.le_add_right ..)]
      rfl
    · rw [hsize, Heap.size_put, Heap.size_put]
    · rw [List.map_cons, List.forall_mem_cons]
      refine ⟨?_, hfreed⟩
      rw [hframe x.1 (Ne.symm hax) hxm]
      exact Heap.get_put_self (by rw [Heap.size_put]; exact Heap.lt_size hgetx) _
    · intro b hba hb
      rw [List.map_cons, List.mem_cons, not_or] at hb
      rw [hframe b hba hb.2, hframe₁ b hba hb.1]

/-- The order in which a two-level list is freed: each inner list before its outer node. -/
def freeOrder (l : List (Cell κ ν)) : List Addr :=
  l.flatMap fun c => c.inner.map Prod.fst ++ [c.addr]

/-- Every block is freed once. -/
theorem freeOrder_perm (l : List (Cell κ ν)) : (freeOrder l).Perm (blocks l) := by
  induction l with
  | nil => exact .refl _
  | cons c l ih => exact (List.perm_append_singleton ..).append ih

/-- A two-level list is freed: every block of it once, and no other. -/
theorem freeLists_spec {l : List (Cell κ ν)} (hl : ListsAt h q l) (hnodup : (blocks l).Nodup) :
    ∃ h', (∀ n, (blocks l).length ≤ n →
        freeLists n q e h = ⟨.ok none, h', (freeOrder l).map .free⟩) ∧ h'.size = h.size ∧
      (∀ a ∈ blocks l, h'.get a = none) ∧ ∀ a, a ∉ blocks l → h'.get a = h.get a := by
  induction l generalizing h q with
  | nil =>
    obtain rfl : q = none := hl
    refine ⟨h, fun n _ => ?_, rfl, fun a ha => absurd ha List.not_mem_nil, fun _ _ => rfl⟩
    cases n <;> rfl
  | cons c l ih =>
    obtain ⟨rfl, head, next, hget, hm, hrest⟩ := hl
    rw [blocks_cons, List.nodup_append] at hnodup
    obtain ⟨hc, hlnodup, hapart⟩ := hnodup
    obtain ⟨h₁, hrun₁, hsize₁, hget₁, hfreed₁, hframe₁⟩ := freeInner_spec (e := e) hget hm hc
    have hout₁ : ∀ a, a ∉ c.blocks → (h₁.put c.addr none).get a = h.get a := by
      intro a ha
      rw [Cell.mem_blocks, not_or] at ha
      rw [Heap.get_put_ne ha.1, hframe₁ a ha.1 ha.2]
    -- The pointer to the next outer node is read before its block is freed.
    have hl₁ : ListsAt (h₁.put c.addr none) next l := hrest.congr fun a ha =>
      hout₁ a fun hin => hapart a hin a ha rfl
    obtain ⟨h', hrun, hsize, hfreed, hframe⟩ := ih hl₁ hlnodup
    refine ⟨h', fun n hn => ?_, ?_, ?_, ?_⟩
    · rw [blocks_cons, List.length_append, c.length_blocks] at hn
      obtain ⟨n, rfl⟩ := Nat.exists_eq_add_one_of_ne_zero (show n ≠ 0 by omega)
      simp only [freeLists, bind_apply, hrun₁ n (by omega), Outcome.andThen_ok,
        outer_apply hget₁, free_apply, hrun n (by omega)]
      simp [freeOrder]
    · rw [hsize, Heap.size_put, hsize₁]
    · intro a ha
      rw [blocks_cons, List.mem_append] at ha
      rcases ha with ha | ha
      · rw [hframe a fun hin => hapart a ha a hin rfl]
        rcases Cell.mem_blocks.mp ha with rfl | ha
        · exact Heap.get_put_self (Heap.lt_size hget₁) _
        · rw [Heap.get_put_ne, hfreed₁ a ha]
          rintro rfl
          exact (List.nodup_cons.mp hc).1 ha
      · exact hfreed a ha
    · intro a ha
      rw [blocks_cons, List.mem_append, not_or] at ha
      rw [hframe a ha.2, hout₁ a ha.1]

end Free

end LinkedLists
