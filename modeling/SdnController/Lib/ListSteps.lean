import SdnController.Lib.Steps
import SdnController.Lib.ListRemovals

/-!
# Programs on lists, step by step

The insertion and the removal of `ListPrograms.lean` as the steps that they take, an access to the
heap each, and what the heap is like between two of them.

A removal changes the lists with the one write that takes the node out. An insertion allocates its
node, fills it, and puts it into the list with its last write, and the outer node of a new key is
put into its list in the same way. So wherever they are cut, the lists are lists, and there is at
most one block that is in none of them: a new node that is not in yet, or an old one that is out
(`Cut`, `insertNode_cut`, `removeNode_cut`).
-/

namespace LinkedLists

open Exec KeyedLists

variable {κ ν : Type}

/-! ## Programs -/

/-- A program over the heap, step by step. -/
abbrev HeapSteps (κ ν α : Type) := Steps Unit Fault (Heap κ ν) HeapEvent α

namespace Stepwise

/-- `searchInner`, step by step. -/
def searchInner (p : ν → Bool) : ℕ → Link → HeapSteps κ ν (Option Addr)
  | _, none => pure none
  | 0, some _ => atomic (stop .endless)
  | n + 1, some a => do
    let curNode ← atomic (inner a)
    if p curNode.value then pure (some a) else searchInner p n curNode.next

/-- `scan`, step by step. -/
def scan (p : ν → Bool) : ℕ → Option Addr → Link → HeapSteps κ ν (Option Addr × Link)
  | _, prev, none => pure (prev, none)
  | 0, _, some _ => atomic (stop .endless)
  | n + 1, prev, some a => do
    let tmp ← atomic (inner a)
    if p tmp.value then pure (prev, some a) else scan p n (some a) tmp.next

/-- `unlink`, step by step. -/
def unlink (p : ν → Bool) (n : ℕ) (cur : Addr) : HeapSteps κ ν (Option Addr) := do
  let node ← atomic (outer cur)
  match node.head with
  | none => pure none
  | some b => do
    let tmp ← atomic (inner b)
    if p tmp.value then do
      atomic (updateOuter cur fun cur => { cur with head := tmp.next })
      pure (some b)
    else do
      let found ← scan p n none (some b)
      match found with
      | (_, none) => pure none
      | (none, some _) => atomic (stop .unset)
      | (some prev, some c) => do
        let tmp ← atomic (inner c)
        atomic (updateInner prev fun prev => { prev with next := tmp.next })
        pure (some c)

/-- `pushInner`, step by step. -/
def pushInner (v : ν) (cur : Addr) : HeapSteps κ ν Unit := do
  let newNode ← atomic (alloc (.inner ⟨v, none⟩))
  let node ← atomic (outer cur)
  atomic (updateInner newNode fun new => { new with next := node.head })
  atomic (updateOuter cur fun cur => { cur with head := some newNode })

section Keyed

variable [DecidableEq κ]

/-- `searchLists`, step by step. -/
def searchLists (k : κ) (p : ν → Bool) : ℕ → Link → HeapSteps κ ν (Option Addr)
  | _, none => pure none
  | 0, some _ => atomic (stop .endless)
  | n + 1, some a => do
    let cur ← atomic (outer a)
    if cur.key = k then searchInner p n cur.head else searchLists k p n cur.next

/-- `locate`, step by step. -/
def locate (k : κ) : ℕ → Addr → HeapSteps κ ν Addr
  | 0, _ => atomic (stop .endless)
  | n + 1, a => do
    let cur ← atomic (outer a)
    if cur.key = k then pure a
    else
      match cur.next with
      | none => do
        let listHead ← atomic (alloc (.outer ⟨k, none, none⟩))
        atomic (updateOuter a fun cur => { cur with next := some listHead })
        pure listHead
      | some b => locate k n b

/-- `insertNode`, step by step. -/
def insertNode (same : ν → Bool) (k : κ) (v : ν) (n : ℕ) (ll : Link) : HeapSteps κ ν ℤ := do
  let found ← searchLists k same n ll
  match found with
  | some _ => pure 0
  | none => do
    let ll ← match ll with
      | some a => pure a
      | none => atomic (alloc (.outer ⟨k, none, none⟩))
    let cur ← locate k n ll
    pushInner v cur
    pure 1

/-- `removeNode`, step by step. -/
def removeNode (k : κ) (p : ν → Bool) : ℕ → Link → HeapSteps κ ν (Option Addr)
  | _, none => pure none
  | 0, some _ => atomic (stop .endless)
  | n + 1, some a => do
    let cur ← atomic (outer a)
    if cur.key = k then unlink p n a else removeNode k p n cur.next

end Keyed

/-! ## They are the same programs -/

section Same

variable {p : ν → Bool} {k : κ}

@[simp] theorem searchInner_prog (n : ℕ) (q : Link) :
    (searchInner p n q : HeapSteps κ ν (Option Addr)).prog = LinkedLists.searchInner p n q := by
  induction n generalizing q with
  | zero => cases q <;> simp [searchInner, LinkedLists.searchInner]
  | succ n ih => cases q <;> simp [searchInner, LinkedLists.searchInner, ih]

@[simp] theorem scan_prog (n : ℕ) (prev : Option Addr) (q : Link) :
    (scan p n prev q : HeapSteps κ ν (Option Addr × Link)).prog =
      LinkedLists.scan p n prev q := by
  induction n generalizing prev q with
  | zero => cases q <;> simp [scan, LinkedLists.scan]
  | succ n ih => cases q <;> simp [scan, LinkedLists.scan, ih]

@[simp] theorem unlink_prog (n : ℕ) (cur : Addr) :
    (unlink p n cur : HeapSteps κ ν (Option Addr)).prog = LinkedLists.unlink p n cur := by
  unfold unlink LinkedLists.unlink
  rw [Steps.prog_bind, Steps.prog_atomic]
  congr 1
  funext node
  rcases node.head with _ | b
  · rfl
  simp only [Steps.prog_bind, Steps.prog_atomic, Steps.prog_ite, Steps.prog_pure, scan_prog]
  congr 1
  funext tmp
  congr 2
  funext found
  rcases found with ⟨_ | prev, _ | c⟩ <;> simp

@[simp] theorem pushInner_prog (v : ν) (cur : Addr) :
    (pushInner v cur : HeapSteps κ ν Unit).prog = LinkedLists.pushInner v cur := by
  simp [pushInner, LinkedLists.pushInner]

variable [DecidableEq κ]

@[simp] theorem searchLists_prog (n : ℕ) (q : Link) :
    (searchLists k p n q).prog = LinkedLists.searchLists k p n q := by
  induction n generalizing q with
  | zero => cases q <;> simp [searchLists, LinkedLists.searchLists]
  | succ n ih => cases q <;> simp [searchLists, LinkedLists.searchLists, ih]

@[simp] theorem locate_prog (n : ℕ) (a : Addr) :
    (locate k n a : HeapSteps κ ν Addr).prog = LinkedLists.locate k n a := by
  induction n generalizing a with
  | zero => simp [locate, LinkedLists.locate]
  | succ n ih =>
    simp only [locate, LinkedLists.locate, Steps.prog_bind, Steps.prog_atomic, Steps.prog_ite,
      Steps.prog_pure]
    congr 1
    funext cur
    rcases cur.next with _ | b <;> simp [ih]

@[simp] theorem insertNode_prog (same : ν → Bool) (v : ν) (n : ℕ) (q : Link) :
    (insertNode same k v n q).prog = LinkedLists.insertNode same k v n q := by
  unfold insertNode LinkedLists.insertNode
  rw [Steps.prog_bind, searchLists_prog]
  congr 1
  funext found
  rcases found with _ | a
  · rcases q with _ | a <;> simp
  · rfl

@[simp] theorem removeNode_prog (n : ℕ) (q : Link) :
    (removeNode k p n q).prog = LinkedLists.removeNode k p n q := by
  induction n generalizing q with
  | zero => cases q <;> simp [removeNode, LinkedLists.removeNode]
  | succ n ih => cases q <;> simp [removeNode, LinkedLists.removeNode, ih]

end Same

/-! ## Searches and removals -/

/-- Reading a node of an outer list only looks. -/
theorem looks_outer (a : Addr) : Looks (atomic (outer a) : HeapSteps κ ν (OuterNode κ)) := by
  refine looks_atomic fun e h n h' w hrun => ?_
  rcases hget : h.get a with _ | (m | m) <;> simp [outer, hget] at hrun
  exact ⟨hrun.2.1.symm, hrun.2.2⟩

/-- Reading a node of an inner list only looks. -/
theorem looks_inner (a : Addr) : Looks (atomic (inner a) : HeapSteps κ ν (InnerNode ν)) := by
  refine looks_atomic fun e h n h' w hrun => ?_
  rcases hget : h.get a with _ | (m | m) <;> simp [inner, hget] at hrun
  exact ⟨hrun.2.1.symm, hrun.2.2⟩

/-- A loop whose rounds are used up only looks. -/
theorem looks_stop {α : Type} (x : Fault) : Looks (atomic (stop x) : HeapSteps κ ν α) :=
  looks_atomic fun e h n h' w hrun => by simp at hrun

section Removal

variable {p : ν → Bool} {k : κ} {M : Heap κ ν → List HeapEvent → Heap κ ν → Prop}

theorem looks_searchInner (n : ℕ) (q : Link) :
    Looks (searchInner p n q : HeapSteps κ ν (Option Addr)) := by
  induction n generalizing q with
  | zero =>
    cases q with
    | none => exact looks_pure _
    | some a => exact looks_stop _
  | succ n ih =>
    cases q with
    | none => exact looks_pure _
    | some a => exact (looks_inner a).bind fun node => .ite (looks_pure _) (ih _)

theorem looks_scan (n : ℕ) (prev : Option Addr) (q : Link) :
    Looks (scan p n prev q : HeapSteps κ ν (Option Addr × Link)) := by
  induction n generalizing prev q with
  | zero =>
    cases q with
    | none => exact looks_pure _
    | some a => exact looks_stop _
  | succ n ih =>
    cases q with
    | none => exact looks_pure _
    | some a => exact (looks_inner a).bind fun node => .ite (looks_pure _) (ih _ _)

/-- The first write of `unlink` is the last one. -/
theorem between_unlink (n : ℕ) (cur : Addr) :
    Between M (unlink p n cur : HeapSteps κ ν (Option Addr)) := by
  refine .bind_looks (looks_outer cur) fun node => ?_
  rcases node.head with _ | b
  · exact (looks_pure _).between
  refine .bind_looks (looks_inner b) fun tmp => .ite ?_ ?_
  · exact (between_atomic _).bind_pure fun _ => some b
  refine .bind_looks (looks_scan n none _) fun found => ?_
  rcases found with ⟨_ | prev, _ | c⟩
  · exact (looks_pure _).between
  · exact (looks_stop _).between
  · exact (looks_pure _).between
  · exact .bind_looks (looks_inner c) fun tmp => (between_atomic _).bind_pure fun _ => some c

variable [DecidableEq κ]

theorem looks_searchLists (n : ℕ) (q : Link) :
    Looks (searchLists k p n q : HeapSteps κ ν (Option Addr)) := by
  induction n generalizing q with
  | zero =>
    cases q with
    | none => exact looks_pure _
    | some a => exact looks_stop _
  | succ n ih =>
    cases q with
    | none => exact looks_pure _
    | some a => exact (looks_outer a).bind fun node => .ite (looks_searchInner _ _) (ih _)

/-- And so is the first write of a removal. -/
theorem between_removeNode (n : ℕ) (q : Link) :
    Between M (removeNode k p n q : HeapSteps κ ν (Option Addr)) := by
  induction n generalizing q with
  | zero =>
    cases q with
    | none => exact (looks_pure _).between
    | some a => exact (looks_stop _).between
  | succ n ih =>
    cases q with
    | none => exact (looks_pure _).between
    | some a => exact .bind_looks (looks_outer a) fun node => .ite (between_unlink _ _) (ih _)

end Removal

/-! ## Insertions -/

/-- A block was allocated, and no block that was there before was written. -/
structure Fresh (h : Heap κ ν) (w : List HeapEvent) (h' : Heap κ ν) : Prop where
  size : h'.size = h.size + 1
  events : w = [.alloc h.size]
  frame : ∀ a, a < h.size → h'.get a = h.get a

section Insertion

variable {h h' : Heap κ ν} {e : Unit} {w : List HeapEvent} {k : κ} {a : Addr}

theorem fresh_push (b : Block κ ν) : Fresh h [.alloc h.size] (h.push b) :=
  ⟨Heap.size_push, rfl, fun _ ha => Heap.get_push_of_lt ha⟩

/-- The new block is written. -/
theorem Fresh.put (hf : Fresh h w h') (o : Option (Block κ ν)) : Fresh h w (h'.put h.size o) :=
  ⟨(Heap.size_put _).trans hf.size, hf.events,
    fun a ha => (Heap.get_put_ne ha.ne _).trans (hf.frame a ha)⟩

/-- An assignment to a node that returns has written that node. -/
theorem updateInner_eq_ok {f : InnerNode ν → InnerNode ν}
    (hrun : updateInner a f e h = ⟨.ok (), h', w⟩) : (∃ o, h' = h.put a o) ∧ w = [] := by
  rcases hget : h.get a with _ | (m | m) <;> simp [updateInner, inner, hget] at hrun
  exact ⟨⟨_, hrun.1.symm⟩, hrun.2⟩

/-- A program that allocates a block first is cut before, or in what it does with the block. -/
theorem between_alloc {α : Type} {b : Block κ ν} {q : Addr → HeapSteps κ ν α}
    (hq : ∀ e h h' w, Passes (q h.size) e (h.push b) h' w → Fresh h (.alloc h.size :: w) h' ∨
      ∃ r, (q h.size).prog e (h.push b) = ⟨.ok r, h', w⟩) :
    Between Fresh (atomic (alloc b) >>= q) := by
  intro e h h' w hp
  obtain hfirst | ⟨new, h₁, w₁, w₂, halloc, hrest, rfl⟩ := hp.bind_cases
  · refine (passes_atomic hfirst).imp_right fun ⟨a, ha⟩ => .inl ?_
    obtain ⟨-, rfl, rfl⟩ := Outcome.mk.injEq .. ▸ (alloc_apply _).symm.trans ha
    exact fresh_push b
  rw [Steps.prog_atomic, alloc_apply, Outcome.mk.injEq] at halloc
  obtain ⟨hnew, rfl, rfl⟩ := halloc
  obtain rfl := Except.ok.inj hnew
  refine .inr ((hq e h h' w₂ hrest).imp_right fun ⟨r, hr⟩ => ⟨r, ?_⟩)
  rw [Steps.prog_bind, Steps.prog_atomic, bind_apply, alloc_apply, Outcome.andThen_ok, hr]

/-- An insertion at the head of an inner list writes to no other node before its last step. -/
theorem between_pushInner (v : ν) (cur : Addr) :
    Between Fresh (pushInner v cur : HeapSteps κ ν Unit) := by
  refine between_alloc fun e h h' w hp => ?_
  have hfresh : Fresh h [.alloc h.size] (h.push (.inner ⟨v, none⟩)) := fresh_push _
  obtain ⟨rfl, rfl⟩ | ⟨node, hnode, hrest⟩ := (looks_outer cur).bind_cases hp
  · exact .inl hfresh
  obtain hsecond | ⟨⟨⟩, h₂, w₁, w₂, hupdate, hlast, rfl⟩ := hrest.bind_cases
  · obtain ⟨rfl, rfl⟩ | ⟨⟨⟩, hupdate⟩ := passes_atomic hsecond
    · exact .inl hfresh
    · obtain ⟨⟨o, rfl⟩, rfl⟩ := updateInner_eq_ok hupdate
      exact .inl (hfresh.put o)
  · -- The last step is the one that puts the node into the list.
    obtain ⟨rfl, rfl⟩ | ⟨⟨⟩, hdone⟩ := passes_atomic hlast
    · rw [Steps.prog_atomic] at hupdate
      obtain ⟨⟨o, rfl⟩, rfl⟩ := updateInner_eq_ok hupdate
      exact .inl (hfresh.put o)
    · refine .inr ⟨(), ?_⟩
      rw [Steps.prog_bind, bind_apply, hnode, Outcome.andThen_ok, Steps.prog_bind, bind_apply,
        hupdate, Outcome.andThen_ok, Steps.prog_atomic, hdone]
      rfl

variable [DecidableEq κ]

/-- Nor does the loop of an insertion, when it appends an outer node. -/
theorem between_locate (n : ℕ) (a : Addr) :
    Between Fresh (locate k n a : HeapSteps κ ν Addr) := by
  induction n generalizing a with
  | zero => exact (looks_stop _).between
  | succ n ih =>
    refine .bind_looks (looks_outer a) fun cur => .ite (looks_pure _).between ?_
    rcases cur.next with _ | b
    · refine between_alloc fun e h h' w hp => ?_
      -- The node is linked by the one write that is left.
      have hlink : Between (fun _ _ _ => False) (atomic
          (updateOuter a fun cur => { cur with next := some h.size } : HeapProg κ ν Unit) >>=
          fun _ => pure h.size) := (between_atomic _).bind_pure _
      obtain ⟨rfl, rfl⟩ | hfalse | hdone := hlink e _ _ _ hp
      · exact .inl (fresh_push _)
      · exact hfalse.elim
      · exact .inr hdone
    · exact ih b

end Insertion

/-! ## The lists in between -/

/-- A program on two-level lists was cut: the lists are lists, and one block at most is in none of
them, which is accounted for as if it were freed. -/
structure Cut (h h' : Heap κ ν) (w : List HeapEvent) (q : Link) (l l' : List (Cell κ ν))
    (spare : List Addr) : Prop where
  lists : ListsAt h' q l'
  changed : Changed h h' (w ++ spare.map .free) l l'
  one : spare.length ≤ 1

section Cut

variable {h h' h₁ : Heap κ ν} {w w₁ w₂ : List HeapEvent} {q : Link} {l l' l₁ : List (Cell κ ν)}
  {spare : List Addr} {e : Unit} {n : ℕ} {k : κ} {p : ν → Bool}

/-- Nothing was done. -/
theorem Cut.start (hl : ListsAt h q l) : Cut h h [] q l l [] := ⟨hl, .refl h l, Nat.zero_le 1⟩

/-- All was done. -/
theorem Cut.done (hl : ListsAt h' q l') (hc : Changed h h' w l l') : Cut h h' w q l l' [] where
  lists := hl
  changed := by
    rw [List.map_nil, List.append_nil]
    exact hc
  one := Nat.zero_le 1

/-- Something was done before. -/
theorem Cut.after (hc : Changed h h₁ w₁ l l₁) (hcut : Cut h₁ h' w₂ q l₁ l' spare) :
    Cut h h' (w₁ ++ w₂) q l l' spare where
  lists := hcut.lists
  changed := by
    rw [List.append_assoc]
    exact hc.trans hcut.changed
  one := hcut.one

/-- A block that was just allocated is in no list. -/
theorem Fresh.cut (hf : Fresh h w h') (hl : ListsAt h q l) : Cut h h' w q l l [h.size] where
  lists := hl.congr fun a ha => hf.frame a (hl.lt_size ha)
  changed := by
    obtain ⟨hsize, rfl, hframe⟩ := hf
    refine ⟨List.perm_append_comm, ?_, fun a ha _ => hframe a ha⟩
    rw [hsize]
    exact List.range_succ.symm
  one := le_rfl

variable [DecidableEq κ]

/-- A node that was taken out is in no list. -/
theorem cut_of_unlinked {x : Addr × ν} (hu : Unlinked k p h h' q l l' x) :
    Cut h h' [] q l l' [x.1] where
  lists := hu.lists
  changed := by
    have haccount := hu.account.symm.trans (.of_eq (List.append_nil _).symm)
    refine ⟨haccount, ?_, fun a _ ha => hu.frame a ha⟩
    rw [hu.size]
    exact List.append_nil _
  one := le_rfl

/-- Wherever an insertion is cut, the lists are lists, and one block at most is in none. -/
theorem insertNode_cut {same : ν → Bool} {v : ν} {a : Addr} (hl : ListsAt h (some a) l)
    (hnodup : (blocks l).Nodup) (hn : (blocks l).length ≤ n)
    (hp : Passes (insertNode same k v n (some a)) e h h' w) :
    ∃ l' spare, Cut h h' w (some a) l l' spare := by
  obtain ⟨rfl, rfl⟩ | ⟨found, -, hrest⟩ := (looks_searchLists n _).bind_cases hp
  · exact ⟨l, [], .start hl⟩
  rcases found with _ | b
  swap
  · obtain ⟨rfl, rfl⟩ := passes_pure hrest
    exact ⟨l, [], .start hl⟩
  obtain ⟨h₁, w₁, l₁, c, l₂, hlocate, hl₁, hchanged, -⟩ :=
    locate_spec (e := e) (k := k) hl hnodup
  have hfind := hlocate n ((length_le_blocks l).trans hn)
  obtain hfirst | ⟨cur, h₂, w₂, w₃, hreturn, hrest, rfl⟩ :=
    Passes.bind_cases (p := locate k n a) hrest
  · -- The loop that finds the outer node, or appends one.
    obtain ⟨rfl, rfl⟩ | hfresh | ⟨b, hb⟩ := between_locate n a e h h' w hfirst
    · exact ⟨l, [], .start hl⟩
    · exact ⟨l, [h.size], hfresh.cut hl⟩
    · rw [locate_prog, hfind, Outcome.mk.injEq] at hb
      obtain ⟨-, rfl, rfl⟩ := hb
      exact ⟨_, [], .done hl₁ hchanged⟩
  · rw [locate_prog, hfind, Outcome.mk.injEq] at hreturn
    obtain ⟨hcur, rfl, rfl⟩ := hreturn
    obtain rfl := Except.ok.inj hcur
    have hnodup₁ := hchanged.nodup (fun b hb => hl.lt_size hb) hnodup
    obtain ⟨h₂, hpush, hl₂, hchanged₂⟩ := pushInner_spec (e := e) v hl₁ hnodup₁
    have hbetween := (between_pushInner (κ := κ) v c.addr).bind_pure fun _ => (1 : ℤ)
    obtain ⟨rfl, rfl⟩ | hfresh | ⟨b, hb⟩ := hbetween e h₁ h' w₃ hrest
    · exact ⟨_, [], .after hchanged (.start hl₁)⟩
    · exact ⟨_, [h₁.size], .after hchanged (hfresh.cut hl₁)⟩
    · rw [Steps.prog_bind, bind_apply, pushInner_prog, hpush, Outcome.andThen_ok,
        Outcome.mk.injEq] at hb
      obtain ⟨-, rfl, rfl⟩ := hb
      exact ⟨_, [], .after hchanged (.done hl₂ (by simpa using hchanged₂))⟩

/-- Wherever a removal is cut, the lists are lists, and one block at most is in none. -/
theorem removeNode_cut (hl : ListsAt h q l) (hnodup : (blocks l).Nodup)
    (hn : (blocks l).length ≤ n) (hp : Passes (removeNode k p n q) e h h' w) :
    ∃ l' spare, Cut h h' w q l l' spare := by
  obtain ⟨rfl, rfl⟩ | hfalse | ⟨r, hr⟩ :=
    between_removeNode (M := fun _ _ _ => False) n q e h h' w hp
  · exact ⟨l, [], .start hl⟩
  · exact hfalse.elim
  rw [removeNode_prog] at hr
  rcases removeNode_spec (e := e) (k := k) (p := p) hl hnodup with
    ⟨hrun, -⟩ | ⟨x, h₁, l₁, hrun, hu⟩
  · obtain ⟨-, rfl, rfl⟩ := Outcome.mk.injEq .. ▸ (hrun n hn).symm.trans hr
    exact ⟨l, [], .start hl⟩
  · obtain ⟨-, rfl, rfl⟩ := Outcome.mk.injEq .. ▸ (hrun n hn).symm.trans hr
    exact ⟨l₁, [x.1], cut_of_unlinked hu⟩

end Cut

end Stepwise

end LinkedLists
