import SdnController.Lib.ListPrograms

/-!
# What programs on lists do to the blocks

A relation between the states before and after a program and its trace holds of every program that
is put together from parts of which it holds, when it composes (`Composes`, `Within`). Nothing has
to be known of the lists, and a program that stops is covered up to there.

Here the relation says which calls of the allocator a program may make, and that no block changes
what it is: an outer node stays one, and a node of an inner list keeps its value (`Effect`). So the
size of a block, when it depends on these only, is the same for as long as it is there.
-/

namespace Exec

variable {ρ ε σ ω α β : Type}

/-- A relation between two states and a trace that composes. -/
structure Composes (R : σ → List ω → σ → Prop) : Prop where
  refl : ∀ s, R s [] s
  trans : ∀ {s w s' w' s''}, R s w s' → R s' w' s'' → R s (w ++ w') s''

/-- The states before and after a program and its trace are in a relation. -/
def Within (R : σ → List ω → σ → Prop) (x : Prog ρ ε σ ω α) : Prop :=
  ∀ e s, R s (x e s).events (x e s).st

variable {R : σ → List ω → σ → Prop}

/-- A program that only returns. -/
theorem within_pure (hR : Composes R) (a : α) : Within R (pure a : Prog ρ ε σ ω α) :=
  fun _ s => hR.refl s

/-- A program that only stops. -/
theorem within_stop (hR : Composes R) (x : ε) : Within R (stop x : Prog ρ ε σ ω α) :=
  fun _ s => hR.refl s

/-- One program after another. -/
theorem Within.bind (hR : Composes R) {x : Prog ρ ε σ ω α} {f : α → Prog ρ ε σ ω β}
    (hx : Within R x) (hf : ∀ a, Within R (f a)) : Within R (x >>= f) := by
  intro e s
  have h := hx e s
  rw [bind_apply]
  rcases hx' : x e s with ⟨ret, s', w⟩
  rw [hx'] at h
  cases ret with
  | ok a => exact hR.trans h (hf a e s')
  | error e => exact h

/-- A conditional. -/
theorem Within.ite {c : Prop} [Decidable c] {x y : Prog ρ ε σ ω α} (hx : Within R x)
    (hy : Within R y) : Within R (if c then x else y) := by
  split_ifs
  · exact hx
  · exact hy

end Exec

namespace LinkedLists

open Exec

variable {κ ν : Type}

/-- What a block is, apart from its pointers and its key: the value of a node of an inner list. -/
def Block.content : Block κ ν → Option ν
  | .outer _ => none
  | .inner n => some n.value

/-- The calls of a program that only allocates. -/
def HeapEvent.IsAlloc (ev : HeapEvent) : Prop := ∃ a, ev = .alloc a

/-- The calls of a program that only frees. -/
def HeapEvent.IsFree (ev : HeapEvent) : Prop := ∃ a, ev = .free a

/-- The blocks that are still there are what they were. -/
structure Heap.Keeps (h h' : Heap κ ν) : Prop where
  size_le : h.size ≤ h'.size
  content : ∀ a b', a < h.size → h'.get a = some b' →
    ∃ b, h.get a = some b ∧ b'.content = b.content

/-- What a program may do: make calls of a kind, and keep the blocks what they are. -/
structure Effect (calls : HeapEvent → Prop) (h : Heap κ ν) (w : List HeapEvent) (h' : Heap κ ν) :
    Prop where
  calls : ∀ ev ∈ w, calls ev
  keeps : h.Keeps h'

variable {calls : HeapEvent → Prop} {h h' h'' : Heap κ ν}

theorem Heap.Keeps.refl (h : Heap κ ν) : h.Keeps h := ⟨le_rfl, fun _ b' _ hb => ⟨b', hb, rfl⟩⟩

theorem Heap.Keeps.trans (h₁ : h.Keeps h') (h₂ : h'.Keeps h'') : h.Keeps h'' where
  size_le := h₁.size_le.trans h₂.size_le
  content := by
    intro a b'' ha hb''
    obtain ⟨b', hb', hc'⟩ := h₂.content a b'' (ha.trans_le h₁.size_le) hb''
    obtain ⟨b, hb, hc⟩ := h₁.content a b' ha hb'
    exact ⟨b, hb, hc'.trans hc⟩

/-- A block is written, with something of its kind. -/
theorem Heap.keeps_put {a : Addr} {b b' : Block κ ν} (hb : h.get a = some b)
    (hc : b'.content = b.content) : h.Keeps (h.put a (some b')) where
  size_le := (Heap.size_put _).ge
  content := by
    intro a' b'' ha' hb''
    rcases eq_or_ne a' a with rfl | hne
    · rw [Heap.get_put_self ha', Option.some.injEq] at hb''
      exact ⟨b, hb, hb'' ▸ hc⟩
    · rw [Heap.get_put_ne hne] at hb''
      exact ⟨b'', hb'', rfl⟩

/-- The relation composes. -/
theorem effect_composes (calls : HeapEvent → Prop) :
    Composes (Effect calls : Heap κ ν → List HeapEvent → Heap κ ν → Prop) where
  refl := fun h => ⟨by simp, .refl h⟩
  trans := fun h₁ h₂ =>
    ⟨List.forall_mem_append.mpr ⟨h₁.calls, h₂.calls⟩, h₁.keeps.trans h₂.keeps⟩

/-- A program with an effect, for every heap. -/
abbrev Effects {α : Type} (calls : HeapEvent → Prop) (x : HeapProg κ ν α) : Prop :=
  Within (Effect calls) x

section Primitives

variable {a : Addr}

theorem outer_effects (a : Addr) : Effects calls (outer a : HeapProg κ ν (OuterNode κ)) := by
  apply Within.bind (effect_composes calls) (fun _ h => (effect_composes calls).refl h)
  intro h
  split
  · exact within_pure (effect_composes calls) _
  · exact within_stop (effect_composes calls) _

theorem inner_effects (a : Addr) : Effects calls (inner a : HeapProg κ ν (InnerNode ν)) := by
  apply Within.bind (effect_composes calls) (fun _ h => (effect_composes calls).refl h)
  intro h
  split
  · exact within_pure (effect_composes calls) _
  · exact within_stop (effect_composes calls) _

/-- An assignment to an outer node. -/
theorem updateOuter_effects (a : Addr) (f : OuterNode κ → OuterNode κ) :
    Effects calls (updateOuter a f : HeapProg κ ν Unit) := by
  intro e h
  rcases hget : h.get a with _ | n | n
  · rw [show updateOuter a f e h = ⟨.error .dangling, h, []⟩ by simp [updateOuter, outer, hget]]
    exact (effect_composes calls).refl h
  · rw [updateOuter_apply hget]
    exact ⟨by simp, Heap.keeps_put hget rfl⟩
  · rw [show updateOuter a f e h = ⟨.error .dangling, h, []⟩ by simp [updateOuter, outer, hget]]
    exact (effect_composes calls).refl h

/-- An assignment to a node of an inner list that leaves its value. -/
theorem updateInner_effects (a : Addr) {f : InnerNode ν → InnerNode ν}
    (hf : ∀ n, (f n).value = n.value) : Effects calls (updateInner a f : HeapProg κ ν Unit) := by
  intro e h
  rcases hget : h.get a with _ | n | n
  · rw [show updateInner a f e h = ⟨.error .dangling, h, []⟩ by simp [updateInner, inner, hget]]
    exact (effect_composes calls).refl h
  · rw [show updateInner a f e h = ⟨.error .dangling, h, []⟩ by simp [updateInner, inner, hget]]
    exact (effect_composes calls).refl h
  · rw [updateInner_apply hget]
    exact ⟨by simp, Heap.keeps_put hget (congrArg some (hf n))⟩

theorem alloc_effects (b : Block κ ν) : Effects HeapEvent.IsAlloc (alloc b) := by
  intro e h
  rw [alloc_apply]
  refine ⟨by simp [HeapEvent.IsAlloc], (Nat.le_succ _).trans (Heap.size_push).ge, ?_⟩
  intro a b' ha hb'
  rw [Heap.get_push_of_lt ha] at hb'
  exact ⟨b', hb', rfl⟩

theorem free_effects (a : Addr) : Effects HeapEvent.IsFree (free a : HeapProg κ ν Unit) := by
  intro e h
  rw [free_apply]
  refine ⟨by simp [HeapEvent.IsFree], (Heap.size_put _).ge, ?_⟩
  intro a' b' ha' hb'
  rcases eq_or_ne a' a with rfl | hne
  · rw [Heap.get_put_self ha'] at hb'
    exact absurd hb' (by simp)
  · rw [Heap.get_put_ne hne] at hb'
    exact ⟨b', hb', rfl⟩

end Primitives

/-! ## The programs on lists -/

section Lists

variable {p : ν → Bool}

theorem searchInner_effects (p : ν → Bool) (n : ℕ) (q : Link) :
    Effects calls (searchInner p n q : HeapProg κ ν (Option Addr)) := by
  have hR := effect_composes (κ := κ) (ν := ν) calls
  fun_induction searchInner p n q with
  | case1 => exact within_pure hR _
  | case2 => exact within_stop hR _
  | case3 n a ih => exact (inner_effects a).bind hR fun node => (within_pure hR _).ite (ih node)

theorem scan_effects (p : ν → Bool) (n : ℕ) (prev : Option Addr) (q : Link) :
    Effects calls (scan p n prev q : HeapProg κ ν (Option Addr × Link)) := by
  have hR := effect_composes (κ := κ) (ν := ν) calls
  fun_induction scan p n prev q with
  | case1 => exact within_pure hR _
  | case2 => exact within_stop hR _
  | case3 n prev a ih =>
    exact (inner_effects a).bind hR fun node => (within_pure hR _).ite (ih node)

/-- A removal from an inner list calls nothing. -/
theorem unlink_effects (p : ν → Bool) (n : ℕ) (cur : Addr) :
    Effects calls (unlink p n cur : HeapProg κ ν (Option Addr)) := by
  have hR := effect_composes (κ := κ) (ν := ν) calls
  refine (outer_effects cur).bind hR fun node => ?_
  split
  · exact within_pure hR _
  · refine (inner_effects _).bind hR fun tmp => .ite ?_ ?_
    · exact (updateOuter_effects cur _).bind hR fun _ => within_pure hR _
    · refine (scan_effects p n none _).bind hR fun found => ?_
      split
      · exact within_pure hR _
      · exact within_stop hR _
      · refine (inner_effects _).bind hR fun tmp => ?_
        apply Within.bind hR _ fun _ => within_pure hR _
        exact updateInner_effects _ fun _ => rfl

/-- An insertion into an inner list allocates only. -/
theorem pushInner_effects (v : ν) (cur : Addr) :
    Effects HeapEvent.IsAlloc (pushInner v cur : HeapProg κ ν Unit) := by
  have hR := effect_composes (κ := κ) (ν := ν) HeapEvent.IsAlloc
  refine (alloc_effects _).bind hR fun newNode => (outer_effects cur).bind hR fun node => ?_
  apply Within.bind hR _ fun _ => updateOuter_effects cur _
  exact updateInner_effects newNode fun _ => rfl

variable [DecidableEq κ]

theorem searchLists_effects (k : κ) (p : ν → Bool) (n : ℕ) (q : Link) :
    Effects calls (searchLists k p n q : HeapProg κ ν (Option Addr)) := by
  have hR := effect_composes (κ := κ) (ν := ν) calls
  fun_induction searchLists k p n q with
  | case1 => exact within_pure hR _
  | case2 => exact within_stop hR _
  | case3 n a ih =>
    exact (outer_effects a).bind hR fun cur => (searchInner_effects p n cur.head).ite (ih cur)

theorem locate_effects (k : κ) (n : ℕ) (a : Addr) :
    Effects HeapEvent.IsAlloc (locate k n a : HeapProg κ ν Addr) := by
  have hR := effect_composes (κ := κ) (ν := ν) HeapEvent.IsAlloc
  induction n generalizing a with
  | zero => exact within_stop hR _
  | succ n ih =>
    refine (outer_effects a).bind hR fun cur => (within_pure hR _).ite ?_
    split
    · refine (alloc_effects _).bind hR fun listHead => ?_
      exact (updateOuter_effects a _).bind hR fun _ => within_pure hR _
    · exact ih _

/-- An insertion allocates only. -/
theorem insertNode_effects (same : ν → Bool) (k : κ) (v : ν) (n : ℕ) (q : Link) :
    Effects HeapEvent.IsAlloc (insertNode same k v n q : HeapProg κ ν ℤ) := by
  have hR := effect_composes (κ := κ) (ν := ν) HeapEvent.IsAlloc
  have hrest : ∀ ll, Effects HeapEvent.IsAlloc (do
      let cur ← locate k n ll
      pushInner v cur
      pure 1 : HeapProg κ ν ℤ) := fun ll => (locate_effects k n ll).bind hR fun cur =>
    (pushInner_effects v cur).bind hR fun _ => within_pure hR _
  refine (searchLists_effects k same n q).bind hR fun found => ?_
  split
  · exact within_pure hR _
  · -- The loop starts at the caller's list, or at a new one.
    rcases q with _ | a
    · exact (alloc_effects _).bind hR hrest
    · exact (within_pure hR a).bind hR hrest

/-- A removal calls nothing. -/
theorem removeNode_effects (k : κ) (p : ν → Bool) (n : ℕ) (q : Link) :
    Effects calls (removeNode k p n q : HeapProg κ ν (Option Addr)) := by
  have hR := effect_composes (κ := κ) (ν := ν) calls
  fun_induction removeNode k p n q with
  | case1 => exact within_pure hR _
  | case2 => exact within_stop hR _
  | case3 n a ih =>
    exact (outer_effects a).bind hR fun cur => (unlink_effects p n a).ite (ih cur)

end Lists

end LinkedLists
