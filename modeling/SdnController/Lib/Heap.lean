import SdnController.Lib.Exec
import Mathlib.Data.List.GetD

/-!
# A heap of list nodes

Blocks of two kinds, the nodes of an outer list and those of an inner list, on a heap that hands out
addresses and takes blocks back (`Heap`). An address is the number of the allocation that made the
block, and is never handed out again, so a block that was freed is known as such for good: whatever
an allocator does with the memory, a program that never touches a freed block cannot tell.

A program over the heap (`HeapProg`) stops when it touches anything that is not a block of the kind
that it takes it for (`Fault.dangling`). Freeing such a thing does nothing, but is in the trace like
any other call, so that the trace tells how often each block was freed. A loop has a number of
rounds that it may take, and stops when they are used up (`Fault.endless`): that it terminates is
that enough rounds make it return, and that more change nothing.
-/

namespace LinkedLists

open Exec

/-- An address: the number of the allocation that made the block. -/
abbrev Addr := ℕ

/-- A pointer: an address, or `NULL`. -/
abbrev Link := Option Addr

/-- A node of an outer list. -/
structure OuterNode (κ : Type) where
  key : κ
  head : Link
  next : Link
  deriving DecidableEq

/-- A node of an inner list. -/
structure InnerNode (ν : Type) where
  value : ν
  next : Link
  deriving DecidableEq

/-- A block of the heap. -/
inductive Block (κ ν : Type) where
  | outer (n : OuterNode κ)
  | inner (n : InnerNode ν)
  deriving DecidableEq

/-- A heap: for each address handed out so far its block, or nothing when it was freed. -/
structure Heap (κ ν : Type) where
  cells : List (Option (Block κ ν))
  deriving DecidableEq

section Heap

variable {κ ν : Type}

/-- The number of addresses handed out. -/
def Heap.size (h : Heap κ ν) : ℕ := h.cells.length

/-- The block at an address, if there is one. -/
def Heap.get (h : Heap κ ν) (a : Addr) : Option (Block κ ν) := h.cells.getD a none

/-- Writes a block at an address that was handed out. -/
def Heap.put (h : Heap κ ν) (a : Addr) (b : Option (Block κ ν)) : Heap κ ν := ⟨h.cells.set a b⟩

/-- A heap with one more block. -/
def Heap.push (h : Heap κ ν) (b : Block κ ν) : Heap κ ν := ⟨h.cells ++ [some b]⟩

variable {h : Heap κ ν} {a a' : Addr} {b : Block κ ν}

@[simp] theorem Heap.size_put (o : Option (Block κ ν)) : (h.put a o).size = h.size :=
  List.length_set

@[simp] theorem Heap.size_push : (h.push b).size = h.size + 1 := by simp [Heap.size, Heap.push]

/-- Only an address that was handed out has a block. -/
theorem Heap.lt_size (hget : h.get a = some b) : a < h.size := by
  by_contra hle
  have hnone : h.get a = none := List.getD_eq_default _ _ (not_lt.mp hle)
  rw [hnone] at hget
  exact absurd hget (by simp)

theorem Heap.get_put_self (ha : a < h.size) (o : Option (Block κ ν)) : (h.put a o).get a = o := by
  unfold Heap.get Heap.put
  rw [List.getD_eq_getElem _ _ (by simpa [Heap.size] using ha), List.getElem_set_self]

theorem Heap.get_put_ne (hne : a' ≠ a) (o : Option (Block κ ν)) :
    (h.put a o).get a' = h.get a' := by
  unfold Heap.get Heap.put
  rw [List.getD_eq_getElem?_getD, List.getD_eq_getElem?_getD, List.getElem?_set_ne hne.symm]

theorem Heap.get_push_self : (h.push b).get h.size = some b := by
  simp [Heap.get, Heap.push, Heap.size]

theorem Heap.get_push_ne (hne : a ≠ h.size) : (h.push b).get a = h.get a := by
  unfold Heap.get Heap.push
  rcases Nat.lt_or_gt_of_ne hne with hlt | hgt
  · exact List.getD_append _ _ _ _ hlt
  · -- Past the new block there is nothing, as before.
    have hlen : h.cells.length < a := hgt
    rw [List.getD_eq_default _ _ (by rw [List.length_append]; exact hlen),
      List.getD_eq_default _ _ hlen.le]

theorem Heap.get_push_of_lt (ha : a < h.size) : (h.push b).get a = h.get a :=
  Heap.get_push_ne ha.ne

end Heap

/-! ## Programs over the heap -/

/-- Why a program over the heap stops. -/
inductive Fault where
  /-- What it touches is not a block of the kind that it takes it for. -/
  | dangling
  /-- It uses a variable that was never assigned. -/
  | unset
  /-- A loop has used up its rounds. -/
  | endless
  deriving DecidableEq, Repr

/-- The calls of the allocator. -/
inductive HeapEvent where
  | alloc (a : Addr)
  | free (a : Addr)
  deriving DecidableEq, Repr

/-- The addresses handed out in a trace, in order. -/
def allocs (w : List HeapEvent) : List Addr :=
  w.filterMap fun | .alloc a => some a | .free _ => none

/-- The addresses freed in a trace, in order. -/
def frees (w : List HeapEvent) : List Addr :=
  w.filterMap fun | .free a => some a | .alloc _ => none

@[simp] theorem allocs_append (w₁ w₂ : List HeapEvent) :
    allocs (w₁ ++ w₂) = allocs w₁ ++ allocs w₂ := List.filterMap_append

@[simp] theorem frees_append (w₁ w₂ : List HeapEvent) :
    frees (w₁ ++ w₂) = frees w₁ ++ frees w₂ := List.filterMap_append

@[simp] theorem allocs_map_free (l : List Addr) : allocs (l.map HeapEvent.free) = [] := by
  simp [allocs, List.filterMap_map]

@[simp] theorem frees_map_free (l : List Addr) : frees (l.map HeapEvent.free) = l := by
  simp [frees, List.filterMap_map]

/-- A program over the heap. -/
abbrev HeapProg (κ ν α : Type) := Prog Unit Fault (Heap κ ν) HeapEvent α

section Programs

variable {κ ν : Type}

/-- Reads a node of an outer list. -/
def outer (a : Addr) : HeapProg κ ν (OuterNode κ) := do
  let h ← getState
  match h.get a with
  | some (.outer n) => pure n
  | _ => stop .dangling

/-- Reads a node of an inner list. -/
def inner (a : Addr) : HeapProg κ ν (InnerNode ν) := do
  let h ← getState
  match h.get a with
  | some (.inner n) => pure n
  | _ => stop .dangling

/-- Assigns to fields of a node of an outer list. -/
def updateOuter (a : Addr) (f : OuterNode κ → OuterNode κ) : HeapProg κ ν Unit := do
  let n ← outer a
  modifyState (·.put a (some (.outer (f n))))

/-- Assigns to fields of a node of an inner list. -/
def updateInner (a : Addr) (f : InnerNode ν → InnerNode ν) : HeapProg κ ν Unit := do
  let n ← inner a
  modifyState (·.put a (some (.inner (f n))))

/-- Allocates a block. -/
def alloc (b : Block κ ν) : HeapProg κ ν Addr := do
  let h ← getState
  modifyState (·.push b)
  emit (.alloc h.size)
  pure h.size

/-- Frees a block. -/
def free (a : Addr) : HeapProg κ ν Unit := do
  modifyState (·.put a none)
  emit (.free a)

variable {h : Heap κ ν} {a : Addr} {e : Unit}

theorem outer_apply {n : OuterNode κ} (hget : h.get a = some (.outer n)) :
    outer a e h = ⟨.ok n, h, []⟩ := by
  simp [outer, hget]

theorem inner_apply {n : InnerNode ν} (hget : h.get a = some (.inner n)) :
    inner a e h = ⟨.ok n, h, []⟩ := by
  simp [inner, hget]

theorem updateOuter_apply {n : OuterNode κ} (hget : h.get a = some (.outer n))
    (f : OuterNode κ → OuterNode κ) :
    updateOuter a f e h = ⟨.ok (), h.put a (some (.outer (f n))), []⟩ := by
  simp [updateOuter, outer_apply hget]

theorem updateInner_apply {n : InnerNode ν} (hget : h.get a = some (.inner n))
    (f : InnerNode ν → InnerNode ν) :
    updateInner a f e h = ⟨.ok (), h.put a (some (.inner (f n))), []⟩ := by
  simp [updateInner, inner_apply hget]

@[simp] theorem alloc_apply (b : Block κ ν) :
    alloc b e h = ⟨.ok h.size, h.push b, [.alloc h.size]⟩ := by
  simp [alloc]

@[simp] theorem free_apply :
    (free a : HeapProg κ ν Unit) e h = ⟨.ok (), h.put a none, [.free a]⟩ := by
  simp [free]

end Programs

end LinkedLists
