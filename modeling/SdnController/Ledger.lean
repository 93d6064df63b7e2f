import SdnController.Smartalloc

/-!
# The ledger of allocations

What the checking allocator is for, without its tables: a list of the allocations that are live
(`Ledger`), each with the bytes that it holds, its margins included. An allocation starts with its
margins and its fill (`Allocation.fresh`), a client's write changes a byte of the one that has it,
and an allocation that is freed is reported when a margin is broken (`Allocation.broken`). A
reallocation is a new allocation that keeps bytes of the old one, which is freed.
-/

namespace SdnController.Smartalloc

open Exec Memory HashChains

/-- An allocation: its first byte, margin included, its size, without the margins, and its bytes,
from the first one on. -/
structure Allocation where
  base : ℕ
  space : UInt64
  cells : ℕ → UInt8

/-- The live allocations. -/
abbrev Ledger := List Allocation

namespace Allocation

variable (A B : Allocation)

/-- The pointer that the client has. -/
def data : ℕ := A.base + margin

/-- The size with the margins. -/
def size : ℕ := A.space.toNat + 2 * margin

/-- The block of the C library. -/
def region : Region := ⟨A.base, A.size⟩

/-- The track. -/
def track : Track := ⟨A.data, A.space, 1, UInt16.ofNat margin⟩

/-- An allocation before any write. -/
def fresh (base : ℕ) (space : UInt64) (fill : UInt8) : Allocation :=
  ⟨base, space, fun k => if margin ≤ k ∧ k < margin + space.toNat then fill else pattern⟩

/-- Some byte of a margin is not the pattern. -/
def broken : Bool :=
  (List.range margin).any fun i =>
    A.cells (margin + A.space.toNat + i) != pattern || A.cells i != pattern

/-- The allocation after a write at an address, which may be another one's. -/
def write (address : ℕ) (value : UInt8) : Allocation :=
  if A.region.Contains address then
    { A with cells := Function.update A.cells (address - A.base) value }
  else A

/-- The allocation with the first `n` bytes of the data of another one. -/
def keep (n : ℕ) : Allocation :=
  { A with cells := fun k => if margin ≤ k ∧ k < margin + n then B.cells k else A.cells k }

end Allocation

/-- A program over the ledger. -/
abbrev LedgerProg := Prog Env Stop Ledger Event

namespace Ledger

/-- A new allocation at the address that the C library answers with. -/
def allocate (answer : Option ℕ) (bytes : UInt64) (site : Site) (fill : UInt8) :
    LedgerProg Allocation := do
  match answer with
  | none => do
    emit (.print (.mallocFailure site))
    stop .exit
  | some base =>
    -- No block is large enough for this size with its margins.
    if 2^64 ≤ bytes.toNat + 2 * margin then stop .undefined
    else do
      let env ← ask
      if env.track = false then do
        emit (.print .trackFailure)
        stop .exit
      else do
        modifyState fun L => Allocation.fresh base bytes fill :: L
        pure (Allocation.fresh base bytes fill)

/-- The allocation of a pointer, taken out of the ledger. -/
def take (address : ℕ) : LedgerProg (Option Allocation) := do
  let L ← getState
  match unlink (fun A => decide (A.data = address)) L with
  | none => pure none
  | some (A, rest) => do
    modifyState fun _ => rest
    pure (some A)

/-- The check of an allocation that is freed. -/
def check (A : Allocation) (site : Site) : LedgerProg Unit :=
  if A.broken then emit (.print (.pastBounds site)) else pure ()

/-- The allocation of a pointer is freed. -/
def free (address : ℕ) (site : Site) : LedgerProg Unit := do
  match ← take address with
  | none => emit (.print (.nonMalloced site))
  | some A => check A site

/-- The allocation of a pointer is replaced by a new one that keeps what `smartrealloc` copies. -/
def realloc (ptr : ℕ) (newSize : UInt64) (site : Site) (fill : UInt8) : LedgerProg ℕ := do
  let env ← ask
  if ptr = 0 then do
    let B ← allocate env.malloc newSize site fill
    pure B.data
  else do
    match ← take ptr with
    | none => do
      emit (.print (.nonMalloced site))
      pure 0
    | some A => do
      let B ← allocate env.malloc newSize site fill
      modifyState fun L => B.keep A (limit newSize A.space).toNat :: L.tail
      check A site
      pure B.data

/-- A write of a client. -/
def write (address : ℕ) (value : UInt8) : LedgerProg Unit := do
  let L ← getState
  if L.any fun A => decide (A.region.Contains address) then
    modifyState fun L => L.map (·.write address value)
  else stop .undefined

/-- What a request does to the ledger. -/
def serve : Request → LedgerProg Unit
  | .smartalloc bytes site fill => do
    let env ← ask
    let A ← allocate env.malloc bytes site fill
    emit (.returned A.data)
  | .smartvalloc bytes site fill => do
    let env ← ask
    let A ← allocate env.valloc bytes site fill
    emit (.returned A.data)
  | .smartfree address site => free address site
  | .smartrealloc ptr newSize _ site fill => do
    let data ← realloc ptr newSize site fill
    emit (.returned data)
  | .write address value => write address value

/-- One request, on the ledger. -/
def step (i : Input) : Ledger → Outcome Stop Ledger Event Unit := serve i.1 i.2

/-- The bytes of the live allocations, without margins. -/
def space (L : Ledger) : ℕ := (L.map fun A => A.space.toNat).sum

end Ledger

end SdnController.Smartalloc
