import SdnController.Lib.Exec
import SdnController.Lib.HashChains
import SdnController.Lib.Regions
import Mathlib.Data.Int.Basic

/-!
# The checking allocator

`smartalloc.c`, function by function. A block of the C library is handed out without its first and
last four bytes, which hold a pattern (`pattern`), and is written down in a hash table of tracks; a
block that is freed is looked up there, its pattern is checked, and its contents are overwritten.
The tracks are the entries of chains (`Store.trackHash`), since nothing but this file reaches them.

What is not decided here is in the environment of a call (`Env`): the address that the C library's
allocator answers with, if it has memory, and whether it has memory for the track. A process that is
out of memory ends (`Stop.exit`). A write to memory that no block has stops the run as well
(`Stop.undefined`), since nothing that happens later is defined; a read of such memory finds
something and goes on.
-/

namespace SdnController.Smartalloc

open Exec Memory HashChains

/-- `PATTERN`. -/
def pattern : UInt8 := 0xA
/-- `MARGIN`. -/
def margin : ℕ := 4
/-- `HASH_SIZE`. -/
def hashSize : ℕ := 113

/-- `smartalloc_hash`. -/
def smartallocHash (x : ℕ) : Fin hashSize := ⟨x % hashSize, Nat.mod_lt _ (by decide)⟩

/-- `struct track_t`, without its `next`. -/
structure Track where
  data : ℕ
  space : UInt64
  needsFree : UInt8
  margin : UInt16
  deriving DecidableEq, Repr

/-- The file and the line of a call. -/
structure Site where
  file : String
  line : ℤ
  deriving DecidableEq, Repr

/-- What is printed. -/
inductive Message where
  /-- `Malloc failure in file %s on line %d`. -/
  | mallocFailure (site : Site)
  /-- `Malloc failure in in smartalloc`. -/
  | trackFailure
  /-- `Attempt to free non-malloced space in file %s at line %d`. -/
  | nonMalloced (site : Site)
  /-- `Space freed in file %s at line %d has data written past bounds.` -/
  | pastBounds (site : Site)
  /-- `%lu bytes left unfreed at end of program!` -/
  | leftUnfreed (bytes : UInt64)
  deriving DecidableEq, Repr

/-- What a call does that can be seen from outside it. -/
inductive Event where
  /-- A message on the error output. -/
  | print (m : Message)
  /-- The pointer that an allocation returns. -/
  | returned (address : ℕ)
  deriving DecidableEq, Repr

/-- Why the process stops inside a call. -/
inductive Stop where
  /-- `exit(1)`, out of memory. -/
  | exit
  /-- A write to memory that no block has, or a `free` of what is not a block. -/
  | undefined
  deriving DecidableEq, Repr

/-- What the C library answers during a call. -/
structure Env where
  /-- The answer of `malloc` for a client's block. -/
  malloc : Option ℕ
  /-- The answer of `valloc`. -/
  valloc : Option ℕ
  /-- Whether there is memory for a track. -/
  track : Bool
  deriving DecidableEq, Repr

/-- The memory, the blocks that the C library has handed out to clients, and the globals. -/
structure Store where
  mem : Mem
  blocks : List Region
  trackHash : Table hashSize Track
  allocated : UInt64
  inited : Bool

/-- The state in which a process starts. -/
def initial (mem : Mem) : Store := ⟨mem, [], fun _ => [], 0, false⟩

/-- A program of the allocator. -/
abbrev AllocProg := Prog Env Stop Store Event

/-! ## The C library -/

/-- `memset`, when one of the blocks has the bytes. -/
def memset (off : ℕ) (c : UInt8) (n : ℕ) : AllocProg Unit := do
  let s ← getState
  if s.blocks.any (·.covers off n) then modifyState fun s => { s with mem := fillAt s.mem off c n }
  else stop .undefined

/-- `malloc` or `valloc`, with its answer. -/
def takeBlock (answer : Option ℕ) (size : ℕ) : AllocProg (Option ℕ) := do
  match answer with
  | none => pure none
  | some base => do
    modifyState fun s => { s with blocks := ⟨base, size⟩ :: s.blocks }
    pure (some base)

/-- `free` of a block of a client. -/
def release (base : ℕ) : AllocProg Unit := do
  let s ← getState
  match unlink (fun r => decide (r.base = base)) s.blocks with
  | none => stop .undefined
  | some (_, rest) => modifyState fun s => { s with blocks := rest }

/-! ## The functions -/

/-- `smartalloc_track`. -/
def smartallocTrack (data : ℕ) (space : UInt64) (needsFree : UInt8) (margin : UInt16) :
    AllocProg Unit := do
  modifyState fun s =>
    if s.inited = false then { s with trackHash := fun _ => [], inited := true } else s
  let env ← ask
  if env.track = false then do
    emit (.print .trackFailure)
    stop .exit
  else
    modifyState fun s =>
      { s with
        allocated := s.allocated + space
        trackHash := s.trackHash.add (smartallocHash data) ⟨data, space, needsFree, margin⟩ }

/-- What `smartalloc` and `smartvalloc` do, with the answer of the allocator that they call. The
size that they ask for wraps around, and the one that they fill does not. -/
def allocate (answer : Option ℕ) (bytes : UInt64) (site : Site) (fill : UInt8) : AllocProg ℕ := do
  match ← takeBlock answer (bytes + 2 * UInt64.ofNat margin).toNat with
  | none => do
    emit (.print (.mallocFailure site))
    stop .exit
  | some base => do
    let data := base + margin
    memset data fill bytes.toNat
    memset (data - margin) pattern margin
    memset (data + bytes.toNat) pattern margin
    smartallocTrack data bytes 1 (UInt16.ofNat margin)
    pure data

/-- `smartalloc`. -/
def smartalloc (bytes : UInt64) (site : Site) (fill : UInt8) : AllocProg ℕ := do
  let env ← ask
  allocate env.malloc bytes site fill

/-- `smartvalloc`. -/
def smartvalloc (bytes : UInt64) (site : Site) (fill : UInt8) : AllocProg ℕ := do
  let env ← ask
  allocate env.valloc bytes site fill

/-- `removeTrackNode`. -/
def removeTrackNode (address : ℕ) : AllocProg (Option Track) := do
  let s ← getState
  match unlink (fun t => decide (t.data = address)) (s.trackHash (smartallocHash address)) with
  | none => pure none
  | some (toFree, chain) => do
    modifyState fun s =>
      { s with
        trackHash := Function.update s.trackHash (smartallocHash address) chain
        allocated := s.allocated - toFree.space }
    pure (some toFree)

/-- The comparisons of the loop in `freechecks`: some byte of a margin is not the pattern. -/
def brokenMargin (mem : Mem) (check : Track) : Bool :=
  (List.range check.margin.toNat).any fun i =>
    mem (check.data + check.space.toNat + i) != pattern ||
      mem (check.data - check.margin.toNat + i) != pattern

/-- `freechecks`. -/
def freechecks (check : Track) (site : Site) : AllocProg Unit := do
  let s ← getState
  if brokenMargin s.mem check then emit (.print (.pastBounds site))
  memset check.data pattern check.space.toNat

/-- The `free` of a tracked block, when it is the allocator's to free. -/
def freeTracked (toFree : Track) : AllocProg Unit :=
  if toFree.needsFree ≠ 0 then release (toFree.data - toFree.margin.toNat) else pure ()

/-- `smartfree`. The track is freed with its removal from the chain. -/
def smartfree (address : ℕ) (site : Site) : AllocProg Unit := do
  match ← removeTrackNode address with
  | none => emit (.print (.nonMalloced site))
  | some toFree => do
    freechecks toFree site
    freeTracked toFree

/-- The number of bytes that `smartrealloc` copies: the smaller size, as an `int` holds it. -/
def limit (newSize space : UInt64) : ℤ := ((min newSize space).toNat : ℤ).bmod (2^32)

/-- `smartrealloc`. Its test of the new block for `NULL` is there, although `smartalloc` does not
return when it has no memory. -/
def smartrealloc (ptr : ℕ) (newSize : UInt64) (freeOnFailure : Bool) (site : Site) (fill : UInt8) :
    AllocProg ℕ := do
  if ptr = 0 then smartalloc newSize site fill
  else do
    match ← removeTrackNode ptr with
    | none => do
      emit (.print (.nonMalloced site))
      pure 0
    | some toFree => do
      let newMem ← smartalloc newSize site fill
      if newMem = 0 then do
        if freeOnFailure then do
          freechecks toFree site
          freeTracked toFree
        else smartallocTrack ptr toFree.space toFree.needsFree (UInt16.ofNat margin)
        pure 0
      else do
        let n := (limit newSize toFree.space).toNat
        let s ← getState
        if s.blocks.any (·.covers newMem n) then do
          modifyState fun s => { s with mem := copyBytes n newMem ptr s.mem }
          freechecks toFree site
          freeTracked toFree
          pure newMem
        else stop .undefined

/-- `report_space`. -/
def reportSpace (s : Store) : UInt64 := s.allocated

/-- `completion_function`, which runs at the end of the process when a track was ever made. -/
def completionFunction (s : Store) : List Message :=
  if s.inited = true ∧ s.allocated ≠ 0 then [.leftUnfreed s.allocated] else []

/-! ## Clients -/

/-- What a client does: a call, or a write through one of its pointers. -/
inductive Request where
  | smartalloc (bytes : UInt64) (site : Site) (fill : UInt8)
  | smartvalloc (bytes : UInt64) (site : Site) (fill : UInt8)
  | smartfree (address : ℕ) (site : Site)
  | smartrealloc (ptr : ℕ) (newSize : UInt64) (freeOnFailure : Bool) (site : Site) (fill : UInt8)
  | write (address : ℕ) (value : UInt8)
  deriving DecidableEq, Repr

/-- A write of a client. -/
def write (address : ℕ) (value : UInt8) : AllocProg Unit := do
  let s ← getState
  if s.blocks.any (·.covers address 1) then
    modifyState fun s => { s with mem := Function.update s.mem address value }
  else stop .undefined

/-- The program of a request. -/
def serve : Request → AllocProg Unit
  | .smartalloc bytes site fill => do
    let data ← smartalloc bytes site fill
    emit (.returned data)
  | .smartvalloc bytes site fill => do
    let data ← smartvalloc bytes site fill
    emit (.returned data)
  | .smartfree address site => smartfree address site
  | .smartrealloc ptr newSize freeOnFailure site fill => do
    let data ← smartrealloc ptr newSize freeOnFailure site fill
    emit (.returned data)
  | .write address value => write address value

/-- A request with what the C library answers during it. -/
abbrev Input := Request × Env

/-- One request. -/
def step (i : Input) : Store → Outcome Stop Store Event Unit := serve i.1 i.2

end SdnController.Smartalloc
