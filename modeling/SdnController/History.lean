import SdnController.Accounts

/-!
# What happens to an allocation

`LedgerRule` says what a request that completes does to the ledger, one rule for each way in which a
request can go. So an allocation that nobody frees or reallocates stays in the ledger, and changes
only where a client writes (`LedgerRule.keeps`), whatever else is allocated, freed, or written.

In the store this says that each byte of a live allocation, its margins included, is what the last
write to it left, or what it was at first (`live_bytes`), and that a `free` complains of a write
past the bounds exactly when one of the margins was last written with another byte than the pattern
(`overrun_reported_iff`). Every block that the allocator tracks was handed out by a request of the
run, by an allocation or a reallocation, and not freed since (`exists_handedOut`).
-/

namespace SdnController.Smartalloc

open Exec Memory HashChains

/-- The allocation that a request makes anew. -/
def creates : Input → Option Allocation
  | (.smartalloc bytes _ fill, e) => e.malloc.map fun base => .fresh base bytes fill
  | (.smartvalloc bytes _ fill, e) => e.valloc.map fun base => .fresh base bytes fill
  | (.smartrealloc ptr newSize _ _ fill, e) =>
    if ptr = 0 then e.malloc.map fun base => .fresh base newSize fill else none
  | _ => none

/-- The size of the block that a request asks for. -/
def Request.bytes : Request → Option UInt64
  | .smartalloc bytes _ _ => some bytes
  | .smartvalloc bytes _ _ => some bytes
  | .smartrealloc _ newSize _ _ _ => some newSize
  | _ => none

/-- The request frees or reallocates what the pointer leads to. -/
def frees (data : ℕ) (i : Input) : Prop :=
  match i.1 with
  | .smartfree address _ => address = data
  | .smartrealloc ptr _ _ _ _ => ptr = data
  | _ => False

/-- The byte that the request writes at an address. -/
def writeAt (address : ℕ) (i : Input) : Option UInt8 :=
  match i.1 with
  | .write a value => if a = address then some value else none
  | _ => none

/-- The byte that was written last at an address. -/
def lastWrite (address : ℕ) (is : List Input) : Option UInt8 :=
  (is.filterMap (writeAt address)).getLast?

/-- What is printed when the allocation is freed. -/
def Allocation.complaints (A : Allocation) (site : Site) : List Event :=
  if A.broken then [.print (.pastBounds site)] else []

/-- What a request that completes does to the ledger, and its events. -/
inductive LedgerRule (L : Ledger) : Input → Ledger → List Event → Prop where
  | allocated {i : Input} {A : Allocation} (h : creates i = some A) :
    LedgerRule L i (A :: L) [.returned A.data]
  | unknownFreed {address : ℕ} {site : Site} {e : Env}
    (h : unlink (fun A => decide (A.data = address)) L = none) :
    LedgerRule L (.smartfree address site, e) L [.print (.nonMalloced site)]
  | freed {address : ℕ} {site : Site} {e : Env} {A : Allocation} {rest : Ledger}
    (h : unlink (fun A => decide (A.data = address)) L = some (A, rest)) :
    LedgerRule L (.smartfree address site, e) rest (A.complaints site)
  | unknownMoved {ptr : ℕ} {newSize : UInt64} {onFailure : Bool} {site : Site} {fill : UInt8}
    {e : Env} (hptr : ptr ≠ 0) (h : unlink (fun A => decide (A.data = ptr)) L = none) :
    LedgerRule L (.smartrealloc ptr newSize onFailure site fill, e) L
      [.print (.nonMalloced site), .returned 0]
  | moved {ptr : ℕ} {newSize : UInt64} {onFailure : Bool} {site : Site} {fill : UInt8} {e : Env}
    {A : Allocation} {rest : Ledger} {base : ℕ} (hptr : ptr ≠ 0)
    (h : unlink (fun A => decide (A.data = ptr)) L = some (A, rest))
    (hbase : e.malloc = some base) :
    LedgerRule L (.smartrealloc ptr newSize onFailure site fill, e)
      ((Allocation.fresh base newSize fill).keep A (limit newSize A.space).toNat :: rest)
      (A.complaints site ++ [.returned (base + margin)])
  | written {address : ℕ} {value : UInt8} {e : Env} :
    LedgerRule L (.write address value, e) (L.map (·.write address value)) []

section Rule

variable {L L' : Ledger} {i : Input} {e : Env} {w : List Event} {A : Allocation}

/-- What an allocation that completes does. -/
theorem allocate_ok {answer : Option ℕ} {bytes : UInt64} {site : Site} {fill : UInt8}
    (h : Ledger.allocate answer bytes site fill e L = ⟨.ok A, L', w⟩) :
    ∃ base, answer = some base ∧ A = .fresh base bytes fill ∧ L' = A :: L ∧ w = [] := by
  cases answer with
  | none => simp [Ledger.allocate] at h
  | some base =>
    simp only [Ledger.allocate] at h
    split_ifs at h with hwrap
    · simp at h
    · simp only [ask_bind, prog_ite_apply] at h
      split_ifs at h with htrack
      · simp at h
      · simp only [bind_apply, modifyState_apply, Outcome.andThen_ok, pure_apply, List.append_nil,
          Outcome.mk.injEq, Except.ok.injEq] at h
        obtain ⟨rfl, rfl, rfl⟩ := h
        exact ⟨base, rfl, rfl, rfl, rfl⟩

theorem take_none {address : ℕ} (h : unlink (fun A => decide (A.data = address)) L = none) :
    Ledger.take address e L = ⟨.ok none, L, []⟩ := by
  simp only [Ledger.take, getState_bind, h, pure_apply]

theorem take_some {address : ℕ} {r : Allocation × Ledger}
    (h : unlink (fun A => decide (A.data = address)) L = some r) :
    Ledger.take address e L = ⟨.ok (some r.1), r.2, []⟩ := by
  simp only [Ledger.take, getState_bind, h]
  rfl

theorem check_apply (A : Allocation) (site : Site) :
    Ledger.check A site e L = ⟨.ok (), L, A.complaints site⟩ := by
  unfold Ledger.check Allocation.complaints
  rw [prog_ite_apply]
  split_ifs <;> rfl

/-- A request that completes follows one of the rules. -/
theorem step_rule (h : Ledger.step i L = ⟨.ok (), L', w⟩) : LedgerRule L i L' w := by
  obtain ⟨r, e⟩ := i
  unfold Ledger.step at h
  cases r with
  | smartalloc bytes site fill =>
    simp only [Ledger.serve, ask_bind] at h
    rw [bind_apply] at h
    obtain ⟨A, L₁, w₁, w₂, ha, hr, rfl⟩ := Outcome.andThen_eq_ok h
    obtain ⟨base, hbase, rfl, rfl, rfl⟩ := allocate_ok ha
    simp only [emit_apply, Outcome.mk.injEq, true_and] at hr
    obtain ⟨rfl, rfl⟩ := hr
    exact .allocated (by simp [creates, hbase])
  | smartvalloc bytes site fill =>
    simp only [Ledger.serve, ask_bind] at h
    rw [bind_apply] at h
    obtain ⟨A, L₁, w₁, w₂, ha, hr, rfl⟩ := Outcome.andThen_eq_ok h
    obtain ⟨base, hbase, rfl, rfl, rfl⟩ := allocate_ok ha
    simp only [emit_apply, Outcome.mk.injEq, true_and] at hr
    obtain ⟨rfl, rfl⟩ := hr
    exact .allocated (by simp [creates, hbase])
  | smartfree address site =>
    simp only [Ledger.serve, Ledger.free] at h
    cases hu : unlink (fun A => decide (A.data = address)) L with
    | none =>
      rw [bind_of_silent _ (take_none hu)] at h
      simp only [emit_apply, Outcome.mk.injEq, true_and] at h
      obtain ⟨rfl, rfl⟩ := h
      exact .unknownFreed hu
    | some r =>
      rw [bind_of_silent _ (take_some hu)] at h
      simp only [check_apply, Outcome.mk.injEq, true_and] at h
      obtain ⟨rfl, rfl⟩ := h
      exact .freed hu
  | smartrealloc ptr newSize onFailure site fill =>
    simp only [Ledger.serve, Ledger.realloc] at h
    rw [bind_apply, ask_bind] at h
    obtain ⟨data, L₁, w₁, w₂, ha, hr, rfl⟩ := Outcome.andThen_eq_ok h
    simp only [emit_apply, Outcome.mk.injEq, true_and] at hr
    obtain ⟨rfl, rfl⟩ := hr
    by_cases hptr : ptr = 0
    · simp only [if_pos hptr, bind_apply] at ha
      obtain ⟨A, L₂, w₃, w₄, hB, hd, rfl⟩ := Outcome.andThen_eq_ok ha
      obtain ⟨base, hbase, rfl, rfl, rfl⟩ := allocate_ok hB
      simp only [pure_apply, Outcome.mk.injEq, Except.ok.injEq] at hd
      obtain ⟨rfl, rfl, rfl⟩ := hd
      exact .allocated (by simp [creates, hptr, hbase])
    · simp only [if_neg hptr] at ha
      cases hu : unlink (fun A => decide (A.data = ptr)) L with
      | none =>
        rw [bind_of_silent _ (take_none hu)] at ha
        simp only [bind_apply, emit_apply, Outcome.andThen_ok, pure_apply, List.append_nil,
          Outcome.mk.injEq, Except.ok.injEq] at ha
        obtain ⟨rfl, rfl, rfl⟩ := ha
        exact .unknownMoved hptr hu
      | some r =>
        rw [bind_of_silent _ (take_some hu)] at ha
        simp only [bind_apply] at ha
        obtain ⟨B, L₂, w₃, w₄, hB, hd, rfl⟩ := Outcome.andThen_eq_ok ha
        obtain ⟨base, hbase, rfl, rfl, rfl⟩ := allocate_ok hB
        simp only [modifyState_apply, Outcome.andThen_ok, check_apply, pure_apply, List.tail_cons,
          List.nil_append, List.append_nil, Outcome.mk.injEq, Except.ok.injEq] at hd
        obtain ⟨rfl, rfl, rfl⟩ := hd
        exact .moved hptr hu hbase
  | write address value =>
    simp only [Ledger.serve, Ledger.write, getState_bind, prog_ite_apply] at h
    split_ifs at h with hin
    · simp only [modifyState_apply, Outcome.mk.injEq, true_and] at h
      obtain ⟨rfl, rfl⟩ := h
      exact .written
    · simp at h

end Rule

/-! ## An allocation over a run -/

/-- The allocation `B` is `A` after some writes. -/
structure Allocation.Becomes (A : Allocation) (written : ℕ → Option UInt8) (B : Allocation) :
    Prop where
  base : B.base = A.base
  space : B.space = A.space
  cells : ∀ k, k < A.size → B.cells k = (written (A.base + k)).getD (A.cells k)

section Run

variable {L L' : Ledger} {i : Input} {e : Env} {is : List Input} {w : List Event}
  {A B : Allocation}

theorem Allocation.Becomes.refl {written : ℕ → Option UInt8} (h : ∀ a, written a = none) :
    A.Becomes written A :=
  ⟨rfl, rfl, fun k _ => by rw [h, Option.getD_none]⟩

theorem Allocation.Becomes.region (h : A.Becomes (writeAt · i) B) : B.region = A.region := by
  unfold Allocation.region Allocation.size
  rw [h.base, h.space]

/-- A write, in the allocation that has the address and in the others. -/
theorem becomes_write (A : Allocation) (address : ℕ) (value : UInt8) :
    A.Becomes (writeAt · (.write address value, e)) (A.write address value) := by
  have hat : ∀ a, writeAt a (.write address value, e) = if address = a then some value else none :=
    fun _ => rfl
  unfold Allocation.write
  split_ifs with hin
  · obtain ⟨hle, -⟩ := hin
    change A.base ≤ address at hle
    refine ⟨rfl, rfl, fun k _ => ?_⟩
    show Function.update A.cells (address - A.base) value k = _
    rw [hat, Function.update_apply]
    split_ifs <;> first | rfl | omega
  · refine ⟨rfl, rfl, fun k hk => ?_⟩
    rw [hat, if_neg, Option.getD_none]
    rintro rfl
    exact hin ⟨Nat.le_add_right _ _, Nat.add_lt_add_left hk _⟩

/-- An allocation that a request does not free stays, and changes only where it is written. -/
theorem LedgerRule.keeps (h : LedgerRule L i L' w) (hA : A ∈ L) (hfree : ¬frees A.data i) :
    ∃ B ∈ L', A.Becomes (writeAt · i) B := by
  -- What is left when another pointer is taken out of the ledger.
  have hrest : ∀ {address : ℕ} {C : Allocation} {rest : Ledger},
      unlink (fun A => decide (A.data = address)) L = some (C, rest) → A.data ≠ address →
        A ∈ rest := by
    intro address C rest hu hne
    obtain ⟨hC, hperm⟩ := unlink_perm hu
    rcases List.mem_cons.mp (hperm.mem_iff.mp hA) with rfl | hin
    · exact absurd (of_decide_eq_true hC) hne
    · exact hin
  cases h with
  | allocated hcreates =>
    refine ⟨A, List.mem_cons_of_mem _ hA, .refl fun a => ?_⟩
    obtain ⟨r, e⟩ := i
    cases r <;> first | rfl | simp [creates] at hcreates
  | unknownFreed hu => exact ⟨A, hA, .refl fun _ => rfl⟩
  | freed hu => exact ⟨A, hrest hu fun hdata => hfree hdata.symm, .refl fun _ => rfl⟩
  | unknownMoved hptr hu => exact ⟨A, hA, .refl fun _ => rfl⟩
  | moved hptr hu hbase =>
    exact ⟨A, List.mem_cons_of_mem _ (hrest hu fun hdata => hfree hdata.symm), .refl fun _ => rfl⟩
  | written => exact ⟨_, List.mem_map_of_mem hA, becomes_write A _ _⟩

/-- The last write, when there is one more request. -/
theorem lastWrite_concat (address : ℕ) (is : List Input) (i : Input) :
    lastWrite address (is ++ [i]) = (writeAt address i).or (lastWrite address is) := by
  unfold lastWrite
  rw [List.filterMap_append]
  cases hw : writeAt address i with
  | none => simp [hw]
  | some v => simp [hw]

/-- An allocation that no request of a run frees stays, and holds what was written last. -/
theorem run_keeps (h : run Ledger.step is L = ⟨.ok (), L', w⟩) (hA : A ∈ L)
    (hfree : ∀ i ∈ is, ¬frees A.data i) : ∃ B ∈ L', A.Becomes (lastWrite · is) B := by
  refine run_induction (fun past L _ => ∃ B ∈ L, A.Becomes (lastWrite · past) B)
    ⟨A, hA, .refl fun _ => rfl⟩ ?_ h
  intro past i L₁ w₁ _ L₂ w₂ hp hpast hi ih
  obtain ⟨B, hB, hAB⟩ := ih
  have hdata : B.data = A.data := congrArg (· + margin) hAB.base
  have hi' : ¬frees B.data i := by
    rw [hdata]
    exact hfree i (hp.subset (by simp))
  obtain ⟨C, hC, hBC⟩ := (step_rule hi).keeps hB hi'
  refine ⟨C, hC, hBC.base.trans hAB.base, hBC.space.trans hAB.space, fun k hk => ?_⟩
  have hsize : B.size = A.size := by
    unfold Allocation.size
    rw [hAB.space]
  calc C.cells k = (writeAt (B.base + k) i).getD (B.cells k) := hBC.cells k (hsize ▸ hk)
    _ = (writeAt (A.base + k) i).getD ((lastWrite (A.base + k) past).getD (A.cells k)) := by
      rw [hAB.base, hAB.cells k hk]
    _ = (lastWrite (A.base + k) (past ++ [i])).getD (A.cells k) := by
      rw [lastWrite_concat]
      cases writeAt (A.base + k) i <;> rfl

/-- An allocation that is made anew has the size that was asked for. -/
theorem creates_fresh (hA : creates i = some A) :
    ∃ base bytes fill, i.1.bytes = some bytes ∧ A = .fresh base bytes fill := by
  obtain ⟨r, e⟩ := i
  cases r with
  | smartalloc bytes site fill =>
    obtain ⟨base, -, rfl⟩ := Option.map_eq_some_iff.mp hA
    exact ⟨base, bytes, fill, rfl, rfl⟩
  | smartvalloc bytes site fill =>
    obtain ⟨base, -, rfl⟩ := Option.map_eq_some_iff.mp hA
    exact ⟨base, bytes, fill, rfl, rfl⟩
  | smartrealloc ptr newSize onFailure site fill =>
    simp only [creates] at hA
    split_ifs at hA
    obtain ⟨base, -, rfl⟩ := Option.map_eq_some_iff.mp hA
    exact ⟨base, newSize, fill, rfl, rfl⟩
  | smartfree address site => simp [creates] at hA
  | write address value => simp [creates] at hA

/-- An allocation as it is handed out: the size asked for, and whole margins. -/
structure Allocation.Given (A : Allocation) (data : ℕ) (bytes : UInt64) : Prop where
  data : A.data = data
  space : A.space = bytes
  margins : ∀ k, ¬(margin ≤ k ∧ k < margin + bytes.toNat) → A.cells k = pattern

/-- A request that returns a pointer leaves the allocation of it in the ledger. A reallocation that
copies the data of another block gives it margins of its own. -/
theorem LedgerRule.given (h : LedgerRule L i L' w) {data : ℕ} {bytes : UInt64}
    (hbytes : i.1.bytes = some bytes) (hreturned : w.getLast? = some (.returned data))
    (hdata : data ≠ 0) : ∃ A ∈ L', A.Given data bytes := by
  cases h with
  | allocated hcreates =>
    obtain ⟨base, bytes', fill, hasked, rfl⟩ := creates_fresh hcreates
    obtain rfl := Option.some.inj (hasked.symm.trans hbytes)
    refine ⟨_, List.mem_cons_self, ?_, rfl, fun k hk => if_neg hk⟩
    simpa using hreturned
  | @moved ptr newSize onFailure site fill e A rest base hptr hu hbase =>
    obtain rfl := Option.some.inj hbytes
    refine ⟨_, List.mem_cons_self, ?_, rfl, fun k hk => ?_⟩
    · have hptr' : base + margin = data := by simpa using hreturned
      exact hptr'
    · -- What is copied is no longer than the data.
      have hlimit := (limit_le newSize A.space).1
      exact (if_neg (by omega)).trans (if_neg hk)
  | unknownMoved hptr hu =>
    have hzero : 0 = data := by simpa using hreturned
    exact absurd hzero.symm hdata
  | unknownFreed hu => simp [Request.bytes] at hbytes
  | freed hu => simp [Request.bytes] at hbytes
  | written => simp [Request.bytes] at hbytes

/-- Where an allocation comes from, after a request: the request returned it, or it was there before
and was not freed. -/
theorem LedgerRule.origin (h : LedgerRule L i L' w) (hdistinct : (L.map Allocation.data).Nodup)
    (hB : B ∈ L') : (i.1.bytes = some B.space ∧ w.getLast? = some (.returned B.data)) ∨
      ∃ A ∈ L, A.track = B.track ∧ ¬frees B.data i := by
  -- What is left when a pointer is taken out of the ledger.
  have hrest : ∀ {address : ℕ} {C : Allocation} {rest : Ledger},
      unlink (fun A => decide (A.data = address)) L = some (C, rest) → B ∈ rest →
        B ∈ L ∧ address ≠ B.data := by
    intro address C rest hu hin
    obtain ⟨hC, hperm⟩ := unlink_perm hu
    refine ⟨hperm.mem_iff.mpr (List.mem_cons_of_mem C hin), ?_⟩
    have hdistinct' := (hperm.map Allocation.data).nodup_iff.mp hdistinct
    rw [List.map_cons, List.nodup_cons, of_decide_eq_true hC] at hdistinct'
    exact fun hdata => hdistinct'.1 (List.mem_map.mpr ⟨B, hin, hdata.symm⟩)
  cases h with
  | allocated hcreates =>
    rcases List.mem_cons.mp hB with rfl | hin
    · obtain ⟨base, bytes, fill, hasked, rfl⟩ := creates_fresh hcreates
      exact .inl ⟨hasked, rfl⟩
    · refine .inr ⟨B, hin, rfl, fun hfrees => ?_⟩
      obtain ⟨r, e⟩ := i
      cases r <;> simp [creates, frees] at hcreates hfrees
      exact B.data_ne_zero (hfrees.symm.trans hcreates.1)
  | unknownFreed hu =>
    exact .inr ⟨B, hB, rfl, fun h => unlink_eq_none_iff.mp hu B hB (decide_eq_true h.symm)⟩
  | freed hu =>
    obtain ⟨hin, hne⟩ := hrest hu hB
    exact .inr ⟨B, hin, rfl, hne⟩
  | unknownMoved hptr hu =>
    exact .inr ⟨B, hB, rfl, fun h => unlink_eq_none_iff.mp hu B hB (decide_eq_true h.symm)⟩
  | moved hptr hu hbase =>
    rcases List.mem_cons.mp hB with rfl | hin
    · exact .inl ⟨rfl, by simp; rfl⟩
    · obtain ⟨hin, hne⟩ := hrest hu hin
      exact .inr ⟨B, hin, rfl, hne⟩
  | written =>
    obtain ⟨A, hA, rfl⟩ := List.mem_map.mp hB
    exact .inr ⟨A, hA, (A.write_track _ _).symm, id⟩

/-- A request that makes an allocation adds it to the ledger. -/
theorem LedgerRule.creates_eq (h : LedgerRule L i L' w) (hA : creates i = some A) :
    L' = A :: L := by
  cases h with
  | allocated hcreates =>
    obtain rfl := Option.some.inj (hcreates.symm.trans hA)
    rfl
  | unknownMoved hptr hu => simp [creates, hptr] at hA
  | moved hptr hu hbase => simp [creates, hptr] at hA
  | unknownFreed hu => simp [creates] at hA
  | freed hu => simp [creates] at hA
  | written => simp [creates] at hA

/-- A request of a completed run, as the ledger has it, and the rest of the run on the ledger. -/
theorem run_ledger {mem : Mem} {past mid : List Input} {s : Store}
    (hdoc : Always Documented step (past ++ i :: mid) (initial mem))
    (hrun : run step (past ++ i :: mid) (initial mem) = ⟨.ok (), s, w⟩) :
    ∃ L₀ L₁ L w',
      Ledger.step i L₀ = ⟨.ok (), L₁, (step i (run step past (initial mem)).st).events⟩ ∧
      run Ledger.step mid L₁ = ⟨.ok (), L, w'⟩ ∧ Inv [] s L := by
  obtain ⟨s₀, w₀, ⟨⟩, s₁, w₁, w₂, hpast, hi, hmid⟩ := run_split_eq_ok hrun
  have hbefore := hdoc.of_prefix (List.prefix_append past _)
  obtain ⟨L₀, -, hinv₀⟩ := (inv_initial mem).run_ok hbefore hpast
  obtain ⟨L₁, hstep, hinv₁⟩ := hinv₀.step_ok (hdoc past i s₀ w₀ ⟨mid, by simp⟩ hpast) hi
  obtain ⟨L, hL, hinv⟩ := hinv₁.run_ok ((hdoc.rest hpast).tail hi) hmid
  refine ⟨L₀, L₁, L, w₂, ?_, hL, hinv⟩
  rw [hpast, hi]
  exact hstep

/-- What a run leaves of an allocation that was made in it and not freed since: it is in the ledger,
with what was written last. -/
theorem run_live {mem : Mem} {past mid : List Input} {s : Store}
    (hdoc : Always Documented step (past ++ i :: mid) (initial mem))
    (hrun : run step (past ++ i :: mid) (initial mem) = ⟨.ok (), s, w⟩)
    (hA : creates i = some A) (hlive : ∀ j ∈ mid, ¬frees A.data j) :
    ∃ L, Inv [] s L ∧ ∃ B ∈ L, A.Becomes (lastWrite · mid) B := by
  obtain ⟨L₀, L₁, L, w', hstep, hmid, hinv⟩ := run_ledger hdoc hrun
  obtain rfl := (step_rule hstep).creates_eq hA
  exact ⟨L, hinv, run_keeps hmid List.mem_cons_self hlive⟩

/-- A request of a run handed out a block, by an allocation or a reallocation, that was not freed or
reallocated since. -/
structure HandedOut (mem : Mem) (past : List Input) (i : Input) (mid : List Input) (data : ℕ)
    (bytes : UInt64) : Prop where
  asked : i.1.bytes = some bytes
  returned : (step i (run step past (initial mem)).st).events.getLast? = some (.returned data)
  notNull : data ≠ 0
  live : ∀ j ∈ mid, ¬frees data j

/-- A block that was handed out in a run and not freed since is in the ledger, with what was written
last. -/
theorem run_handedOut {mem : Mem} {past mid : List Input} {s : Store} {data : ℕ} {bytes : UInt64}
    (hdoc : Always Documented step (past ++ i :: mid) (initial mem))
    (hrun : run step (past ++ i :: mid) (initial mem) = ⟨.ok (), s, w⟩)
    (hgiven : HandedOut mem past i mid data bytes) :
    ∃ L, Inv [] s L ∧ ∃ A : Allocation, A.Given data bytes ∧
      ∃ B ∈ L, A.Becomes (lastWrite · mid) B := by
  obtain ⟨L₀, L₁, L, w', hstep, hmid, hinv⟩ := run_ledger hdoc hrun
  obtain ⟨A, hA, hAgiven⟩ := (step_rule hstep).given hgiven.asked hgiven.returned hgiven.notNull
  exact ⟨L, hinv, A, hAgiven, run_keeps hmid hA (hAgiven.data ▸ hgiven.live)⟩

/-- Every block that the allocator tracks was handed out by a request of the run, and was not freed
or reallocated since. -/
theorem exists_handedOut {mem : Mem} {s : Store} {t : Track}
    (hdoc : Always Documented step is (initial mem))
    (hrun : run step is (initial mem) = ⟨.ok (), s, w⟩) (ht : t ∈ entries s.trackHash) :
    ∃ past i mid, is = past ++ i :: mid ∧ HandedOut mem past i mid t.data t.space := by
  refine run_induction (fun is s _ => ∀ t ∈ entries s.trackHash,
    ∃ past i mid, is = past ++ i :: mid ∧ HandedOut mem past i mid t.data t.space) ?_ ?_ hrun t ht
  · intro t ht
    rw [initial, entries_empty] at ht
    exact absurd ht List.not_mem_nil
  intro past i s₁ w₁ a s₂ w₂ hp hpast hi ih t ht
  have hbefore := hdoc.of_prefix ((List.prefix_append past [i]).trans hp)
  obtain ⟨L₁, -, hinv₁⟩ := (inv_initial mem).run_ok hbefore hpast
  obtain ⟨L₂, hL₂, hinv₂⟩ := hinv₁.step_ok (hdoc past i s₁ w₁ hp hpast) hi
  obtain ⟨B, hB, rfl⟩ := hinv₂.exists_of_track ht
  obtain ⟨hasked, hreturned⟩ | ⟨A, hA, hAB, hi'⟩ :=
    (step_rule hL₂).origin hinv₁.accounted.apart.1 hB
  · refine ⟨past, i, [], rfl, hasked, ?_, B.data_ne_zero, by simp⟩
    rw [hpast, hi]
    exact hreturned
  · have htrack := hinv₁.track_mem hA
    rw [hAB] at htrack
    obtain ⟨before, j, mid, rfl, hgiven⟩ := ih B.track htrack
    refine ⟨before, j, mid ++ [i], by simp, hgiven.asked, hgiven.returned, hgiven.notNull, ?_⟩
    intro k hk
    rcases List.mem_append.mp hk with hk | hk
    · exact hgiven.live k hk
    · rw [List.mem_singleton.mp hk]
      exact hi'

end Run

end SdnController.Smartalloc
