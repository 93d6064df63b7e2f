import SdnController.LiveBlocks

/-!
# Clients that name their blocks

A program that names the blocks it allocates makes a list of calls (`BlockCall`), which requests to
the allocator carry out (`Carries`): a `malloc` that has memory, a `free`, and any writes inside the
blocks that are live in between. A list of calls is tidy when no name is given to two live blocks
and only live blocks are freed (`Tidy`). The allocator has nothing to say about a tidy list: every
request completes without a message, and the blocks that are left are the ones that are tracked
(`tidy_quiet`).
-/

namespace SdnController.Smartalloc

open Exec Memory HashChains

/-- A call of a program that names its blocks. -/
inductive BlockCall (ν : Type) where
  | malloc (x : ν) (bytes : UInt64)
  | free (x : ν)
  deriving DecidableEq

variable {ν : Type}

/-! ## What the allocator has -/

/-- The track of a named block. -/
def trackOf (place : ν → ℕ) (p : ν × UInt64) : Track := ⟨place p.1, p.2, 1, UInt16.ofNat margin⟩

/-- The allocator has the live blocks, and their margins are whole. -/
structure Quiet (place : ν → ℕ) (s : Store) (live : List (ν × UInt64)) : Prop where
  names : (live.map Prod.fst).Nodup
  ledger : ∃ L, Inv [] s L ∧ (L.map Allocation.track).Perm (live.map (trackOf place)) ∧
    ∀ A ∈ L, A.broken = false

section Quiet

variable {place : ν → ℕ} {s : Store} {live : List (ν × UInt64)} {e : Env} {x : ν} {n : UInt64}

/-- A process starts without blocks. -/
theorem quiet_initial (mem : Mem) : Quiet place (initial mem) ([] : List (ν × UInt64)) :=
  ⟨.nil, [], inv_initial mem, .refl _, by simp⟩

/-- A new allocation has whole margins. -/
theorem fresh_not_broken (base : ℕ) (bytes : UInt64) (fill : UInt8) :
    (Allocation.fresh base bytes fill).broken = false := by
  rw [Bool.eq_false_iff]
  intro hbroken
  obtain ⟨k, -, hmargin, hcell⟩ := (broken_iff _).mp hbroken
  exact hcell (if_neg hmargin)

/-- An allocation on the ledger, when there is memory. -/
theorem allocate_apply {L : Ledger} {base : ℕ} (site : Site) (fill : UInt8)
    (htrack : e.track = true) (hfit : n.toNat + 2 * margin < 2^64) :
    Ledger.allocate (some base) n site fill e L =
      ⟨.ok (.fresh base n fill), .fresh base n fill :: L, []⟩ := by
  simp only [Ledger.allocate, if_neg (not_le.mpr hfit), ask_bind, htrack, reduceCtorEq, if_false]
  rfl

/-- A block is allocated. -/
theorem Quiet.malloc (h : Quiet place s live) {site : Site} {fill : UInt8} {base : ℕ}
    (hdoc : Answers s.blocks e.malloc n) (hbase : e.malloc = some base) (htrack : e.track = true)
    (hplace : place x = base + margin) (hx : x ∉ live.map Prod.fst)
    (hfit : n.toNat + 2 * margin < 2^64) :
    ∃ s', step (.smartalloc n site fill, e) s = ⟨.ok (), s', [.returned (place x)]⟩ ∧
      Quiet place s' ((x, n) :: live) := by
  obtain ⟨hnames, L, hinv, htracks, hwhole⟩ := h
  have hledger : Ledger.step (.smartalloc n site fill, e) L =
      ⟨.ok (), .fresh base n fill :: L, [.returned (place x)]⟩ := by
    simp only [Ledger.step, Ledger.serve, ask_bind, hbase, hplace]
    rw [bind_of_silent _ (allocate_apply site fill htrack hfit)]
    rfl
  obtain ⟨s', hs, hinv'⟩ := hinv.ok_of_ledger hledger hdoc
  refine ⟨s', hs, List.nodup_cons.mpr ⟨hx, hnames⟩, _, hinv', ?_, ?_⟩
  · have htrackOf : (Allocation.fresh base n fill).track = trackOf place (x, n) := by
      unfold trackOf
      rw [hplace]
      rfl
    rw [List.map_cons, List.map_cons, htrackOf]
    exact htracks.cons _
  · exact List.forall_mem_cons.mpr ⟨fresh_not_broken base n fill, hwhole⟩

/-- A write inside the data of an allocation does not break its margins, or those of another one. -/
theorem write_not_broken {L : Ledger} {A C : Allocation} (hinv : Inv [] s L) (hA : A ∈ L)
    (hC : C ∈ L) (hwhole : C.broken = false) {k : ℕ} (hk : k < A.space.toNat) (value : UInt8) :
    (C.write (A.data + k) value).broken = false := by
  have hin : A.region.Contains (A.data + k) := by
    simp only [Region.Contains, Allocation.region, Allocation.size, Allocation.data]
    omega
  rw [Bool.eq_false_iff] at hwhole ⊢
  intro hbroken
  obtain ⟨j, hj, hmargin, hcell⟩ := (broken_iff _).mp hbroken
  unfold Allocation.write at hj hmargin hcell
  split_ifs at hj hmargin hcell with hCin
  · change j < C.size at hj
    change ¬(margin ≤ j ∧ j < margin + C.space.toNat) at hmargin
    change Function.update C.cells (A.data + k - C.base) value j ≠ pattern at hcell
    by_cases hAC : A = C
    · -- The byte that is written is not in a margin.
      subst hAC
      have hjk : j ≠ A.data + k - A.base := by
        rintro rfl
        unfold Allocation.data at hmargin
        omega
      rw [Function.update_of_ne hjk] at hcell
      exact hwhole ((broken_iff _).mpr ⟨j, hj, hmargin, hcell⟩)
    · have hsymm : Std.Symm fun A B : Allocation => A.region.Apart B.region :=
        ⟨fun _ _ => Region.Apart.symm⟩
      exact (hinv.owns.apart.forall hA hC hAC).not_contains hin hCin
  · exact hwhole ((broken_iff _).mpr ⟨j, hj, hmargin, hcell⟩)

/-- A write inside a live block. -/
theorem Quiet.write (h : Quiet place s live) {p : ν × UInt64} (hp : p ∈ live) {k : ℕ}
    (hk : k < p.2.toNat) (value : UInt8) :
    ∃ s', step (.write (place p.1 + k) value, e) s = ⟨.ok (), s', []⟩ ∧ Quiet place s' live := by
  obtain ⟨hnames, L, hinv, htracks, hwhole⟩ := h
  obtain ⟨A, hA, hAp⟩ := List.mem_map.mp (htracks.mem_iff.mpr (List.mem_map_of_mem hp))
  have hdata : A.data = place p.1 := congrArg Track.data hAp
  have hspace : A.space = p.2 := congrArg Track.space hAp
  rw [← hdata]
  rw [← hspace] at hk
  have hany : (L.any fun B => decide (B.region.Contains (A.data + k))) = true := by
    refine List.any_eq_true.mpr ⟨A, hA, decide_eq_true ?_⟩
    simp only [Region.Contains, Allocation.region, Allocation.size, Allocation.data]
    omega
  have hledger : Ledger.step (.write (A.data + k) value, e) L =
      ⟨.ok (), L.map (·.write (A.data + k) value), []⟩ := by
    simp only [Ledger.step, Ledger.serve, Ledger.write, getState_bind, prog_ite_apply, if_pos hany,
      modifyState_apply]
  obtain ⟨s', hs, hinv'⟩ := hinv.ok_of_ledger hledger trivial
  refine ⟨s', hs, hnames, _, hinv', ?_, List.forall_mem_map.mpr fun C hC =>
    write_not_broken hinv hA hC (hwhole C hC) hk value⟩
  have hsame : L.map (Allocation.track ∘ (·.write (A.data + k) value)) = L.map Allocation.track :=
    List.map_congr_left fun C _ => C.write_track _ _
  rw [List.map_map, hsame]
  exact htracks

/-- What the allocator reports of the live blocks: the sum of their sizes. -/
theorem Quiet.reported (h : Quiet place s live) :
    (reportSpace s).toNat = (live.map fun p => p.2.toNat).sum := by
  obtain ⟨-, L, hinv, htracks, -⟩ := h
  have hspaces := (htracks.map fun t => t.space.toNat).sum_eq
  rw [List.map_map, List.map_map] at hspaces
  exact hinv.accounted.reported.trans hspaces

/-- Nothing is printed at the end of a process that has freed its blocks. -/
theorem Quiet.completion (h : Quiet place s ([] : List (ν × UInt64))) :
    reportSpace s = 0 ∧ completionFunction s = [] := by
  have hzero : reportSpace s = 0 := UInt64.toNat_inj.mp h.reported
  refine ⟨hzero, if_neg fun hprint => hprint.2 hzero⟩

end Quiet

section Calls

variable [DecidableEq ν]

/-! ## Lists of calls -/

/-- The blocks that are live after a call, each with its size. -/
def BlockCall.onLive (live : List (ν × UInt64)) : BlockCall ν → List (ν × UInt64)
  | .malloc x n => (x, n) :: live
  | .free x => live.filter fun p => p.1 ≠ x

/-- The blocks that are live after a list of calls. -/
def liveAfter (live : List (ν × UInt64)) (cs : List (BlockCall ν)) : List (ν × UInt64) :=
  cs.foldl BlockCall.onLive live

/-- No name is given to two live blocks, every size fits, and only live blocks are freed. -/
def Tidy (live : List (ν × UInt64)) : List (BlockCall ν) → Prop
  | [] => True
  | .malloc x n :: cs =>
    x ∉ live.map Prod.fst ∧ n.toNat + 2 * margin < 2^64 ∧ Tidy ((x, n) :: live) cs
  | .free x :: cs => x ∈ live.map Prod.fst ∧ Tidy (live.filter fun p => p.1 ≠ x) cs

/-- Requests that carry out the calls, with blocks where `place` says, and writes inside live
blocks. -/
inductive Carries (place : ν → ℕ) : List (ν × UInt64) → List (BlockCall ν) → List Input → Prop where
  | nil {live : List (ν × UInt64)} : Carries place live [] []
  | malloc {live : List (ν × UInt64)} {cs : List (BlockCall ν)} {is : List Input} {x : ν}
    {n : UInt64} {site : Site} {fill : UInt8} {e : Env} {base : ℕ} (hbase : e.malloc = some base)
    (htrack : e.track = true) (hplace : place x = base + margin)
    (h : Carries place ((x, n) :: live) cs is) :
    Carries place live (.malloc x n :: cs) ((.smartalloc n site fill, e) :: is)
  | free {live : List (ν × UInt64)} {cs : List (BlockCall ν)} {is : List Input} {x : ν}
    {site : Site} {e : Env} (h : Carries place (live.filter fun p => p.1 ≠ x) cs is) :
    Carries place live (.free x :: cs) ((.smartfree (place x) site, e) :: is)
  | write {live : List (ν × UInt64)} {cs : List (BlockCall ν)} {is : List Input} {p : ν × UInt64}
    {k : ℕ} {value : UInt8} {e : Env} (hp : p ∈ live) (hk : k < p.2.toNat)
    (h : Carries place live cs is) :
    Carries place live cs ((.write (place p.1 + k) value, e) :: is)

variable {place : ν → ℕ} {s : Store} {live : List (ν × UInt64)} {e : Env} {x : ν} {n : UInt64}

/-- The live blocks without one of them. -/
theorem live_perm (hnames : (live.map Prod.fst).Nodup) (hx : (x, n) ∈ live) :
    live.Perm ((x, n) :: live.filter fun p => p.1 ≠ x) := by
  induction live with
  | nil => exact absurd hx List.not_mem_nil
  | cons p live ih =>
    rw [List.map_cons, List.nodup_cons] at hnames
    rcases List.mem_cons.mp hx with rfl | hx
    · -- No other block has the name.
      have hrest : live.filter (fun p => p.1 ≠ x) = live := by
        refine List.filter_eq_self.mpr fun p hp => decide_eq_true fun hpx => hnames.1 ?_
        exact List.mem_map.mpr ⟨p, hp, hpx⟩
      rw [List.filter_cons_of_neg (by simp), hrest]
    · have hne : p.1 ≠ x := fun hpx => hnames.1 (List.mem_map.mpr ⟨(x, n), hx, hpx.symm⟩)
      rw [List.filter_cons_of_pos (by simpa using hne)]
      exact ((ih hnames.2 hx).cons p).trans (.swap _ _ _)

/-- A live block is freed. -/
theorem Quiet.free (h : Quiet place s live) (hx : x ∈ live.map Prod.fst) (site : Site) :
    ∃ s', step (.smartfree (place x) site, e) s = ⟨.ok (), s', []⟩ ∧
      Quiet place s' (live.filter fun p => p.1 ≠ x) := by
  obtain ⟨hnames, L, hinv, htracks, hwhole⟩ := h
  obtain ⟨⟨y, n⟩, hp, rfl⟩ := List.mem_map.mp hx
  obtain ⟨A, hA, hAp⟩ := List.mem_map.mp (htracks.mem_iff.mpr (List.mem_map_of_mem hp))
  have hdata : A.data = place y := congrArg Track.data hAp
  obtain ⟨s', L', hstep, hinv', hperm⟩ := free_live (e := e) hinv hA site
  have hquiet : A.complaints site = [] := by
    unfold Allocation.complaints
    rw [hwhole A hA]
    rfl
  rw [hdata, hquiet] at hstep
  refine ⟨s', hstep, hnames.sublist (List.filter_sublist.map _), L', hinv', ?_, fun B hB =>
    hwhole B (hperm.mem_iff.mpr (List.mem_cons_of_mem A hB))⟩
  have hboth := ((hperm.map Allocation.track).symm.trans htracks).trans
    ((live_perm hnames hp).map (trackOf place))
  rw [List.map_cons, List.map_cons, hAp] at hboth
  exact hboth.cons_inv

variable {cs : List (BlockCall ν)} {is : List Input}

/-- The allocator carries out a tidy list of calls without a message, and has the blocks that are
then live. -/
theorem tidy_quiet (h : Carries place live cs is) (htidy : Tidy live cs) (hs : Quiet place s live)
    (hdoc : Always Documented step is s) :
    ∃ s' w, run step is s = ⟨.ok (), s', w⟩ ∧ (∀ ev ∈ w, ∃ p, ev = .returned p) ∧
      Quiet place s' (liveAfter live cs) := by
  -- The induction is along the requests, one step for each.
  have hstep : ∀ {i : Input} {is : List Input} {s s₁ : Store} {w₁ : List Event}
      {live : List (ν × UInt64)}, step i s = ⟨.ok (), s₁, w₁⟩ → (∀ ev ∈ w₁, ∃ p, ev = .returned p) →
      (∃ s' w, run step is s₁ = ⟨.ok (), s', w⟩ ∧ (∀ ev ∈ w, ∃ p, ev = .returned p) ∧
        Quiet place s' live) →
      ∃ s' w, run step (i :: is) s = ⟨.ok (), s', w⟩ ∧ (∀ ev ∈ w, ∃ p, ev = .returned p) ∧
        Quiet place s' live := by
    rintro i is s s₁ w₁ live hi hw₁ ⟨s', w, hr, hw, hq⟩
    refine ⟨s', w₁ ++ w, by simp only [run, hi, Outcome.andThen_ok, hr], fun ev hev => ?_, hq⟩
    exact (List.mem_append.mp hev).elim (hw₁ ev) (hw ev)
  induction h generalizing s with
  | nil => exact ⟨s, [], rfl, by simp, hs⟩
  | @malloc live cs is x n site fill e base hbase htrack hplace _ ih =>
    obtain ⟨hx, hfit, htidy⟩ := htidy
    have hanswers : Answers s.blocks e.malloc n :=
      hdoc [] (.smartalloc n site fill, e) s [] (by simp) rfl
    obtain ⟨s₁, hi, hs₁⟩ := hs.malloc hanswers hbase htrack hplace hx hfit
    exact hstep hi (by simp) (ih htidy hs₁ (hdoc.tail hi))
  | free _ ih =>
    obtain ⟨hx, htidy⟩ := htidy
    obtain ⟨s₁, hi, hs₁⟩ := hs.free hx _
    exact hstep hi (by simp) (ih htidy hs₁ (hdoc.tail hi))
  | write hp hk _ ih =>
    obtain ⟨s₁, hi, hs₁⟩ := hs.write hp hk _
    exact hstep hi (by simp) (ih htidy hs₁ (hdoc.tail hi))

/-! ## Calls one after another -/

/-- The live blocks after two lists of calls. -/
theorem liveAfter_append (live : List (ν × UInt64)) (cs ds : List (BlockCall ν)) :
    liveAfter live (cs ++ ds) = liveAfter (liveAfter live cs) ds := List.foldl_append

/-- Two tidy lists of calls, one after the other. -/
theorem Tidy.append {ds : List (BlockCall ν)} (h : Tidy live cs)
    (hds : Tidy (liveAfter live cs) ds) : Tidy live (cs ++ ds) := by
  induction cs generalizing live with
  | nil => exact hds
  | cons c cs ih =>
    cases c with
    | malloc x n => exact ⟨h.1, h.2.1, ih h.2.2 hds⟩
    | free x => exact ⟨h.1, ih h.2 hds⟩

/-- The live blocks after allocations. -/
theorem liveAfter_mallocs (f : ν → UInt64) (as : List ν) (live : List (ν × UInt64)) :
    liveAfter live (as.map fun a => .malloc a (f a)) =
      (as.map fun a => (a, f a)).reverse ++ live := by
  induction as generalizing live with
  | nil => rfl
  | cons a as ih =>
    rw [List.map_cons, List.map_cons, List.reverse_cons, List.append_assoc]
    exact ih _

/-- Allocations of new blocks are tidy. -/
theorem tidy_mallocs {f : ν → UInt64} {as : List ν} (hnodup : as.Nodup)
    (hnew : ∀ a ∈ as, a ∉ live.map Prod.fst) (hfit : ∀ a, (f a).toNat + 2 * margin < 2^64) :
    Tidy live (as.map fun a => .malloc a (f a)) := by
  induction as generalizing live with
  | nil => trivial
  | cons a as ih =>
    rw [List.nodup_cons] at hnodup
    rw [List.forall_mem_cons] at hnew
    refine ⟨hnew.1, hfit a, ih hnodup.2 fun b hb hin => ?_⟩
    rcases List.mem_cons.mp hin with rfl | hin
    · exact hnodup.1 hb
    · exact hnew.2 b hb hin

/-- The live blocks after others are freed. -/
theorem liveAfter_frees (as : List ν) (live : List (ν × UInt64)) :
    liveAfter live (as.map .free) = live.filter fun p => p.1 ∉ as := by
  induction as generalizing live with
  | nil => simp [liveAfter]
  | cons a as ih =>
    rw [List.map_cons, show liveAfter live (.free a :: as.map .free) =
      liveAfter (live.filter fun p => p.1 ≠ a) (as.map .free) from rfl, ih, List.filter_filter]
    congr 1
    funext p
    simp [Bool.and_comm]

/-- To free live blocks, each once, is tidy. -/
theorem tidy_frees {as : List ν} (hnodup : as.Nodup) (hlive : ∀ a ∈ as, a ∈ live.map Prod.fst) :
    Tidy live (as.map .free) := by
  induction as generalizing live with
  | nil => trivial
  | cons a as ih =>
    rw [List.nodup_cons] at hnodup
    rw [List.forall_mem_cons] at hlive
    refine ⟨hlive.1, ih hnodup.2 fun b hb => ?_⟩
    obtain ⟨p, hp, rfl⟩ := List.mem_map.mp (hlive.2 b hb)
    refine List.mem_map.mpr ⟨p, List.mem_filter.mpr ⟨hp, decide_eq_true ?_⟩, rfl⟩
    rintro rfl
    exact hnodup.1 hb

end Calls

end SdnController.Smartalloc
