import SdnController.Lib.Exec

/-!
# Programs step by step

A program says what state it leaves, and not what states it passes through. Where something may cut
in between two of its steps, the program is given as the steps that it consists of (`Steps`), each a
program that nothing cuts in on, and the rest chosen by what a step returns. Put together again the
steps are a program (`Steps.prog`), and the first `k` of them are one as well (`Steps.cut`).

What the program is like when it is cut is found by following how it is put together: in a sequence
the cut is in the first part, or the first part has returned and the cut is in the second one
(`Passes.bind_cases`). Parts that change nothing drop out (`Looks.bind_cases`), and what is left
between the first change and the last one is what has to be looked at (`Between`).
-/

namespace Exec

/-- A program as the steps that it takes. -/
inductive Steps (ρ ε σ ω : Type) (α : Type) : Type 1 where
  /-- No step is left. -/
  | done (a : α)
  /-- A step, and what comes after it. -/
  | next {β : Type} (x : Prog ρ ε σ ω β) (f : β → Steps ρ ε σ ω α)

section Steps

variable {ρ ε σ ω α β : Type}

/-- One program after another. -/
def Steps.bind : Steps ρ ε σ ω α → (α → Steps ρ ε σ ω β) → Steps ρ ε σ ω β
  | .done a, g => g a
  | .next x f, g => .next x fun b => (f b).bind g

instance : Monad (Steps ρ ε σ ω) where
  pure := .done
  bind := Steps.bind

/-- A program that is one step. -/
def atomic (x : Prog ρ ε σ ω α) : Steps ρ ε σ ω α := .next x .done

/-- The program that takes all steps. -/
def Steps.prog : Steps ρ ε σ ω α → Prog ρ ε σ ω α
  | .done a => pure a
  | .next x f => x >>= fun b => (f b).prog

/-- The program that takes the first steps only. -/
def Steps.cut : ℕ → Steps ρ ε σ ω α → Prog ρ ε σ ω Unit
  | 0, _ => pure ()
  | _ + 1, .done _ => pure ()
  | k + 1, .next x f => x >>= fun b => (f b).cut k

@[simp] theorem Steps.prog_pure (a : α) : (pure a : Steps ρ ε σ ω α).prog = pure a := rfl

@[simp] theorem Steps.prog_atomic (x : Prog ρ ε σ ω α) : (atomic x).prog = x := by
  funext e s
  change (x e s).andThen (fun a s => ⟨.ok a, s, []⟩) = x e s
  obtain ⟨ret, s', w⟩ := x e s
  cases ret <;> simp

@[simp] theorem Steps.prog_bind (p : Steps ρ ε σ ω α) (f : α → Steps ρ ε σ ω β) :
    (p >>= f).prog = p.prog >>= fun a => (f a).prog := by
  induction p with
  | done a =>
    funext e s
    change (f a).prog e s = (⟨.ok a, s, []⟩ : Outcome ε σ ω α).andThen fun a s => (f a).prog e s
    simp
  | next x g ih =>
    calc (x >>= fun b => (g b >>= f).prog)
        = x >>= fun b => (g b).prog >>= fun a => (f a).prog := by simp only [ih]
      _ = (x >>= fun b => (g b).prog) >>= fun a => (f a).prog := (prog_bind_assoc ..).symm

@[simp] theorem Steps.prog_ite (c : Prop) [Decidable c] (p q : Steps ρ ε σ ω α) :
    (if c then p else q).prog = if c then p.prog else q.prog := by
  split_ifs <;> rfl

/-! ## Where a program is cut -/

/-- A state that a program passes through, and what it has done until then. -/
def Passes (p : Steps ρ ε σ ω α) (e : ρ) (s s' : σ) (w : List ω) : Prop :=
  ∃ k, p.cut k e s = ⟨.ok (), s', w⟩

variable {e : ρ} {s s' : σ} {w : List ω}

/-- A program passes through the state in which it starts. -/
theorem passes_start (p : Steps ρ ε σ ω α) : Passes p e s s [] := ⟨0, rfl⟩

/-- A program without a step passes through no other. -/
theorem passes_pure {a : α} (h : Passes (pure a : Steps ρ ε σ ω α) e s s' w) :
    s' = s ∧ w = [] := by
  obtain ⟨_ | k, h⟩ := h
  all_goals
    obtain ⟨-, rfl, rfl⟩ := Outcome.mk.injEq .. ▸ h
    exact ⟨rfl, rfl⟩

/-- A program with a step is before it, or somewhere in what comes after it. -/
theorem passes_next {x : Prog ρ ε σ ω β} {f : β → Steps ρ ε σ ω α}
    (h : Passes (.next x f) e s s' w) : (s' = s ∧ w = []) ∨
      ∃ b s₁ w₁ w₂, x e s = ⟨.ok b, s₁, w₁⟩ ∧ Passes (f b) e s₁ s' w₂ ∧ w = w₁ ++ w₂ := by
  obtain ⟨_ | k, h⟩ := h
  · obtain ⟨-, rfl, rfl⟩ := Outcome.mk.injEq .. ▸ h
    exact .inl ⟨rfl, rfl⟩
  · obtain ⟨b, s₁, w₁, w₂, hx, hf, rfl⟩ := Outcome.andThen_eq_ok h
    exact .inr ⟨b, s₁, w₁, w₂, hx, ⟨k, hf⟩, rfl⟩

/-- A program that is one step is before it, or after it. -/
theorem passes_atomic {x : Prog ρ ε σ ω α} (h : Passes (atomic x) e s s' w) :
    (s' = s ∧ w = []) ∨ ∃ a, x e s = ⟨.ok a, s', w⟩ := by
  refine (passes_next h).imp_right ?_
  rintro ⟨a, s₁, w₁, w₂, hx, hdone, rfl⟩
  obtain ⟨rfl, rfl⟩ := passes_pure hdone
  exact ⟨a, by rw [hx, List.append_nil]⟩

/-- A step is taken, and then some of what comes after it. -/
theorem Passes.next {x : Prog ρ ε σ ω β} {f : β → Steps ρ ε σ ω α} {b : β} {s₁ : σ}
    {w₁ : List ω} (hx : x e s = ⟨.ok b, s₁, w₁⟩) (h : Passes (f b) e s₁ s' w) :
    Passes (.next x f) e s s' (w₁ ++ w) := by
  obtain ⟨k, hk⟩ := h
  refine ⟨k + 1, ?_⟩
  change (x e s).andThen (fun b s => (f b).cut k e s) = _
  rw [hx, Outcome.andThen_ok, hk]

/-- A program that returns passes through the state that it leaves. -/
theorem passes_of_ok {p : Steps ρ ε σ ω α} {a : α} (h : p.prog e s = ⟨.ok a, s', w⟩) :
    Passes p e s s' w := by
  induction p generalizing s w with
  | done b =>
    obtain ⟨-, rfl, rfl⟩ := Outcome.mk.injEq .. ▸ h
    exact passes_start _
  | next x f ih =>
    obtain ⟨b, s₁, w₁, w₂, hx, hf, rfl⟩ := Outcome.andThen_eq_ok h
    exact .next hx (ih b hf)

/-- A program that returns can be cut anywhere. -/
theorem Steps.cut_of_ok {p : Steps ρ ε σ ω α} {a : α} (h : p.prog e s = ⟨.ok a, s', w⟩) (k : ℕ) :
    ∃ s₁ w₁, p.cut k e s = ⟨.ok (), s₁, w₁⟩ := by
  induction p generalizing s w k with
  | done b => cases k <;> exact ⟨s, [], rfl⟩
  | next x f ih =>
    cases k with
    | zero => exact ⟨s, [], rfl⟩
    | succ k =>
      obtain ⟨b, s₁, w₁, w₂, hx, hf, -⟩ := Outcome.andThen_eq_ok h
      obtain ⟨s₂, w₃, hcut⟩ := ih b hf k
      refine ⟨s₂, w₁ ++ w₃, ?_⟩
      change (x e s).andThen (fun b s => (f b).cut k e s) = _
      rw [hx, Outcome.andThen_ok, hcut]

/-- A sequence is cut in its first part, or in its second one, when the first has returned. -/
theorem Passes.bind_cases {p : Steps ρ ε σ ω α} {f : α → Steps ρ ε σ ω β}
    (h : Passes (p >>= f) e s s' w) : Passes p e s s' w ∨
      ∃ a s₁ w₁ w₂, p.prog e s = ⟨.ok a, s₁, w₁⟩ ∧ Passes (f a) e s₁ s' w₂ ∧ w = w₁ ++ w₂ := by
  induction p generalizing s w with
  | done a => exact .inr ⟨a, s, [], w, rfl, h, rfl⟩
  | next x g ih =>
    obtain ⟨rfl, rfl⟩ | ⟨b, s₁, w₁, w₂, hx, hrest, rfl⟩ := passes_next h
    · exact .inl (passes_start _)
    obtain hfirst | ⟨a, s₂, w₃, w₄, hg, hsecond, rfl⟩ := ih b hrest
    · exact .inl (.next hx hfirst)
    · refine .inr ⟨a, s₂, w₁ ++ w₃, w₄, ?_, hsecond, (List.append_assoc ..).symm⟩
      change (x e s).andThen (fun b s => (g b).prog e s) = _
      rw [hx, Outcome.andThen_ok, hg]

/-- A program whose first step is known is before it, or somewhere in the rest. -/
theorem Passes.atomic_bind {x : Prog ρ ε σ ω α} {f : α → Steps ρ ε σ ω β} {a : α} {s₁ : σ}
    {w₁ : List ω} (h : Passes (atomic x >>= f) e s s' w) (hx : x e s = ⟨.ok a, s₁, w₁⟩) :
    (s' = s ∧ w = []) ∨ ∃ w₂, Passes (f a) e s₁ s' w₂ ∧ w = w₁ ++ w₂ := by
  refine (passes_next (x := x) (f := f) h).imp_right ?_
  rintro ⟨b, s₂, w₂, w₃, hb, hrest, rfl⟩
  obtain ⟨hab, rfl, rfl⟩ := Outcome.mk.injEq .. ▸ hx.symm.trans hb
  obtain rfl := Except.ok.inj hab
  exact ⟨w₃, hrest, rfl⟩

/-- A result that is put together at the end adds no state. -/
theorem Passes.of_bind_pure {p : Steps ρ ε σ ω α} {g : α → β}
    (h : Passes (p >>= fun a => pure (g a)) e s s' w) : Passes p e s s' w := by
  obtain hfirst | ⟨a, s₁, w₁, w₂, hreturn, hsecond, rfl⟩ := h.bind_cases
  · exact hfirst
  · obtain ⟨rfl, rfl⟩ := passes_pure hsecond
    rw [List.append_nil]
    exact passes_of_ok hreturn

/-! ## Programs that only look -/

/-- A program that changes nothing, as far as it comes. -/
def Looks (p : Steps ρ ε σ ω α) : Prop := ∀ e s s' w, Passes p e s s' w → s' = s ∧ w = []

theorem looks_pure (a : α) : Looks (pure a : Steps ρ ε σ ω α) := fun _ _ _ _ => passes_pure

/-- A step that changes nothing. -/
theorem looks_atomic {x : Prog ρ ε σ ω α}
    (h : ∀ e s a s' w, x e s = ⟨.ok a, s', w⟩ → s' = s ∧ w = []) : Looks (atomic x) := by
  intro e s s' w hp
  obtain hstart | ⟨a, hx⟩ := passes_atomic hp
  · exact hstart
  · exact h e s a s' w hx

/-- Reading the state only looks. -/
theorem looks_getState : Looks (atomic getState : Steps ρ ε σ ω σ) := by
  refine looks_atomic fun e s a s' w h => ?_
  obtain ⟨-, rfl, rfl⟩ := Outcome.mk.injEq .. ▸ h
  exact ⟨rfl, rfl⟩

theorem Looks.ite {c : Prop} [Decidable c] {p q : Steps ρ ε σ ω α} (hp : Looks p) (hq : Looks q) :
    Looks (if c then p else q) := by
  split_ifs
  · exact hp
  · exact hq

/-- After a part that only looks, a sequence is cut in its second part, from the same state. -/
theorem Looks.bind_cases {p : Steps ρ ε σ ω α} {f : α → Steps ρ ε σ ω β} (hp : Looks p)
    (h : Passes (p >>= f) e s s' w) : (s' = s ∧ w = []) ∨
      ∃ a, p.prog e s = ⟨.ok a, s, []⟩ ∧ Passes (f a) e s s' w := by
  obtain hfirst | ⟨a, s₁, w₁, w₂, hreturn, hsecond, rfl⟩ := h.bind_cases
  · exact .inl (hp e s s' w hfirst)
  · obtain ⟨rfl, rfl⟩ := hp e s s₁ w₁ (passes_of_ok hreturn)
    exact .inr ⟨a, hreturn, hsecond⟩

/-- The second part is cut wherever the sequence is, when it is known what the first one returns. -/
theorem Looks.passes_of_bind {p : Steps ρ ε σ ω α} {f : α → Steps ρ ε σ ω β} {a : α} (hp : Looks p)
    (ha : p.prog e s = ⟨.ok a, s, []⟩) (h : Passes (p >>= f) e s s' w) :
    Passes (f a) e s s' w := by
  obtain ⟨rfl, rfl⟩ | ⟨b, hb, hsecond⟩ := hp.bind_cases h
  · exact passes_start _
  · obtain ⟨hab, -⟩ := Outcome.mk.injEq .. ▸ ha.symm.trans hb
    obtain rfl := Except.ok.inj hab
    exact hsecond

/-- A program that reads the state first. -/
theorem passes_getState {f : σ → Steps ρ ε σ ω β} (h : Passes (atomic getState >>= f) e s s' w) :
    Passes (f s) e s s' w := looks_getState.passes_of_bind rfl h

theorem Looks.bind {p : Steps ρ ε σ ω α} {f : α → Steps ρ ε σ ω β} (hp : Looks p)
    (hf : ∀ a, Looks (f a)) : Looks (p >>= f) := by
  intro e s s' w h
  obtain hstart | ⟨a, -, hsecond⟩ := hp.bind_cases h
  · exact hstart
  · exact hf a e s s' w hsecond

/-! ## What is in between -/

/-- A program that, where it is cut, has changed nothing, is in a state that `M` says, or has done
all that it does. -/
def Between (M : σ → List ω → σ → Prop) (p : Steps ρ ε σ ω α) : Prop :=
  ∀ e s s' w, Passes p e s s' w →
    (s' = s ∧ w = []) ∨ M s w s' ∨ ∃ a, p.prog e s = ⟨.ok a, s', w⟩

variable {M : σ → List ω → σ → Prop}

/-- A step is not cut. -/
theorem between_atomic (x : Prog ρ ε σ ω α) : Between M (atomic x) := by
  intro e s s' w h
  rw [Steps.prog_atomic]
  exact (passes_atomic h).imp_right .inr

theorem Looks.between {p : Steps ρ ε σ ω α} (hp : Looks p) : Between M p :=
  fun e s s' w h => .inl (hp e s s' w h)

theorem Between.ite {c : Prop} [Decidable c] {p q : Steps ρ ε σ ω α} (hp : Between M p)
    (hq : Between M q) : Between M (if c then p else q) := by
  split_ifs
  · exact hp
  · exact hq

/-- Looking first adds no state. -/
theorem Between.bind_looks {p : Steps ρ ε σ ω α} {f : α → Steps ρ ε σ ω β} (hp : Looks p)
    (hf : ∀ a, Between M (f a)) : Between M (p >>= f) := by
  intro e s s' w h
  obtain hstart | ⟨a, hreturn, hsecond⟩ := hp.bind_cases h
  · exact .inl hstart
  · refine (hf a e s s' w hsecond).imp_right (Or.imp_right fun ⟨b, hb⟩ => ⟨b, ?_⟩)
    rw [Steps.prog_bind, bind_apply, hreturn, Outcome.andThen_ok, hb, List.nil_append]

/-- Nor does a result that is put together from what is returned. -/
theorem Between.bind_pure {p : Steps ρ ε σ ω α} (hp : Between M p) (g : α → β) :
    Between M (p >>= fun a => pure (g a)) := by
  intro e s s' w h
  have hall : ∀ {a s' w}, p.prog e s = ⟨.ok a, s', w⟩ →
      (p >>= fun a => pure (g a)).prog e s = ⟨.ok (g a), s', w⟩ := by
    intro a s' w hreturn
    rw [Steps.prog_bind, bind_apply, hreturn, Outcome.andThen_ok, Steps.prog_pure, pure_apply,
      List.append_nil]
  obtain hfirst | ⟨a, s₁, w₁, w₂, hreturn, hsecond, rfl⟩ := h.bind_cases
  · exact (hp e s s' w hfirst).imp_right (Or.imp_right fun ⟨a, ha⟩ => ⟨g a, hall ha⟩)
  · obtain ⟨rfl, rfl⟩ := passes_pure hsecond
    rw [List.append_nil]
    exact .inr (.inr ⟨g a, hall hreturn⟩)

end Steps

end Exec
