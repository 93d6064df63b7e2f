import Mathlib.Data.List.Infix
import Mathlib.Logic.Function.Basic

/-!
# Programs with failure and a trace, and their runs

A program reads an environment, changes a state, may stop with an error, and leaves a trace of
events (`Prog`, `Outcome`). The trace of a stopped program keeps what happened before it stopped.

What is shown of a single call comes in two forms, each with one rule for each way of putting
programs together: `Outcome.Yields` says what the call returns, what state it leaves, and what can
be observed of it, and `Outcome.Safe` that nothing it does is forbidden.

A system calls such a program again and again, once for each input (`run`). A property of runs is
proved from one step by `run_induction`, which hands the step the run that led to it; `Always` is
the form in which a hypothesis on every step of a run is stated.

A Mealy machine (`mealy`) is the abstract side: a state and the outputs of a message. When every
step of a system, seen through a view of its state and an observation of its events, is either
invisible or a transition of the machine, the whole run is a run of the machine on the visible
inputs (`run_projects`). Two runs with the same visible inputs then look the same
(`run_projects_agree`).
-/

namespace Exec

/-- What a call leaves: its result or the error that stopped it, the state, and the events, in the
order in which they happened. -/
structure Outcome (ε σ ω α : Type) where
  /-- The result, or the error that stopped the call. -/
  ret : Except ε α
  /-- The state at the end. -/
  st : σ
  /-- What happened, first event first. -/
  events : List ω

section Outcome

variable {ε σ ω α β γ : Type}

/-- Continues after an outcome, unless it is an error. -/
def Outcome.andThen (o : Outcome ε σ ω α) (k : α → σ → Outcome ε σ ω β) : Outcome ε σ ω β :=
  match o.ret with
  | .ok a => ⟨(k a o.st).ret, (k a o.st).st, o.events ++ (k a o.st).events⟩
  | .error e => ⟨.error e, o.st, o.events⟩

@[simp]
theorem Outcome.andThen_ok (a : α) (s : σ) (w : List ω) (k : α → σ → Outcome ε σ ω β) :
    (⟨.ok a, s, w⟩ : Outcome ε σ ω α).andThen k =
      ⟨(k a s).ret, (k a s).st, w ++ (k a s).events⟩ := rfl

@[simp]
theorem Outcome.andThen_error (e : ε) (s : σ) (w : List ω) (k : α → σ → Outcome ε σ ω β) :
    (⟨.error e, s, w⟩ : Outcome ε σ ω α).andThen k = ⟨.error e, s, w⟩ := rfl

/-- Continuing is associative. -/
theorem Outcome.andThen_assoc (o : Outcome ε σ ω α) (k : α → σ → Outcome ε σ ω β)
    (l : β → σ → Outcome ε σ ω γ) :
    (o.andThen k).andThen l = o.andThen fun a s => (k a s).andThen l := by
  obtain ⟨ret, s, w⟩ := o
  cases ret with
  | error e => rfl
  | ok a =>
    rcases h : k a s with ⟨ret', s', w'⟩
    cases ret' <;> simp [h, Outcome.andThen]

/-- A last result adds no event. -/
theorem Outcome.events_andThen_ok (o : Outcome ε σ ω α) (b : β) :
    (o.andThen fun _ s => ⟨.ok b, s, []⟩).events = o.events := by
  obtain ⟨ret, s, w⟩ := o
  cases ret with
  | error e => rfl
  | ok a => exact List.append_nil w

/-- A continued outcome that completes comes from a first part and a second part that complete. -/
theorem Outcome.andThen_eq_ok {o : Outcome ε σ ω α} {k : α → σ → Outcome ε σ ω β} {b : β} {s : σ}
    {w : List ω} (h : o.andThen k = ⟨.ok b, s, w⟩) :
    ∃ a s₁ w₁ w₂, o = ⟨.ok a, s₁, w₁⟩ ∧ k a s₁ = ⟨.ok b, s, w₂⟩ ∧ w = w₁ ++ w₂ := by
  obtain ⟨ret, s₁, w₁⟩ := o
  cases ret with
  | error e => simp at h
  | ok a =>
    rcases hk : k a s₁ with ⟨ret', s', w'⟩
    simp only [Outcome.andThen_ok, hk, Outcome.mk.injEq] at h
    obtain ⟨rfl, rfl, rfl⟩ := h
    exact ⟨a, s₁, w₁, w', rfl, hk, rfl⟩

/-- An outcome that completes, with its parts. -/
theorem Outcome.eq_ok {o : Outcome ε σ ω α} (h : o.ret.isOk = true) :
    ∃ a, o = ⟨.ok a, o.st, o.events⟩ := by
  obtain ⟨ret, s, w⟩ := o
  cases ret with
  | ok a => exact ⟨a, rfl⟩
  | error e => exact absurd h (by simp [Except.isOk, Except.toBool])

end Outcome

/-- A program over an environment `ρ`, errors `ε`, a state `σ`, and events `ω`. -/
def Prog (ρ ε σ ω α : Type) : Type := ρ → σ → Outcome ε σ ω α

section Prog

variable {ρ ε σ ω α β : Type}

instance : Monad (Prog ρ ε σ ω) where
  pure a := fun _ s => ⟨.ok a, s, []⟩
  bind x f := fun e s => (x e s).andThen fun a s' => f a e s'

@[simp]
theorem pure_apply (a : α) (e : ρ) (s : σ) :
    (pure a : Prog ρ ε σ ω α) e s = ⟨.ok a, s, []⟩ := rfl

@[simp]
theorem bind_apply (x : Prog ρ ε σ ω α) (f : α → Prog ρ ε σ ω β) (e : ρ) (s : σ) :
    (x >>= f) e s = (x e s).andThen fun a s' => f a e s' := rfl

/-- Reads the environment. -/
def ask : Prog ρ ε σ ω ρ := fun e s => ⟨.ok e, s, []⟩

/-- Reads the state. -/
def getState : Prog ρ ε σ ω σ := fun _ s => ⟨.ok s, s, []⟩

/-- Changes the state. -/
def modifyState (f : σ → σ) : Prog ρ ε σ ω Unit := fun _ s => ⟨.ok (), f s, []⟩

/-- Adds an event to the trace. -/
def emit (w : ω) : Prog ρ ε σ ω Unit := fun _ s => ⟨.ok (), s, [w]⟩

/-- Stops with an error. -/
def stop (x : ε) : Prog ρ ε σ ω α := fun _ s => ⟨.error x, s, []⟩

@[simp] theorem ask_apply (e : ρ) (s : σ) : (ask : Prog ρ ε σ ω ρ) e s = ⟨.ok e, s, []⟩ := rfl

@[simp] theorem getState_apply (e : ρ) (s : σ) :
    (getState : Prog ρ ε σ ω σ) e s = ⟨.ok s, s, []⟩ := rfl

@[simp] theorem modifyState_apply (f : σ → σ) (e : ρ) (s : σ) :
    (modifyState f : Prog ρ ε σ ω Unit) e s = ⟨.ok (), f s, []⟩ := rfl

@[simp] theorem emit_apply (w : ω) (e : ρ) (s : σ) :
    (emit w : Prog ρ ε σ ω Unit) e s = ⟨.ok (), s, [w]⟩ := rfl

@[simp] theorem stop_apply (x : ε) (e : ρ) (s : σ) :
    (stop x : Prog ρ ε σ ω α) e s = ⟨.error x, s, []⟩ := rfl

/-- Sequencing is associative. -/
theorem prog_bind_assoc {γ : Type} (x : Prog ρ ε σ ω α) (f : α → Prog ρ ε σ ω β)
    (g : β → Prog ρ ε σ ω γ) : x >>= f >>= g = x >>= fun a => f a >>= g := by
  funext e s
  simp only [bind_apply]
  exact Outcome.andThen_assoc ..

/-- A conditional runs the branch that it selects. -/
@[simp] theorem prog_ite_apply (c : Prop) [Decidable c] (x y : Prog ρ ε σ ω α) (e : ρ) (s : σ) :
    (if c then x else y) e s = if c then x e s else y e s := by
  split_ifs <;> rfl

end Prog

/-! ## What a program yields -/

section Yields

variable {ρ ε σ ω o α β : Type}

/-- The outcome completes with the result `a`, the state `s`, and the observed events `os`, unless
it is an error, before which only a beginning of `os` was observed. -/
def Outcome.Yields (observe : ω → Option o) (out : Outcome ε σ ω α) (a : α) (s : σ)
    (os : List o) : Prop :=
  match out.ret with
  | .ok a' => a' = a ∧ out.st = s ∧ out.events.filterMap observe = os
  | .error _ => out.events.filterMap observe <+: os

variable {observe : ω → Option o}

/-- An outcome that completes yields what it has. -/
theorem Outcome.yields_ok {a : α} {s : σ} {w : List ω} {os : List o}
    (h : w.filterMap observe = os) : (⟨.ok a, s, w⟩ : Outcome ε σ ω α).Yields observe a s os :=
  ⟨rfl, rfl, h⟩

/-- An error before which nothing was observed yields anything. -/
theorem Outcome.yields_error {x : ε} {a : α} {s s' : σ} {w : List ω} {os : List o}
    (h : w.filterMap observe = []) :
    (⟨.error x, s', w⟩ : Outcome ε σ ω α).Yields observe a s os := by
  unfold Outcome.Yields
  simp only [h]
  exact List.nil_prefix

/-- A program after another one: the events of the first are followed by those of the second. -/
theorem Yields.bind {x : Prog ρ ε σ ω α} {f : α → Prog ρ ε σ ω β} {e : ρ} {s s₁ s₂ : σ} {a : α}
    {b : β} {os₁ os₂ : List o} (hx : (x e s).Yields observe a s₁ os₁)
    (hf : (f a e s₁).Yields observe b s₂ os₂) :
    ((x >>= f) e s).Yields observe b s₂ (os₁ ++ os₂) := by
  rw [bind_apply]
  rcases hx' : x e s with ⟨ret, s', w⟩
  rw [hx'] at hx
  cases ret with
  | error e =>
    -- The second program is not reached.
    exact hx.trans (List.prefix_append _ _)
  | ok a' =>
    obtain ⟨rfl, rfl, hw⟩ := hx
    rcases hf' : f a' e s' with ⟨ret', s'', w'⟩
    simp only [hf', Outcome.Yields] at hf
    simp only [Outcome.andThen_ok, hf', Outcome.Yields, List.filterMap_append]
    simp only at hw
    cases ret' with
    | error e =>
      -- What was observed of the second program comes after all of the first.
      simp only at hf ⊢
      rw [hw]
      exact (List.prefix_append_right_inj os₁).mpr hf
    | ok b' =>
      simp only at hf ⊢
      exact ⟨hf.1, hf.2.1, by rw [hw, hf.2.2]⟩

/-- A program after a silent one. -/
theorem Yields.after {x : Prog ρ ε σ ω α} {f : α → Prog ρ ε σ ω β} {e : ρ} {s s₁ s₂ : σ} {a : α}
    {b : β} {os : List o} (hx : (x e s).Yields observe a s₁ [])
    (hf : (f a e s₁).Yields observe b s₂ os) : ((x >>= f) e s).Yields observe b s₂ os :=
  Yields.bind hx hf

/-- A program after one with a single observed event. -/
theorem Yields.cons {x : Prog ρ ε σ ω α} {f : α → Prog ρ ε σ ω β} {e : ρ} {s s₁ s₂ : σ} {a : α}
    {b : β} {y : o} {os : List o} (hx : (x e s).Yields observe a s₁ [y])
    (hf : (f a e s₁).Yields observe b s₂ os) : ((x >>= f) e s).Yields observe b s₂ (y :: os) :=
  Yields.bind hx hf

/-- A conditional yields what its branches yield. -/
theorem Yields.ite {c : Prop} [Decidable c] {x y : Prog ρ ε σ ω α} {e : ρ} {s s' : σ} {a : α}
    {os : List o} (hx : c → (x e s).Yields observe a s' os)
    (hy : ¬c → (y e s).Yields observe a s' os) :
    ((if c then x else y) e s).Yields observe a s' os := by
  split_ifs with hc
  · exact hx hc
  · exact hy hc

end Yields

/-! ## Safe programs -/

section Safe

variable {ρ ε σ ω α β : Type}

/-- Every event of the outcome is allowed, and it is not an error of the bad kind. -/
def Outcome.Safe (P : ω → Prop) (bad : ε → Prop) (out : Outcome ε σ ω α) : Prop :=
  (∀ ev ∈ out.events, P ev) ∧ ∀ x, out.ret = .error x → ¬bad x

variable {P : ω → Prop} {bad : ε → Prop}

/-- An outcome that completes is safe when its events are allowed. -/
theorem Outcome.safe_ok {a : α} {s : σ} {w : List ω} :
    (⟨.ok a, s, w⟩ : Outcome ε σ ω α).Safe P bad ↔ ∀ ev ∈ w, P ev := by
  simp [Outcome.Safe]

/-- An error is safe when its events are allowed and it is not of the bad kind. -/
theorem Outcome.safe_error {x : ε} {s : σ} {w : List ω} :
    (⟨.error x, s, w⟩ : Outcome ε σ ω α).Safe P bad ↔ (∀ ev ∈ w, P ev) ∧ ¬bad x := by
  simp [Outcome.Safe]

/-- Where no error is bad, an outcome is safe when its events are allowed. -/
theorem Outcome.safe_of_never {out : Outcome ε σ ω α} :
    out.Safe P (fun _ => False) ↔ ∀ ev ∈ out.events, P ev := by
  simp [Outcome.Safe]

/-- A program after one that completes: the events of both are allowed. -/
theorem safe_bind_of_ok {x : Prog ρ ε σ ω α} (f : α → Prog ρ ε σ ω β) {e : ρ} {s s' : σ} {a : α}
    {w : List ω} (hx : x e s = ⟨.ok a, s', w⟩) :
    ((x >>= f) e s).Safe P bad ↔ (∀ ev ∈ w, P ev) ∧ (f a e s').Safe P bad := by
  rw [bind_apply, hx, Outcome.andThen_ok]
  unfold Outcome.Safe
  rw [List.forall_mem_append, and_assoc]

/-- A result adds nothing to a program. -/
theorem safe_bind_pure {x : Prog ρ ε σ ω α} (b : β) {e : ρ} {s : σ} :
    ((x >>= fun _ => (pure b : Prog ρ ε σ ω β)) e s).Safe P bad ↔ (x e s).Safe P bad := by
  rw [bind_apply]
  rcases x e s with ⟨ret, s', w⟩
  cases ret with
  | ok a => simp [Outcome.Safe]
  | error y => simp [Outcome.Safe]

/-- A program after one that stops is never reached. -/
theorem safe_bind_of_error {x : Prog ρ ε σ ω α} (f : α → Prog ρ ε σ ω β) {e : ρ} {s s' : σ} {y : ε}
    {w : List ω} (hx : x e s = ⟨.error y, s', w⟩) :
    ((x >>= f) e s).Safe P bad ↔ (∀ ev ∈ w, P ev) ∧ ¬bad y := by
  rw [bind_apply, hx, Outcome.andThen_error, Outcome.safe_error]

/-- A program is safe when its parts are, whatever the first leaves to the second. -/
theorem safe_bind {x : Prog ρ ε σ ω α} {f : α → Prog ρ ε σ ω β} {e : ρ} {s : σ}
    (hx : (x e s).Safe P bad) (hf : ∀ a s', (f a e s').Safe P bad) :
    ((x >>= f) e s).Safe P bad := by
  rcases h : x e s with ⟨ret, s', w⟩
  rw [h] at hx
  cases ret with
  | ok a => exact (safe_bind_of_ok f h).mpr ⟨Outcome.safe_ok.mp hx, hf a s'⟩
  | error y => exact (safe_bind_of_error f h).mpr (Outcome.safe_error.mp hx)

end Safe

/-! ## Runs -/

section Run

variable {ε σ ω α ι : Type}

/-- Takes the steps of the inputs in order, until one stops with an error. -/
def run (step : ι → σ → Outcome ε σ ω α) : List ι → σ → Outcome ε σ ω Unit
  | [], s => ⟨.ok (), s, []⟩
  | i :: is, s => (step i s).andThen fun _ s' => run step is s'

variable {step : ι → σ → Outcome ε σ ω α} {s₀ s : σ} {w : List ω}

/-- A run over two lists of inputs is the run over the second after the run over the first. -/
theorem run_append (is js : List ι) (s : σ) :
    run step (is ++ js) s = (run step is s).andThen fun _ s' => run step js s' := by
  induction is generalizing s with
  | nil => simp [run]
  | cons i is ih =>
    simp only [List.cons_append, run, Outcome.andThen_assoc]
    congr 1
    funext a s'
    exact ih s'

/-- The last step of a run that completes. -/
theorem run_concat_eq_ok {is : List ι} {i : ι} (h : run step (is ++ [i]) s₀ = ⟨.ok (), s, w⟩) :
    ∃ s₁ w₁ a w₂, run step is s₀ = ⟨.ok (), s₁, w₁⟩ ∧ step i s₁ = ⟨.ok a, s, w₂⟩ ∧
      w = w₁ ++ w₂ := by
  rw [run_append] at h
  obtain ⟨⟨⟩, s₁, w₁, w₂, h1, h2, rfl⟩ := Outcome.andThen_eq_ok h
  obtain ⟨a, s₂, w₃, w₄, h3, h4, rfl⟩ := Outcome.andThen_eq_ok h2
  simp only [run, Outcome.mk.injEq, true_and] at h4
  obtain ⟨rfl, rfl⟩ := h4
  exact ⟨s₁, w₁, a, w₃, h1, h3, by simp⟩

/-- One of the steps of a run that completes, with the runs before and after it. -/
theorem run_split_eq_ok {past mid : List ι} {i : ι}
    (h : run step (past ++ i :: mid) s₀ = ⟨.ok (), s, w⟩) :
    ∃ s₁ w₁ a s₂ w₂ w₃, run step past s₀ = ⟨.ok (), s₁, w₁⟩ ∧ step i s₁ = ⟨.ok a, s₂, w₂⟩ ∧
      run step mid s₂ = ⟨.ok (), s, w₃⟩ := by
  rw [run_append] at h
  obtain ⟨⟨⟩, s₁, w₁, w', h1, h', -⟩ := Outcome.andThen_eq_ok h
  obtain ⟨a, s₂, w₂, w₃, h2, h3, -⟩ := Outcome.andThen_eq_ok h'
  exact ⟨s₁, w₁, a, s₂, w₂, w₃, h1, h2, h3⟩

/-- A run that completes, extended by a step that completes. -/
theorem run_concat_ok {is : List ι} {i : ι} {s₁ : σ} {w₁ w₂ : List ω} {a : α}
    (h : run step is s₀ = ⟨.ok (), s₁, w₁⟩) (hi : step i s₁ = ⟨.ok a, s, w₂⟩) :
    run step (is ++ [i]) s₀ = ⟨.ok (), s, w₁ ++ w₂⟩ := by
  simp [run_append, h, run, hi]

/-- Induction along a run that completes: what holds at the start and is preserved by each step,
given the run that led to the step, holds at the end. -/
theorem run_induction {is : List ι} (P : List ι → σ → List ω → Prop) (h0 : P [] s₀ [])
    (hstep : ∀ past i s₁ w₁ a s₂ w₂, past ++ [i] <+: is → run step past s₀ = ⟨.ok (), s₁, w₁⟩ →
      step i s₁ = ⟨.ok a, s₂, w₂⟩ → P past s₁ w₁ → P (past ++ [i]) s₂ (w₁ ++ w₂))
    (h : run step is s₀ = ⟨.ok (), s, w⟩) : P is s w := by
  -- The induction is over the beginnings of the run, from the shortest on.
  suffices ∀ past, past <+: is → ∀ s w, run step past s₀ = ⟨.ok (), s, w⟩ → P past s w from
    this is List.prefix_rfl s w h
  intro past
  induction past using List.reverseRecOn with
  | nil =>
    intro _ s w hr
    simp only [run, Outcome.mk.injEq, true_and] at hr
    obtain ⟨rfl, rfl⟩ := hr
    exact h0
  | append_singleton past i ih =>
    intro hp s w hr
    obtain ⟨s₁, w₁, a, w₂, h1, h2, rfl⟩ := run_concat_eq_ok hr
    exact hstep past i s₁ w₁ a s w₂ hp h1 h2 (ih ((List.prefix_append _ _).trans hp) s₁ w₁ h1)

/-- The events of the beginning of a run are the first ones of the run. -/
theorem run_events_start {past is : List ι} {s₁ : σ} {w₁ : List ω} (hp : past <+: is)
    (h : run step is s₀ = ⟨.ok (), s, w⟩) (hpast : run step past s₀ = ⟨.ok (), s₁, w₁⟩) :
    w₁ <+: w := by
  obtain ⟨rest, rfl⟩ := hp
  rw [run_append, hpast, Outcome.andThen_ok] at h
  exact ⟨_, congrArg Outcome.events h⟩

/-- A run either completes, or it stops in the step of some input, after a run that completes. -/
theorem run_cases (step : ι → σ → Outcome ε σ ω α) (is : List ι) (s₀ : σ) :
    (∃ s w, run step is s₀ = ⟨.ok (), s, w⟩) ∨
      ∃ past i s₁ w₁ e s w₂, past ++ [i] <+: is ∧ run step past s₀ = ⟨.ok (), s₁, w₁⟩ ∧
        step i s₁ = ⟨.error e, s, w₂⟩ ∧ run step is s₀ = ⟨.error e, s, w₁ ++ w₂⟩ := by
  induction is using List.reverseRecOn with
  | nil => exact .inl ⟨s₀, [], rfl⟩
  | append_singleton is i ih =>
    rcases ih with ⟨s, w, h⟩ | ⟨past, j, s₁, w₁, e, s, w₂, hp, h1, h2, h⟩
    · rcases hi : step i s with ⟨ret, s', w'⟩
      cases ret with
      | ok a => exact .inl ⟨s', w ++ w', run_concat_ok h hi⟩
      | error e =>
        have hstop : run step (is ++ [i]) s₀ = ⟨.error e, s', w ++ w'⟩ := by
          simp [run_append, h, run, hi]
        exact .inr ⟨is, i, s, w, e, s', w', List.prefix_rfl, h, hi, hstop⟩
    · -- A run that has stopped takes no further step.
      exact .inr ⟨past, j, s₁, w₁, e, s, w₂, hp.trans (List.prefix_append _ _), h1, h2,
        by simp [run_append, h]⟩

/-- A run that completes, with the state and the events that it leaves. -/
theorem run_of_isOk (step : ι → σ → Outcome ε σ ω α) (is : List ι) (s₀ : σ)
    (h : (run step is s₀).ret.isOk = true) :
    run step is s₀ = ⟨.ok (), (run step is s₀).st, (run step is s₀).events⟩ := by
  obtain ⟨⟨⟩, hr⟩ := Outcome.eq_ok h
  exact hr

/-- Every step that a run takes meets the condition `C`, in the state it starts from. -/
def Always (C : σ → ι → Prop) (step : ι → σ → Outcome ε σ ω α) (is : List ι) (s₀ : σ) : Prop :=
  ∀ past i s w, past ++ [i] <+: is → run step past s₀ = ⟨.ok (), s, w⟩ → C s i

/-- A run that takes no step meets any condition. -/
theorem always_nil {C : σ → ι → Prop} : Always C step [] s₀ := by
  intro past i s w hp
  exact absurd (List.prefix_nil.mp hp) (by simp)

/-- A run meets a condition when its first step does, and the rest of the run from the state that
this step leaves. -/
theorem always_cons {C : σ → ι → Prop} {i : ι} {is : List ι} (hi : C s₀ i)
    (his : Always C step is (step i s₀).st) : Always C step (i :: is) s₀ := by
  intro past j s w hp hr
  cases past with
  | nil =>
    have hj : j = i := (List.cons_prefix_cons.mp hp).1
    simp only [run, Outcome.mk.injEq, true_and] at hr
    rw [hj, ← hr.1]
    exact hi
  | cons i' past =>
    rw [List.cons_append] at hp
    obtain ⟨rfl, htail⟩ := List.cons_prefix_cons.mp hp
    obtain ⟨a, s₁, w₁, w₂, h1, h2, -⟩ := Outcome.andThen_eq_ok hr
    rw [h1] at his
    exact his past j s w₂ htail h2

/-- The beginning of a run whose steps meet a condition. -/
theorem Always.of_prefix {C : σ → ι → Prop} {past is : List ι} (h : Always C step is s₀)
    (hp : past <+: is) : Always C step past s₀ := fun before i s w hb =>
  h before i s w (hb.trans hp)

/-- The rest of a run whose steps meet a condition, from the state that its beginning leaves. -/
theorem Always.rest {C : σ → ι → Prop} {past is : List ι} (h : Always C step (past ++ is) s₀)
    (hr : run step past s₀ = ⟨.ok (), s, w⟩) : Always C step is s := by
  intro mid i s' w' hp hmid
  refine h (past ++ mid) i s' (w ++ w') ?_ ?_
  · rw [List.append_assoc]
    exact (List.prefix_append_right_inj past).mpr hp
  · rw [run_append, hr, Outcome.andThen_ok, hmid]

/-- The rest of a run after its first step. -/
theorem Always.tail {C : σ → ι → Prop} {i : ι} {is : List ι} {a : α}
    (h : Always C step (i :: is) s₀) (hi : step i s₀ = ⟨.ok a, s, w⟩) : Always C step is s := by
  have hfirst : run step [i] s₀ = ⟨.ok (), s, w⟩ := by
    simp only [run, hi, Outcome.andThen_ok, List.append_nil]
  have hsplit : Always C step ([i] ++ is) s₀ := h
  exact hsplit.rest hfirst

/-- The number of the steps of a run that meet the condition `C`, in the state they start from. -/
def stepsWith (C : σ → ι → Prop) [∀ s i, Decidable (C s i)] (step : ι → σ → Outcome ε σ ω α) :
    List ι → σ → ℕ
  | [], _ => 0
  | i :: is, s => (if C s i then 1 else 0) + stepsWith C step is (step i s).st

/-- The last step of a run is counted in the state that the others leave. -/
theorem stepsWith_concat {C : σ → ι → Prop} [∀ s i, Decidable (C s i)] {is : List ι} (i : ι)
    (h : run step is s₀ = ⟨.ok (), s, w⟩) :
    stepsWith C step (is ++ [i]) s₀ = stepsWith C step is s₀ + if C s i then 1 else 0 := by
  induction is generalizing s₀ w with
  | nil =>
    simp only [run, Outcome.mk.injEq, true_and] at h
    simp [stepsWith, h.1]
  | cons j is ih =>
    obtain ⟨a, s₁, w₁, w₂, hj, his, -⟩ := Outcome.andThen_eq_ok h
    rw [List.cons_append, stepsWith, stepsWith, hj, ih his, Nat.add_assoc]

end Run

/-! ## Mealy machines and projections of runs -/

section Mealy

variable {ε σ ω α ι υ μ o : Type}

/-- The state and the outputs of a machine after a list of messages. -/
def mealy (react : υ → μ → υ × List o) : υ → List μ → υ × List o
  | v, [] => (v, [])
  | v, m :: ms =>
    ((mealy react (react v m).1 ms).1, (react v m).2 ++ (mealy react (react v m).1 ms).2)

/-- A machine's run over two lists of messages. -/
theorem mealy_append (react : υ → μ → υ × List o) (ms ns : List μ) (v : υ) :
    mealy react v (ms ++ ns) =
      ((mealy react (mealy react v ms).1 ns).1,
        (mealy react v ms).2 ++ (mealy react (mealy react v ms).1 ns).2) := by
  induction ms generalizing v with
  | nil => simp [mealy]
  | cons m ms ih => simp [mealy, ih]

/-- The last message of a machine's run. -/
theorem mealy_concat (react : υ → μ → υ × List o) (ms : List μ) (m : μ) (v : υ) :
    mealy react v (ms ++ [m]) =
      ((react (mealy react v ms).1 m).1,
        (mealy react v ms).2 ++ (react (mealy react v ms).1 m).2) := by
  simp [mealy_append, mealy]

/-- The state after a list of messages, without the outputs. -/
theorem mealy_fst (react : υ → μ → υ × List o) (ms : List μ) (v : υ) :
    (mealy react v ms).1 = ms.foldl (fun v m => (react v m).1) v := by
  induction ms generalizing v with
  | nil => rfl
  | cons m ms ih => exact ih _

variable {step : ι → σ → Outcome ε σ ω α} {s₀ s : σ} {w : List ω}

/-- Every step of a run is, through a view of the state and an observation of the events, either
invisible or a transition of a machine. -/
def Projects (view : σ → υ) (visible : ι → Option μ) (observe : ω → Option o)
    (react : υ → μ → υ × List o) (step : ι → σ → Outcome ε σ ω α) (is : List ι) (s₀ : σ) : Prop :=
  ∀ past i s₁ w₁ a s₂ w₂, past ++ [i] <+: is → run step past s₀ = ⟨.ok (), s₁, w₁⟩ →
    step i s₁ = ⟨.ok a, s₂, w₂⟩ →
    (view s₂, w₂.filterMap observe) = (visible i).elim (view s₁, []) (react (view s₁))

variable {view : σ → υ} {visible : ι → Option μ} {observe : ω → Option o}
  {react : υ → μ → υ × List o} {is js : List ι} {s' : σ} {w' : List ω}

/-- A run that projects to a machine is a run of the machine on the visible inputs. -/
theorem run_projects (hp : Projects view visible observe react step is s₀)
    (h : run step is s₀ = ⟨.ok (), s, w⟩) :
    (view s, w.filterMap observe) = mealy react (view s₀) (is.filterMap visible) := by
  refine run_induction
    (fun past s w => (view s, w.filterMap observe) = mealy react (view s₀) (past.filterMap visible))
    rfl ?_ h
  intro past i s₁ w₁ a s₂ w₂ hpast hr hi ih
  have hs := hp past i s₁ w₁ a s₂ w₂ hpast hr hi
  rw [Prod.ext_iff] at ih hs
  obtain ⟨ih1, ih2⟩ := ih
  obtain ⟨hs1, hs2⟩ := hs
  simp only at ih1 ih2 hs1 hs2
  -- An invisible step leaves the view and is not observed, and a visible one is a transition.
  rw [List.filterMap_append, List.filterMap_append, List.filterMap_cons, List.filterMap_nil, hs1,
    hs2, ih2]
  cases visible i with
  | none => simp [ih1]
  | some m => rw [mealy_concat, ← ih1, Option.elim_some]

/-- Two runs with the same visible inputs end with the same view and the same observations. -/
theorem run_projects_agree (hp : Projects view visible observe react step is s₀)
    (hp' : Projects view visible observe react step js s₀)
    (hvis : is.filterMap visible = js.filterMap visible)
    (h : run step is s₀ = ⟨.ok (), s, w⟩) (h' : run step js s₀ = ⟨.ok (), s', w'⟩) :
    view s = view s' ∧ w.filterMap observe = w'.filterMap observe := by
  have e : (view s, w.filterMap observe) = (view s', w'.filterMap observe) := calc
    (view s, w.filterMap observe) = mealy react (view s₀) (is.filterMap visible) :=
      run_projects hp h
    _ = mealy react (view s₀) (js.filterMap visible) := by rw [hvis]
    _ = (view s', w'.filterMap observe) := (run_projects hp' h').symm
  exact Prod.ext_iff.mp e

end Mealy

end Exec
