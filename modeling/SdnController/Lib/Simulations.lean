import SdnController.Lib.Exec

/-!
# Simulations between programs

Two programs on different states match when they end in the same way, leave the same events, and,
if they complete, return results and leave states that are related (`Outcome.Matches`). There is one
rule for each way of putting programs together, which follows both in step, so that two programs of
the same shape are compared part by part.

Two systems that match at every step, from related states and under a condition on the step that the
first one takes, match over every run whose steps meet the condition (`run_matches`).
-/

namespace Exec

section Matches

variable {ρ ε σ τ ω α β α' β' : Type}

/-- Both outcomes are the same error after the same events, or both complete with the same events
and with results and states that are related. -/
def Outcome.Matches (R : α → β → σ → τ → Prop) (o : Outcome ε σ ω α) (o' : Outcome ε τ ω β) :
    Prop :=
  o.events = o'.events ∧
    match o.ret, o'.ret with
    | .ok a, .ok b => R a b o.st o'.st
    | .error x, .error y => x = y
    | _, _ => False

variable {R : α → β → σ → τ → Prop} {R' : α' → β' → σ → τ → Prop}

theorem Outcome.matches_ok {a : α} {b : β} {s : σ} {t : τ} (w : List ω) (h : R a b s t) :
    (⟨.ok a, s, w⟩ : Outcome ε σ ω α).Matches R ⟨.ok b, t, w⟩ := ⟨rfl, h⟩

theorem Outcome.matches_error (x : ε) (s : σ) (t : τ) (w : List ω) :
    (⟨.error x, s, w⟩ : Outcome ε σ ω α).Matches R ⟨.error x, t, w⟩ := ⟨rfl, rfl⟩

/-- What matching outcomes look like. -/
theorem Outcome.Matches.cases {o : Outcome ε σ ω α} {o' : Outcome ε τ ω β} (h : o.Matches R o') :
    (∃ a b s t w, o = ⟨.ok a, s, w⟩ ∧ o' = ⟨.ok b, t, w⟩ ∧ R a b s t) ∨
      ∃ x s t w, o = ⟨.error x, s, w⟩ ∧ o' = ⟨.error x, t, w⟩ := by
  obtain ⟨ret, s, w⟩ := o
  obtain ⟨ret', t, w'⟩ := o'
  obtain ⟨rfl, hret⟩ := h
  cases ret with
  | ok a =>
    cases ret' with
    | ok b => exact .inl ⟨a, b, s, t, w, rfl, rfl, hret⟩
    | error y => exact hret.elim
  | error x =>
    cases ret' with
    | ok b => exact hret.elim
    | error y =>
      obtain rfl : x = y := hret
      exact .inr ⟨x, s, t, w, rfl, rfl⟩

/-- Matching outcomes, one of which completes. -/
theorem Outcome.Matches.of_ok {o' : Outcome ε τ ω β} {a : α} {s : σ} {w : List ω}
    (h : (⟨.ok a, s, w⟩ : Outcome ε σ ω α).Matches R o') :
    ∃ b t, o' = ⟨.ok b, t, w⟩ ∧ R a b s t := by
  rcases h.cases with ⟨a', b, s', t, w', ho, ho', hR⟩ | ⟨x, s', t, w', ho, ho'⟩
  · obtain ⟨⟨⟩, rfl, rfl⟩ := ho
    exact ⟨b, t, ho', hR⟩
  · exact absurd (congrArg Outcome.ret ho) (by simp)

/-- Matching outcomes, the other one of which completes. -/
theorem Outcome.Matches.to_ok {o : Outcome ε σ ω α} {b : β} {t : τ} {w : List ω}
    (h : o.Matches R (⟨.ok b, t, w⟩ : Outcome ε τ ω β)) :
    ∃ a s, o = ⟨.ok a, s, w⟩ ∧ R a b s t := by
  rcases h.cases with ⟨a, b', s, t', w', ho, ho', hR⟩ | ⟨x, s, t', w', ho, ho'⟩
  · obtain ⟨⟨⟩, rfl, rfl⟩ := ho'
    exact ⟨a, s, ho, hR⟩
  · exact absurd (congrArg Outcome.ret ho') (by simp)

/-- One outcome continued and the other one as well. -/
theorem Outcome.Matches.andThen {o : Outcome ε σ ω α} {o' : Outcome ε τ ω β}
    {k : α → σ → Outcome ε σ ω α'} {k' : β → τ → Outcome ε τ ω β'} (h : o.Matches R o')
    (hk : ∀ a b s t, R a b s t → (k a s).Matches R' (k' b t)) :
    (o.andThen k).Matches R' (o'.andThen k') := by
  rcases h.cases with ⟨a, b, s, t, w, rfl, rfl, hR⟩ | ⟨x, s, t, w, rfl, rfl⟩
  · obtain ⟨hevents, hret⟩ := hk a b s t hR
    exact ⟨congrArg (w ++ ·) hevents, hret⟩
  · exact matches_error x s t w

/-- A weaker relation. -/
theorem Outcome.Matches.imp {R₂ : α → β → σ → τ → Prop} {o : Outcome ε σ ω α}
    {o' : Outcome ε τ ω β} (h : o.Matches R o') (hR : ∀ a b s t, R a b s t → R₂ a b s t) :
    o.Matches R₂ o' := by
  rcases h.cases with ⟨a, b, s, t, w, rfl, rfl, hab⟩ | ⟨x, s, t, w, rfl, rfl⟩
  · exact matches_ok w (hR a b s t hab)
  · exact matches_error x s t w

/-- Two programs in sequence against two others. -/
theorem Matches.bind {x : Prog ρ ε σ ω α} {y : Prog ρ ε τ ω β} {f : α → Prog ρ ε σ ω α'}
    {g : β → Prog ρ ε τ ω β'} {e : ρ} {s : σ} {t : τ} (h : (x e s).Matches R (y e t))
    (hf : ∀ a b s t, R a b s t → (f a e s).Matches R' (g b e t)) :
    ((x >>= f) e s).Matches R' ((y >>= g) e t) := by
  rw [bind_apply, bind_apply]
  exact h.andThen hf

/-- A program with a last part that the other one does not have: it completes without an event. -/
theorem Matches.bind_silent {x : Prog ρ ε σ ω α} {f : α → Prog ρ ε σ ω α'} {y : Prog ρ ε τ ω β}
    {e : ρ} {s : σ} {t : τ} {R' : α' → β → σ → τ → Prop} (h : (x e s).Matches R (y e t))
    (hf : ∀ a b s t, R a b s t → ∃ a' s', f a e s = ⟨.ok a', s', []⟩ ∧ R' a' b s' t) :
    ((x >>= f) e s).Matches R' (y e t) := by
  rw [bind_apply]
  rcases h.cases with ⟨a, b, s, t, w, hx, hy, hR⟩ | ⟨x', s, t, w, hx, hy⟩
  · obtain ⟨a', s', hf', hR'⟩ := hf a b s t hR
    rw [hx, hy, Outcome.andThen_ok, hf', List.append_nil]
    exact Outcome.matches_ok w hR'
  · rw [hx, hy]
    exact Outcome.matches_error x' s t w

/-- A result computed from that of the other program only. -/
theorem Matches.bind_right {x : Prog ρ ε σ ω α} {y : Prog ρ ε τ ω β} {g : β → β'} {e : ρ} {s : σ}
    {t : τ} {R' : α → β' → σ → τ → Prop} (h : (x e s).Matches R (y e t))
    (hg : ∀ a b s t, R a b s t → R' a (g b) s t) :
    (x e s).Matches R' ((y >>= fun b => pure (g b)) e t) := by
  rw [bind_apply]
  rcases h.cases with ⟨a, b, s, t, w, hx, hy, hR⟩ | ⟨x', s, t, w, hx, hy⟩
  · rw [hx, hy, Outcome.andThen_ok, pure_apply, List.append_nil]
    exact Outcome.matches_ok w (hg a b s t hR)
  · rw [hx, hy]
    exact Outcome.matches_error x' s t w

/-- A program after a part that completes without an event. -/
theorem bind_of_silent {x : Prog ρ ε σ ω α} (f : α → Prog ρ ε σ ω β) {e : ρ} {s s' : σ} {a : α}
    (h : x e s = ⟨.ok a, s', []⟩) : (x >>= f) e s = f a e s' := by
  rw [bind_apply, h]
  rfl

/-- A program that starts by reading its environment. -/
theorem ask_bind (f : ρ → Prog ρ ε σ ω α) (e : ρ) (s : σ) : (ask >>= f) e s = f e e s := rfl

/-- A program that starts by reading its state. -/
theorem getState_bind (f : σ → Prog ρ ε σ ω α) (e : ρ) (s : σ) :
    (getState >>= f) e s = f s e s := rfl

end Matches

section Runs

variable {ε σ τ ω ι : Type} {R : σ → τ → Prop} {C : σ → ι → Prop}
  {step : ι → σ → Outcome ε σ ω Unit} {step' : ι → τ → Outcome ε τ ω Unit}

/-- Systems that match at every step that meets a condition match over every run whose steps do. -/
theorem run_matches
    (hstep : ∀ i s t, R s t → C s i → (step i s).Matches (fun _ _ => R) (step' i t))
    (is : List ι) {s : σ} {t : τ} (h : R s t) (hC : Always C step is s) :
    (run step is s).Matches (fun _ _ => R) (run step' is t) := by
  induction is generalizing s t with
  | nil => exact Outcome.matches_ok [] h
  | cons i is ih =>
    have hi : C s i := hC [] i s [] (by simp) rfl
    unfold run
    rcases (hstep i s t h hi).cases with ⟨_, _, s', t', w, hs, ht, hR⟩ | ⟨x, s', t', w, hs, ht⟩
    · rw [hs, ht, Outcome.andThen_ok, Outcome.andThen_ok]
      obtain ⟨hevents, hret⟩ := ih hR (hC.tail hs)
      exact ⟨congrArg (w ++ ·) hevents, hret⟩
    · rw [hs, ht]
      exact Outcome.matches_error x s' t' w

end Runs

end Exec
