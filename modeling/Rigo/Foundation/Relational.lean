import Rigo.Foundation.Program

/-!
# Two runs side by side

Properties that compare two runs are proved step by step.  `RunsAlike` says that two
programs, run from two states, end with the same fault or with the same value in
related states.  `RunsAlike.bind` composes such facts; the relation between the states
may change from step to step.
-/

namespace Foundation

variable {Op Op' : Type → Type} {ε α β σ τ : Type}

/-- Two outcomes are alike: the same fault, or the same value in related states. -/
def Alike (R : σ → τ → Prop) : Except ε α × σ → Except ε α × τ → Prop
  | (.ok value, s), (.ok value', t) => value = value' ∧ R s t
  | (.error fault, _), (.error fault', _) => fault = fault'
  | (.ok _, _), (.error _, _) => False
  | (.error _, _), (.ok _, _) => False

variable {R : σ → τ → Prop}

@[simp] theorem alike_ok {value value' : α} {s : σ} {t : τ} :
    Alike R ((.ok value, s) : Except ε α × σ) (.ok value', t) ↔ value = value' ∧ R s t := Iff.rfl

@[simp] theorem alike_error {fault fault' : ε} {s : σ} {t : τ} :
    Alike R ((.error fault, s) : Except ε α × σ) (.error fault', t) ↔ fault = fault' := Iff.rfl

/-- Equal outcomes in related states are alike. -/
theorem Alike.of_eq {outcome outcome' : Except ε α} {s : σ} {t : τ}
    (same : outcome = outcome') (related : R s t) : Alike R (outcome, s) (outcome', t) := by
  subst same
  cases outcome with
  | error fault => rfl
  | ok value => exact ⟨rfl, related⟩

theorem Alike.mono {R R' : σ → τ → Prop} {r : Except ε α × σ} {r' : Except ε α × τ}
    (alike : Alike R r r') (weaken : ∀ s t, R s t → R' s t) : Alike R' r r' := by
  obtain ⟨outcome, s⟩ := r
  obtain ⟨outcome', t⟩ := r'
  cases outcome <;> cases outcome'
  · exact alike
  · exact alike
  · exact alike
  · exact ⟨alike.1, weaken s t alike.2⟩

/-- Two programs run from two states end alike. -/
def RunsAlike (h : Handler Op σ) (g : Handler Op' τ) (R : σ → τ → Prop) (p : Prog Op ε α)
    (q : Prog Op' ε α) (s : σ) (t : τ) : Prop :=
  Alike R (run h p s) (run g q t)

section

variable {h : Handler Op σ} {g : Handler Op' τ} {M R : σ → τ → Prop}

variable {t : τ} {s : σ}

theorem RunsAlike.pure (value : α) (related : R s t) :
    RunsAlike h g R (.pure value : Prog Op ε α) (.pure value) s t := ⟨rfl, related⟩

theorem RunsAlike.fail (fault : ε) :
    RunsAlike h g R (.fail fault : Prog Op ε α) (.fail fault) s t := rfl

variable {p : Prog Op ε α} {q : Prog Op' ε α}

/-- If one of two alike programs succeeds, so does the other. -/
theorem RunsAlike.ok {s s' : σ} {value : α}
    (alike : RunsAlike h g R p q s t) (ran : run h p s = (.ok value, s')) :
    ∃ t', run g q t = (.ok value, t') ∧ R s' t' := by
  unfold RunsAlike at alike
  rw [ran] at alike
  generalize run g q t = r' at alike ⊢
  obtain ⟨outcome, t'⟩ := r'
  cases outcome with
  | error fault => exact alike.elim
  | ok value' =>
    obtain ⟨rfl, related⟩ := alike
    exact ⟨t', rfl, related⟩

/-- Alike programs followed by programs that are alike from the states reached. -/
theorem RunsAlike.bind {f : α → Prog Op ε β}
    {f' : α → Prog Op' ε β} (first : RunsAlike h g M p q s t)
    (next : ∀ value s' t', M s' t' → RunsAlike h g R (f value) (f' value) s' t') :
    RunsAlike h g R (p.bind f) (q.bind f') s t := by
  unfold RunsAlike at first ⊢
  rw [run_bind, run_bind]
  generalize run h p s = r at first ⊢
  generalize run g q t = r' at first ⊢
  obtain ⟨outcome, s'⟩ := r
  obtain ⟨outcome', t'⟩ := r'
  cases outcome with
  | error fault =>
    cases outcome' with
    | error fault' => exact first
    | ok value' => exact first.elim
  | ok value =>
    cases outcome' with
    | error fault' => exact first.elim
    | ok value' =>
      obtain ⟨rfl, related⟩ := first
      exact next value s' t' related

theorem RunsAlike.mono {R' : σ → τ → Prop}
    (alike : RunsAlike h g R p q s t) (weaken : ∀ s t, R s t → R' s t) :
    RunsAlike h g R' p q s t := Alike.mono alike weaken

/-- Two outcomes are the same in related states, also if they are faults.  A value
satisfies `Q`. -/
structure InStep (R : σ → τ → Prop) (Q : α → Prop) (r : Except ε α × σ) (r' : Except ε α × τ) :
    Prop where
  outcome : r.1 = r'.1
  related : R r.2 r'.2
  value : ∀ v, r.1 = .ok v → Q v

theorem InStep.bind {Q : α → Prop} {Q' : β → Prop}
    {f : α → Prog Op ε β} {f' : α → Prog Op' ε β}
    (first : InStep R Q (run h p s) (run g q t))
    (next : ∀ v s' t', Q v → R s' t' → InStep R Q' (run h (f v) s') (run g (f' v) t')) :
    InStep R Q' (run h (p.bind f) s) (run g (q.bind f') t) := by
  rw [run_bind, run_bind]
  generalize run h p s = r at first ⊢
  generalize run g q t = r' at first ⊢
  obtain ⟨outcome, s'⟩ := r
  obtain ⟨outcome', t'⟩ := r'
  obtain ⟨same, related, value⟩ := first
  obtain rfl : outcome = outcome' := same
  cases outcome with
  | ok v => exact next v s' t' (value v rfl) related
  | error fault =>
    refine ⟨rfl, related, ?_⟩
    intro v failed
    cases failed

/-- A program that keeps to a contract has the same outcome on two implementations
that agree on what the contract allows, and ends in related states. -/
theorem Obeys.run_related {c : Contract Op} {g : Handler Op τ}
    (agree : ∀ {γ : Type} (op : Op γ) (s : σ) (t : τ), R s t → c.asks op →
      (h.step op s).1 = (g.step op t).1 ∧ c.grants op (h.step op s).1 ∧
        R (h.step op s).2 (g.step op t).2)
    (obeys : Obeys c (fun _ => True) p) (related : R s t) :
    (Foundation.run h p s).1 = (Foundation.run g p t).1 ∧
      R (Foundation.run h p s).2 (Foundation.run g p t).2 := by
  induction p generalizing s t with
  | pure value => exact ⟨rfl, related⟩
  | fail fault => exact ⟨rfl, related⟩
  | call op next ih =>
    obtain ⟨answer, granted, related'⟩ := agree op s t related obeys.1
    rw [run_call, run_call, ← answer]
    exact ih _ (obeys.2 _ granted) related'

end

end Foundation
