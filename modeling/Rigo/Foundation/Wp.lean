import Rigo.Foundation.Triple

/-!
# Weakest preconditions

`wp h fault p post s` says how the program `p` ends when it is run from the state `s`: with a
value and a state that satisfy `post`, or with a fault that satisfies `fault`.  The rules are
equivalences, so that they compute the condition under which a program ends well from its
text; a `Triple` asks for a condition that is strong enough only.

`Obeys.wp` is the way back to contracts, for code whose faults do not depend on more than the
contract grants.
-/

namespace Foundation

variable {Op : Type → Type} {ε α β δ σ : Type} {h : Handler Op σ} {fault : ε → Prop}

/-- The program ends in `post`, or with a fault in `fault`. -/
def wp (h : Handler Op σ) (fault : ε → Prop) (p : Prog Op ε α) (post : α → σ → Prop) (s : σ) :
    Prop :=
  match run h p s with
  | (.ok value, t) => post value t
  | (.error reason, _) => fault reason

section

variable {p : Prog Op ε α} {post post' : α → σ → Prop} {s t : σ}

theorem wp_of_ok {value : α} (ran : run h p s = (.ok value, t)) :
    wp h fault p post s ↔ post value t := by
  rw [wp, ran]

@[simp] theorem wp_pure (value : α) : wp h fault (.pure value : Prog Op ε α) post s ↔ post value s :=
  Iff.rfl

@[simp] theorem wp_bind (p : Prog Op ε β) (f : β → Prog Op ε α) :
    wp h fault (p.bind f) post s ↔
      wp h fault p (fun value t => wp h fault (f value) post t) s := by
  unfold wp
  rw [run_bind]
  generalize run h p s = r
  obtain ⟨outcome, t⟩ := r
  cases outcome with
  | error reason => rfl
  | ok value => rfl

@[simp] theorem wp_ite (condition : Prop) [Decidable condition] (p q : Prog Op ε α) :
    wp h fault (if condition then p else q) post s ↔
      (condition → wp h fault p post s) ∧ (¬ condition → wp h fault q post s) := by
  by_cases holds : condition
  · simp [holds]
  · simp [holds]

theorem wp_mono (ends : wp h fault p post s) (weaker : ∀ value t, post value t → post' value t) :
    wp h fault p post' s := by
  unfold wp at ends ⊢
  generalize run h p s = r at ends ⊢
  obtain ⟨outcome, t⟩ := r
  cases outcome with
  | error reason => exact ends
  | ok value => exact weaker value t ends

/-- The faults of a program and its result can be looked at apart. -/
theorem wp_iff_ok :
    wp h fault p post s ↔ wp h fault p (fun _ _ => True) s ∧
      ∀ value t, run h p s = (.ok value, t) → post value t := by
  unfold wp
  generalize run h p s = r
  obtain ⟨outcome, t⟩ := r
  cases outcome with
  | error reason => simp
  | ok value => simp

end

/-- Code that keeps to a contract ends as the contract says, from a state that honours it. -/
theorem Obeys.wp {c : Contract Op} {result : Except ε α → Prop} {p : Prog Op ε α} {I : σ → Prop}
    (honours : ∀ {γ : Type} (op : Op γ) (s : σ), I s → c.asks op →
      c.grants op (h.step op s).1 ∧ I (h.step op s).2)
    (obeys : Obeys c result p) (faults : ∀ reason, result (.error reason) → fault reason)
    {s : σ} (holds : I s) :
    Foundation.wp h fault p (fun value t => result (.ok value) ∧ I t) s := by
  obtain ⟨ended, kept⟩ := Obeys.run h honours obeys holds
  unfold Foundation.wp
  generalize Foundation.run h p s = r at ended kept ⊢
  obtain ⟨outcome, t⟩ := r
  cases outcome with
  | error reason => exact faults reason ended
  | ok value => exact ⟨ended, kept⟩

end Foundation
