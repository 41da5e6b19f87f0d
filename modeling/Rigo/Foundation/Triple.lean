import Rigo.Foundation.Program

/-!
# Pre- and postconditions of programs

`Triple h pre p post fault` says how the program `p` ends when it is run from a state
that satisfies `pre`: with a value and a state that satisfy `post`, or with a fault and
a state that satisfy `fault`.  The rules follow the structure of programs; a loop over
a list has an invariant that may mention the elements that are left.

`run_bind_ok` takes a run that ended with a value apart.
-/

namespace Foundation

variable {Op : Type → Type} {ε α β γ δ σ : Type} {h : Handler Op σ}

/-- From `pre` the program ends in `post` or with a fault in `fault`. -/
def Triple (h : Handler Op σ) (pre : σ → Prop) (p : Prog Op ε α) (post : α → σ → Prop)
    (fault : ε → σ → Prop) : Prop :=
  ∀ s, pre s →
    match run h p s with
    | (.ok value, t) => post value t
    | (.error reason, t) => fault reason t

section

variable {pre : σ → Prop} {p : Prog Op ε α} {post : α → σ → Prop} {fault : ε → σ → Prop}

theorem Triple.ok (triple : Triple h pre p post fault) {s t : σ} {value : α} (holds : pre s)
    (ran : run h p s = (.ok value, t)) : post value t := by
  have ended := triple s holds
  rw [ran] at ended
  exact ended

/-- A program that does not fail. -/
theorem triple_returns_iff : Triple h pre p post (fun _ _ => False) ↔
    ∀ s, pre s → ∃ value t, run h p s = (.ok value, t) ∧ post value t := by
  refine forall_congr' fun s => imp_congr_right fun _ => ?_
  generalize run h p s = r
  obtain ⟨outcome, t⟩ := r
  cases outcome with
  | error reason => simp
  | ok value => simp

theorem Triple.pure {value : α} (done : ∀ s, pre s → post value s) :
    Triple h pre (.pure value : Prog Op ε α) post fault := fun s holds => done s holds

theorem Triple.fail {reason : ε} (failed : ∀ s, pre s → fault reason s) :
    Triple h pre (.fail reason : Prog Op ε α) post fault := fun s holds => failed s holds

theorem Triple.bind {mid : β → σ → Prop} {p : Prog Op ε β} {f : β → Prog Op ε α}
    (first : Triple h pre p mid fault) (next : ∀ value, Triple h (mid value) (f value) post fault) :
    Triple h pre (p.bind f) post fault := by
  intro s holds
  have ended := first s holds
  rw [run_bind]
  generalize run h p s = r at ended ⊢
  obtain ⟨outcome, t⟩ := r
  cases outcome with
  | error reason => exact ended
  | ok value => exact next value t ended

/-- A loop over a list; the invariant may mention the elements that are left. -/
theorem Triple.forM {body : γ → Prog Op ε PUnit} {I : List γ → σ → Prop} (list : List γ)
    (round : ∀ x rest, Triple h (I (x :: rest)) (body x) (fun _ => I rest) fault) :
    Triple h (I list) (list.forM body) (fun _ => I []) fault := by
  induction list with
  | nil => exact fun s holds => holds
  | cons head tail ih => exact Triple.bind (round head tail) fun _ => ih

/-- A loop over a list with an accumulator. -/
theorem Triple.foldlM {body : β → γ → Prog Op ε β} {I : List γ → β → σ → Prop}
    (list : List γ) (acc : β)
    (round : ∀ acc x rest, Triple h (I (x :: rest) acc) (body acc x) (I rest) fault) :
    Triple h (I list acc) (list.foldlM body acc) (I []) fault := by
  induction list generalizing acc with
  | nil => exact fun s holds => holds
  | cons head tail ih => exact Triple.bind (round acc head tail) fun acc' => ih acc'

end

/-! ## Taking runs apart -/

theorem run_bind_ok {p : Prog Op ε β} {f : β → Prog Op ε α} {s t : σ} {value : α}
    (ran : run h (p.bind f) s = (.ok value, t)) :
    ∃ mid s', run h p s = (.ok mid, s') ∧ run h (f mid) s' = (.ok value, t) := by
  rw [run_bind] at ran
  generalize first : run h p s = r at ran
  obtain ⟨outcome, s'⟩ := r
  cases outcome with
  | error reason => simp at ran
  | ok mid => exact ⟨mid, s', rfl, ran⟩

theorem run_bind_error {p : Prog Op ε β} {f : β → Prog Op ε α} {s t : σ} {reason : ε}
    (ran : run h (p.bind f) s = (.error reason, t)) :
    run h p s = (.error reason, t) ∨
      ∃ mid s', run h p s = (.ok mid, s') ∧ run h (f mid) s' = (.error reason, t) := by
  rw [run_bind] at ran
  generalize first : run h p s = r at ran
  obtain ⟨outcome, s'⟩ := r
  cases outcome with
  | error reason' =>
    cases ran
    exact .inl rfl
  | ok mid => exact .inr ⟨mid, s', rfl, ran⟩

/-! ## Loops in which every round has its own place -/

/-- A loop over elements with distinct keys, each round of which changes what is seen under
its own key only: under other keys nothing changes, and under the key of an element the loop
changes what the round of that element changes. -/
theorem run_foldlM_at {K δ : Type} {body : β → γ → Prog Op ε β} {keyOf : γ → K} {V : σ → K → δ}
    {I : σ → Prop}
    (round : ∀ acc x s acc' t, I s → run h (body acc x) s = (.ok acc', t) →
      I t ∧ ∀ k, k ≠ keyOf x → V t k = V s k)
    {list : List γ} (distinct : (list.map keyOf).Nodup) {acc acc' : β} {s t : σ} (holds : I s)
    (ran : run h (list.foldlM body acc) s = (.ok acc', t)) :
    I t ∧ (∀ k, k ∉ list.map keyOf → V t k = V s k) ∧
      ∀ x ∈ list, ∃ acc₁ s₁ acc₂ t₁, I s₁ ∧ V s₁ (keyOf x) = V s (keyOf x) ∧
        run h (body acc₁ x) s₁ = (.ok acc₂, t₁) ∧ V t (keyOf x) = V t₁ (keyOf x) := by
  induction list generalizing acc s with
  | nil =>
    cases ran
    exact ⟨holds, fun _ _ => rfl, fun _ member => by cases member⟩
  | cons head tail ih =>
    obtain ⟨acc₁, s₁, first, rest⟩ := run_bind_ok ran
    obtain ⟨holds₁, others⟩ := round _ _ _ _ _ holds first
    rw [List.map_cons, List.nodup_cons] at distinct
    obtain ⟨fresh, distinct⟩ := distinct
    obtain ⟨holds', outside, inside⟩ := ih distinct holds₁ rest
    refine ⟨holds', fun k absent => ?_, fun x member => ?_⟩
    · rw [List.map_cons, List.mem_cons, not_or] at absent
      rw [outside k absent.2, others k absent.1]
    · rcases List.mem_cons.mp member with rfl | inTail
      · exact ⟨acc, s, acc₁, s₁, holds, rfl, first, outside _ fresh⟩
      · obtain ⟨acc₂, s₂, acc₃, t₂, holds₂, before, ran₂, after⟩ := inside x inTail
        refine ⟨acc₂, s₂, acc₃, t₂, holds₂, before.trans (others _ ?_), ran₂, after⟩
        intro same
        exact fresh (same ▸ List.mem_map_of_mem inTail)

theorem forM_eq_foldlM (body : γ → Prog Op ε PUnit) (list : List γ) :
    list.forM body = list.foldlM (fun _ x => body x) ⟨⟩ := by
  induction list with
  | nil => rfl
  | cons head tail ih =>
    change (body head).bind (fun _ => tail.forM body) = _
    rw [ih]
    rfl

/-- The same for a loop without an accumulator. -/
theorem run_forM_at {K δ : Type} {body : γ → Prog Op ε PUnit} {keyOf : γ → K} {V : σ → K → δ}
    {I : σ → Prop}
    (round : ∀ x s t, I s → run h (body x) s = (.ok ⟨⟩, t) →
      I t ∧ ∀ k, k ≠ keyOf x → V t k = V s k)
    {list : List γ} (distinct : (list.map keyOf).Nodup) {s t : σ} (holds : I s)
    (ran : run h (list.forM body) s = (.ok ⟨⟩, t)) :
    I t ∧ (∀ k, k ∉ list.map keyOf → V t k = V s k) ∧
      ∀ x ∈ list, ∃ s₁ t₁, I s₁ ∧ V s₁ (keyOf x) = V s (keyOf x) ∧
        run h (body x) s₁ = (.ok ⟨⟩, t₁) ∧ V t (keyOf x) = V t₁ (keyOf x) := by
  rw [forM_eq_foldlM] at ran
  obtain ⟨holds', outside, inside⟩ :=
    run_foldlM_at (fun _ x s _ t holds ran => round x s t holds ran) distinct holds ran
  refine ⟨holds', outside, fun x member => ?_⟩
  obtain ⟨_, s₁, _, t₁, place⟩ := inside x member
  exact ⟨s₁, t₁, place⟩

end Foundation
