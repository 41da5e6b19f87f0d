import Rigo.Foundation.Program

/-!
# Programs that are interrupted

`runUpTo` is the interpreter stopped before a given number of operations of a chosen kind
have been performed; it gives the meaning of a crash between two durable writes.
`performed` counts these operations in a whole run, and the rules for sequences say in
which part of a program an interruption falls.
-/

namespace Foundation

section

variable {Op : Type → Type} {ε α β σ τ : Type} (h : Handler Op σ)
  (counted : {γ : Type} → Op γ → Bool)

/-- The state reached when the program is stopped just before it performs its
`k + 1`-st operation of the kind `counted` (or at its end, if it performs fewer). -/
def runUpTo : Nat → Prog Op ε α → σ → σ
  | _, .pure _, s => s
  | _, .fail _, s => s
  | k, .call op next, s =>
    if counted op then
      match k with
      | 0 => s
      | k + 1 => runUpTo k (next (h.step op s).1) (h.step op s).2
    else runUpTo k (next (h.step op s).1) (h.step op s).2

/-- The number of operations of the kind `counted` in a run. -/
def performed : Prog Op ε α → σ → Nat
  | .pure _, _ => 0
  | .fail _, _ => 0
  | .call op next, s =>
    (if counted op then 1 else 0) + performed (next (h.step op s).1) (h.step op s).2

variable {h} {counted}

theorem runUpTo_call_zero {op : Op β} (writes : counted op = true) (next : β → Prog Op ε α)
    (s : σ) : runUpTo h counted 0 (.call op next) s = s := by
  rw [runUpTo.eq_def]
  exact if_pos writes

theorem runUpTo_call_succ {op : Op β} (writes : counted op = true) (next : β → Prog Op ε α)
    (k : Nat) (s : σ) : runUpTo h counted (k + 1) (.call op next) s =
      runUpTo h counted k (next (h.step op s).1) (h.step op s).2 := by
  rw [runUpTo.eq_def]
  exact if_pos writes

theorem runUpTo_call_other {op : Op β} (other : ¬ counted op = true) (next : β → Prog Op ε α)
    (k : Nat) (s : σ) : runUpTo h counted k (.call op next) s =
      runUpTo h counted k (next (h.step op s).1) (h.step op s).2 := by
  rw [runUpTo.eq_def]
  exact if_neg other

variable {f : α → Prog Op ε β} {p : Prog Op ε α}

/-- An interruption in the first part of a sequence. -/
theorem runUpTo_bind_of_lt {s : σ} {k : Nat}
    (early : k < performed h counted p s) :
    runUpTo h counted k (p.bind f) s = runUpTo h counted k p s := by
  induction p generalizing s k with
  | pure value => cases early
  | fail fault => cases early
  | call op next ih =>
    rw [performed] at early
    rw [Prog.bind]
    by_cases writes : counted op = true
    · rw [if_pos writes] at early
      cases k with
      | zero => rw [runUpTo_call_zero writes, runUpTo_call_zero writes]
      | succ k =>
        rw [runUpTo_call_succ writes, runUpTo_call_succ writes]
        exact ih _ (by omega)
    · rw [if_neg writes] at early
      rw [runUpTo_call_other writes, runUpTo_call_other writes]
      exact ih _ (by omega)

/-- An interruption in the second part of a sequence. -/
theorem runUpTo_bind_of_le {s t : σ} {value : α} {k : Nat}
    (ran : run h p s = (.ok value, t)) (late : performed h counted p s ≤ k) :
    runUpTo h counted k (p.bind f) s =
      runUpTo h counted (k - performed h counted p s) (f value) t := by
  induction p generalizing s k with
  | pure value' =>
    cases ran
    rfl
  | fail fault => cases ran
  | call op next ih =>
    rw [performed] at late
    rw [Prog.bind, performed]
    rw [run_call] at ran
    by_cases writes : counted op = true
    · rw [if_pos writes] at late
      obtain ⟨k', rfl⟩ : ∃ k', k = k' + 1 := ⟨k - 1, by omega⟩
      rw [if_pos writes, runUpTo_call_succ writes, ih _ ran (by omega)]
      congr 1
      omega
    · rw [if_neg writes] at late
      rw [if_neg writes, runUpTo_call_other writes, ih _ ran (by omega)]
      congr 1
      omega

theorem performed_bind {s t : σ} {value : α}
    (ran : run h p s = (.ok value, t)) :
    performed h counted (p.bind f) s = performed h counted p s + performed h counted (f value) t := by
  induction p generalizing s with
  | pure value' =>
    cases ran
    exact (Nat.zero_add _).symm
  | fail fault => cases ran
  | call op next ih =>
    rw [run_call] at ran
    rw [Prog.bind, performed, performed, ih _ ran]
    omega

/-- An interruption of a sequence whose second part performs no operation. -/
theorem runUpTo_bind_of_silent
    (silent : ∀ value, (∃ v, f value = .pure v) ∨ ∃ fault, f value = .fail fault) (s : σ) (k : Nat) :
    runUpTo h counted k (p.bind f) s = runUpTo h counted k p s := by
  induction p generalizing s k with
  | pure value =>
    obtain ⟨v, same⟩ | ⟨fault, same⟩ := silent value
    · rw [Prog.pure_bind, same]
      rfl
    · rw [Prog.pure_bind, same]
      rfl
  | fail fault => rfl
  | call op next ih =>
    rw [Prog.call_bind]
    by_cases writes : counted op = true
    · cases k with
      | zero => rw [runUpTo_call_zero writes, runUpTo_call_zero writes]
      | succ k => rw [runUpTo_call_succ writes, runUpTo_call_succ writes, ih]
    · rw [runUpTo_call_other writes, runUpTo_call_other writes, ih]

/-- Catching faults makes no difference for an interruption. -/
theorem runUpTo_attempt {δ : Type} (caught : ε → Option δ) (p : Prog Op ε α) (s : σ) (k : Nat) :
    runUpTo h counted k (p.attempt caught) s = runUpTo h counted k p s := by
  induction p generalizing s k with
  | pure value => rfl
  | fail fault =>
    rw [Prog.attempt]
    cases caught fault <;> rfl
  | call op next ih =>
    rw [Prog.attempt]
    by_cases writes : counted op = true
    · cases k with
      | zero => rw [runUpTo_call_zero writes, runUpTo_call_zero writes]
      | succ k => rw [runUpTo_call_succ writes, runUpTo_call_succ writes, ih]
    · rw [runUpTo_call_other writes, runUpTo_call_other writes, ih]

/-- A program that keeps to a contract preserves an invariant also if it is interrupted. -/
theorem Obeys.runUpTo {c : Contract Op} {post : Except ε α → Prop} {I : σ → Prop}
    (honours : ∀ {γ : Type} (op : Op γ) (s : σ), I s → c.asks op →
      c.grants op (h.step op s).1 ∧ I (h.step op s).2)
    (obeys : Obeys c post p) {s : σ} (holds : I s) (k : Nat) :
    I (runUpTo h counted k p s) := by
  induction p generalizing s k with
  | pure value => exact holds
  | fail fault => exact holds
  | call op next ih =>
    obtain ⟨granted, kept⟩ := honours op s holds obeys.1
    by_cases writes : counted op = true
    · cases k with
      | zero =>
        rw [runUpTo_call_zero writes]
        exact holds
      | succ k =>
        rw [runUpTo_call_succ writes]
        exact ih _ (obeys.2 _ granted) kept k
    · rw [runUpTo_call_other writes]
      exact ih _ (obeys.2 _ granted) kept k

/-- What the other operations preserve holds when the first counted one is reached. -/
theorem runUpTo_zero {I : σ → Prop}
    (preserved : ∀ {γ : Type} (op : Op γ) (s : σ), counted op = false → I s → I (h.step op s).2)
    (p : Prog Op ε α) {s : σ} (holds : I s) : I (runUpTo h counted 0 p s) := by
  induction p generalizing s with
  | pure value => exact holds
  | fail fault => exact holds
  | call op next ih =>
    by_cases writes : counted op = true
    · rw [runUpTo_call_zero writes]
      exact holds
    · rw [runUpTo_call_other writes]
      exact ih _ (preserved op s (eq_false_of_ne_true writes) holds)

/-- Implementations that agree also agree when they are interrupted. -/
theorem Handler.Simulates.runUpTo {g : Handler Op τ} {R : σ → τ → Prop}
    (simulates : h.Simulates g R) (p : Prog Op ε α) {s : σ} {t : τ} (related : R s t) (k : Nat) :
    R (Foundation.runUpTo h counted k p s) (Foundation.runUpTo g counted k p t) := by
  induction p generalizing s t k with
  | pure value => exact related
  | fail fault => exact related
  | call op next ih =>
    have after := simulates.related op related
    by_cases writes : counted op = true
    · cases k with
      | zero =>
        rw [runUpTo_call_zero writes, runUpTo_call_zero writes]
        exact related
      | succ k =>
        rw [runUpTo_call_succ writes, runUpTo_call_succ writes, simulates.answer op related]
        exact ih _ after k
    · rw [runUpTo_call_other writes, runUpTo_call_other writes, simulates.answer op related]
      exact ih _ after k

/-- They perform the same number of operations. -/
theorem Handler.Simulates.performed {g : Handler Op τ} {R : σ → τ → Prop}
    (simulates : h.Simulates g R) (p : Prog Op ε α) {s : σ} {t : τ} (related : R s t) :
    Foundation.performed h counted p s = Foundation.performed g counted p t := by
  induction p generalizing s t with
  | pure value => rfl
  | fail fault => rfl
  | call op next ih =>
    rw [Foundation.performed, Foundation.performed, simulates.answer op related,
      ih _ (simulates.related op related)]

end

end Foundation
