import Mathlib

/-!
# Programs over an interface of operations

A program that works on a store only through the store's operations is written
here as a tree of calls: each node names an operation, and its children are
indexed by the answers the operation may give.  The same program can then be run
against every implementation of the interface, and a fact about one operation
becomes a fact about every program.

A program may also stop early with a fault.  A fault does not undo the calls
made before it: `run` returns the outcome together with the state reached, so
that `attempt`, which turns a fault into a value, continues from that state.

The module proves three rules, each by one induction on programs.

* `Handler.Simulates.run`: two implementations whose operations agree up to a
  relation give every program the same outcome, in related states.
* `Obeys.run`: a program that keeps to a contract (it issues only the requests
  the contract allows, counting on the answers the contract grants) preserves
  every invariant under which the implementation honours that contract.
* `run_preserves`: what every operation preserves, every program preserves.
-/

namespace Foundation

/-- A program over the operations `Op`: it returns a value, stops with a fault,
or performs an operation and continues with the answer. -/
inductive Prog (Op : Type → Type) (ε α : Type) : Type 1 where
  | pure (value : α) : Prog Op ε α
  | fail (fault : ε) : Prog Op ε α
  | call {β : Type} (op : Op β) (next : β → Prog Op ε α) : Prog Op ε α

namespace Prog

variable {Op Op' : Type → Type} {ε α β δ : Type}

/-! ## Sequencing -/

/-- Run `p`, then continue with its value; a fault of `p` skips the continuation. -/
def bind : Prog Op ε α → (α → Prog Op ε β) → Prog Op ε β
  | .pure value, f => f value
  | .fail fault, _ => .fail fault
  | .call op next, f => .call op fun answer => (next answer).bind f

instance : Monad (Prog Op ε) where
  pure := .pure
  bind := bind

@[simp] theorem pure_eq (value : α) : (Pure.pure value : Prog Op ε α) = .pure value := rfl

@[simp] theorem bind_eq (p : Prog Op ε α) (f : α → Prog Op ε β) : p >>= f = p.bind f := rfl

@[simp] theorem pure_bind (value : α) (f : α → Prog Op ε β) :
    (Prog.pure value : Prog Op ε α).bind f = f value := rfl

@[simp] theorem fail_bind (fault : ε) (f : α → Prog Op ε β) :
    (Prog.fail fault : Prog Op ε α).bind f = .fail fault := rfl

@[simp] theorem call_bind {γ : Type} (op : Op γ) (next : γ → Prog Op ε α)
    (f : α → Prog Op ε β) :
    (Prog.call op next).bind f = .call op fun answer => (next answer).bind f := rfl

theorem bind_pure (p : Prog Op ε α) : p.bind .pure = p := by
  induction p with
  | pure value => rfl
  | fail fault => rfl
  | call op next ih =>
    rw [call_bind]
    exact congrArg (Prog.call op) (funext ih)

theorem bind_assoc {γ : Type} (p : Prog Op ε α) (f : α → Prog Op ε β)
    (g : β → Prog Op ε γ) :
    (p.bind f).bind g = p.bind fun value => (f value).bind g := by
  induction p with
  | pure value => rfl
  | fail fault => rfl
  | call op next ih =>
    simp only [call_bind]
    exact congrArg (Prog.call op) (funext ih)

instance : LawfulMonad (Prog Op ε) :=
  LawfulMonad.mk' (Prog Op ε) bind_pure pure_bind bind_assoc

/-- A loop that carries a value along, whose value is not used. -/
theorem foldlM_forget {γ : Type} {f : β → γ → Prog Op ε β} {g : γ → Prog Op ε Unit}
    (round : ∀ acc x, (f acc x >>= fun _ => pure ()) = g x) (list : List γ) (acc : β) :
    (list.foldlM f acc >>= fun _ => pure ()) = list.forM g := by
  induction list generalizing acc with
  | nil => rfl
  | cons x rest ih =>
    rw [List.foldlM_cons, LawfulMonad.bind_assoc, List.forM, ← round acc x,
      LawfulMonad.bind_assoc]
    exact bind_congr fun acc' => ih acc'

/-- Perform one operation and return its answer. -/
def perform (op : Op β) : Prog Op ε β := .call op .pure

/-- Turn the faults that `caught` recognises into values; other faults stay faults.
The calls made before the fault are kept. -/
def attempt (caught : ε → Option δ) : Prog Op ε α → Prog Op ε (Except δ α)
  | .pure value => .pure (.ok value)
  | .fail fault =>
    match caught fault with
    | some reason => .pure (.error reason)
    | none => .fail fault
  | .call op next => .call op fun answer => (next answer).attempt caught

/-- Read a program over a smaller interface as one over a larger interface. -/
def lift (embed : {γ : Type} → Op γ → Op' γ) : Prog Op ε α → Prog Op' ε α
  | .pure value => .pure value
  | .fail fault => .fail fault
  | .call op next => .call (embed op) fun answer => (next answer).lift embed

end Prog

/-! ## Running a program -/

/-- An implementation of the interface on states `σ`. -/
structure Handler (Op : Type → Type) (σ : Type) where
  step : {β : Type} → Op β → σ → β × σ

section Run

variable {Op Op' : Type → Type} {ε α β δ σ τ : Type}

/-- Run a program: its outcome, and the state in which it ended. -/
def run (h : Handler Op σ) : Prog Op ε α → σ → Except ε α × σ
  | .pure value, s => (.ok value, s)
  | .fail fault, s => (.error fault, s)
  | .call op next, s => run h (next (h.step op s).1) (h.step op s).2

/-- Continue with the value of an outcome, or pass its fault on. -/
def andThen (f : α → σ → Except ε β × σ) : Except ε α × σ → Except ε β × σ
  | (.ok value, s) => f value s
  | (.error fault, s) => (.error fault, s)

@[simp] theorem andThen_ok (f : α → σ → Except ε β × σ) (value : α) (s : σ) :
    andThen f (.ok value, s) = f value s := rfl

@[simp] theorem andThen_error (f : α → σ → Except ε β × σ) (fault : ε) (s : σ) :
    andThen f (.error fault, s) = (.error fault, s) := rfl

/-- The outcome of a run that succeeded. -/
theorem exists_eq_ok {outcome : Except ε α × σ} (succeeded : outcome.1.isOk = true) :
    ∃ value, outcome = (.ok value, outcome.2) := by
  obtain ⟨_ | value, s⟩ := outcome
  · cases succeeded
  · exact ⟨value, rfl⟩

variable (h : Handler Op σ)

@[simp] theorem run_pure (value : α) (s : σ) :
    run h (.pure value : Prog Op ε α) s = (.ok value, s) := rfl

@[simp] theorem run_fail (fault : ε) (s : σ) :
    run h (.fail fault : Prog Op ε α) s = (.error fault, s) := rfl

@[simp] theorem run_call (op : Op β) (next : β → Prog Op ε α) (s : σ) :
    run h (.call op next) s = run h (next (h.step op s).1) (h.step op s).2 := rfl

@[simp] theorem run_perform (op : Op β) (s : σ) :
    run h (.perform op : Prog Op ε β) s = (.ok (h.step op s).1, (h.step op s).2) := rfl

@[simp] theorem run_bind (p : Prog Op ε α) (f : α → Prog Op ε β) (s : σ) :
    run h (p.bind f) s = andThen (fun value t => run h (f value) t) (run h p s) := by
  induction p generalizing s with
  | pure value => rfl
  | fail fault => rfl
  | call op next ih => exact ih _ _

/-- The outcome of an attempted program, from the outcome of the program. -/
def attempted (caught : ε → Option δ) : Except ε α × σ → Except ε (Except δ α) × σ
  | (.ok value, s) => (.ok (.ok value), s)
  | (.error fault, s) =>
    match caught fault with
    | some reason => (.ok (.error reason), s)
    | none => (.error fault, s)

@[simp] theorem run_attempt (caught : ε → Option δ) (p : Prog Op ε α) (s : σ) :
    run h (p.attempt caught) s = attempted caught (run h p s) := by
  induction p generalizing s with
  | pure value => rfl
  | fail fault =>
    simp only [Prog.attempt, run_fail, attempted]
    cases caught fault <;> rfl
  | call op next ih => exact ih _ _

/-! ## Facts about operations lifted to programs -/

/-- What every operation preserves, every program preserves. -/
theorem run_preserves (Inv : σ → Prop)
    (preserved : ∀ {β : Type} (op : Op β) (s : σ), Inv s → Inv (h.step op s).2)
    (p : Prog Op ε α) {s : σ} (holds : Inv s) : Inv (run h p s).2 := by
  induction p generalizing s with
  | pure value => exact holds
  | fail fault => exact holds
  | call op next ih => exact ih _ (preserved op s holds)

/-- Two implementations agree up to `R`: from related states every operation gives
the same answer and leads to related states. -/
structure Handler.Simulates (h : Handler Op σ) (g : Handler Op τ) (R : σ → τ → Prop) :
    Prop where
  answer : ∀ {β : Type} (op : Op β) {s : σ} {t : τ}, R s t →
    (h.step op s).1 = (g.step op t).1
  related : ∀ {β : Type} (op : Op β) {s : σ} {t : τ}, R s t →
    R (h.step op s).2 (g.step op t).2

/-- Implementations that agree up to `R` give every program the same outcome. -/
theorem Handler.Simulates.run {g : Handler Op τ} {h : Handler Op σ} {R : σ → τ → Prop}
    (simulates : h.Simulates g R) (p : Prog Op ε α) {s : σ} {t : τ} (related : R s t) :
    (Foundation.run h p s).1 = (Foundation.run g p t).1 ∧
      R (Foundation.run h p s).2 (Foundation.run g p t).2 := by
  induction p generalizing s t with
  | pure value => exact ⟨rfl, related⟩
  | fail fault => exact ⟨rfl, related⟩
  | call op next ih =>
    simp only [run_call]
    rw [simulates.answer op related]
    exact ih _ (simulates.related op related)

end Run

/-! ## Contracts -/

/-- A contract between programs and an implementation: the requests a program may
make, and the answers it may count on. -/
structure Contract (Op : Type → Type) where
  asks : {β : Type} → Op β → Prop
  grants : {β : Type} → Op β → β → Prop

section Contracts

variable {Op Op' : Type → Type} {ε α β δ σ : Type}

/-- The program keeps to the contract, and every outcome it can have under the
granted answers satisfies `post`. -/
def Obeys (c : Contract Op) (post : Except ε α → Prop) : Prog Op ε α → Prop
  | .pure value => post (.ok value)
  | .fail fault => post (.error fault)
  | .call op next => c.asks op ∧ ∀ answer, c.grants op answer → Obeys c post (next answer)

variable {c : Contract Op} {post : Except ε α → Prop}

@[simp] theorem obeys_pure (value : α) :
    Obeys c post (.pure value : Prog Op ε α) ↔ post (.ok value) := Iff.rfl

@[simp] theorem obeys_fail (fault : ε) :
    Obeys c post (.fail fault : Prog Op ε α) ↔ post (.error fault) := Iff.rfl

@[simp] theorem obeys_call (op : Op β) (next : β → Prog Op ε α) :
    Obeys c post (.call op next) ↔
      c.asks op ∧ ∀ answer, c.grants op answer → Obeys c post (next answer) := Iff.rfl

@[simp] theorem obeys_perform (op : Op α) :
    Obeys c post (.perform op : Prog Op ε α) ↔
      c.asks op ∧ ∀ answer, c.grants op answer → post (.ok answer) := Iff.rfl

@[simp] theorem obeys_ite (condition : Prop) [Decidable condition] (p q : Prog Op ε α) :
    Obeys c post (if condition then p else q) ↔
      (condition → Obeys c post p) ∧ (¬ condition → Obeys c post q) := by
  by_cases holds : condition <;> simp [holds]

theorem Obeys.mono {weaker : Except ε α → Prop} {p : Prog Op ε α} (obeys : Obeys c post p)
    (weaken : ∀ outcome, post outcome → weaker outcome) : Obeys c weaker p := by
  induction p with
  | pure value => exact weaken _ obeys
  | fail fault => exact weaken _ obeys
  | call op next ih => exact ⟨obeys.1, fun answer granted => ih answer (obeys.2 answer granted)⟩

/-- Sequencing: the continuation may use what the first program guarantees. -/
theorem Obeys.bind {mid : Except ε β → Prop} {p : Prog Op ε β} {f : β → Prog Op ε α}
    (first : Obeys c mid p) (next : ∀ value, mid (.ok value) → Obeys c post (f value))
    (fault : ∀ reason, mid (.error reason) → post (.error reason)) :
    Obeys c post (p.bind f) := by
  induction p with
  | pure value => exact next value first
  | fail reason => exact fault reason first
  | call op rest ih => exact ⟨first.1, fun answer granted => ih answer (first.2 answer granted)⟩

/-- Attempting: a caught fault becomes a value. -/
theorem Obeys.attempt {caught : ε → Option δ} {mid : Except ε α → Prop}
    {after : Except ε (Except δ α) → Prop} {p : Prog Op ε α} (obeys : Obeys c mid p)
    (value : ∀ v, mid (.ok v) → after (.ok (.ok v)))
    (handled : ∀ fault reason, caught fault = some reason → mid (.error fault) →
      after (.ok (.error reason)))
    (passed : ∀ fault, caught fault = none → mid (.error fault) → after (.error fault)) :
    Obeys c after (p.attempt caught) := by
  induction p with
  | pure v => exact value v obeys
  | fail fault =>
    unfold Prog.attempt
    cases recognised : caught fault with
    | none => exact passed fault recognised obeys
    | some reason => exact handled fault reason recognised obeys
  | call op next ih => exact ⟨obeys.1, fun answer granted => ih answer (obeys.2 answer granted)⟩

/-- The contract for a smaller interface that a contract for a larger one induces. -/
def Contract.restrict (c : Contract Op') (embed : {γ : Type} → Op γ → Op' γ) :
    Contract Op where
  asks op := c.asks (embed op)
  grants op := c.grants (embed op)

@[simp] theorem obeys_lift {c : Contract Op'} (embed : {γ : Type} → Op γ → Op' γ)
    (p : Prog Op ε α) :
    Obeys c post (p.lift embed) ↔ Obeys (c.restrict embed) post p := by
  induction p with
  | pure value => exact Iff.rfl
  | fail fault => exact Iff.rfl
  | call op next ih =>
    refine and_congr Iff.rfl (forall_congr' fun answer => ?_)
    exact imp_congr Iff.rfl (ih answer)

/-- Sequencing of programs of which nothing is asked but to keep to the contract. -/
theorem Obeys.seq {p : Prog Op ε β} {f : β → Prog Op ε α} (first : Obeys c (fun _ => True) p)
    (next : ∀ value, Obeys c (fun _ => True) (f value)) : Obeys c (fun _ => True) (p.bind f) :=
  first.bind (fun value _ => next value) fun _ _ => trivial

/-- The program keeps to the contract, and `result` holds of what it returns. -/
abbrev Returns (c : Contract Op) (result : α → Prop) (p : Prog Op ε α) : Prop :=
  Obeys c (fun outcome => ∀ value, outcome = .ok value → result value) p

theorem Returns.bind {result : β → Prop} {p : Prog Op ε β} {f : β → Prog Op ε α}
    (first : Returns c result p) (next : ∀ v, result v → Obeys c (fun _ => True) (f v)) :
    Obeys c (fun _ => True) (p.bind f) :=
  Obeys.bind first (fun v returned => next v (returned v rfl)) fun _ _ => trivial

theorem Returns.trans {result : β → Prop} {result' : α → Prop} {p : Prog Op ε β}
    {f : β → Prog Op ε α} (first : Returns c result p)
    (next : ∀ v, result v → Returns c result' (f v)) : Returns c result' (p.bind f) :=
  Obeys.bind first (fun v returned => next v (returned v rfl)) fun _ _ _ failed => by cases failed

theorem returns_pure {result : α → Prop} {value : α} (holds : result value) :
    Returns c result (.pure value : Prog Op ε α) := by
  intro v same
  cases same
  exact holds

/-- A program keeps to every contract that allows and grants as much. -/
theorem Obeys.weaken {c' : Contract Op} {p : Prog Op ε α} (obeys : Obeys c post p)
    (allows : ∀ {γ : Type} (op : Op γ), c.asks op → c'.asks op)
    (grants : ∀ {γ : Type} (op : Op γ) (answer : γ), c'.grants op answer → c.grants op answer) :
    Obeys c' post p := by
  induction p with
  | pure value => exact obeys
  | fail fault => exact obeys
  | call op next ih =>
    refine ⟨allows op obeys.1, fun answer granted => ?_⟩
    exact ih answer (obeys.2 answer (grants op answer granted))

/-- Every program keeps to a contract that allows everything. -/
theorem Obeys.of_asks (all : ∀ {γ : Type} (op : Op γ), c.asks op) (p : Prog Op ε α) :
    Obeys c (fun _ => True) p := by
  induction p with
  | pure value => trivial
  | fail fault => trivial
  | call op next ih => exact ⟨all op, fun answer _ => ih answer⟩

/-- A loop over a list keeps to the contract if each round does, given that the
rounds before it ended well. -/
theorem Obeys.forM {γ : Type} {body : γ → Prog Op ε PUnit} {post : Except ε PUnit → Prop}
    (list : List γ) (done : post (.ok ⟨⟩))
    (round : ∀ x ∈ list, Obeys c post (body x)) : Obeys c post (list.forM body) := by
  induction list with
  | nil => exact done
  | cons head tail ih =>
    change Obeys c post ((body head).bind fun _ => tail.forM body)
    refine Obeys.bind (round head (by simp)) (fun _ _ => ?_) (fun _ failed => failed)
    exact ih fun x member => round x (by simp [member])

theorem Obeys.each {γ : Type} {body : γ → Prog Op ε PUnit} (list : List γ)
    (round : ∀ x, Obeys c (fun _ => True) (body x)) : Obeys c (fun _ => True) (list.forM body) :=
  Obeys.forM list trivial fun x _ => round x

theorem Obeys.attempted {caught : ε → Option δ} {p : Prog Op ε α}
    (obeys : Obeys c (fun _ => True) p) : Obeys c (fun _ => True) (p.attempt caught) :=
  obeys.attempt (fun _ _ => trivial) (fun _ _ _ _ => trivial) fun _ _ _ => trivial

/-- A program that keeps to a contract preserves every invariant under which the
implementation honours the contract, and ends in an outcome the program guarantees. -/
theorem Obeys.run (h : Handler Op σ) {I : σ → Prop}
    (honours : ∀ {β : Type} (op : Op β) (s : σ), I s → c.asks op →
      c.grants op (h.step op s).1 ∧ I (h.step op s).2)
    {p : Prog Op ε α} (obeys : Obeys c post p) {s : σ} (holds : I s) :
    post (Foundation.run h p s).1 ∧ I (Foundation.run h p s).2 := by
  induction p generalizing s with
  | pure value => exact ⟨obeys, holds⟩
  | fail fault => exact ⟨obeys, holds⟩
  | call op next ih =>
    obtain ⟨granted, kept⟩ := honours op s holds obeys.1
    exact ih _ (obeys.2 _ granted) kept

end Contracts

end Foundation
