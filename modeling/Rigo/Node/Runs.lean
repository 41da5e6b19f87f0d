import Rigo.Node.Consistent

/-!
# Runs of blocks

A run is a sequence of blocks: `BeginBlock`, any number of `DeliverTx`, `EndBlock` and
`Commit`, with calls of `CheckTx` in between and, where that is allowed, new processes
after a commit.  A `Run` records the calls with their responses and the nodes before and
after them, so that properties of whole histories can be stated.

`Run.node_induction` is the rule for such properties: one case for each call.
-/

namespace Rigo

open Foundation

namespace RigoApp

/-- Where a run is in a block. -/
inductive Phase where
  | idle
  | delivering
  | ended
  deriving DecidableEq, Repr

/-- The phase after a call, if the call may be made. -/
def Phase.next : Phase → ConsensusCall → Option Phase
  | .idle, .beginBlock _ => some .delivering
  | .delivering, .deliverTx _ => some .delivering
  | .delivering, .endBlock => some .ended
  | .ended, .commit => some .idle
  | _, _ => none

/-- A call of the consensus engine in a run. -/
structure Step (E : EvmLib) where
  before : Node E
  call : ConsensusCall
  response : Response
  after : Node E

variable (X : External)

/-- The runs of a chain with the steps made so far. -/
inductive Run (mayRestart : Bool) (genesis : Genesis) :
    Phase → List (Step X.evm) → App X.evm → Prop where
  | start {s : App X.evm} (started : start X genesis = .ok s) : Run mayRestart genesis .idle [] s
  | call {phase phase' : Phase} {steps : List (Step X.evm)} {s s' : App X.evm}
      {call : ConsensusCall} {response : Response} (before : Run mayRestart genesis phase steps s)
      (next : phase.next call = some phase')
      (ran : run (nodeHandler X finalityImpl) (consensus X call) s = (.ok response, s')) :
      Run mayRestart genesis phase' (steps ++ [⟨App.node s, call, response, App.node s'⟩]) s'
  | checkTx {phase : Phase} {steps : List (Step X.evm)} {s : App X.evm}
      (before : Run mayRestart genesis phase steps s) (recheck : Bool) (txbz : HexBytes) :
      Run mayRestart genesis phase steps (checkTx X recheck txbz s).2
  | restart {steps : List (Step X.evm)} {s s' s'' : App X.evm} {appHash : HexBytes}
      (allowed : mayRestart = true) (before : Run mayRestart genesis .ended steps s)
      (ran : run (nodeHandler X finalityImpl) (commit X) s = (.ok appHash, s'))
      (restarted : restart X s' = .ok s'') :
      Run mayRestart genesis .idle
        (steps ++ [⟨App.node s, .commit, .commit appHash, App.node s'⟩]) s''

variable {X} {mayRestart : Bool} {genesis : Genesis} {phase : Phase} {steps : List (Step X.evm)}
  {s : App X.evm}

/-- The states of a run are reachable. -/
theorem Run.reachable (ran : Run X mayRestart genesis phase steps s) : Reachable X s := by
  induction ran with
  | start started => exact .start started
  | call before next ran ih => exact .call ih ran
  | checkTx before recheck txbz ih => exact .checkTx ih recheck txbz
  | restart allowed before ran restarted ih => exact .restart ih ran restarted

/-- A step of a run starts where a run with the steps before it ends. -/
theorem Run.split (ran : Run X mayRestart genesis phase steps s) {earlier later : List (Step X.evm)}
    {step : Step X.evm} (same : steps = earlier ++ step :: later) :
    ∃ phase₁ s₁ phase₂ s₂, Run X mayRestart genesis phase₁ earlier s₁ ∧
      step.before = App.node s₁ ∧ phase₁.next step.call = some phase₂ ∧
      run (nodeHandler X finalityImpl) (consensus X step.call) s₁ = (.ok step.response, s₂) ∧
      step.after = App.node s₂ := by
  induction ran generalizing later with
  | start started => simp at same
  | checkTx before recheck txbz ih => exact ih same
  | @call phase phase' steps s s' call response before next ran ih =>
    rcases List.eq_nil_or_concat later with rfl | ⟨init, last, rfl⟩
    · obtain ⟨rfl, ⟨⟩⟩ := List.append_inj' same rfl
      exact ⟨phase, s, phase', s', before, rfl, next, ran, rfl⟩
    · rw [List.concat_eq_append, ← List.cons_append, ← List.append_assoc] at same
      exact ih (List.append_inj' same rfl).1
  | @restart steps s s' s'' appHash allowed before ran restarted ih =>
    rcases List.eq_nil_or_concat later with rfl | ⟨init, last, rfl⟩
    · obtain ⟨rfl, ⟨⟩⟩ := List.append_inj' same rfl
      refine ⟨.ended, s, .idle, s', before, rfl, rfl, ?_, rfl⟩
      change run (nodeHandler X finalityImpl) (Prog.bind (commit X) _) s = _
      rw [run_bind, ran]
      rfl
    · rw [List.concat_eq_append, ← List.cons_append, ← List.append_assoc] at same
      exact ih (List.append_inj' same rfl).1

/-- The phase a step of a run was made in, and what it did to the node. -/
theorem Run.step (ran : Run X mayRestart genesis phase steps s) {step : Step X.evm}
    (member : step ∈ steps) :
    ∃ phase₁ phase₂ : Phase, phase₁.next step.call = some phase₂ ∧
      run (nodeHandler X storeImpl) (consensus X step.call) step.before =
        (.ok step.response, step.after) := by
  obtain ⟨earlier, later, same⟩ := List.append_of_mem member
  obtain ⟨phase₁, s₁, phase₂, s₂, -, before, next, called, after⟩ := ran.split same
  refine ⟨phase₁, phase₂, next, ?_⟩
  rw [before, after]
  exact run_node_ok called

/-- A run up to one of its steps. -/
theorem Run.upTo (ran : Run X mayRestart genesis phase steps s) {earlier later : List (Step X.evm)}
    {step : Step X.evm} (same : steps = earlier ++ step :: later) :
    ∃ phase' s', Run X mayRestart genesis phase' (earlier ++ [step]) s' ∧
      step.after = App.node s' := by
  obtain ⟨phase₁, s₁, phase₂, s₂, before, started, next, called, ended⟩ := ran.split same
  refine ⟨phase₂, s₂, ?_, ended⟩
  obtain ⟨beforeNode, call, response, afterNode⟩ := step
  obtain rfl : beforeNode = App.node s₁ := started
  obtain rfl : afterNode = App.node s₂ := ended
  exact .call before next called

/-- The transaction that a step has executed. -/
def executedTrx (X : External) (step : Step X.evm) : Option Trx :=
  match step.call, step.response with
  | .deliverTx txbz, .deliverTx answer =>
    if answer.code = 0 then (Trx.decode X.trx txbz).toOption else none
  | _, _ => none

theorem executedTrx_eq_some {step : Step X.evm} {tx : Trx} (executed : executedTrx X step = some tx) :
    ∃ txbz answer, step.call = .deliverTx txbz ∧ step.response = .deliverTx answer ∧
      answer.code = 0 ∧ Trx.decode X.trx txbz = .ok tx := by
  unfold executedTrx at executed
  split at executed
  · next txbz answer call response =>
    split at executed
    · next code =>
      refine ⟨txbz, answer, call, response, code, ?_⟩
      cases decoded : Trx.decode X.trx txbz with
      | error e =>
        rw [decoded] at executed
        cases executed
      | ok tx' =>
        rw [decoded] at executed
        cases executed
        rfl
    · cases executed
  · cases executed

/-! ## Runs of given calls -/

/-- The phase after some calls, if they may be made. -/
def Phase.after : Phase → List ConsensusCall → Option Phase
  | phase, [] => some phase
  | phase, call :: rest => (phase.next call).bind fun phase' => phase'.after rest

/-- The steps of some calls, up to the first one that fails. -/
def stepsOf (X : External) : List ConsensusCall → App X.evm → List (Step X.evm)
  | [], _ => []
  | call :: rest, s =>
    match run (nodeHandler X finalityImpl) (consensus X call) s with
    | (.error _, _) => []
    | (.ok response, s') => ⟨App.node s, call, response, App.node s'⟩ :: stepsOf X rest s'

/-- Calls that may be made and that all succeed continue a run. -/
theorem Run.calls {phase' : Phase} (before : Run X mayRestart genesis phase steps s)
    (calls : List ConsensusCall)
    (allowed : phase.after calls = some phase')
    (succeeded : (stepsOf X calls s).length = calls.length) :
    Run X mayRestart genesis phase' (steps ++ stepsOf X calls s)
      (runCalls X finalityImpl calls s).2 := by
  induction calls generalizing phase steps s with
  | nil =>
    cases allowed
    rw [stepsOf, List.append_nil]
    exact before
  | cons call rest ih =>
    obtain ⟨next, here, later⟩ := Option.bind_eq_some_iff.mp allowed
    simp only [stepsOf, runCalls] at succeeded ⊢
    generalize ran : run (nodeHandler X finalityImpl) (consensus X call) s = r at succeeded ⊢
    obtain ⟨outcome, s'⟩ := r
    cases outcome with
    | error fault => cases succeeded
    | ok response =>
      have continued := ih (.call before here ran) later (Nat.succ.inj succeeded)
      simpa using continued

/-! ## Induction -/

/-- A property of the history and the node that holds after `InitChain`, does not mention the
limiter, and is kept by every call and by a new process after a commit, holds in every run. -/
theorem Run.node_induction {I : Phase → List (Step X.evm) → Node X.evm → Prop}
    (started : ∀ {s t}, firstNode X = .ok s →
      InitsChain X genesis s t → I .idle [] t)
    (began : ∀ {steps s t} (info : BlockInfo), I .idle steps s →
      BeginsBlock X info s t →
      I .delivering (steps ++ [⟨s, .beginBlock info, .beginBlock, t⟩]) t)
    (delivered : ∀ {steps s t} (txbz : HexBytes) (answer : TxResponse), I .delivering steps s →
      DeliversTx X txbz s answer t →
      I .delivering (steps ++ [⟨s, .deliverTx txbz, .deliverTx answer, t⟩]) t)
    (ended : ∀ {steps s t} (valUpdates : List ValidatorUpdate), I .delivering steps s →
      EndsBlock X s valUpdates t →
      I .ended (steps ++ [⟨s, .endBlock, .endBlock valUpdates, t⟩]) t)
    (committed : ∀ {steps s t} (appHash : HexBytes), I .ended steps s →
      Commits X s appHash t →
      I .idle (steps ++ [⟨s, .commit, .commit appHash, t⟩]) t)
    (checked : ∀ {phase steps s} (limiter : StakeLimiter), I phase steps s →
      I phase steps { s with limiter := limiter })
    (restarted : ∀ {steps s t u} (appHash : HexBytes), mayRestart = true → I .ended steps s →
      Commits X s appHash t → restartNode X t = .ok u →
      I .idle (steps ++ [⟨s, .commit, .commit appHash, t⟩]) u)
    (ran : Run X mayRestart genesis phase steps s) : I phase steps (App.node s) := by
  induction ran with
  | start started' =>
    obtain ⟨s₀, first, ran⟩ := start_node started'
    exact started first ran
  | @call phase phase' steps s s' call response before next ran ih =>
    have ran' := run_node_ok ran
    cases call with
    | beginBlock info =>
      obtain ⟨rfl, began'⟩ := consensus_beginBlock_ok ran'
      cases phase <;> cases next
      exact began info ih began'
    | deliverTx txbz =>
      obtain ⟨answer, rfl, delivered'⟩ := consensus_deliverTx_ok ran'
      cases phase <;> cases next
      exact delivered txbz answer ih delivered'
    | endBlock =>
      obtain ⟨valUpdates, rfl, ended'⟩ := consensus_endBlock_ok ran'
      cases phase <;> cases next
      exact ended valUpdates ih ended'
    | commit =>
      obtain ⟨appHash, rfl, committed'⟩ := consensus_commit_ok ran'
      cases phase <;> cases next
      exact committed appHash ih committed'
  | checkTx before recheck txbz ih =>
    rw [node_checkTx]
    exact checked _ ih
  | restart allowed before ran restarted' ih =>
    exact restarted _ allowed ih (run_node_ok ran) (restart_eq_ok.mpr ⟨_, restarted', rfl⟩)

/-- A new process after a commit has the ledgers of the old one. -/
theorem restartNode_ledgers {s t u : Node X.evm} {appHash : HexBytes}
    (ran : Commits X s appHash t)
    (restarted : restartNode X t = .ok u) : u.ledgers = t.ledgers := by
  obtain ⟨bctx, state, -, -, -, rfl, -, -⟩ := commit_ok ran
  unfold restartNode boot at restarted
  simp only at restarted
  split at restarted
  · cases restarted
  · cases restarted
    exact funext fun l => Store.new_commit (s.ledgers l)

/-- The same in a run whose steps all meet a condition, which may be used where a step is taken. -/
theorem Run.node_induction_of {C : Step X.evm → Prop}
    {I : Phase → List (Step X.evm) → Node X.evm → Prop}
    (started : ∀ {s t}, firstNode X = .ok s →
      InitsChain X genesis s t → I .idle [] t)
    (began : ∀ {steps s t} (info : BlockInfo), I .idle steps s →
      C ⟨s, .beginBlock info, .beginBlock, t⟩ →
      BeginsBlock X info s t →
      I .delivering (steps ++ [⟨s, .beginBlock info, .beginBlock, t⟩]) t)
    (delivered : ∀ {steps s t} (txbz : HexBytes) (answer : TxResponse), I .delivering steps s →
      C ⟨s, .deliverTx txbz, .deliverTx answer, t⟩ →
      DeliversTx X txbz s answer t →
      I .delivering (steps ++ [⟨s, .deliverTx txbz, .deliverTx answer, t⟩]) t)
    (ended : ∀ {steps s t} (valUpdates : List ValidatorUpdate), I .delivering steps s →
      C ⟨s, .endBlock, .endBlock valUpdates, t⟩ →
      EndsBlock X s valUpdates t →
      I .ended (steps ++ [⟨s, .endBlock, .endBlock valUpdates, t⟩]) t)
    (committed : ∀ {steps s t} (appHash : HexBytes), I .ended steps s →
      C ⟨s, .commit, .commit appHash, t⟩ →
      Commits X s appHash t →
      I .idle (steps ++ [⟨s, .commit, .commit appHash, t⟩]) t)
    (checked : ∀ {phase steps s} (limiter : StakeLimiter), I phase steps s →
      I phase steps { s with limiter := limiter })
    (restarted : ∀ {steps t u}, I .idle steps t → u.ledgers = t.ledgers →
      restartNode X t = .ok u → I .idle steps u)
    (ran : Run X mayRestart genesis phase steps s) (all : ∀ step ∈ steps, C step) :
    I phase steps (App.node s) := by
  have earlier {steps : List (Step X.evm)} {new : Step X.evm}
      (all : ∀ step ∈ steps ++ [new], C step) : ∀ step ∈ steps, C step :=
    fun step member => all step (List.mem_append_left _ member)
  have last {steps : List (Step X.evm)} {new : Step X.evm}
      (all : ∀ step ∈ steps ++ [new], C step) : C new :=
    all new (List.mem_append_right _ List.mem_cons_self)
  refine ran.node_induction (I := fun phase steps s => (∀ step ∈ steps, C step) → I phase steps s)
    ?_ ?_ ?_ ?_ ?_ ?_ ?_ all
  · intro s t first ran _
    exact started first ran
  · intro steps s t info ih ran all
    exact began info (ih (earlier all)) (last all) ran
  · intro steps s t txbz answer ih ran all
    exact delivered txbz answer (ih (earlier all)) (last all) ran
  · intro steps s t valUpdates ih ran all
    exact ended valUpdates (ih (earlier all)) (last all) ran
  · intro steps s t appHash ih ran all
    exact committed appHash (ih (earlier all)) (last all) ran
  · intro phase steps s limiter ih all
    exact checked limiter (ih all)
  · intro steps s t u appHash _ ih ran new all
    exact restarted (committed appHash (ih (earlier all)) (last all) ran)
      (restartNode_ledgers ran new) new

end RigoApp

end Rigo
