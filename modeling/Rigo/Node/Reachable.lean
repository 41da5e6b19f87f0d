import Rigo.Node.Blocks
import Rigo.Node.CheckTx

/-!
# Reachable states

A chain starts with `InitChain` on empty databases; then the consensus engine calls the
application, the mempool calls `CheckTx`, and after a commit the process may be replaced
by a new one.  `Reachable.node_induction` is the rule for invariants that speak of the
node only.
-/

namespace Rigo

open Foundation

theorem eq_ok_of_isSome {ε α : Type} {result : Except ε α} (succeeded : result.toOption.isSome) :
    result = .ok (result.toOption.get succeeded) := by
  cases result with
  | error e => cases succeeded
  | ok value => rfl

namespace RigoApp

variable (X : External)

/-- The states of an application. -/
inductive Reachable : App X.evm → Prop where
  | start {genesis : Genesis} {s : App X.evm} (started : start X genesis = .ok s) : Reachable s
  | call {s s' : App X.evm} {call : ConsensusCall} {response : Response} (before : Reachable s)
      (ran : run (nodeHandler X finalityImpl) (consensus X call) s = (.ok response, s')) :
      Reachable s'
  | checkTx {s : App X.evm} (before : Reachable s) (recheck : Bool) (txbz : HexBytes) :
      Reachable (checkTx X recheck txbz s).2
  | restart {s s' s'' : App X.evm} {appHash : HexBytes} (before : Reachable s)
      (ran : run (nodeHandler X finalityImpl) (commit X) s = (.ok appHash, s'))
      (restarted : restart X s' = .ok s'') : Reachable s''

/-- A new process on the databases of a node. -/
def restartNode (s : Node X.evm) : Except Fault (Node X.evm) :=
  boot X (L := fun l => Store l.Item) (fun l => Store.new (s.ledgers l).tree)
    ((Store.new (s.ledgers .params).tree).get GovParams.paramsKey) s.disk

/-- The first process of a node. -/
def firstNode : Except Fault (Node X.evm) :=
  boot X (L := fun l => Store l.Item) (fun _ => Store.new Tree.empty) (.error .errNotFoundResult)
    Disk.empty

theorem boot_node (ledgers : (l : LedgerId) → FinalityLedger l.Item)
    (params : Except XError GovParams) (disk : Disk) :
    (boot X (L := fun l => FinalityLedger l.Item) ledgers params disk).map App.node =
      boot X (L := fun l => Store l.Item) (storesOf ledgers) params disk := by
  unfold boot
  simp only
  split
  · rfl
  · rfl

variable {X}

/-- A new process on the databases of an application and on those of its node. -/
theorem restart_node (s : App X.evm) :
    (restart X s).map App.node = restartNode X (App.node s) := by
  refine (boot_node X _ _ s.disk).trans ?_
  rw [storesOf_update_of_store (FinalityLedger.store_get _ _), FinalityLedger.get_fst]
  rfl

theorem restart_eq_ok {s : App X.evm} {u : Node X.evm} :
    restartNode X (App.node s) = .ok u ↔ ∃ t, restart X s = .ok t ∧ App.node t = u := by
  rw [← restart_node]
  cases restart X s with
  | error fault => simp [Except.map]
  | ok t => simp [Except.map]

theorem start_node {genesis : Genesis} {s : App X.evm} (started : start X genesis = .ok s) :
    ∃ s₀, firstNode X = .ok s₀ ∧
      run (nodeHandler X storeImpl) (initChain X genesis) s₀ = (.ok (), App.node s) := by
  unfold RigoApp.start at started
  split at started
  · cases started
  · next s₀ first =>
    split at started
    · cases started
    · next ran =>
      cases started
      have booted := boot_node X (fun l => FinalityLedger.new (Tree.empty : Tree l.Item))
        (.error .errNotFoundResult) Disk.empty
      rw [show boot X _ _ _ = .ok s₀ from first] at booted
      exact ⟨App.node s₀, booted.symm, run_node_ok ran⟩

theorem Reachable.of_isSome {genesis : Genesis}
    (started : (RigoApp.start X genesis).toOption.isSome) :
    Reachable X ((RigoApp.start X genesis).toOption.get started) :=
  .start (eq_ok_of_isSome started)

/-- The calls of a run that all succeed lead to a reachable state. -/
theorem Reachable.runCalls {s : App X.evm} (before : Reachable X s) (calls : List ConsensusCall)
    (succeeded : ∀ response ∈ (RigoApp.runCalls X finalityImpl calls s).1,
      response.isOk = true) :
    Reachable X (RigoApp.runCalls X finalityImpl calls s).2 := by
  induction calls generalizing s with
  | nil => exact before
  | cons call rest ih =>
    simp only [RigoApp.runCalls] at succeeded ⊢
    generalize ran : run (nodeHandler X finalityImpl) (consensus X call) s = r at succeeded ⊢
    obtain ⟨outcome, s'⟩ := r
    cases outcome with
    | error fault => cases succeeded _ (List.mem_singleton.mpr rfl)
    | ok response =>
      exact ih (.call before ran) fun response' member =>
        succeeded response' (List.mem_cons_of_mem _ member)

/-- A property of nodes that holds after `InitChain`, does not mention the limiter, and is
kept by every call and by a new process after a commit, holds in every reachable state. -/
theorem Reachable.node_induction {I : Node X.evm → Prop}
    (started : ∀ {genesis s t}, firstNode X = .ok s →
      InitsChain X genesis s t → I t)
    (called : ∀ {s t call response}, I s →
      run (nodeHandler X storeImpl) (consensus X call) s = (.ok response, t) → I t)
    (checked : ∀ {s} (limiter : StakeLimiter), I s → I { s with limiter := limiter })
    (restarted : ∀ {s t appHash u}, I s →
      Commits X s appHash t → restartNode X t = .ok u → I u)
    {s : App X.evm} (reachable : Reachable X s) : I (App.node s) := by
  induction reachable with
  | start started' =>
    obtain ⟨s₀, first, ran⟩ := start_node started'
    exact started first ran
  | call before ran ih => exact called ih (run_node_ok ran)
  | checkTx before recheck txbz ih =>
    rw [node_checkTx]
    exact checked _ ih
  | restart before ran restarted' ih =>
    exact restarted ih (run_node_ok ran) (restart_eq_ok.mpr ⟨_, restarted', rfl⟩)

end RigoApp

end Rigo
