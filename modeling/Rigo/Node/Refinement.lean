import Rigo.Node.App

/-!
# The application refines the node without caches

`App.node` forgets the caches and the simulation mode of every ledger.  A program
of the application has the same outcome on an `App` and on its `Node`, and leads to
related states (`run_node`), because every operation does; so results about `Node`
are results about the application.

The code of a controller run in simulation mode leaves the stores alone
(`simulation_stores`).
-/

namespace Rigo

open Foundation
open FinalityLedger

/-! ## Forgetting the caches -/

/-- The stores of some ledgers. -/
def storesOf (ls : (l : LedgerId) → FinalityLedger l.Item) : (l : LedgerId) → Store l.Item :=
  fun l => (ls l).store

@[simp] theorem storesOf_apply (ls : (l : LedgerId) → FinalityLedger l.Item) (l : LedgerId) :
    storesOf ls l = (ls l).store := rfl

theorem storesOf_update (ls : (l : LedgerId) → FinalityLedger l.Item) (l : LedgerId)
    (x : FinalityLedger l.Item) :
    storesOf (Function.update ls l x) = Function.update (storesOf ls) l x.store := by
  funext l'
  by_cases same : l' = l
  · subst same
    simp
  · simp [same]

/-- A ledger replaced by one with the same store is not seen. -/
theorem storesOf_update_of_store {ls : (l : LedgerId) → FinalityLedger l.Item} {l : LedgerId}
    {x : FinalityLedger l.Item} (same : x.store = (ls l).store) :
    storesOf (Function.update ls l x) = storesOf ls := by
  rw [storesOf_update, same, ← storesOf_apply, Function.update_eq_self]

/-- Forget the caches and the simulation mode of the ledgers. -/
def Resources.stores {E : EvmLib} (s : Resources (fun l => FinalityLedger l.Item) E) :
    Resources (fun l => Store l.Item) E where
  ledgers := storesOf s.ledgers
  limiter := s.limiter
  evm := s.evm

/-- Forget the caches and the simulation mode of the ledgers. -/
def App.node {E : EvmLib} (s : App E) : Node E where
  toResources := s.toResources.stores
  mem := s.mem
  disk := s.disk

/-! ## Finality mode -/

theorem ledgerStep_store {β : Type} (op : LedgerOp β)
    (ls : (l : LedgerId) → FinalityLedger l.Item) :
    (ledgerStep finalityImpl op ls).1 = (ledgerStep storeImpl op (storesOf ls)).1 ∧
      storesOf (ledgerStep finalityImpl op ls).2 = (ledgerStep storeImpl op (storesOf ls)).2 := by
  cases op with
  | get l k =>
    refine ⟨getFinality_fst _ k, ?_⟩
    refine (storesOf_update_of_store (store_getFinality _ k)).trans ?_
    exact (Function.update_eq_self l _).symm
  | set l x => exact ⟨rfl, storesOf_update ls l _⟩
  | del l k =>
    refine ⟨delFinality_fst _ k, ?_⟩
    refine (storesOf_update ls l _).trans ?_
    exact congrArg (Function.update (storesOf ls) l) (store_delFinality _ k)
  | cancelSet l k => exact ⟨rfl, storesOf_update ls l _⟩
  | readAll l => exact ⟨rfl, rfl⟩
  | immutableAt l n => exact ⟨rfl, rfl⟩

section

variable {E : EvmLib}

theorem trxStep_stores {β : Type} (op : TrxOp E β)
    (s : Resources (fun l => FinalityLedger l.Item) E) :
    (trxStep finalityImpl op s).1 = (trxStep storeImpl op s.stores).1 ∧
      (trxStep finalityImpl op s).2.stores = (trxStep storeImpl op s.stores).2 := by
  cases op with
  | inl op =>
    obtain ⟨answer, ledgers⟩ := ledgerStep_store op s.ledgers
    refine ⟨answer, ?_⟩
    simp only [trxStep, Resources.stores, ledgers]
  | inr op => cases op <;> exact ⟨rfl, rfl⟩

theorem appStep_node (X : External) {β : Type} (op : AppOp β) (s : App X.evm) :
    (appStep X finalityImpl op s).1 = (appStep X storeImpl op (App.node s)).1 ∧
      App.node (appStep X finalityImpl op s).2 = (appStep X storeImpl op (App.node s)).2 := by
  cases op with
  | commitLedger l =>
    refine ⟨rfl, ?_⟩
    simp only [appStep, App.node, Resources.stores, storesOf_update]
    rfl
  | getMem => exact ⟨rfl, rfl⟩
  | setMem m => exact ⟨rfl, rfl⟩
  | putRewardHash hash => exact ⟨rfl, rfl⟩
  | commitTrie => exact ⟨rfl, rfl⟩
  | putEvmMeta height root => exact ⟨rfl, rfl⟩
  | putLastBlockContext bctx => exact ⟨rfl, rfl⟩
  | putLastBlockHeight height => exact ⟨rfl, rfl⟩
  | putChainID chainID => exact ⟨rfl, rfl⟩

end

theorem node_simulates (X : External) :
    (nodeHandler X finalityImpl).Simulates (nodeHandler X storeImpl) fun s t => App.node s = t where
  answer op s t related := by
    subst related
    cases op with
    | inl op => exact (trxStep_stores op s.toResources).1
    | inr op => exact (appStep_node X op s).1
  related op s t related := by
    subst related
    cases op with
    | inl op =>
      exact congrArg (fun r => (⟨r, s.mem, s.disk⟩ : Node X.evm)) (trxStep_stores op s.toResources).2
    | inr op => exact (appStep_node X op s).2

/-- A program has the same outcome on the application and on its node. -/
theorem run_node (X : External) {α : Type} (p : AppProg X.evm α) (s : App X.evm) :
    (run (nodeHandler X finalityImpl) p s).1 = (run (nodeHandler X storeImpl) p (App.node s)).1 ∧
      App.node (run (nodeHandler X finalityImpl) p s).2 =
        (run (nodeHandler X storeImpl) p (App.node s)).2 :=
  (node_simulates X).run p rfl

theorem run_node_ok {X : External} {α : Type} {p : AppProg X.evm α} {s t : App X.evm} {value : α}
    (ran : run (nodeHandler X finalityImpl) p s = (.ok value, t)) :
    run (nodeHandler X storeImpl) p (App.node s) = (.ok value, App.node t) := by
  obtain ⟨outcome, after⟩ := run_node X p s
  rw [ran] at outcome after
  exact Prod.ext outcome.symm after.symm

namespace RigoApp

/-- So does a sequence of calls. -/
theorem runCalls_node (X : External) (calls : List ConsensusCall) (s : App X.evm) :
    (runCalls X finalityImpl calls s).1 = (runCalls X storeImpl calls (App.node s)).1 ∧
      App.node (runCalls X finalityImpl calls s).2 =
        (runCalls X storeImpl calls (App.node s)).2 := by
  induction calls generalizing s with
  | nil => exact ⟨rfl, rfl⟩
  | cons call rest ih =>
    obtain ⟨outcome, after⟩ := run_node X (consensus X call) s
    simp only [runCalls]
    generalize run (nodeHandler X finalityImpl) (consensus X call) s = concrete at outcome after
    generalize run (nodeHandler X storeImpl) (consensus X call) (App.node s) = abstract
      at outcome after
    obtain ⟨result, s'⟩ := concrete
    obtain ⟨result', t'⟩ := abstract
    obtain rfl : result = result' := outcome
    obtain rfl : App.node s' = t' := after
    cases result with
    | error fault => exact ⟨rfl, rfl⟩
    | ok response =>
      obtain ⟨responses, final⟩ := ih s'
      exact ⟨congrArg (Except.ok response :: ·) responses, final⟩

end RigoApp

/-! ## Simulation mode -/

section

variable {E : EvmLib}

theorem ledgerStep_simulation {β : Type} (op : LedgerOp β)
    (ls : (l : LedgerId) → FinalityLedger l.Item) :
    storesOf (ledgerStep simulationImpl op ls).2 = storesOf ls := by
  cases op with
  | get l k => exact storesOf_update_of_store (store_get _ k)
  | set l x => exact storesOf_update_of_store (store_set _ x)
  | del l k => exact storesOf_update_of_store (store_del _ k)
  | cancelSet l k => exact storesOf_update_of_store (store_cancelSet _ k)
  | readAll l => rfl
  | immutableAt l n => rfl

theorem trxStep_simulation {β : Type} (op : TrxOp E β)
    (s : Resources (fun l => FinalityLedger l.Item) E) :
    storesOf (trxStep simulationImpl op s).2.ledgers = storesOf s.ledgers := by
  cases op with
  | inl op => exact ledgerStep_simulation op s.ledgers
  | inr op => cases op <;> rfl

/-- The code of a controller in simulation mode leaves the stores alone. -/
theorem simulation_stores {α : Type} (p : Ctrler E α)
    (s : Resources (fun l => FinalityLedger l.Item) E) :
    storesOf (run (trxHandler simulationImpl) p s).2.ledgers = storesOf s.ledgers := by
  refine run_preserves (trxHandler simulationImpl)
    (fun t => storesOf t.ledgers = storesOf s.ledgers) ?_ p rfl
  intro β op t kept
  exact (trxStep_simulation op t).trans kept

end

end Rigo
