import Rigo.Node.Reachable

/-!
# What a new process finds in the databases

A new process reads the ledgers, the parameters, the chain id, the hash of the rewards and
the last block from the databases.  `Consistent` says that these are what the old process
has in memory; it holds in every reachable state (`Reachable.consistent`).  So a process
started after a commit agrees with the old one on everything but the last validators, which
are in no database (`Flushed.restartNode`).
-/

namespace Rigo

open Foundation

/-! ## The stored parameters -/

/-- A store that was committed is found again by a new process. -/
theorem Store.new_commit {T : Type} [LedgerItem T] (s : Store T) :
    Store.new s.commit.tree = s.commit := by
  simp [Store.new, Store.commit, Tree.load, Tree.lastSaved, FinalityLedger.committedTree]
  rfl

/-- The parameters are stored, and no key of their ledger is removed. -/
def ParamsStored (params : GovParams) (stored : Store GovParams) : Prop :=
  stored.lookup GovParams.paramsKey = some params ∧ stored.removed = []

theorem ParamsStored.set {params : GovParams} {s : Store GovParams}
    (stored : ParamsStored params s) (new : GovParams) : ParamsStored new (s.set new) := by
  refine ⟨?_, stored.2⟩
  rw [Store.lookup_set, stored.2, if_pos ⟨rfl, List.not_mem_nil⟩]

theorem ParamsStored.commit {params : GovParams} {s : Store GovParams}
    (stored : ParamsStored params s) : ParamsStored params s.commit := by
  refine ⟨?_, rfl⟩
  have here := stored.1
  rw [Store.lookup_eq, stored.2, if_neg List.not_mem_nil] at here
  rw [Store.lookup_commit, stored.2, if_neg List.not_mem_nil]
  exact here

namespace GovCtrler

/-- One round of `applyProposals` stores the parameters it leaves in `newGovParams`. -/
theorem paramsStored_applyProposal (json : ParamsJSON) (params : GovParams) (height : Int)
    (newParams : Option GovParams) (prop : GovProposal) :
    Triple (ledgerHandler storeImpl) (fun ls => ParamsStored (newParams.getD params) (ls .params))
      (applyProposal json params height newParams prop)
      (fun new ls => ParamsStored (new.getD params) (ls .params)) (fun _ _ => True) := by
  have deleted := (writes_del (D := fun l => l = .frozenProposals) rfl
    (LedgerItem.key prop)).triple (l := .params) (by simp) (ParamsStored (newParams.getD params))
  unfold applyProposal
  split
  · refine Triple.bind deleted fun answer => Triple.bind
      (Calm.triple (S := fun _ => False) (l := .params) (calm_ofExcept answer) id _) fun _ => ?_
    split
    · exact Triple.pure fun _ stored => stored
    · split
      · split
        · exact Triple.fail fun _ _ => trivial
        · intro ls stored
          exact stored.set _
      · exact Triple.pure fun _ stored => stored
  · exact Triple.pure fun _ stored => stored

theorem paramsStored_endBlock (json : ParamsJSON) (sort : OptionSort) (params : GovParams)
    (newParams : Option GovParams) (height : Int) :
    Triple (ledgerHandler storeImpl) (fun ls => ParamsStored (newParams.getD params) (ls .params))
      (endBlock json sort params newParams height)
      (fun new ls => ParamsStored (new.getD params) (ls .params)) (fun _ _ => True) := by
  have frozen := (writes_freezeProposals (S := fun l => l = .proposals ∨ l = .frozenProposals)
    (.inl rfl) (.inr rfl) sort height).triple (l := .params) (by simp)
      (ParamsStored (newParams.getD params))
  refine Triple.bind frozen fun _ => Triple.bind
    ((writes_readAll (S := fun _ => False) .frozenProposals).triple (l := .params) id _)
    fun read => Triple.bind
    (Calm.triple (S := fun _ => False) (l := .params) (calm_ofExcept read) id _) fun props => ?_
  exact Triple.foldlM (I := fun _ new (ls : Stores) =>
    ParamsStored (new.getD params) (ls .params)) props newParams fun new prop _ => paramsStored_applyProposal json params height new prop

end GovCtrler

/-! ## Consistency -/

/-- The parameters in force after the next commit are the stored ones, and what else is
kept in memory and in a database is the same in both. -/
structure Consistent {E : EvmLib} (s : Node E) : Prop where
  params : ParamsStored (s.mem.newGovParams.getD s.mem.govParams) (s.ledgers .params)
  chainID : s.mem.chainID = s.disk.chainID
  rewardHash : s.mem.lastRwdHash = s.disk.rewardHash

section

variable {X : External} {s t u : Node X.evm}

open RigoApp

theorem consistent_initChain {genesis : Genesis} (first : firstNode X = .ok s)
    (ran : InitsChain X genesis s t) :
    Consistent t := by
  obtain ⟨ls, ls', ls'', held, accounts, staked, rfl⟩ := initChain_ok ran
  cases first
  refine ⟨?_, rfl, rfl⟩
  simp only
  rw [(StakeCtrler.writes_initLedger (S := fun l => l = .delegatees) rfl _).frame (by simp) staked,
    (writes_validatorAccounts (S := fun l => l = .accounts) rfl _).frame (by simp) accounts,
    (AcctCtrler.writes_initLedger (S := fun l => l = .accounts) rfl _).frame (by simp) held,
    Stores.put_self]
  refine ⟨?_, rfl⟩
  rw [Store.lookup_set]
  exact if_pos ⟨rfl, List.not_mem_nil⟩

theorem Consistent.beginBlock (consistent : Consistent s) {info : BlockInfo}
    (ran : BeginsBlock X info s t) :
    Consistent t := by
  obtain ⟨last, ls, ls', allDelegatees, -, -, -, governed, -, rewarded, rfl⟩ := beginBlock_ok ran
  refine ⟨?_, consistent.chainID, consistent.rewardHash⟩
  simp only
  rw [StakeCtrler.punishAndReward_frame (by decide) rewarded,
    GovCtrler.beginBlock_frame (by decide) governed]
  exact consistent.params

theorem Consistent.deliverTx (consistent : Consistent s) {txbz : HexBytes} {response : TxResponse}
    (ran : DeliversTx X txbz s response t) :
    Consistent t := by
  obtain ⟨ledgers, disk, -, -, next, mem, -⟩ := deliverTx_keeps ran
  refine ⟨?_, ?_, ?_⟩
  · rw [mem, ledgers .params id]
    exact consistent.params
  · rw [mem, disk]
    exact consistent.chainID
  · rw [mem, disk]
    exact consistent.rewardHash

theorem Consistent.endBlock (consistent : Consistent s) {valUpdates : List ValidatorUpdate}
    (ran : EndsBlock X s valUpdates t) :
    Consistent t := by
  obtain ⟨bctx, newGovParams, lastValidators, ls, ls', ls'', -, governed, paid, refunded, rfl⟩ :=
    endBlock_ok ran
  refine ⟨?_, consistent.chainID, consistent.rewardHash⟩
  simp only
  rw [(StakeCtrler.writes_endBlock (S := fun l => l ≠ .params) (by simp) (by simp) _ _ _ _).frame
      (by simp) refunded,
    (AcctCtrler.writes_endBlock (S := fun l => l = .accounts) rfl _ _).frame (by simp) paid]
  exact (GovCtrler.paramsStored_endBlock _ _ _ _ _).ok consistent.params governed

theorem Consistent.commit (consistent : Consistent s) {appHash : HexBytes}
    (ran : Commits X s appHash t) :
    Consistent t := by
  obtain ⟨bctx, state, -, -, -, rfl, -, -⟩ := commit_ok ran
  refine ⟨consistent.params.commit, consistent.chainID, ?_⟩
  simp only [committed, RigoApp.rewardHash, consistent.rewardHash]

theorem Consistent.call (consistent : Consistent s) {call : ConsensusCall} {response : Response}
    (ran : run (nodeHandler X storeImpl) (consensus X call) s = (.ok response, t)) :
    Consistent t := by
  cases call with
  | beginBlock info => exact consistent.beginBlock (consensus_beginBlock_ok ran).2
  | deliverTx txbz =>
    obtain ⟨answer, -, delivered⟩ := consensus_deliverTx_ok ran
    exact consistent.deliverTx delivered
  | endBlock =>
    obtain ⟨valUpdates, -, ended⟩ := consensus_endBlock_ok ran
    exact consistent.endBlock ended
  | commit =>
    obtain ⟨appHash, -, committed⟩ := consensus_commit_ok ran
    exact consistent.commit committed

/-! ## A new process -/

/-- A node between two blocks, whose ledgers and memory are what a new process would find. -/
structure Flushed {E : EvmLib} (s : Node E) : Prop where
  consistent : Consistent s
  stores : ∀ l, Store.new (s.ledgers l).tree = s.ledgers l
  newGovParams : s.mem.newGovParams = none
  nextBlockCtx : s.mem.nextBlockCtx = none
  rootHash : s.evm.lastRootHash = s.disk.evmRoot s.disk.evmHeight
  evmHeight : s.evm.lastBlockHeight = s.disk.evmHeight
  lastHeight : s.mem.lastBlockCtx.map (fun bctx => bctx.blockInfo.height) =
    some (lastBlockCtxOf s.disk).blockInfo.height

theorem Consistent.flushed (consistent : Consistent s) {appHash : HexBytes}
    (ran : Commits X s appHash t) : Flushed t := by
  have after := consistent.commit ran
  obtain ⟨bctx, state, -, -, -, rfl, -, -⟩ := commit_ok ran
  exact {
    consistent := after
    stores := fun l => Store.new_commit (s.ledgers l)
    newGovParams := rfl
    nextBlockCtx := rfl
    rootHash := by simp only [committed, Function.update_self]
    evmHeight := rfl
    lastHeight := rfl }

/-- A new process on a flushed node starts if the number of validators is no negative number,
and finds everything but the last validators. -/
theorem Flushed.restartNode (flushed : Flushed t) :
    if t.mem.govParams.maxValidatorCnt < 0 then
      RigoApp.restartNode X t = .error (.panic .outOfRange)
    else ∃ u, RigoApp.restartNode X t = .ok u ∧ u.mem.nextBlockCtx = none ∧
      Agrees False False (fun _ validators => validators = []) t u := by
  have found : (Store.new (t.ledgers .params).tree).get GovParams.paramsKey =
      .ok t.mem.govParams := by
    have stored := flushed.consistent.params.1
    rw [flushed.newGovParams, Option.getD_none] at stored
    rw [flushed.stores, Store.get]
    exact congrArg Rigo.found stored
  unfold RigoApp.restartNode boot
  rw [found]
  split
  · next negative => exact if_pos negative
  · next range =>
    refine ⟨_, if_neg range, rfl, ?_⟩
    exact {
      ledgers := funext fun l => (flushed.stores l).symm
      disk := rfl
      rootHash := flushed.rootHash
      evmHeight := flushed.evmHeight
      lastHeight := flushed.lastHeight
      nextBlockCtx := flushed.nextBlockCtx
      chainID := flushed.consistent.chainID
      govParams := rfl
      newGovParams := flushed.newGovParams
      lastRwdHash := flushed.consistent.rewardHash
      sameLimiter := False.elim
      sameBlock := False.elim
      validators := rfl }

theorem Agrees.consistent (agrees : Agrees False False (fun _ validators => validators = []) s t)
    (consistent : Consistent s) : Consistent t where
  params := by
    rw [← agrees.ledgers, ← agrees.newGovParams, ← agrees.govParams]
    exact consistent.params
  chainID := by
    rw [← agrees.chainID, ← agrees.disk]
    exact consistent.chainID
  rewardHash := by
    rw [← agrees.lastRwdHash, ← agrees.disk]
    exact consistent.rewardHash

theorem Flushed.withLimiter (flushed : Flushed s) (limiter : StakeLimiter) :
    Flushed { s with limiter := limiter } :=
  ⟨⟨flushed.consistent.params, flushed.consistent.chainID, flushed.consistent.rewardHash⟩,
    flushed.stores, flushed.newGovParams, flushed.nextBlockCtx, flushed.rootHash, flushed.evmHeight,
    flushed.lastHeight⟩

theorem Flushed.of_agrees (flushed : Flushed s)
    (agrees : Agrees False False (fun _ validators => validators = []) s t) : Flushed t where
  consistent := agrees.consistent flushed.consistent
  stores l := by
    rw [← agrees.ledgers]
    exact flushed.stores l
  newGovParams := agrees.newGovParams.symm.trans flushed.newGovParams
  nextBlockCtx := agrees.nextBlockCtx.symm.trans flushed.nextBlockCtx
  rootHash := by
    rw [← agrees.rootHash, ← agrees.disk]
    exact flushed.rootHash
  evmHeight := by
    rw [← agrees.evmHeight, ← agrees.disk]
    exact flushed.evmHeight
  lastHeight := by
    rw [← agrees.lastHeight, ← agrees.disk]
    exact flushed.lastHeight

/-- Memory and databases are consistent in every reachable state. -/
theorem RigoApp.Reachable.consistent {s : App X.evm} (reachable : Reachable X s) :
    Consistent (App.node s) := by
  refine reachable.node_induction consistent_initChain (fun before ran => before.call ran) ?_ ?_
  · intro s limiter before
    exact ⟨before.params, before.chainID, before.rewardHash⟩
  · intro s t appHash u before ran restarted
    have booted := (before.flushed ran).restartNode
    split at booted
    · rw [booted] at restarted
      cases restarted
    · obtain ⟨u', booted, -, agrees⟩ := booted
      rw [booted] at restarted
      cases restarted
      exact agrees.consistent (before.commit ran)

end

end Rigo
