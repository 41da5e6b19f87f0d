import Rigo.Node.Commit

/-!
# What the other calls do

`BeginBlock`, `DeliverTx`, `EndBlock` and `InitChain` on stores, taken apart: if a call
succeeds then each controller has succeeded in its turn, and the node that is left is built
from what they leave.
-/

namespace Rigo

open Foundation
open StakeCtrler TrxExecutor

/-- A controller that did not make the application panic has succeeded. -/
theorem panicked_eq_ok {α : Type} {outcome : Except Fault α} {value : α}
    (same : panicked outcome = .ok value) : outcome = .ok value := by
  cases outcome with
  | ok value' => exact same
  | error fault => cases fault <;> cases same

namespace RigoApp

variable {X : External} {bctx : BlockContext} {genesis : Genesis} {l : LedgerId}
  {r r' : Workspace X.evm}

variable {s t : Node X.evm}

/-- Code on the ledgers that did not make the application panic. -/
theorem ledgerOrPanic_ok {α : Type} {p : LedgerProg α} {value : α}
    (ran : run (nodeHandler X storeImpl) (ledgerOrPanic p) s = (.ok value, t)) :
    ∃ ls, exec p s.ledgers = (.ok value, ls) ∧ t = { s with ledgers := ls } := by
  rw [run_ledgerOrPanic] at ran
  obtain ⟨outcome, rfl⟩ := Prod.mk.inj ran
  exact ⟨_, Prod.ext (panicked_eq_ok outcome) rfl, rfl⟩

/-- Code of a controller that did not make the application panic. -/
theorem orPanic_ok {α : Type} {p : Ctrler X.evm α} {value : α}
    (ran : run (nodeHandler X storeImpl) (orPanic p) s = (.ok value, t)) :
    ∃ r, run (trxHandler storeImpl) p s.toResources = (.ok value, r) ∧
      t = { s with toResources := r } := by
  rw [run_orPanic] at ran
  obtain ⟨outcome, rfl⟩ := Prod.mk.inj ran
  exact ⟨_, Prod.ext (panicked_eq_ok outcome) rfl, rfl⟩

theorem getMem_ok {m : Mem}
    (ran : run (nodeHandler X storeImpl) (app .getMem) s = (.ok m, t)) : m = s.mem ∧ s = t := by
  cases ran
  exact ⟨rfl, rfl⟩

theorem nextBlockCtx_ok (ran : run (nodeHandler X storeImpl) nextBlockCtx s = (.ok bctx, t)) :
    s.mem.nextBlockCtx = some bctx ∧ s = t := by
  rw [run_nextBlockCtx] at ran
  cases here : s.mem.nextBlockCtx with
  | none =>
    rw [here] at ran
    cases ran
  | some bctx' =>
    rw [here] at ran
    cases ran
    exact ⟨rfl, rfl⟩

/-! ## BeginBlock -/

variable {info : BlockInfo}

theorem stakeBeginBlock_ok {params : GovParams}
    {allDelegatees : List Delegatee}
    (ran : run (trxHandler storeImpl) (StakeCtrler.beginBlock params info) r =
      (.ok allDelegatees, r')) :
    ∃ ls, exec (collectDelegatees params) r.ledgers = (.ok allDelegatees, r.ledgers) ∧
      exec (punishAndReward params info) r.ledgers = (.ok (), ls) ∧
      r' = { r with
        ledgers := ls
        limiter := resetLimiter params allDelegatees } := by
  obtain ⟨all, r₁, collected, ran⟩ := run_bind_ok ran
  obtain ⟨_, r₂, limited, ran⟩ := run_bind_ok ran
  obtain ⟨_, r₃, punished, ran⟩ := run_bind_ok ran
  cases ran
  cases limited
  rw [run_ledger] at collected punished
  obtain ⟨outcome, rfl⟩ := Prod.mk.inj collected
  obtain ⟨outcome', rfl⟩ := Prod.mk.inj punished
  have same : (exec (collectDelegatees params) r.ledgers).2 = r.ledgers :=
    funext fun l => exec_frame (S := fun _ => False)
      (writes_collectDelegatees (fun _ => trivial) params) id r.ledgers
  simp only [trxHandler, trxStep, same] at outcome' ⊢
  exact ⟨_, Prod.ext outcome same, Prod.ext outcome' rfl, rfl⟩

/-- The EVM at the beginning of a block. -/
def openEvm (E : EvmLib) (m : EvmMem E) (info : BlockInfo) : EvmMem E :=
  { m with
    stateDB := some (E.new m.lastRootHash)
    blockGasPool := EvmCtrler.gasLimit
    coinbase := array20 (info.proposer.getD [])
    blockNumber := info.height
    time := info.time }

theorem evmBeginBlock_ok
    (ran : run (trxHandler storeImpl) (EvmCtrler.beginBlock info) r = (.ok (), r')) :
    info.height = i64 (r.evm.lastBlockHeight + 1) ∧
      r' = { r with evm := openEvm X.evm r.evm info } := by
  simp only [EvmCtrler.beginBlock, Prog.bind_eq, run_bind, Ctrler.getEvm,
    run_perform, andThen_ok, trxHandler, trxStep] at ran
  split at ran
  · simp at ran
  · next height =>
    cases ran
    exact ⟨(not_not.mp height).symm, rfl⟩

/-- A block begins if its height is the next one for the application and for the EVM, and
the controllers succeed. -/
theorem beginBlock_ok (ran : BeginsBlock X info s t) :
    ∃ last ls ls' allDelegatees, s.mem.lastBlockCtx = some last ∧
      info.height = i64 (last.blockInfo.height + 1) ∧
      info.height = i64 (s.evm.lastBlockHeight + 1) ∧
      exec (GovCtrler.beginBlock s.mem.govParams info) s.ledgers = (.ok (), ls) ∧
      exec (collectDelegatees s.mem.govParams) ls = (.ok allDelegatees, ls) ∧
      exec (punishAndReward s.mem.govParams info) ls = (.ok (), ls') ∧
      t = { s with
        ledgers := ls'
        limiter := resetLimiter s.mem.govParams allDelegatees
        evm := openEvm X.evm s.evm info
        mem := { s.mem with
          nextBlockCtx := some (newBlockContext info)
          allDelegatees := allDelegatees } } := by
  obtain ⟨m, s₀, read, ran⟩ := run_bind_ok ran
  obtain ⟨rfl, rfl⟩ := getMem_ok read
  cases here : s.mem.lastBlockCtx with
  | none =>
    rw [here] at ran
    cases ran
  | some last =>
    rw [here] at ran
    simp only at ran
    split at ran
    · cases ran
    · next height =>
      obtain ⟨_, s₁, opened, ran⟩ := run_bind_ok ran
      obtain ⟨_, s₂, punished, ran⟩ := run_bind_ok ran
      obtain ⟨allDelegatees, s₃, staked, ran⟩ := run_bind_ok ran
      obtain ⟨_, s₄, kept, ran⟩ := run_bind_ok ran
      cases opened
      cases kept
      obtain ⟨ls, governed, rfl⟩ := ledgerOrPanic_ok punished
      obtain ⟨r, began, rfl⟩ := orPanic_ok staked
      obtain ⟨ls', collected, rewarded, rfl⟩ := stakeBeginBlock_ok began
      obtain ⟨r', evmBegan, rfl⟩ := orPanic_ok ran
      obtain ⟨evmHeight, rfl⟩ := evmBeginBlock_ok evmBegan
      exact ⟨last, ls, ls', allDelegatees, rfl, not_not.mp height, evmHeight, governed,
        collected, rewarded, rfl⟩

/-- `BeginBlock` does not change the committed trees. -/
theorem beginBlock_tree (ran : BeginsBlock X info s t) (l : LedgerId) :
    (t.ledgers l).tree = (s.ledgers l).tree := by
  obtain ⟨last, ls, ls', allDelegatees, -, -, -, governed, -, rewarded, rfl⟩ := beginBlock_ok ran
  exact (tree_of_exec rewarded l).trans (tree_of_exec governed l)

/-! ## DeliverTx -/

variable {response : TxResponse} {txbz : HexBytes}

/-- A transaction that is answered was decoded, and its sender has an account. -/
theorem deliverTx_ok (ran : run (nodeHandler X storeImpl) (deliverTx X txbz) s = (.ok response, t)) :
    ∃ bctx tx sender, s.mem.nextBlockCtx = some bctx ∧ Trx.decode X.trx txbz = .ok tx ∧
      Stores.account s.ledgers tx.fromAddr = some sender ∧
      respond s bctx (contextOf X.trx (deliverSetting s.mem bctx) txbz tx)
        (run (trxHandler storeImpl) (executeSync X.trx X.json
          (contextOf X.trx (deliverSetting s.mem bctx) txbz tx))
          { s.toResources with ledgers := Stores.withAccount s.ledgers tx.toAddr }) =
        (.ok response, t) := by
  rw [run_deliverTx] at ran
  cases inBlock : s.mem.nextBlockCtx with
  | none => simp [inBlock] at ran
  | some bctx =>
    cases decoded : Trx.decode X.trx txbz with
    | error e => simp [inBlock, decoded] at ran
    | ok tx =>
      cases found : Stores.account s.ledgers tx.fromAddr with
      | none => simp [inBlock, decoded, found] at ran
      | some sender =>
        simp only [inBlock, decoded, found] at ran
        exact ⟨bctx, tx, sender, rfl, rfl, found, ran⟩

/-- The code of a transaction that failed. -/
theorem code_failure (e : XError) (data : HexBytes) :
    (TxResponse.failure (XError.errDeliverTx.wrap e) data).code = 5 :=
  XError.code_wrap_coded 5 "DeliverTx failed" e

/-- What an answer of `DeliverTx` does to the node besides executing the transaction. -/
theorem respond_ok {E : EvmLib} {s t : Node E} {ctx : TrxContext}
    {executed : Except Fault TrxResult × Workspace E}
    (ran : respond s bctx ctx executed = (.ok response, t)) :
    t.toResources = executed.2 ∧ t.disk = s.disk ∧
      ∃ next, t.mem = { s.mem with nextBlockCtx := next } ∧
        (s.mem.nextBlockCtx = some bctx → next.map BlockContext.blockInfo = some bctx.blockInfo) := by
  obtain ⟨outcome, r⟩ := executed
  cases outcome with
  | error fault =>
    cases fault with
    | panic p => cases ran
    | xerr e =>
      cases ran
      exact ⟨rfl, rfl, _, rfl, fun inBlock => by rw [inBlock]; rfl⟩
  | ok result =>
    simp only [respond] at ran
    cases failed : result.failed with
    | some e =>
      rw [failed] at ran
      cases ran
      exact ⟨rfl, rfl, _, rfl, fun inBlock => by rw [inBlock]; rfl⟩
    | none =>
      rw [failed] at ran
      cases ran
      exact ⟨rfl, rfl, _, rfl, fun _ => rfl⟩

/-- A transaction that was executed is valid, and was run. -/
theorem deliverTx_success (ran : DeliversTx X txbz s response t)
    (code : response.code = 0) :
    ∃ bctx tx pubKey r result, s.mem.nextBlockCtx = some bctx ∧ Trx.decode X.trx txbz = .ok tx ∧
      run (trxHandler storeImpl) (TrxExecutor.validateTrx X.trx X.json
        (ctxOf X s bctx txbz tx))
        { s.toResources with ledgers := Stores.withAccount s.ledgers tx.toAddr } = (.ok pubKey, r) ∧
      r.ledgers = Stores.withAccount s.ledgers tx.toAddr ∧
      run (trxHandler storeImpl) (runTrx
        (ctxOf X s bctx txbz tx) pubKey) r =
        (.ok result, t.toResources) ∧ result.failed = none := by
  obtain ⟨bctx, tx, sender, inBlock, decoded, -, answered⟩ := deliverTx_ok ran
  have resources := (respond_ok answered).1
  rcases executeSync_cases X.trx X.json
      (ctxOf X s bctx txbz tx)
      { s.toResources with ledgers := Stores.withAccount s.ledgers tx.toAddr } with
    ⟨fault, r, failed, -⟩ | ⟨pubKey, r, valid, kept, sequence⟩
  · rw [failed] at answered
    cases fault with
    | panic p => cases answered
    | xerr e =>
      cases answered
      rw [code_failure] at code
      cases code
  · rw [sequence] at answered resources
    generalize ended : run (trxHandler storeImpl) (runTrx _ pubKey) r = executed
      at answered resources
    obtain ⟨outcome, r'⟩ := executed
    cases outcome with
    | error fault =>
      cases fault with
      | panic p => cases answered
      | xerr e =>
        cases answered
        rw [code_failure] at code
        cases code
    | ok result =>
      refine ⟨bctx, tx, pubKey, r, result, inBlock, decoded, valid, kept, ?_, ?_⟩
      · rw [ended, resources]
      · cases failed : result.failed with
        | none => rfl
        | some e =>
          simp only [respond, failed] at answered
          cases answered
          rw [code_failure] at code
          cases code

/-- What `DeliverTx` keeps. -/
theorem deliverTx_keeps (ran : DeliversTx X txbz s response t) :
    (∀ l, ¬ WrittenByTrx l → t.ledgers l = s.ledgers l) ∧ t.disk = s.disk ∧
      t.evm.lastRootHash = s.evm.lastRootHash ∧ t.evm.lastBlockHeight = s.evm.lastBlockHeight ∧
      ∃ next, t.mem = { s.mem with nextBlockCtx := next } ∧
        next.map BlockContext.blockInfo = s.mem.nextBlockCtx.map BlockContext.blockInfo := by
  obtain ⟨bctx, tx, sender, inBlock, decoded, found, ran⟩ := deliverTx_ok ran
  obtain ⟨resources, disk, next, mem, info⟩ := respond_ok ran
  let r : Workspace X.evm :=
    { s.toResources with ledgers := Stores.withAccount s.ledgers tx.toAddr }
  let ctx := ctxOf X s bctx txbz tx
  have obeys : Obeys (within WrittenByTrx True true r.evm.lastRootHash r.evm.lastBlockHeight)
      (fun _ => True) (executeSync X.trx X.json ctx : Ctrler X.evm TrxResult) :=
    obeys_executeSync X.trx X.json ctx fun _ => trivial
  obtain ⟨-, -, root, height⟩ := run_within storeImpl (r := r) obeys
  refine ⟨fun l other => ?_, disk, ?_, ?_, next, mem, ?_⟩
  · have frame := run_frame (r := r) obeys ⟨rfl, rfl⟩ other
    rw [resources]
    refine frame.trans (Stores.withAccount_of_ne ?_ _ _)
    rintro rfl
    exact other trivial
  · rw [resources]
    exact root
  · rw [resources]
    exact height
  · rw [info inBlock, inBlock]
    rfl

/-- `DeliverTx` writes only the ledgers for the type of the transaction. -/
theorem deliverTx_frame {tx : Trx}
    (ran : DeliversTx X txbz s response t)
    (decoded : Trx.decode X.trx txbz = .ok tx) (other : ¬ WrittenBy tx.type l) :
    t.ledgers l = s.ledgers l := by
  obtain ⟨bctx, tx', sender, -, decoded', -, answered⟩ := deliverTx_ok ran
  obtain rfl : tx = tx' := Except.ok.inj (decoded.symm.trans decoded')
  rw [(respond_ok answered).1]
  refine (run_frame (obeys_executeSync_type X.trx X.json _) ⟨rfl, rfl⟩ other).trans
    (Stores.withAccount_of_ne ?_ _ _)
  rintro rfl
  exact other trivial

/-- `DeliverTx` does not change the committed trees. -/
theorem deliverTx_tree (ran : DeliversTx X txbz s response t) (l : LedgerId) :
    (t.ledgers l).tree = (s.ledgers l).tree := by
  obtain ⟨bctx, tx, sender, -, -, -, answered⟩ := deliverTx_ok ran
  rw [(respond_ok answered).1, run_tree]
  exact tree_of_exec (AcctCtrler.exec_findOrNewAccount tx.toAddr s.ledgers) l

/-! ## EndBlock -/

variable {valUpdates : List ValidatorUpdate}

/-- A block ends if the controllers succeed in their turn. -/
theorem endBlock_ok (ran : EndsBlock X s valUpdates t) :
    ∃ bctx newGovParams lastValidators ls ls' ls'', s.mem.nextBlockCtx = some bctx ∧
      exec (GovCtrler.endBlock X.json X.sort s.mem.govParams s.mem.newGovParams
        bctx.blockInfo.height) s.ledgers = (.ok newGovParams, ls) ∧
      exec (AcctCtrler.endBlock bctx.blockInfo.proposer bctx.feeSum) ls = (.ok (), ls') ∧
      exec (StakeCtrler.endBlock s.mem.govParams s.mem.allDelegatees s.mem.lastValidators
        bctx.blockInfo.height) ls' = (.ok (valUpdates, lastValidators), ls'') ∧
      t = { s with
        ledgers := ls''
        mem := { s.mem with
          newGovParams := newGovParams
          lastValidators := lastValidators
          nextBlockCtx := some { bctx with valUpdates := valUpdates } } } := by
  obtain ⟨m, s₀, read, ran⟩ := run_bind_ok ran
  obtain ⟨rfl, rfl⟩ := getMem_ok read
  obtain ⟨bctx, s₁, inBlock, ran⟩ := run_bind_ok ran
  obtain ⟨here, rfl⟩ := nextBlockCtx_ok inBlock
  obtain ⟨newGovParams, s₂, governed, ran⟩ := run_bind_ok ran
  obtain ⟨_, s₃, paid, ran⟩ := run_bind_ok ran
  obtain ⟨⟨valUpdates', lastValidators⟩, s₄, refunded, ran⟩ := run_bind_ok ran
  obtain ⟨_, s₅, stored, ran⟩ := run_bind_ok ran
  cases stored
  cases ran
  obtain ⟨ls, governed', rfl⟩ := ledgerOrPanic_ok governed
  obtain ⟨ls', paid', rfl⟩ := ledgerOrPanic_ok paid
  obtain ⟨ls'', refunded', rfl⟩ := ledgerOrPanic_ok refunded
  exact ⟨bctx, newGovParams, lastValidators, ls, ls', ls'', here, governed', paid', refunded', rfl⟩

/-- `EndBlock` does not change the committed trees. -/
theorem endBlock_tree (ran : EndsBlock X s valUpdates t) (l : LedgerId) :
    (t.ledgers l).tree = (s.ledgers l).tree := by
  obtain ⟨bctx, newGovParams, lastValidators, ls, ls', ls'', -, governed, paid, refunded, rfl⟩ :=
    endBlock_ok ran
  exact ((tree_of_exec refunded l).trans (tree_of_exec paid l)).trans (tree_of_exec governed l)

/-- The ledgers that `EndBlock` may write. -/
def WrittenAtEnd : LedgerId → Prop
  | .delegatees => False
  | .rewards => False
  | .params | .proposals | .frozenProposals | .accounts | .frozenStakes => True

/-- `EndBlock` leaves the delegatees and the rewards. -/
theorem endBlock_frame (ran : EndsBlock X s valUpdates t)
    (other : ¬ WrittenAtEnd l) : t.ledgers l = s.ledgers l := by
  obtain ⟨bctx, newGovParams, lastValidators, ls, ls', ls'', -, governed, paid, refunded, rfl⟩ :=
    endBlock_ok ran
  have governed' : ls l = s.ledgers l :=
    (GovCtrler.writes_endBlock trivial trivial trivial _ _ _ _ _).frame other governed
  have paid' : ls' l = ls l := (AcctCtrler.writes_endBlock trivial _ _).frame other paid
  have refunded' : ls'' l = ls' l :=
    (writes_endBlock trivial trivial _ _ _ _).frame other refunded
  exact (refunded'.trans paid').trans governed'

/-! ## InitChain -/

theorem writes_validatorAccounts {S : LedgerId → Prop} (allowed : S .accounts)
    (validators : List (HexBytes × Int)) : Writes S (validatorAccounts X validators) :=
  Calm.forM _ fun _ => (AcctCtrler.writes_findOrNewAccount allowed _).seq fun _ => trivial

/-- The ledgers that `InitChain` leaves are made by the controllers in their turn. -/
theorem initChain_ok (ran : run (nodeHandler X storeImpl) (initChain X genesis) s = (.ok (), t)) :
    ∃ ls ls' ls'', exec (AcctCtrler.initLedger genesis.assetHolders)
        (Stores.put s.ledgers .params genesis.params) = (.ok (), ls) ∧
      exec (validatorAccounts X genesis.validators) ls = (.ok (), ls') ∧
      exec (initLedger
        (genesis.validators.map fun val => initStake X val.1 val.2)) ls' = (.ok (), ls'') ∧
      t = { s with
        ledgers := ls''
        mem := { s.mem with chainID := genesis.chainID, govParams := genesis.params }
        disk := { s.disk with chainID := genesis.chainID } } := by
  unfold initChain at ran
  split at ran
  · cases ran
  · obtain ⟨_, s₁, named, ran⟩ := run_bind_ok ran
    obtain ⟨_, s₂, stored, ran⟩ := run_bind_ok ran
    obtain ⟨_, s₃, governed, ran⟩ := run_bind_ok ran
    obtain ⟨_, s₄, params, ran⟩ := run_bind_ok ran
    obtain ⟨_, s₅, held, ran⟩ := run_bind_ok ran
    obtain ⟨_, s₆, accounts, ran⟩ := run_bind_ok ran
    cases named
    cases stored
    cases governed
    cases params
    obtain ⟨ls, held', rfl⟩ := ledgerOrPanic_ok held
    obtain ⟨ls', accounts', rfl⟩ := ledgerOrPanic_ok accounts
    obtain ⟨ls'', staked, rfl⟩ := ledgerOrPanic_ok ran
    exact ⟨ls, ls', ls'', held', accounts', staked, rfl⟩

/-- The ledgers that `InitChain` writes. -/
def WrittenAtGenesis (l : LedgerId) : Prop := l = .params ∨ l = .accounts ∨ l = .delegatees

instance (l : LedgerId) : Decidable (WrittenAtGenesis l) :=
  inferInstanceAs (Decidable (l = .params ∨ l = .accounts ∨ l = .delegatees))

theorem initChain_frame (ran : InitsChain X genesis s t)
    (other : ¬ WrittenAtGenesis l) : t.ledgers l = s.ledgers l := by
  obtain ⟨ls, ls', ls'', held, accounts, staked, rfl⟩ := initChain_ok ran
  have held' : ls l = Stores.put s.ledgers .params genesis.params l :=
    (AcctCtrler.writes_initLedger (S := WrittenAtGenesis) (by decide) _).frame other held
  have accounts' : ls' l = ls l :=
    (writes_validatorAccounts (S := WrittenAtGenesis) (by decide) _).frame other accounts
  have staked' : ls'' l = ls' l :=
    (writes_initLedger (S := WrittenAtGenesis) (by decide) _).frame other staked
  refine ((staked'.trans accounts').trans held').trans (Stores.put_of_ne _ _ ?_)
  rintro rfl
  exact other (.inl rfl)

/-! ## The answers to the calls -/

theorem consensus_beginBlock_ok {response : Response}
    (ran : run (nodeHandler X storeImpl) (consensus X (.beginBlock info)) s = (.ok response, t)) :
    response = .beginBlock ∧
      BeginsBlock X info s t := by
  obtain ⟨_, t', began, answered⟩ := run_bind_ok ran
  cases answered
  exact ⟨rfl, began⟩

theorem consensus_deliverTx_ok {response : Response}
    (ran : run (nodeHandler X storeImpl) (consensus X (.deliverTx txbz)) s = (.ok response, t)) :
    ∃ answer, response = .deliverTx answer ∧
      DeliversTx X txbz s answer t := by
  obtain ⟨answer, t', delivered, answered⟩ := run_bind_ok ran
  cases answered
  exact ⟨answer, rfl, delivered⟩

theorem consensus_endBlock_ok {response : Response}
    (ran : run (nodeHandler X storeImpl) (consensus X .endBlock) s = (.ok response, t)) :
    ∃ valUpdates, response = .endBlock valUpdates ∧
      EndsBlock X s valUpdates t := by
  obtain ⟨valUpdates, t', ended, answered⟩ := run_bind_ok ran
  cases answered
  exact ⟨valUpdates, rfl, ended⟩

theorem consensus_commit_ok {response : Response}
    (ran : run (nodeHandler X storeImpl) (consensus X .commit) s = (.ok response, t)) :
    ∃ appHash, response = .commit appHash ∧
      Commits X s appHash t := by
  obtain ⟨appHash, t', committed, answered⟩ := run_bind_ok ran
  cases answered
  exact ⟨appHash, rfl, committed⟩

end RigoApp

end Rigo
