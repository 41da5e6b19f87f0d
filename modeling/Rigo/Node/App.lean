import Rigo.Node.State

/-!
# The application

`node/app.go`.  The calls of the consensus engine are programs over the operations
of the node: `initChain`, `beginBlock`, `deliverTx`, `endBlock` and `commit`.
`checkTx` runs the code of a transaction on the simulation mode of the ledgers.
`restart` is a new process on the databases of an old one: `NewRigoApp` and `Info`.

A controller that returns an error to `beginBlock`, `endBlock` or `commit` makes the
application panic.
-/

namespace Rigo

open Foundation

/-- The code of the application. -/
abbrev AppProg (E : EvmLib) (α : Type) := Prog (NodeOp E) Fault α

/-- The genesis document: the chain id, the parameters, the asset holders, and the
validators with their public keys and powers. -/
structure Genesis where
  chainID : String
  params : GovParams
  assetHolders : List (Address × Uint256)
  validators : List (HexBytes × Int)
  deriving DecidableEq

/-- `ResponseDeliverTx` and `ResponseCheckTx`, without events. -/
structure TxResponse where
  code : Nat
  log : String
  data : HexBytes
  gasWanted : Int
  gasUsed : Int
  deriving DecidableEq

namespace TxResponse

/-- The response to a transaction that failed with an error. -/
def failure (e : XError) (data : HexBytes) : TxResponse := ⟨e.code, e.error, data, 0, 0⟩

/-- The response to a transaction that was executed. -/
def success (ctx : TrxContext) (result : TrxResult) : TxResponse :=
  ⟨0, "", result.retData, i64 ctx.tx.gas, i64 result.gasUsed⟩

end TxResponse

namespace RigoApp

section

variable {E : EvmLib} {α : Type}

/-- Run the code of a controller. -/
def ctrler (p : Ctrler E α) : AppProg E α := p.lift Sum.inl

/-- Perform an operation of the application. -/
def app (op : AppOp α) : AppProg E α := Prog.perform (.inr op)

/-- Run code on the ledgers and panic if it returns an error. -/
def ledgerOrPanic (p : LedgerProg α) : AppProg E α := do
  match ← ctrler (Ctrler.ledger (tryXError p)) with
  | .ok value => return value
  | .error e => crash (.explicit e.error)

/-- Run the code of a controller and panic if it returns an error. -/
def orPanic (p : Ctrler E α) : AppProg E α := do
  match ← ctrler (tryXError p) with
  | .ok value => return value
  | .error e => crash (.explicit e.error)

/-- The field `nextBlockCtx`, which is nil outside of a block. -/
def nextBlockCtx : AppProg E BlockContext := do
  match (← app .getMem).nextBlockCtx with
  | some bctx => return bctx
  | none => crash .nilDereference

/-- Change the memory. -/
def modifyMem (f : Mem → Mem) : AppProg E Unit := do
  app (.setMem (f (← app .getMem)))

end

variable (X : External)

/-! ## Genesis -/

/-- The initial stake of a validator; its hash is that of no transaction. -/
def initStake (pubKey : HexBytes) (power : Int) : StakeCtrler.InitStake where
  pubKey := pubKey
  stake := Stake.newStakeWithPower (X.pubBytes2Addr pubKey) (X.pubBytes2Addr pubKey) power 1
    (zeroBytes 32)

/-- The accounts of the validators are created if the genesis document has none. -/
def validatorAccounts (validators : List (HexBytes × Int)) : LedgerProg Unit :=
  validators.forM fun val => do
    let _ ← AcctCtrler.findOrNewAccount (X.pubBytes2Addr val.1)

/-- `RigoApp.InitChain`. -/
def initChain (genesis : Genesis) : AppProg X.evm Unit := do
  if genesis.chainID = "" then crash (.explicit "there is no chain_id")
  else
    modifyMem fun m => { m with chainID := genesis.chainID }
    app (.putChainID genesis.chainID)
    modifyMem fun m => { m with govParams := genesis.params }
    ledgerOrPanic (GovCtrler.initLedger genesis.params)
    ledgerOrPanic (AcctCtrler.initLedger genesis.assetHolders)
    ledgerOrPanic (validatorAccounts X genesis.validators)
    ledgerOrPanic (StakeCtrler.initLedger (genesis.validators.map fun val => initStake X val.1 val.2))

/-! ## A block -/

/-- `NewBlockContext`. -/
def newBlockContext (info : BlockInfo) : BlockContext := ⟨info, 0, [], []⟩

/-- `RigoApp.BeginBlock`. -/
def beginBlock (info : BlockInfo) : AppProg X.evm Unit := do
  let m ← app .getMem
  match m.lastBlockCtx with
  | none => crash .nilDereference
  | some last =>
    if info.height ≠ i64 (last.blockInfo.height + 1) then
      crash (.explicit ("error block height: expected(" ++
        toString (i64 (last.blockInfo.height + 1)) ++ "), actural(" ++
        toString info.height ++ ")"))
    else
      modifyMem fun m => { m with nextBlockCtx := some (newBlockContext info) }
      ledgerOrPanic (GovCtrler.beginBlock m.govParams info)
      let allDelegatees ← orPanic (StakeCtrler.beginBlock m.govParams info)
      modifyMem fun m => { m with allDelegatees := allDelegatees }
      orPanic (EvmCtrler.beginBlock info)

/-- The context of a transaction that is delivered in a block. -/
def deliverSetting (m : Mem) (bctx : BlockContext) : TrxExecutor.Setting where
  height := bctx.blockInfo.height
  exec := true
  chainID := m.chainID
  params := m.govParams
  validators := m.lastValidators

/-- `deliverTxSync`.  If no context can be made, the field `Tx` of a nil context is
read for the event. -/
def deliverTx (txbz : HexBytes) : AppProg X.evm TxResponse := do
  let m ← app .getMem
  let bctx ← nextBlockCtx
  match ← ctrler (Ctrler.ledger
      (tryXError (TrxExecutor.newTrxContext X.trx (deliverSetting m bctx) txbz))) with
  | .error _ => crash .nilDereference
  | .ok ctx =>
    match ← ctrler (tryXError (TrxExecutor.executeSync X.trx X.json ctx)) with
    | .error e => return .failure (XError.errDeliverTx.wrap e) []
    | .ok result =>
      match result.failed with
      | some e => return .failure (XError.errDeliverTx.wrap e) result.retData
      | none =>
        let fee := gasToFee result.gasUsed m.govParams.gasPrice
        app (.setMem { m with
          nextBlockCtx := some { bctx with feeSum := bctx.feeSum + fee } })
        return .success ctx result

/-- `RigoApp.EndBlock`. -/
def endBlock : AppProg X.evm (List ValidatorUpdate) := do
  let m ← app .getMem
  let bctx ← nextBlockCtx
  let height := bctx.blockInfo.height
  let newGovParams ←
    ledgerOrPanic (GovCtrler.endBlock X.json X.sort m.govParams m.newGovParams height)
  ledgerOrPanic (AcctCtrler.endBlock bctx.blockInfo.proposer bctx.feeSum)
  let (valUpdates, lastValidators) ←
    ledgerOrPanic (StakeCtrler.endBlock m.govParams m.allDelegatees m.lastValidators height)
  app (.setMem { m with
    newGovParams := newGovParams
    lastValidators := lastValidators
    nextBlockCtx := some { bctx with valUpdates := valUpdates } })
  return valUpdates

/-! ## Commit -/

/-- The panic of a commit whose ledgers are at different versions. -/
def notSameVersions (versions : List Int) : Panic :=
  .explicit ("Not same versions: " ++ toString versions)

/-- `GovCtrler.Commit`. -/
def commitGov : AppProg X.evm (HexBytes × Int) := do
  let (h0, v0) ← app (.commitLedger .params)
  let (h1, v1) ← app (.commitLedger .proposals)
  let (h2, v2) ← app (.commitLedger .frozenProposals)
  if v0 ≠ v1 ∨ v1 ≠ v2 then crash (notSameVersions [v0, v1, v2])
  else
    modifyMem fun m =>
      { m with govParams := m.newGovParams.getD m.govParams, newGovParams := none }
    return (X.defaultHash [h0, h1, h2], v0)

/-- `rwdLedgUpInterval`. -/
def rwdLedgUpInterval : Int := 10

/-- The part of `StakeCtrler.Commit` that keeps the hash of the rewards: every tenth
version only. -/
def saveRewardHash {E : EvmLib} (version : Int) (hash : HexBytes) : AppProg E Unit :=
  if version.tmod rwdLedgUpInterval = 0 then do
    app (.putRewardHash hash)
    modifyMem fun m => { m with lastRwdHash := hash }
  else return ()

/-- `StakeCtrler.Commit`. -/
def commitStake : AppProg X.evm (HexBytes × Int) := do
  let (h0, v0) ← app (.commitLedger .delegatees)
  let (h1, v1) ← app (.commitLedger .frozenStakes)
  let (h2, v2) ← app (.commitLedger .rewards)
  if v0 ≠ v1 ∨ v1 ≠ v2 then crash (notSameVersions [v0, v1, v2])
  else
    saveRewardHash v0 h2
    return (X.defaultHash [h0, h1, (← app .getMem).lastRwdHash], v0)

/-- `EVMCtrler.Commit`. -/
def commitEvm : AppProg X.evm (HexBytes × Int) := do
  let m ← ctrler Ctrler.getEvm
  match m.stateDB with
  | none => crash .nilDereference
  | some _ =>
    let rootHash ← app .commitTrie
    let height := i64 (m.lastBlockHeight + 1)
    app (.putEvmMeta height rootHash)
    ctrler (Ctrler.setEvm { m with
      stateDB := some (X.evm.new rootHash)
      lastRootHash := rootHash
      lastBlockHeight := height })
    return (rootHash, height)

/-- `RigoApp.Commit`. -/
def commit : AppProg X.evm HexBytes := do
  let bctx ← nextBlockCtx
  let (appHash0, ver0) ← commitGov X
  let (appHash1, ver1) ← app (.commitLedger .accounts)
  let (appHash2, ver2) ← commitStake X
  let (appHash3, ver3) ← commitEvm X
  if ver0 ≠ ver1 ∨ ver1 ≠ ver2 ∨ ver2 ≠ ver3 then
    crash (notSameVersions [ver0, ver1, ver2, ver3])
  else
    let appHash := X.defaultHash [appHash0, appHash1, appHash2, appHash3]
    let bctx := { bctx with appHash := appHash }
    -- the validator updates are not part of the JSON of a block context
    app (.putLastBlockContext { bctx with valUpdates := [] })
    app (.putLastBlockHeight ver0)
    modifyMem fun m => { m with lastBlockCtx := some bctx, nextBlockCtx := none }
    return appHash

/-! ## Checking a transaction -/

/-- The context of a transaction that is checked: it is expected in the next block. -/
def checkSetting (m : Mem) (last : BlockContext) : TrxExecutor.Setting where
  height := i64 (last.blockInfo.height + 1)
  exec := false
  chainID := m.chainID
  params := m.govParams
  validators := m.lastValidators

/-- The body of `RigoApp.CheckTx` for a new transaction. -/
def checkNewTx (setting : TrxExecutor.Setting) (txbz : HexBytes) : Ctrler X.evm TxResponse := do
  match ← Ctrler.ledger (tryXError (TrxExecutor.newTrxContext X.trx setting txbz)) with
  | .error e => return .failure (XError.errCheckTx.wrap e) []
  | .ok ctx =>
    match ← tryXError (TrxExecutor.executeSync X.trx X.json ctx) with
    | .error e => return .failure (XError.errCheckTx.wrap e) []
    | .ok result =>
      match result.failed with
      | some e => return .failure (XError.errCheckTx.wrap e) result.retData
      | none => return .success ctx result

/-- `RigoApp.CheckTx` on the state of the program.  Nothing is done for a recheck. -/
def checkTx (recheck : Bool) (txbz : HexBytes) (s : App X.evm) :
    Except Fault TxResponse × App X.evm :=
  if recheck then (.ok ⟨0, "", [], 0, 0⟩, s)
  else
    match s.mem.lastBlockCtx with
    | none => (.error (.panic .nilDereference), s)
    | some last =>
      match run (trxHandler simulationImpl) (checkNewTx X (checkSetting s.mem last) txbz)
        s.toResources with
      | (outcome, resources) => (outcome, { s with toResources := resources })

/-! ## Starting -/

/-- The field `lastBlockCtx` after `Info`. -/
def lastBlockCtxOf (disk : Disk) : BlockContext :=
  disk.lastBlockContext.getD
    (newBlockContext ⟨disk.lastBlockHeight, 0, none, [], []⟩)

/-- `NewRigoApp` and `Info` on opened ledgers, given the parameters found in the
ledger of parameters. -/
def boot {L : LedgerId → Type} (ledgers : (l : LedgerId) → L l) (params : Except XError GovParams)
    (disk : Disk) : Except Fault (State L X.evm) :=
  let govParams := params.toOption.getD emptyGovParams
  -- `UpdateValidators` has no delegatees yet
  if govParams.maxValidatorCnt < 0 then .error (.panic .outOfRange)
  else .ok {
    ledgers
    limiter := StakeLimiter.reset [] govParams.maxValidatorCnt govParams.maxIndividualStakeRatio
      govParams.maxUpdatableStakeRatio
    evm := {
      stateDB := none
      blockGasPool := 0
      coinbase := []
      blockNumber := 0
      time := 0
      lastRootHash := disk.evmRoot disk.evmHeight
      lastBlockHeight := disk.evmHeight }
    mem := {
      lastBlockCtx := some (lastBlockCtxOf disk)
      nextBlockCtx := none
      chainID := disk.chainID
      govParams
      newGovParams := none
      allDelegatees := []
      lastValidators := []
      lastRwdHash := disk.rewardHash }
    disk }

/-- A new process on the databases of a node: every ledger loads its latest version,
and the parameters are read from theirs. -/
def restart (s : App X.evm) : Except Fault (App X.evm) :=
  let ledgers : (l : LedgerId) → FinalityLedger l.Item := fun l =>
    FinalityLedger.new (s.ledgers l).tree
  let read := (ledgers .params).get GovParams.paramsKey
  boot X (L := fun l => FinalityLedger l.Item) (Function.update ledgers .params read.2) read.1
    s.disk

/-- The first process of a node, on empty databases. -/
def firstStart : Except Fault (App X.evm) :=
  boot X (L := fun l => FinalityLedger l.Item) (fun _ => FinalityLedger.new Tree.empty)
    (.error .errNotFoundResult) Disk.empty

/-- The state of a new chain: the first process after `InitChain`. -/
def start (genesis : Genesis) : Except Fault (App X.evm) :=
  match firstStart X with
  | .error fault => .error fault
  | .ok s =>
    match run (nodeHandler X finalityImpl) (initChain X genesis) s with
    | (.error fault, _) => .error fault
    | (.ok (), s') => .ok s'

/-! ## Calls -/

/-- The calls of the consensus engine. -/
inductive ConsensusCall where
  | beginBlock (info : BlockInfo)
  | deliverTx (txbz : HexBytes)
  | endBlock
  | commit
  deriving DecidableEq

/-- Their responses. -/
inductive Response where
  | beginBlock
  | deliverTx (response : TxResponse)
  | endBlock (valUpdates : List ValidatorUpdate)
  | commit (appHash : HexBytes)
  deriving DecidableEq

/-- The code behind a call. -/
def consensus : ConsensusCall → AppProg X.evm Response
  | .beginBlock info => do
      beginBlock X info
      return .beginBlock
  | .deliverTx txbz => return .deliverTx (← deliverTx X txbz)
  | .endBlock => return .endBlock (← endBlock X)
  | .commit => return .commit (← commit X)

/-- The responses to a sequence of calls, up to and with the first fault, and the
state in which the sequence ends. -/
def runCalls {L : LedgerId → Type} (impl : LedgerImpl L) :
    List ConsensusCall → State L X.evm → List (Except Fault Response) × State L X.evm
  | [], s => ([], s)
  | call :: rest, s =>
    match run (nodeHandler X impl) (consensus X call) s with
    | (.error fault, s') => ([.error fault], s')
    | (.ok response, s') =>
      match runCalls impl rest s' with
      | (responses, s'') => (.ok response :: responses, s'')

/-! ## Calls that succeed -/

/-- The context of a transaction that is delivered. -/
abbrev ctxOf (s : Node X.evm) (bctx : BlockContext) (txbz : HexBytes) (tx : Trx) : TrxContext :=
  TrxExecutor.contextOf X.trx (deliverSetting s.mem bctx) txbz tx

abbrev InitsChain (genesis : Genesis) (s t : Node X.evm) : Prop :=
  run (nodeHandler X storeImpl) (initChain X genesis) s = (.ok (), t)

abbrev BeginsBlock (info : BlockInfo) (s t : Node X.evm) : Prop :=
  run (nodeHandler X storeImpl) (beginBlock X info) s = (.ok (), t)

abbrev DeliversTx (txbz : HexBytes) (s : Node X.evm) (answer : TxResponse) (t : Node X.evm) : Prop :=
  run (nodeHandler X storeImpl) (deliverTx X txbz) s = (.ok answer, t)

abbrev EndsBlock (s : Node X.evm) (valUpdates : List ValidatorUpdate) (t : Node X.evm) : Prop :=
  run (nodeHandler X storeImpl) (endBlock X) s = (.ok valUpdates, t)

abbrev Commits (s : Node X.evm) (appHash : HexBytes) (t : Node X.evm) : Prop :=
  run (nodeHandler X storeImpl) (commit X) s = (.ok appHash, t)

end RigoApp

end Rigo
