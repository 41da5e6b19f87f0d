import Rigo.Ctrlers.Account.Ctrler

/-!
# The EVM controller

`ctrlers/vm/evm/ctrler.go` and `statedb.go`.  Before geth touches an account, the
`StateDBWrapper` copies its nonce and balance from the account ledger, creating the
account there if it is missing; `finish` copies them back.  The addresses copied in
are kept with the number of the snapshot they were copied after, so that going back
to a snapshot forgets the later ones.

An execution that fails is undone inside geth by `RevertToSnapshot`; what was done
to the account ledger and to the gas pool of the block stays.
-/

namespace Rigo

open LedgerProg
open Ctrler (ledger getEvm setEvm)

namespace EvmCtrler

variable {E : EvmLib}

/-- `gasLimit`. -/
def gasLimit : Nat := 25000000

/-- `accessedObjAddrs`: the addresses copied in, with snapshot numbers. -/
abbrev Accessed := List (Address × Nat)

/-- `addAccessedObjAddr`: the nonce and the balance of an address that is new. -/
def addAccessedObjAddr (accessed : Accessed) (snapshot : Nat) (addr : Address) :
    LedgerProg (Option (Nat × Uint256) × Accessed) :=
  if accessed.any (fun entry => entry.1 == addr) then return (none, accessed)
  else do
    let acct ← AcctCtrler.findOrNewAccount addr
    return (some (acct.nonce, acct.balance), accessed ++ [(addr, snapshot + 1)])

/-- `revertAccessedObjAddr`. -/
def revertAccessedObjAddr (accessed : Accessed) (snapshot : Nat) : Accessed :=
  accessed.filter fun entry => ¬ snapshot < entry.2

/-- What is left of an execution by geth. -/
structure Applied (S : Type) where
  result : Except String ExecutionResult
  state : S
  gasPool : Nat
  accessed : Accessed

/-- `ethcore.ApplyMessage` on the wrapper. -/
def runEvm : EvmRun E.State → Accessed → Nat → LedgerProg (Applied E.State)
  | .access addr next, accessed, snapshot => do
      let (loaded, accessed) ← addAccessedObjAddr accessed snapshot addr
      runEvm (next loaded) accessed snapshot
  | .snapshot id next, accessed, _ => runEvm next accessed id
  | .revert id next, accessed, snapshot => runEvm next (revertAccessedObjAddr accessed id) snapshot
  | .done result state gasPool, accessed, _ => return ⟨result, state, gasPool, accessed⟩

/-- Load an address into a state of geth. -/
def load (accessed : Accessed) (snapshot : Nat) (state : E.State) (addr : Address) :
    LedgerProg (E.State × Accessed) := do
  match ← addAccessedObjAddr accessed snapshot addr with
  | (some (nonce, balance), accessed) => return (E.setAccount state addr nonce balance, accessed)
  | (none, accessed) => return (state, accessed)

/-- `StateDBWrapper.Prepare`. -/
def prepare (state : E.State) (snap : Nat) (sender receiver : Address) :
    LedgerProg (E.State × Accessed) := do
  let (state, accessed) ← load [] snap state (array20 sender)
  if isZeroAddress receiver then return (state, accessed)
  else load accessed snap state (array20 receiver)

/-- `StateDBWrapper.Finish`. -/
def finish (state : E.State) (accessed : Accessed) : LedgerProg Unit :=
  accessed.forM fun entry => do
    let acct ← AcctCtrler.findOrNewAccount entry.1
    set .accounts { acct with
      nonce := (E.account state entry.1).1
      balance := (E.account state entry.1).2 }

/-- The input of a contract transaction, or of a transfer to a contract. -/
def inputData (tx : Trx) : HexBytes :=
  match tx.payload with
  | .contract data => data
  | _ => []

/-- `evmMessage` with the block context of the controller. -/
def evmMessage (ctx : TrxContext) (m : EvmMem E) : EvmMessage where
  fromAddr := array20 ctx.tx.fromAddr
  toAddr := if isZeroAddress ctx.tx.toAddr then none else some (array20 ctx.tx.toAddr)
  nonce := ctx.tx.nonce
  gas := ctx.tx.gas
  gasPrice := ctx.params.gasPrice
  amount := ctx.tx.amount
  data := inputData ctx.tx
  coinbase := m.coinbase
  blockNumber := m.blockNumber
  time := m.time

/-- `EVMCtrler.ValidateTrx`. -/
def validateTrx (E : EvmLib) (ctx : TrxContext) : LedgerProg Unit := do
  let receiver ← AcctCtrler.accountAt ctx.tx.toAddr
  ensure (decide (ctx.tx.type = .contract ∨ receiver.code ≠ [])) .errUnknownTrxType
  match E.intrinsicGas (inputData ctx.tx) (isZeroAddress ctx.tx.toAddr) with
  | .error err => throwX (.fromErr err)
  | .ok gas => ensure (decide (gas ≤ ctx.tx.gas)) .errInvalidGas

/-- The rest of `ExecuteTrx` after an execution that was not successful. -/
def undo (m : EvmMem E) (state : E.State) (snap : Nat) (applied : Applied E.State) :
    Ctrler E Unit := do
  ledger (finish state (revertAccessedObjAddr applied.accessed snap))
  setEvm { m with stateDB := some state, blockGasPool := applied.gasPool }

/-- The rest of `ExecuteTrx` after a successful creation: the hash of the transaction
is recorded as the code of the new account. -/
def recordCreation (E : EvmLib) (ctx : TrxContext) : LedgerProg HexBytes := do
  let createdAddr := E.createAddress (array20 ctx.tx.fromAddr) ctx.tx.nonce
  match ← AcctCtrler.findAccount createdAddr with
  | none => crash .nilDereference
  | some contAcct =>
    set .accounts { contAcct with code := ctx.txHash }
    return createdAddr

theorem exec_recordCreation (E : EvmLib) (ctx : TrxContext) (ls : Stores) :
    exec (recordCreation E ctx) ls =
      match ls.account (E.createAddress (array20 ctx.tx.fromAddr) ctx.tx.nonce) with
      | none => (.error (.panic .nilDereference), ls)
      | some acct =>
        (.ok (E.createAddress (array20 ctx.tx.fromAddr) ctx.tx.nonce),
          ls.put .accounts { acct with code := ctx.txHash }) := by
  unfold recordCreation
  rw [exec_bind, AcctCtrler.exec_findAccount, Foundation.andThen_ok]
  cases ls.account (E.createAddress (array20 ctx.tx.fromAddr) ctx.tx.nonce) <;> rfl

/-- The part of `ExecuteTrx` from the snapshot on. -/
def execute (ctx : TrxContext) (m : EvmMem E) (state : E.State) : Ctrler E TrxResult := do
  let snap := E.snapshot state
  let (prepared, accessed) ← ledger (prepare state snap ctx.tx.fromAddr ctx.tx.toAddr)
  let applied ← ledger
    (runEvm (E.applyMessage prepared (evmMessage ctx m) m.blockGasPool) accessed snap)
  match applied.result with
  | .error err =>
    undo m state snap applied
    return ⟨0, [], some (.fromErr err)⟩
  | .ok result =>
    match result.err with
    | some err =>
      undo m state snap applied
      return ⟨0, result.returnData, some (.fromErr err)⟩
    | none =>
      ledger (finish applied.state applied.accessed)
      setEvm { m with
        stateDB := some (E.finalise applied.state)
        blockGasPool := applied.gasPool }
      if isZeroAddress ctx.tx.toAddr then
        return ⟨result.usedGas, ← ledger (recordCreation E ctx), none⟩
      else return ⟨result.usedGas, result.returnData, none⟩

/-- `EVMCtrler.ExecuteTrx`: contracts are executed by `DeliverTx` only (issue #71). -/
def executeTrx (ctx : TrxContext) : Ctrler E TrxResult :=
  if ctx.exec = false then return ⟨0, [], none⟩
  else do
    let receiver ← ledger (AcctCtrler.accountAt ctx.tx.toAddr)
    if ctx.tx.type ≠ .contract ∧ receiver.code = [] then
      return ⟨0, [], some .errUnknownTrxType⟩
    else
      let m ← getEvm
      match m.stateDB with
      | none => crash .nilDereference
      | some state => execute ctx m state

/-- `EVMCtrler.BeginBlock`. -/
def beginBlock (info : BlockInfo) : Ctrler E Unit := do
  let m ← getEvm
  if i64 (m.lastBlockHeight + 1) ≠ info.height then
    throwX (XError.errBeginBlock.wrapf ("wrong block height - expected: " ++
      toString (i64 (m.lastBlockHeight + 1)) ++ ", actual: " ++ toString info.height))
  else
    setEvm { m with
      stateDB := some (E.new m.lastRootHash)
      blockGasPool := gasLimit
      coinbase := array20 (info.proposer.getD [])
      blockNumber := info.height
      time := info.time }

end EvmCtrler

end Rigo
