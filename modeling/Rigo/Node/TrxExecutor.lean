import Rigo.Ctrlers.Evm.Ctrler
import Rigo.Ctrlers.Gov.Ctrler
import Rigo.Ctrlers.Stake.Ctrler

/-!
# Executing a transaction

`ctrlers/types/trx_ctx.go` and `node/trx_executor.go`: the context of a transaction
is made, which creates the account of the receiver, then the transaction is
validated and run by the controller for its type, and last the fee is taken and the
nonce of the sender counted up.
-/

namespace Rigo

open LedgerProg
open Ctrler (ledger)

namespace TrxExecutor

variable {E : EvmLib}

/-- What the caller puts into a new context. -/
structure Setting where
  height : Int
  exec : Bool
  chainID : String
  params : GovParams
  validators : Validators

/-- The context of a transaction. -/
def contextOf (lib : TrxLib) (setting : Setting) (txbz : HexBytes) (tx : Trx) : TrxContext where
  height := setting.height
  txHash := lib.txHash txbz
  tx := tx
  exec := setting.exec
  chainID := setting.chainID
  params := setting.params
  validators := setting.validators

/-- The error for a transaction of an unknown sender. -/
def unknownSender (tx : Trx) : XError :=
  XError.errNotFoundAccount.wrapf ("address: " ++ HexBytes.toHex tx.fromAddr)

/-- The part of `NewTrxContext` that decodes the transaction and finds its accounts. -/
def loadTrx (lib : TrxLib) (txbz : HexBytes) : LedgerProg Trx := do
  let tx ← ofExcept (Trx.decode lib txbz)
  match ← AcctCtrler.findAccount tx.fromAddr with
  | none => throwX (unknownSender tx)
  | some _ =>
    let _ ← AcctCtrler.findOrNewAccount tx.toAddr
    return tx

/-- `NewTrxContext`. -/
def newTrxContext (lib : TrxLib) (setting : Setting) (txbz : HexBytes) : LedgerProg TrxContext := do
  return contextOf lib setting txbz (← loadTrx lib txbz)

/-- A context is made if the bytes decode and the sender exists; then the receiver
exists too. -/
theorem exec_newTrxContext (lib : TrxLib) (setting : Setting) (txbz : HexBytes) (ls : Stores) :
    exec (newTrxContext lib setting txbz) ls =
      match Trx.decode lib txbz with
      | .error e => (.error (.xerr e), ls)
      | .ok tx =>
        match ls.account tx.fromAddr with
        | none => (.error (.xerr (unknownSender tx)), ls)
        | some _ => (.ok (contextOf lib setting txbz tx), ls.withAccount tx.toAddr) := by
  unfold newTrxContext loadTrx
  cases Trx.decode lib txbz with
  | error e => rfl
  | ok tx =>
    simp only [ofExcept, Foundation.Prog.bind_eq, Foundation.Prog.pure_bind,
      Foundation.run_bind, AcctCtrler.exec_findAccount, Foundation.andThen_ok]
    cases ls.account tx.fromAddr with
    | none => rfl
    | some sender =>
      simp only [Foundation.run_bind, AcctCtrler.exec_findOrNewAccount, Foundation.andThen_ok]
      rfl

/-- `commonValidation0`, with the public key of the sender, which is only recovered
by `DeliverTx`. -/
def commonValidation0 (lib : TrxLib) (ctx : TrxContext) : LedgerProg HexBytes := do
  let tx := ctx.tx
  ensure (tx.fromAddr.length == addrSize) .errInvalidAddress
  ensure (tx.toAddr.length == addrSize) .errInvalidAddress
  ensure (!tx.amount.isNegative) .errInvalidAmount
  ensure (decide (tx.gas < 2 ^ 63)) .errInvalidGas
  ensure (decide (tx.gasPrice.isNegative = false ∧ tx.gasPrice = ctx.params.gasPrice))
    .errInvalidGasPrice
  ensure (decide (¬ gasToFee tx.gas tx.gasPrice < ctx.params.minTrxFee))
    (XError.errInvalidGas.wrapf "too small gas(fee)")
  if ctx.exec then
    let (_, pubKey) ← ofExcept (Trx.verifyTrxRLP lib tx ctx.chainID)
    return pubKey
  else return []

/-- `commonValidation1`. -/
def commonValidation1 (ctx : TrxContext) : LedgerProg Unit := do
  let tx := ctx.tx
  let sender ← AcctCtrler.accountAt tx.fromAddr
  ofExcept (sender.checkBalance (gasToFee tx.gas tx.gasPrice + tx.amount))
  match sender.checkNonce tx.nonce with
  | .ok () => return ()
  | .error e => throwX (e.wrapf ("invalid nonce - ledger: " ++ toString sender.nonce ++ ", tx:" ++
      toString tx.nonce ++ ", address: " ++ HexBytes.toHex sender.address ++ ", txhash: " ++
      HexBytes.toHex ctx.txHash))

/-- `validateTrx`, with the public key of the sender. -/
def validateTrx (lib : TrxLib) (json : ParamsJSON) (ctx : TrxContext) : Ctrler E HexBytes := do
  let pubKey ← ledger (commonValidation0 lib ctx)
  ledger (commonValidation1 ctx)
  match ctx.tx.type with
  | .proposal | .voting => ledger (GovCtrler.validateTrx json ctx)
  | .transfer | .setDoc => ledger (AcctCtrler.validateTrx ctx)
  | .staking | .unstaking | .withdraw => StakeCtrler.validateTrx ctx
  | .contract => ledger (EvmCtrler.validateTrx E ctx)
  return pubKey

/-- The last part of `postRunTrx`: the fee, the nonce and the used gas. -/
def payFee (ctx : TrxContext) : LedgerProg TrxResult := do
  let sender ← AcctCtrler.accountAt ctx.tx.fromAddr
  let sender ← ofExcept (sender.subBalance (gasToFee ctx.tx.gas ctx.tx.gasPrice))
  set .accounts sender.addNonce
  return ⟨ctx.tx.gas, [], none⟩

/-- `postRunTrx`: the EVM has already taken the fee of what it executed. -/
def postRunTrx (ctx : TrxContext) (result : TrxResult) : LedgerProg TrxResult := do
  let receiver ← AcctCtrler.accountAt ctx.tx.toAddr
  if ctx.tx.type = .contract ∨ (ctx.tx.type = .transfer ∧ receiver.code ≠ []) then return result
  else payFee ctx

/-- A call of the EVM from `runTrx`; one special error is passed over. -/
def runEvmTrx (ctx : TrxContext) : Ctrler E TrxResult := do
  let result ← EvmCtrler.executeTrx ctx
  match result.failed with
  | none => ledger (postRunTrx ctx result)
  | some e =>
    if e = .errUnknownTrxType then ledger (postRunTrx ctx { result with failed := none })
    else return result

/-- The part of `runTrx` for the transactions that do not go to the EVM. -/
def runNative (ctx : TrxContext) (execute : LedgerProg Unit) : LedgerProg TrxResult := do
  execute
  postRunTrx ctx ⟨0, [], none⟩

/-- `runTrx`. -/
def runTrx (ctx : TrxContext) (pubKey : HexBytes) : Ctrler E TrxResult :=
  match ctx.tx.type with
  | .contract => runEvmTrx ctx
  | .proposal | .voting => ledger (runNative ctx (GovCtrler.executeTrx ctx))
  | .transfer => do
      let receiver ← ledger (AcctCtrler.accountAt ctx.tx.toAddr)
      if receiver.code ≠ [] then runEvmTrx ctx
      else ledger (runNative ctx (AcctCtrler.executeTrx ctx))
  | .setDoc => ledger (runNative ctx (AcctCtrler.executeTrx ctx))
  | .staking | .unstaking | .withdraw =>
    ledger (runNative ctx (StakeCtrler.executeTrx ctx pubKey))

/-- `ExecuteSync`. -/
def executeSync (lib : TrxLib) (json : ParamsJSON) (ctx : TrxContext) : Ctrler E TrxResult := do
  let pubKey ← validateTrx lib json ctx
  runTrx ctx pubKey

/-! ## What is read of the validators -/

/-- The execution of a transaction does not look at the validators, if it is no
proposal, and there are too few of them for the limiter to be asked. -/
def IgnoresValidators (type : TrxType) (validators : Validators) : Prop :=
  type ≠ .proposal ∧ (type = .staking ∨ type = .unstaking → validators.length < 3)

theorem executeSync_validators (lib : TrxLib) (json : ParamsJSON) (ctx : TrxContext)
    (validators : Validators) (ignored : IgnoresValidators ctx.tx.type ctx.validators)
    (ignored' : IgnoresValidators ctx.tx.type validators) :
    (executeSync lib json { ctx with validators := validators } : Ctrler E TrxResult) =
      executeSync lib json ctx := by
  obtain ⟨notProposal, few⟩ := ignored
  obtain ⟨-, few'⟩ := ignored'
  have limit (delegatee : Delegatee) (change : Int)
      (asked : ctx.tx.type = .staking ∨ ctx.tx.type = .unstaking) :
      (StakeCtrler.checkLimit validators delegatee change : Ctrler E Unit) =
        StakeCtrler.checkLimit ctx.validators delegatee change := by
    rw [StakeCtrler.checkLimit, StakeCtrler.checkLimit, if_neg (Nat.not_le.mpr (few asked)),
      if_neg (Nat.not_le.mpr (few' asked))]
  unfold executeSync validateTrx runTrx
  cases type : ctx.tx.type with
  | proposal => exact absurd type notProposal
  | staking =>
    simp only [type, StakeCtrler.validateTrx, limit _ _ (.inl type)]
    rfl
  | unstaking =>
    simp only [type, StakeCtrler.validateTrx, limit _ _ (.inr type)]
    rfl
  | transfer | withdraw | voting | setDoc | contract =>
    simp only [type, StakeCtrler.validateTrx, GovCtrler.validateTrx, StakeCtrler.executeTrx,
      GovCtrler.executeTrx]
    rfl

end TrxExecutor

end Rigo
