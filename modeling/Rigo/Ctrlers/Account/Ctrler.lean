import Rigo.Ctrlers.Types.Ledgers

/-!
# The account controller

`ctrlers/account/ctrler.go`.  The accounts in a `TrxContext` are pointers into the
account ledger that are changed in place and then set again; here they are read
from the ledger under their key, changed and set.
-/

namespace Rigo

open LedgerProg

namespace AcctCtrler

/-- `findAccount`. -/
def findAccount (addr : Address) : LedgerProg (Option Account) := do
  match ← get .accounts (toLedgerKey addr) with
  | .error _ => return none
  | .ok acct => return some acct

/-- `FindOrNewAccount`. -/
def findOrNewAccount (addr : Address) : LedgerProg Account := do
  match ← findAccount addr with
  | some acct => return acct
  | none =>
    let newAcct := Account.newAccount addr
    set .accounts newAcct
    return newAcct

/-- The account a context points to; it is there since the context was made. -/
def accountAt (addr : Address) : LedgerProg Account := do
  match ← findAccount addr with
  | some acct => return acct
  | none => crash .nilDereference

/-- `Reward`. -/
def reward (receiver : Address) (amt : Uint256) : LedgerProg Unit := do
  match ← findAccount receiver with
  | none =>
    throwX (XError.errNotFoundAccount.wrapf ("Reward - address: " ++ HexBytes.toHex receiver))
  | some acct =>
    let acct ← ofExcept (acct.addBalance amt)
    set .accounts acct

/-- The receiver of a transfer, which may be the sender it is taken from. -/
def receiverOf (sender receiver : Address) (acct0 : Account) : LedgerProg Account :=
  if toLedgerKey receiver = toLedgerKey sender then return acct0 else accountAt receiver

/-- The part of `ExecuteTrx` for `TRX_TRANSFER`. -/
def transfer (sender receiver : Address) (amt : Uint256) : LedgerProg Unit := do
  let acct0 ← accountAt sender
  let acct0' ← ofExcept (acct0.subBalance amt)
  let acct1 ← receiverOf sender receiver acct0'
  let acct1' ← ofExcept (acct1.addBalance amt)
  set .accounts acct0'
  set .accounts acct1'

/-- The part of `ExecuteTrx` for `TRX_SETDOC`; the receiver is set as well. -/
def setDoc (sender receiver : Address) (name url : GoString) : LedgerProg Unit := do
  let acct ← accountAt sender
  set .accounts { acct with name := name, docURL := url }
  let acct1 ← accountAt receiver
  set .accounts acct1

/-- `AcctCtrler.ValidateTrx`.  The type assertion on the payload is not checked. -/
def validateTrx (ctx : TrxContext) : LedgerProg Unit :=
  match ctx.tx.type with
  | .setDoc =>
    match ctx.tx.payload with
    | .setDoc payload => do
        ensure (decide (payload.name.length ≤ maxAcctName))
          (XError.errInvalidTrxPayloadParams.wrapf ("too long name. it should be less than " ++
            toString maxAcctName ++ "."))
        ensure (decide (payload.url.length ≤ maxAcctDocURL))
          (XError.errInvalidTrxPayloadParams.wrapf ("too long url. it should be less than " ++
            toString maxAcctDocURL ++ "."))
    | _ => crash .typeAssertion
  | _ => return ()

/-- `AcctCtrler.ExecuteTrx`. -/
def executeTrx (ctx : TrxContext) : LedgerProg Unit :=
  match ctx.tx.type with
  | .transfer => transfer ctx.tx.fromAddr ctx.tx.toAddr ctx.tx.amount
  | .setDoc =>
    match ctx.tx.payload with
    | .setDoc payload => setDoc ctx.tx.fromAddr ctx.tx.toAddr payload.name payload.url
    | _ => crash .typeAssertion
  | _ => do
      set .accounts (← accountAt ctx.tx.fromAddr)
      set .accounts (← accountAt ctx.tx.toAddr)

/-- `AcctCtrler.EndBlock`: the fees of the block go to the proposer. -/
def endBlock (proposer : Option Address) (sumFee : Uint256) : LedgerProg Unit :=
  match proposer with
  | none => return ()
  | some addr =>
    if sumFee.isPositive then do
      let acct := ((← findAccount addr).getD (Account.newAccount addr))
      let acct ← ofExcept (acct.addBalance sumFee)
      set .accounts acct
    else return ()

/-- `AcctCtrler.InitLedger`. -/
def initLedger (holders : List (Address × Uint256)) : LedgerProg Unit :=
  holders.forM fun holder =>
    set .accounts { Account.newAccount holder.1 with balance := holder.2 }

end AcctCtrler

/-! ## Accounts in stores -/

namespace Stores

/-- The account under an address. -/
def account (ls : Stores) (addr : Address) : Option Account :=
  (ls .accounts).lookup (toLedgerKey addr)

/-- The stores after an account was created where there was none. -/
def withAccount (ls : Stores) (addr : Address) : Stores :=
  match ls.account addr with
  | some _ => ls
  | none => ls.put .accounts (Account.newAccount addr)

theorem withAccount_of_ne {l : LedgerId} (other : l ≠ .accounts) (ls : Stores) (addr : Address) :
    ls.withAccount addr l = ls l := by
  unfold Stores.withAccount
  cases ls.account addr with
  | some acct => rfl
  | none => exact Stores.put_of_ne _ _ other

/-- Creating an account keeps those that exist. -/
theorem account_withAccount {ls : Stores} {addr : Address} {acct : Account}
    (present : ls.account addr = some acct) (other : Address) :
    (ls.withAccount other).account addr = some acct := by
  unfold Stores.withAccount
  cases created : ls.account other with
  | some _ => exact present
  | none =>
    have differs : toLedgerKey other ≠ toLedgerKey addr := by
      intro same
      rw [Stores.account, same] at created
      cases created.symm.trans present
    simp only [Stores.account, Stores.put_self, Store.lookup_set]
    rw [if_neg fun here => differs here.1]
    exact present

/-- An account that was set is found, if there was one before. -/
theorem account_put {ls : Stores} {addr : Address} {acct acct' : Account}
    (present : ls.account addr = some acct) (same : acct'.address = acct.address) :
    (ls.put .accounts acct').account addr = some acct' := by
  have key : LedgerItem.key acct' = toLedgerKey addr :=
    (congrArg toLedgerKey same).trans (Store.key_of_lookup present)
  rw [Stores.account, Stores.put_self, Store.lookup_set, if_pos ⟨key, Store.not_mem_removed present⟩]

end Stores

namespace AcctCtrler

@[simp] theorem exec_findAccount (addr : Address) (ls : Stores) :
    exec (findAccount addr) ls = (.ok (ls.account addr), ls) := by
  simp only [findAccount, Foundation.Prog.bind_eq, Foundation.run_bind, exec_get,
    Foundation.andThen_ok, Stores.account, Store.get]
  cases (ls .accounts).lookup (toLedgerKey addr) <;> rfl

@[simp] theorem exec_findOrNewAccount (addr : Address) (ls : Stores) :
    exec (findOrNewAccount addr) ls =
      (.ok ((ls.account addr).getD (Account.newAccount addr)), ls.withAccount addr) := by
  simp only [findOrNewAccount, Foundation.Prog.bind_eq, Foundation.run_bind, exec_findAccount,
    Foundation.andThen_ok, Stores.withAccount]
  cases ls.account addr <;> rfl

@[simp] theorem exec_accountAt (addr : Address) (ls : Stores) :
    exec (accountAt addr) ls =
      ((ls.account addr).elim (.error (.panic .nilDereference)) .ok, ls) := by
  simp only [accountAt, Foundation.Prog.bind_eq, Foundation.run_bind, exec_findAccount,
    Foundation.andThen_ok]
  cases ls.account addr <;> rfl

/-- `Reward` adds to the balance of an account that exists. -/
theorem exec_reward (receiver : Address) (amt : Uint256) (ls : Stores) :
    exec (reward receiver amt) ls =
      match ls.account receiver with
      | none => (.error (.xerr (XError.errNotFoundAccount.wrapf
          ("Reward - address: " ++ HexBytes.toHex receiver))), ls)
      | some acct =>
        match acct.addBalance amt with
        | .error e => (.error (.xerr e), ls)
        | .ok acct' => (.ok (), ls.put .accounts acct') := by
  simp only [reward, Foundation.Prog.bind_eq, Foundation.run_bind, exec_findAccount,
    Foundation.andThen_ok]
  cases ls.account receiver with
  | none => rfl
  | some acct =>
    simp only
    cases acct.addBalance amt with
    | error e => rfl
    | ok acct' => rfl

end AcctCtrler

end Rigo
