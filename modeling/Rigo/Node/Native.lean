import Rigo.Node.Accounts
import Rigo.Node.Addresses
import Rigo.Node.Delegatees
import Rigo.Node.Rewards

/-!
# Transactions outside of the EVM

What a transaction that does not go to the EVM has done when its `ExecuteTrx` has succeeded, as
the items that were set (`AcctCtrler.transfer_ok`, `StakeCtrler.exeStaking_ok` and so on).

**The fee.**  `postRunTrx` takes the fee after the transaction was executed.  The check before it is
made on a 256-bit sum of fee and amount, and every type of transaction debits or credits the sender
in its own way, a transfer also through the account of its receiver.  Where the price of gas is below
`2 ^ 192` and the balances and rewards are below `2 ^ 255`, the sender can always pay
(`TrxExecutor.postRunTrx_charged`, in a run `RigoApp.Run.fee_charged`).

**Outcomes.**  `RigoApp.Delivered` says what `DeliverTx` can do with such a transaction.
-/

namespace Rigo

open Foundation
open Account Stores
open AcctCtrler StakeCtrler TrxExecutor

variable {acct : Account} {E : EvmLib} {pubKey : HexBytes} {json : ParamsJSON} {ls ls' : Stores}
  {ctx : TrxContext}

/-! ## Accounts -/

namespace Stores

variable {ls : Stores} {addr addr' : Address} {acct acct' : Account}

theorem account_put_of_ne (other : toLedgerKey acct'.address ≠ toLedgerKey addr) :
    (ls.put .accounts acct').account addr = ls.account addr := by
  rw [account, put_self, Store.lookup_set, if_neg fun here => other here.1, account]

/-- The addresses under which an account is found have its key. -/
theorem key_of_account (present : ls.account addr = some acct) :
    toLedgerKey acct.address = toLedgerKey addr := Store.key_of_lookup present

theorem account_congr (same : ls' .accounts = ls .accounts) (addr : Address) :
    ls'.account addr = ls.account addr := by
  rw [account, same, account]

end Stores

namespace AcctCtrler

variable {ls ls' : Stores}

theorem run_accountAt_ok {α : Type} {addr : Address} {f : Account → LedgerProg α} {value : α}
    (ran : exec (accountAt addr >>= f) ls = (.ok value, ls')) :
    ∃ acct, ls.account addr = some acct ∧ exec (f acct) ls = (.ok value, ls') := by
  rw [exec_bind, exec_accountAt] at ran
  cases found : ls.account addr with
  | none =>
    rw [found] at ran
    cases ran
  | some acct =>
    rw [found] at ran
    exact ⟨acct, rfl, ran⟩

/-- A transfer sets the sender, and then the receiver, which for a transfer to oneself is the
account from which the amount has been taken. -/
theorem transfer_ok {sender receiver : Address} {amt : Uint256}
    (ran : exec (transfer sender receiver amt) ls = (.ok (), ls')) :
    ∃ acct0 acct0' acct1 acct1', ls.account sender = some acct0 ∧
      acct0.subBalance amt = .ok acct0' ∧
      (if toLedgerKey receiver = toLedgerKey sender then acct1 = acct0'
        else ls.account receiver = some acct1) ∧
      acct1.addBalance amt = .ok acct1' ∧
      ls' = (ls.put .accounts acct0').put .accounts acct1' := by
  obtain ⟨acct0, found, ran⟩ := run_accountAt_ok ran
  obtain ⟨acct0', taken, ran⟩ := run_ofExcept_ok ran
  unfold receiverOf at ran
  split at ran
  · next self =>
    obtain ⟨acct1', added, ran⟩ := run_ofExcept_ok ran
    cases ran
    exact ⟨acct0, acct0', acct0', acct1', found, taken, by rw [if_pos self], added, rfl⟩
  · next other =>
    obtain ⟨acct1, found', ran⟩ := run_accountAt_ok ran
    obtain ⟨acct1', added, ran⟩ := run_ofExcept_ok ran
    cases ran
    exact ⟨acct0, acct0', acct1, acct1', found, taken, by rw [if_neg other]; exact found', added,
      rfl⟩

theorem setDoc_ok {sender receiver : Address} {name url : GoString}
    (ran : exec (setDoc sender receiver name url) ls = (.ok (), ls')) :
    ∃ acct acct1, ls.account sender = some acct ∧
      (ls.put .accounts { acct with name := name, docURL := url }).account receiver = some acct1 ∧
      ls' = (ls.put .accounts { acct with name := name, docURL := url }).put .accounts acct1 := by
  obtain ⟨acct, found, ran⟩ := run_accountAt_ok ran
  have ran : exec (accountAt receiver >>= fun acct1 => LedgerProg.set .accounts acct1)
      (ls.put .accounts { acct with name := name, docURL := url }) = (.ok (), ls') := ran
  obtain ⟨acct1, found', ran⟩ := run_accountAt_ok ran
  cases ran
  exact ⟨acct, acct1, found, found', rfl⟩

end AcctCtrler

namespace StakeCtrler

variable {ls ls' : Stores}

theorem stakeOn_ok {d : Delegatee}
    (ran : exec (exeStaking.stakeOn ctx d) ls = (.ok (), ls')) :
    ∃ sender sender', ls.account ctx.tx.fromAddr = some sender ∧
      sender.subBalance ctx.tx.amount = .ok sender' ∧ 0 ≤ powerOf ctx.tx.amount ∧
      ls' = (ls.put .accounts sender').put .delegatees (d.addStake (stakeOf ctx)) := by
  obtain ⟨sender, found, ran⟩ := run_accountAt_ok ran
  obtain ⟨sender', taken, ran⟩ := run_ofExcept_ok ran
  obtain ⟨_, ls₁, written, ran⟩ := run_bind_ok ran
  cases written
  obtain ⟨power, ls₂, measured, ran⟩ := run_bind_ok ran
  have measured : exec (amountToPower ctx.tx.amount) (ls.put .accounts sender') =
      (.ok power, ls₂) := measured
  have positive : 0 ≤ powerOf ctx.tx.amount := by
    rw [exec_amountToPower] at measured
    split at measured
    · cases measured
    · next power => exact not_lt.mp power
  obtain ⟨rfl, rfl⟩ := amountToPower_ok measured
  cases ran
  exact ⟨sender, sender', found, taken, positive, rfl⟩

/-- Staking takes the amount from the sender and adds a stake to a delegatee. -/
theorem exeStaking_ok (ran : exec (exeStaking ctx pubKey) ls = (.ok (), ls')) :
    ∃ d sender sender', StakesOn ctx pubKey ls d ∧ ls.account ctx.tx.fromAddr = some sender ∧
      sender.subBalance ctx.tx.amount = .ok sender' ∧ 0 ≤ powerOf ctx.tx.amount ∧
      ls' = (ls.put .accounts sender').put .delegatees (d.addStake (stakeOf ctx)) := by
  unfold exeStaking at ran
  rw [exec_bind, exec_findDelegatee, andThen_ok] at ran
  cases found : (ls .delegatees).lookup (toLedgerKey ctx.tx.toAddr) with
  | some d =>
    rw [found] at ran
    obtain ⟨sender, sender', staked⟩ := stakeOn_ok ran
    exact ⟨d, sender, sender', .existing found, staked⟩
  | none =>
    rw [found] at ran
    simp only at ran
    split at ran
    · next self =>
      obtain ⟨sender, sender', staked⟩ := stakeOn_ok ran
      exact ⟨_, sender, sender', .new found self, staked⟩
    · cases ran

/-- A withdrawal takes the amount from the record of the sender and adds it to the balance. -/
theorem exeWithdraw_ok (ran : exec (exeWithdraw ctx) ls = (.ok (), ls')) :
    ∃ req rwd acct acct', ctx.tx.payload = .withdraw req ∧
      (ls .rewards).lookup (toLedgerKey ctx.tx.fromAddr) = some rwd ∧
      ls.account ctx.tx.fromAddr = some acct ∧ acct.addBalance req = .ok acct' ∧
      ls' = (ls.put .rewards (rwd.withdrawnFrom req ctx.height)).put .accounts acct' := by
  have kept (rwd : Reward) : (ls.put .rewards rwd).account ctx.tx.fromAddr =
      ls.account ctx.tx.fromAddr :=
    account_congr (put_of_ne _ _ (by decide)) _
  unfold exeWithdraw at ran
  split at ran
  · next req payload =>
    obtain ⟨rwd, record, ran⟩ := run_ofExcept_ok (LedgerProg.run_get_ok ran)
    rw [Reward.withdraw_eq] at ran
    split at ran
    · simp only [Prog.bind_eq, Prog.pure_bind, run_bind, LedgerProg.exec_set,
        andThen_ok, run_tryXError, exec_reward, kept] at ran
      cases found : ls.account ctx.tx.fromAddr with
      | none =>
        rw [found] at ran
        cases ran
      | some acct =>
        rw [found] at ran
        simp only at ran
        cases added : acct.addBalance req with
        | error e =>
          rw [added] at ran
          cases ran
        | ok acct' =>
          rw [added] at ran
          cases ran
          exact ⟨req, rwd, acct, acct', payload, found_eq_ok.mp record, rfl, added, rfl⟩
    · cases ran
  · cases ran

end StakeCtrler

/-! ## The fee -/

theorem gasToFee_toNat {gas : Nat} {price : Uint256} (gas63 : gas < 2 ^ 63)
    (price192 : price.toNat < 2 ^ 192) :
    (gasToFee gas price).toNat = gas * price.toNat ∧ gas * price.toNat < 2 ^ 255 := by
  have product : gas * price.toNat < 2 ^ 255 :=
    calc gas * price.toNat < 2 ^ 63 * 2 ^ 192 := Nat.mul_lt_mul'' gas63 price192
      _ = 2 ^ 255 := by norm_num
  refine ⟨?_, product⟩
  have word : (Uint256.newInt gas).toNat = gas := by
    simp only [Uint256.newInt, BitVec.toNat_ofNat]
    omega
  rw [gasToFee, BitVec.toNat_mul, word]
  omega

namespace Stores

/-- The sum of all balances. -/
def supply (ls : Stores) : Nat :=
  KeyedMap.total (fun acct : Account => acct.balance.toNat) (ls .accounts).view

/-- The sum of all rewards that have not been withdrawn. -/
def unwithdrawn (ls : Stores) : Nat :=
  KeyedMap.total (fun rwd : Reward => rwd.cumulated.toNat) (ls .rewards).view

theorem balance_le_supply {addr : Address}
    (found : ls.account addr = some acct) : acct.balance.toNat ≤ ls.supply :=
  KeyedMap.le_total (f := fun acct : Account => acct.balance.toNat) (k := toLedgerKey addr)
    (by rw [Store.find?_view]; exact found)

theorem cumulated_le_unwithdrawn {k : LedgerKey} {rwd : Reward}
    (found : (ls .rewards).lookup k = some rwd) : rwd.cumulated.toNat ≤ ls.unwithdrawn :=
  KeyedMap.le_total (f := fun rwd : Reward => rwd.cumulated.toNat) (k := k)
    (by rw [Store.find?_view]; exact found)

end Stores

namespace TrxExecutor

/-- The `ExecuteTrx` that `runTrx` calls for a transaction that does not go to the EVM. -/
def executeNative (ctx : TrxContext) (pubKey : HexBytes) : LedgerProg Unit :=
  match ctx.tx.type with
  | .proposal | .voting => GovCtrler.executeTrx ctx
  | .transfer | .setDoc => AcctCtrler.executeTrx ctx
  | .staking | .unstaking | .withdraw => StakeCtrler.executeTrx ctx pubKey
  | .contract => throwX .errUnknownTrxType

/-- The transaction does not go to the EVM. -/
structure Native (ctx : TrxContext) (ls : Stores) : Prop where
  type : ctx.tx.type ≠ .contract
  receiver : ctx.tx.type = .transfer → ∀ acct ∈ ls.account ctx.tx.toAddr, acct.code = []

variable {ctx : TrxContext} {receiver : Account}

theorem run_runTrx_native {r : Workspace E}
    (native : Native ctx r.ledgers)
    (present : account r.ledgers ctx.tx.toAddr = some receiver) (pubKey : HexBytes) :
    run (trxHandler storeImpl) (runTrx ctx pubKey) r =
      run (trxHandler storeImpl) (Ctrler.ledger (runNative ctx (executeNative ctx pubKey))) r := by
  unfold runTrx executeNative
  cases type : ctx.tx.type with
  | contract => exact absurd type native.type
  | transfer =>
    have read : exec (accountAt ctx.tx.toAddr) r.ledgers = (.ok receiver, r.ledgers) := by
      rw [exec_accountAt, present]
      rfl
    simp only [Prog.bind_eq, run_bind, run_ledger_of_exec read, andThen_ok]
    rw [if_neg (not_not.mpr (native.receiver type receiver present))]
  | proposal | voting | setDoc | staking | unstaking | withdraw => rfl

variable {pubKey : HexBytes} {lib : TrxLib}

/-- The parts of an execution that succeeds. -/
theorem run_executeSync_native {r r' : Workspace E} (native : Native ctx r.ledgers)
    (present : account r.ledgers ctx.tx.toAddr = some receiver)
    (valid : run (trxHandler storeImpl) (validateTrx lib json ctx) r = (.ok pubKey, r'))
    {result : TrxResult}
    (executed : exec (executeNative ctx pubKey) r'.ledgers = (.ok (), ls))
    (paid : exec (postRunTrx ctx ⟨0, [], none⟩) ls = (.ok result, ls')) :
    run (trxHandler storeImpl) (executeSync lib json ctx) r =
      (.ok result, { r' with ledgers := ls' }) := by
  have ledgers : r'.ledgers = r.ledgers := by
    have kept := ledgers_validateTrx lib json ctx r
    rwa [valid] at kept
  rw [← ledgers] at native present
  have sequence : exec (runNative ctx (executeNative ctx pubKey)) r'.ledgers = (.ok result, ls') := by
    unfold runNative
    rw [exec_bind, executed, andThen_ok, paid]
  unfold executeSync
  rw [Prog.bind_eq, run_bind, valid, andThen_ok,
    run_runTrx_native native present, run_ledger_of_exec sequence]

/-- After `postRunTrx` the fee is paid, or was already taken by the EVM. -/
theorem postRunTrx_ok {result result' : TrxResult}
    (ran : exec (postRunTrx ctx result) ls = (.ok result', ls')) :
    (¬ Native ctx ls ∧ result' = result ∧ ls' = ls) ∨
      ∃ acct acct', ls.account ctx.tx.fromAddr = some acct ∧
        acct.subBalance (gasToFee ctx.tx.gas ctx.tx.gasPrice) = .ok acct' ∧
        result' = ⟨ctx.tx.gas, [], none⟩ ∧ ls' = ls.put .accounts acct'.addNonce := by
  obtain ⟨receiver, there, ran⟩ := run_accountAt_ok ran
  split at ran
  · next evm =>
    cases ran
    refine .inl ⟨fun native => ?_, rfl, rfl⟩
    rcases evm with contract | ⟨transfer, code⟩
    · exact native.type contract
    · exact code (native.receiver transfer receiver there)
  · obtain ⟨acct, found, ran⟩ := run_accountAt_ok ran
    obtain ⟨acct', paid, ran⟩ := run_ofExcept_ok ran
    cases ran
    exact .inr ⟨acct, acct', found, paid, rfl, rfl⟩

/-- The accounts of a transaction are there, and its sender can pay the fee. -/
structure Ready (ctx : TrxContext) (fee : Nat) (ls : Stores) : Prop where
  sender : ∃ acct, ls.account ctx.tx.fromAddr = some acct ∧ acct.nonce = ctx.tx.nonce ∧
    fee ≤ acct.balance.toNat
  receiver : ∃ acct, ls.account ctx.tx.toAddr = some acct ∧
    (ctx.tx.type = .transfer → acct.code = [])

namespace Ready

variable {ctx : TrxContext} {fee fee' : Nat} {ls ls' : Stores}

theorem congr (ready : Ready ctx fee ls) (same : ls' .accounts = ls .accounts)
    (less : fee' ≤ fee) : Ready ctx fee' ls' := by
  obtain ⟨⟨acct, found, nonce, covered⟩, receiver⟩ := ready
  refine ⟨⟨acct, ?_, nonce, less.trans covered⟩, ?_⟩
  · rw [account_congr same, found]
  · simpa only [account_congr same] using receiver

theorem covered (ready : Ready ctx fee ls)
    (found : ls.account ctx.tx.fromAddr = some acct) : fee ≤ acct.balance.toNat := by
  obtain ⟨sender, here, -, covered⟩ := ready.sender
  obtain rfl : sender = acct := Option.some.inj (here.symm.trans found)
  exact covered

/-- The account of the sender is set again, with another balance, name or document. -/
theorem put_sender (ready : Ready ctx fee ls) {acct' : Account}
    (found : ls.account ctx.tx.fromAddr = some acct) (address : acct'.address = acct.address)
    (nonce : acct'.nonce = acct.nonce) (code : acct'.code = acct.code)
    (covered : fee' ≤ acct'.balance.toNat) : Ready ctx fee' (ls.put .accounts acct') := by
  obtain ⟨⟨sender, found', counted, -⟩, receiver, there, plain⟩ := ready
  obtain rfl : sender = acct := Option.some.inj (found'.symm.trans found)
  refine ⟨⟨acct', account_put found address, nonce.trans counted, covered⟩, ?_⟩
  by_cases self : toLedgerKey acct'.address = toLedgerKey ctx.tx.toAddr
  · -- the receiver is the sender
    have here : ls.account ctx.tx.toAddr = some sender := by
      rw [account, ← self, address, key_of_account found]
      exact found
    obtain rfl : receiver = sender := Option.some.inj (there.symm.trans here)
    refine ⟨acct', account_put here address, fun transfer => ?_⟩
    rw [code, plain transfer]
  · exact ⟨receiver, by rw [account_put_of_ne self, there], plain⟩

/-- The account of the receiver is set again, which is not the sender. -/
theorem put_receiver (ready : Ready ctx fee ls) {acct' : Account}
    (found : ls.account ctx.tx.toAddr = some acct) (address : acct'.address = acct.address)
    (code : acct'.code = acct.code)
    (other : toLedgerKey ctx.tx.toAddr ≠ toLedgerKey ctx.tx.fromAddr) :
    Ready ctx fee (ls.put .accounts acct') := by
  obtain ⟨⟨sender, found', counted, covered⟩, receiver, there, plain⟩ := ready
  obtain rfl : receiver = acct := Option.some.inj (there.symm.trans found)
  have key : toLedgerKey acct'.address ≠ toLedgerKey ctx.tx.fromAddr := by
    rw [address, key_of_account found]
    exact other
  refine ⟨⟨sender, by rw [account_put_of_ne key, found'], counted, covered⟩, acct',
    account_put found address, fun transfer => ?_⟩
  rw [code, plain transfer]

/-- A transfer leaves the fee with the sender, also if it is the receiver. -/
theorem transfer (ready : Ready ctx (fee + ctx.tx.amount.toNat) ls)
    (ran : exec (AcctCtrler.transfer ctx.tx.fromAddr ctx.tx.toAddr ctx.tx.amount) ls =
      (.ok (), ls')) : Ready ctx fee ls' := by
  obtain ⟨acct0, acct0', acct1, acct1', found, taken, receiver, added, rfl⟩ :=
    transfer_ok ran
  obtain ⟨changed, enough, left⟩ := subBalance_ok taken
  have covered := ready.covered found
  have address : acct0'.address = acct0.address := by rw [changed]
  have nonce : acct0'.nonce = acct0.nonce := by rw [changed]
  have code : acct0'.code = acct0.code := by rw [changed]
  have first : Ready ctx fee (ls.put .accounts acct0') :=
    ready.put_sender found address nonce code (by omega)
  split at receiver
  · next self =>
    subst receiver
    have small : acct1.balance.toNat + ctx.tx.amount.toNat < 2 ^ 256 := by
      have bound := acct0.balance.isLt
      omega
    obtain ⟨changed', sum⟩ := addBalance_ok added small
    have here : (ls.put .accounts acct1).account ctx.tx.fromAddr = some acct1 :=
      account_put found address
    refine first.put_sender here ?_ ?_ ?_ (by omega) <;> rw [changed']
  · next other =>
    have here : (ls.put .accounts acct0').account ctx.tx.toAddr = some acct1 := by
      rw [account_put_of_ne, receiver]
      rw [address, key_of_account found]
      exact fun same => other same.symm
    have same : acct1'.address = acct1.address ∧ acct1'.code = acct1.code := by
      unfold addBalance at added
      split at added
      · cases added
      · cases added
        exact ⟨rfl, rfl⟩
    exact first.put_receiver here same.1 same.2 other

theorem setDoc (ready : Ready ctx fee ls) {name url : GoString}
    (ran : exec (AcctCtrler.setDoc ctx.tx.fromAddr ctx.tx.toAddr name url) ls = (.ok (), ls')) :
    Ready ctx fee ls' := by
  obtain ⟨acct, acct1, found, found', rfl⟩ := setDoc_ok ran
  have covered := ready.covered found
  have first : Ready ctx fee (ls.put .accounts { acct with name := name, docURL := url }) :=
    ready.put_sender found rfl rfl rfl covered
  by_cases self : toLedgerKey ctx.tx.toAddr = toLedgerKey ctx.tx.fromAddr
  · -- the second write repeats the first
    have here : (ls.put .accounts { acct with name := name, docURL := url }).account
        ctx.tx.fromAddr = some acct1 := by
      rw [account, ← self]
      exact found'
    have same : acct1.balance = acct.balance := by
      have written : (ls.put .accounts { acct with name := name, docURL := url }).account
          ctx.tx.fromAddr = some { acct with name := name, docURL := url } :=
        account_put found rfl
      cases here.symm.trans written
      rfl
    exact first.put_sender here rfl rfl rfl (by rw [same]; exact covered)
  · exact first.put_receiver found' rfl rfl self

theorem staking (ready : Ready ctx (fee + ctx.tx.amount.toNat) ls)
    (ran : exec (exeStaking ctx pubKey) ls = (.ok (), ls')) : Ready ctx fee ls' := by
  obtain ⟨d, sender, sender', -, found, taken, -, rfl⟩ := exeStaking_ok ran
  obtain ⟨changed, -, left⟩ := subBalance_ok taken
  have covered := ready.covered found
  have first : Ready ctx fee (ls.put .accounts sender') := by
    refine ready.put_sender found ?_ ?_ ?_ (by omega) <;> rw [changed]
  exact first.congr (put_of_ne _ _ (by decide)) le_rfl

theorem withdraw (ready : Ready ctx fee ls)
    (small : ∀ req acct, ctx.tx.payload = .withdraw req →
      ls.account ctx.tx.fromAddr = some acct → acct.balance.toNat + req.toNat < 2 ^ 256)
    (ran : exec (exeWithdraw ctx) ls = (.ok (), ls')) : Ready ctx fee ls' := by
  obtain ⟨req, rwd, acct, acct', payload, record, found, added, rfl⟩ :=
    exeWithdraw_ok ran
  obtain ⟨changed, sum⟩ := addBalance_ok added (small req acct payload found)
  have covered := ready.covered found
  have kept : (ls.put .rewards (rwd.withdrawnFrom req ctx.height)) .accounts = ls .accounts :=
    put_of_ne _ _ (by decide)
  have found' : (ls.put .rewards (rwd.withdrawnFrom req ctx.height)).account ctx.tx.fromAddr =
      some acct := by rw [account_congr kept, found]
  refine (ready.congr kept le_rfl).put_sender found' ?_ ?_ ?_ (by omega) <;> rw [changed]

/-- Every `ExecuteTrx` leaves the fee with the sender. -/
theorem executeNative (ready : Ready ctx (fee + ctx.tx.amount.toNat) ls)
    (small : ∀ req acct, ctx.tx.type = .withdraw → ctx.tx.payload = .withdraw req →
      ls.account ctx.tx.fromAddr = some acct → acct.balance.toNat + req.toNat < 2 ^ 256)
    (ran : exec (executeNative ctx pubKey) ls = (.ok (), ls')) :
    Ready ctx fee ls' := by
  have kept : Ready ctx fee ls := ready.congr rfl (by omega)
  unfold TrxExecutor.executeNative at ran
  cases type : ctx.tx.type with
  | contract =>
    simp only [type] at ran
    cases ran
  | proposal | voting =>
    simp only [type] at ran
    have same := (GovCtrler.writes_executeTrx (S := (· = .proposals)) rfl ctx).frame
      (l := .accounts) (by decide) ran
    exact kept.congr same le_rfl
  | transfer =>
    simp only [type, AcctCtrler.executeTrx] at ran
    exact ready.transfer ran
  | setDoc =>
    simp only [type, AcctCtrler.executeTrx] at ran
    split at ran
    · exact kept.setDoc ran
    · cases ran
  | staking =>
    simp only [type, StakeCtrler.executeTrx] at ran
    exact ready.staking ran
  | unstaking =>
    simp only [type, StakeCtrler.executeTrx] at ran
    have same := (writes_exeUnstaking (S := (· ≠ .accounts)) (by decide) (by decide)
      fun _ => trivial).frame (l := .accounts) (by decide) ran
    exact kept.congr same le_rfl
  | withdraw =>
    simp only [type, StakeCtrler.executeTrx] at ran
    exact kept.withdraw (fun req acct payload found => small req acct type payload found) ran

end Ready

/-- The fee of a transaction that is ready is charged, and its nonce counted. -/
theorem exec_postRunTrx_ready (type : ctx.tx.type ≠ .contract)
    (fee : (gasToFee ctx.tx.gas ctx.tx.gasPrice).toNat < 2 ^ 255)
    (ready : Ready ctx (gasToFee ctx.tx.gas ctx.tx.gasPrice).toNat ls)
    (found : ls.account ctx.tx.fromAddr = some acct) (result : TrxResult) :
    exec (postRunTrx ctx result) ls = (.ok ⟨ctx.tx.gas, [], none⟩,
      ls.put .accounts { acct with
        balance := acct.balance - gasToFee ctx.tx.gas ctx.tx.gasPrice
        nonce := (acct.nonce + 1) % 2 ^ 64 }) := by
  obtain ⟨receiver, there, plain⟩ := ready.receiver
  have covered := ready.covered found
  have positive : (gasToFee ctx.tx.gas ctx.tx.gasPrice).isNegative = false :=
    (Uint256.isNegative_eq_false_iff _).mpr fee
  have enough : ¬ acct.balance < gasToFee ctx.tx.gas ctx.tx.gasPrice := by
    rw [BitVec.lt_def]
    omega
  have paid : acct.subBalance (gasToFee ctx.tx.gas ctx.tx.gasPrice) =
      .ok { acct with balance := acct.balance - gasToFee ctx.tx.gas ctx.tx.gasPrice } := by
    simp only [subBalance, positive, Bool.false_eq_true, if_false, if_neg enough]
  have toNative : ¬ (ctx.tx.type = .contract ∨ ctx.tx.type = .transfer ∧ receiver.code ≠ []) := by
    rintro (contract | ⟨transfer, code⟩)
    · exact type contract
    · exact code (plain transfer)
  unfold postRunTrx
  rw [exec_bind, exec_accountAt, there, Option.elim_some, andThen_ok,
    if_neg toNative, exec_payFee found paid]
  rfl

/-- A transaction that is valid is ready, with its amount besides the fee. -/
theorem ready_of_valid (valid : CommonlyValid lib ctx pubKey)
    (fee : (gasToFee ctx.tx.gas ctx.tx.gasPrice).toNat < 2 ^ 255)
    (checked : exec (commonValidation1 ctx) ls = (.ok (), ls))
    (present : ls.account ctx.tx.toAddr = some receiver)
    (plain : ctx.tx.type = .transfer → receiver.code = []) :
    Ready ctx ((gasToFee ctx.tx.gas ctx.tx.gasPrice).toNat + ctx.tx.amount.toNat) ls := by
  obtain ⟨-, sender, found, enough, nonce⟩ := commonValidation1_ok checked
  have amount : ctx.tx.amount.toNat < 2 ^ 255 :=
    (Uint256.isNegative_eq_false_iff _).mp valid.amount
  -- the sum does not wrap around
  have sum : (gasToFee ctx.tx.gas ctx.tx.gasPrice + ctx.tx.amount).toNat =
      (gasToFee ctx.tx.gas ctx.tx.gasPrice).toNat + ctx.tx.amount.toNat := by
    rw [BitVec.toNat_add]
    omega
  have covered : (gasToFee ctx.tx.gas ctx.tx.gasPrice + ctx.tx.amount).toNat ≤
      sender.balance.toNat := by
    unfold checkBalance at enough
    split at enough
    · cases enough
    · next covers => simpa [BitVec.lt_def] using covers
  exact ⟨⟨sender, found, nonce, sum ▸ covered⟩, receiver, present, plain⟩

/-- What a valid withdrawal adds to a balance is covered by a record. -/
theorem withdraw_credit {r r' : Workspace E}
    (small : ctx.tx.type = .withdraw → ∀ rwd acct,
      (r.ledgers .rewards).lookup (toLedgerKey ctx.tx.fromAddr) = some rwd →
      account r.ledgers ctx.tx.fromAddr = some acct →
        acct.balance.toNat + rwd.cumulated.toNat < 2 ^ 255)
    (valid : run (trxHandler storeImpl) (validateTrx lib json ctx) r = (.ok pubKey, r'))
    (req : Uint256) (acct : Account) (type : ctx.tx.type = .withdraw)
    (payload : ctx.tx.payload = .withdraw req)
    (found : account r.ledgers ctx.tx.fromAddr = some acct) :
    acct.balance.toNat + req.toNat < 2 ^ 256 := by
  obtain ⟨-, -, typed⟩ := validateTrx_ok valid
  simp only [validateByType, type, StakeCtrler.validateTrx] at typed
  obtain ⟨_, validated, -⟩ := run_ledger_ok typed
  obtain ⟨req', rwd, payload', record, enough⟩ := validateWithdraw_ok validated
  cases payload.symm.trans payload'
  have bound := small type rwd acct record found
  omega

/-- A transaction that does not go to the EVM, is valid and has been executed can pay its fee. -/
theorem postRunTrx_charged {r r' : Workspace E}
    (present : account r.ledgers ctx.tx.toAddr = some receiver)
    (native : Native ctx r.ledgers) (fee : (gasToFee ctx.tx.gas ctx.tx.gasPrice).toNat < 2 ^ 255)
    (credit : ∀ req acct, ctx.tx.type = .withdraw → ctx.tx.payload = .withdraw req →
      account r.ledgers ctx.tx.fromAddr = some acct →
        acct.balance.toNat + req.toNat < 2 ^ 256)
    (valid : run (trxHandler storeImpl) (validateTrx lib json ctx) r = (.ok pubKey, r'))
    (executed : exec (executeNative ctx pubKey) r'.ledgers = (.ok (), ls')) :
    ∃ acct, ls'.account ctx.tx.fromAddr = some acct ∧ acct.nonce = ctx.tx.nonce ∧
      (gasToFee ctx.tx.gas ctx.tx.gasPrice).toNat ≤ acct.balance.toNat ∧
      exec (postRunTrx ctx ⟨0, [], none⟩) ls' = (.ok ⟨ctx.tx.gas, [], none⟩,
        ls'.put .accounts { acct with
          balance := acct.balance - gasToFee ctx.tx.gas ctx.tx.gasPrice
          nonce := (acct.nonce + 1) % 2 ^ 64 }) := by
  obtain ⟨common, checked, -⟩ := validateTrx_ok valid
  have ledgers : r'.ledgers = r.ledgers := by
    have kept := ledgers_validateTrx lib json ctx r
    rwa [valid] at kept
  have before := ready_of_valid common fee checked present
    fun transfer => native.receiver transfer receiver present
  rw [ledgers] at executed
  have ready := before.executeNative credit executed
  obtain ⟨acct, found, nonce, covered⟩ := ready.sender
  exact ⟨acct, found, nonce, covered,
    exec_postRunTrx_ready native.type fee ready found ⟨0, [], none⟩⟩

end TrxExecutor

/-! ## What DeliverTx does -/

namespace RigoApp

variable {X : External} {s t : Node X.evm}

/-- What a transaction is executed on: the account of its receiver has been created. -/
def withReceiver {E : EvmLib} (s : Node E) (tx : Trx) : Workspace E :=
  { s.toResources with ledgers := Stores.withAccount s.ledgers tx.toAddr }

/-- What `DeliverTx` answers to a transaction that does not go to the EVM, and what it leaves: the
transaction is not valid, it is not executed, it is executed and cannot pay, or it pays. -/
inductive Delivered (X : External) (s : Node X.evm) (bctx : BlockContext) (ctx : TrxContext) :
    TxResponse → Node X.evm → Prop
  | invalid {e : XError} {r : Workspace X.evm}
      (checked : run (trxHandler storeImpl) (validateTrx X.trx X.json ctx)
        (withReceiver s ctx.tx) = (.error (.xerr e), r)) :
      Delivered X s bctx ctx (.failure (XError.errDeliverTx.wrap e) []) { s with toResources := r }
  | unexecuted {pubKey : HexBytes} {e : XError} {r : Workspace X.evm} {ls : Stores}
      (checked : run (trxHandler storeImpl) (validateTrx X.trx X.json ctx)
        (withReceiver s ctx.tx) = (.ok pubKey, r))
      (executed : exec (executeNative ctx pubKey) r.ledgers = (.error (.xerr e), ls)) :
      Delivered X s bctx ctx (.failure (XError.errDeliverTx.wrap e) [])
        { s with toResources := { r with ledgers := ls } }
  | unpaid {pubKey : HexBytes} {e : XError} {r : Workspace X.evm} {ls ls' : Stores}
      (checked : run (trxHandler storeImpl) (validateTrx X.trx X.json ctx)
        (withReceiver s ctx.tx) = (.ok pubKey, r))
      (executed : exec (executeNative ctx pubKey) r.ledgers = (.ok (), ls))
      (paid : exec (postRunTrx ctx ⟨0, [], none⟩) ls = (.error (.xerr e), ls')) :
      Delivered X s bctx ctx (.failure (XError.errDeliverTx.wrap e) [])
        { s with toResources := { r with ledgers := ls' } }
  | paid {pubKey : HexBytes} {result : TrxResult} {r : Workspace X.evm} {ls ls' : Stores}
      (checked : run (trxHandler storeImpl) (validateTrx X.trx X.json ctx)
        (withReceiver s ctx.tx) = (.ok pubKey, r))
      (executed : exec (executeNative ctx pubKey) r.ledgers = (.ok (), ls))
      (paid : exec (postRunTrx ctx ⟨0, [], none⟩) ls = (.ok result, ls')) :
      Delivered X s bctx ctx (.success ctx result)
        { s with
          toResources := { r with ledgers := ls' }
          mem := { s.mem with nextBlockCtx := some { bctx with
            feeSum := bctx.feeSum + gasToFee result.gasUsed s.mem.govParams.gasPrice } } }

/-- `DeliverTx` of a transaction that does not go to the EVM. -/
theorem deliverTx_native {txbz : HexBytes} {answer : TxResponse} {tx : Trx} {bctx : BlockContext}
    (removed : (s.ledgers .accounts).removed = [])
    (ran : run (nodeHandler X storeImpl) (deliverTx X txbz) s = (.ok answer, t))
    (decoded : Trx.decode X.trx txbz = .ok tx) (inBlock : s.mem.nextBlockCtx = some bctx)
    (native : Native
      (contextOf X.trx (deliverSetting s.mem bctx) txbz tx)
      (withAccount s.ledgers tx.toAddr)) :
    Delivered X s bctx (contextOf X.trx (deliverSetting s.mem bctx) txbz tx) answer t := by
  obtain ⟨bctx', tx', sender, inBlock', decoded', present, answered⟩ := deliverTx_ok ran
  obtain rfl : bctx = bctx' := Option.some.inj (inBlock.symm.trans inBlock')
  obtain rfl : tx = tx' := Except.ok.inj (decoded.symm.trans decoded')
  obtain ⟨receiver, there⟩ := account_withAccount_self removed tx.toAddr
  have receives : (contextOf X.trx (deliverSetting s.mem bctx) txbz tx).tx = tx := rfl
  generalize contextOf X.trx (deliverSetting s.mem bctx) txbz tx = ctx
    at answered native receives ⊢
  subst receives
  have answered : respond s bctx ctx (run (trxHandler storeImpl)
      (executeSync X.trx X.json ctx) (withReceiver s ctx.tx)) = (.ok answer, t) := answered
  have native : Native ctx (withReceiver s ctx.tx).ledgers := native
  have there : account (withReceiver s ctx.tx).ledgers ctx.tx.toAddr = some receiver := there
  have kept := ledgers_validateTrx X.trx X.json ctx (withReceiver s ctx.tx)
  unfold executeSync at answered
  rw [Prog.bind_eq, run_bind] at answered
  generalize checked : run (trxHandler storeImpl) (validateTrx X.trx X.json ctx)
    (withReceiver s ctx.tx) = validated at answered kept
  obtain ⟨fault | pubKey, r⟩ := validated
  · cases fault with
    | panic p => cases answered
    | xerr e =>
      cases answered
      exact .invalid checked
  · simp only at kept
    rw [← kept] at native there
    rw [andThen_ok, run_runTrx_native native there] at answered
    generalize executed : exec (executeNative ctx pubKey) r.ledgers = outcome
    have sequence : exec (runNative ctx (executeNative ctx pubKey))
        r.ledgers = andThen (fun _ => exec (postRunTrx ctx ⟨0, [], none⟩))
          outcome := by
      unfold runNative
      rw [exec_bind, executed]
    obtain ⟨fault | _, ls⟩ := outcome
    · rw [run_ledger_of_exec sequence] at answered
      cases fault with
      | panic p => cases answered
      | xerr e =>
        cases answered
        exact .unexecuted checked executed
    · rw [andThen_ok] at sequence
      generalize paid : exec (postRunTrx ctx ⟨0, [], none⟩) ls = outcome at sequence
      obtain ⟨fault | result, ls'⟩ := outcome
      · rw [run_ledger_of_exec sequence] at answered
        cases fault with
        | panic p => cases answered
        | xerr e =>
          cases answered
          exact .unpaid checked executed paid
      · rw [run_ledger_of_exec sequence] at answered
        have succeeded : result.failed = none := by
          obtain ⟨-, rfl, -⟩ | ⟨acct, acct', -, -, rfl, -⟩ := postRunTrx_ok paid <;> rfl
        simp only [respond, succeeded] at answered
        cases answered
        exact .paid checked executed paid

end RigoApp

namespace RigoApp

/-- In every run, while the transactions of a block are delivered: if a transaction that does not go
to the EVM is valid and its `ExecuteTrx` succeeds, its sender can still pay the fee, and the
transaction succeeds, with the fee charged and the nonce counted. -/
theorem Run.fee_charged {X : External} {mayRestart : Bool} {genesis : Genesis}
    {steps : List (Step X.evm)} {s : App X.evm} (ran : Run X mayRestart genesis .delivering steps s)
    {bctx : BlockContext} (inBlock : (App.node s).mem.nextBlockCtx = some bctx) {txbz : HexBytes}
    {ctx : TrxContext} {ls ls' : Stores} {r : Workspace X.evm} {pubKey : HexBytes}
    (made : exec (newTrxContext X.trx (deliverSetting (App.node s).mem bctx) txbz)
      (App.node s).ledgers = (.ok ctx, ls))
    (native : TrxExecutor.Native ctx ls) (price : ctx.tx.gasPrice.toNat < 2 ^ 192)
    (supply : Stores.supply (App.node s).ledgers + Stores.unwithdrawn (App.node s).ledgers < 2 ^ 255)
    (valid : run (trxHandler storeImpl) (validateTrx X.trx X.json ctx)
      { (App.node s).toResources with ledgers := ls } = (.ok pubKey, r))
    (executed : exec (executeNative ctx pubKey) r.ledgers = (.ok (), ls')) :
    ∃ acct acct' t, ls'.account ctx.tx.fromAddr = some acct ∧
      ctx.tx.gas * ctx.tx.gasPrice.toNat ≤ acct.balance.toNat ∧
      acct'.balance.toNat = acct.balance.toNat - ctx.tx.gas * ctx.tx.gasPrice.toNat ∧
      acct'.nonce = (ctx.tx.nonce + 1) % 2 ^ 64 ∧
      run (nodeHandler X storeImpl) (deliverTx X txbz) (App.node s) =
        (.ok (.success ctx ⟨ctx.tx.gas, [], none⟩), t) ∧
      t.ledgers = ls'.put .accounts acct' ∧
      Stores.account t.ledgers ctx.tx.fromAddr = some acct' := by
  rw [exec_newTrxContext] at made
  cases decoded : Trx.decode X.trx txbz with
  | error e => simp [decoded] at made
  | ok tx =>
    cases known : Stores.account (App.node s).ledgers tx.fromAddr with
    | none => simp [decoded, known] at made
    | some sender =>
      simp only [decoded, known, Prod.mk.injEq, Except.ok.injEq] at made
      obtain ⟨rfl, rfl⟩ := made
      obtain ⟨receiver, present⟩ :=
        Stores.account_withAccount_self ran.accounts_removed tx.toAddr
      -- the context has changed neither the sender nor the rewards
      have small (_ : tx.type = .withdraw) (rwd : Reward) (acct : Account)
          (record : (Stores.withAccount (App.node s).ledgers tx.toAddr .rewards).lookup
            (toLedgerKey tx.fromAddr) = some rwd)
          (found : (Stores.withAccount (App.node s).ledgers tx.toAddr).account tx.fromAddr =
            some acct) : acct.balance.toNat + rwd.cumulated.toNat < 2 ^ 255 := by
        rw [Stores.withAccount_of_ne (by decide)] at record
        rw [Stores.account_withAccount known] at found
        cases found
        have balance := Stores.balance_le_supply known
        have reward := Stores.cumulated_le_unwithdrawn record
        omega
      have common := (validateTrx_ok valid).1
      obtain ⟨fee, product⟩ := gasToFee_toNat common.gas price
      obtain ⟨acct, found, nonce, covered, charged⟩ :=
        postRunTrx_charged present native (fee ▸ product)
          (withdraw_credit small valid) valid executed
      have delivered := run_deliverTx X txbz (App.node s)
      simp only [inBlock, decoded, known] at delivered
      rw [run_executeSync_native native present valid executed charged] at delivered
      refine ⟨acct, _, _, found, fee ▸ covered, ?_, ?_, delivered, rfl,
        Stores.account_put found rfl⟩
      · rw [← fee]
        exact BitVec.toNat_sub_of_le covered
      · rw [nonce]

/-! ### A transfer to oneself -/

/-- A transfer of the sender to itself. -/
def toOneself : External :=
  Concrete.external ⟨[Concrete.trx .transfer 1 1 0 5 []], [], [], []⟩

def toOneselfStart : App toOneself.evm :=
  (start toOneself (Concrete.genesis [(1, 10000000)])).toOption.get (by decide +kernel)

/-- The first block has begun. -/
def toOneselfOpen : App toOneself.evm :=
  (runCalls toOneself finalityImpl [.beginBlock (Concrete.block 1)] toOneselfStart).2

def toOneselfBlock : BlockContext :=
  (App.node toOneselfOpen).mem.nextBlockCtx.get (by decide +kernel)

def toOneselfTrx : Trx := (Trx.decode toOneself.trx [0]).toOption.get (by decide +kernel)

def toOneselfContext : TrxContext :=
  contextOf toOneself.trx (deliverSetting (App.node toOneselfOpen).mem toOneselfBlock)
    [0] toOneselfTrx

def toOneselfStores : Stores :=
  Stores.withAccount (App.node toOneselfOpen).ledgers toOneselfTrx.toAddr

theorem made_toOneself : exec (newTrxContext toOneself.trx
    (deliverSetting (App.node toOneselfOpen).mem toOneselfBlock) [0])
    (App.node toOneselfOpen).ledgers = (.ok toOneselfContext, toOneselfStores) := by
  have decoded : Trx.decode toOneself.trx [0] = .ok toOneselfTrx := eq_ok_of_isSome _
  have known : (account (App.node toOneselfOpen).ledgers toOneselfTrx.fromAddr).isSome := by
    decide +kernel
  obtain ⟨sender, known⟩ := Option.isSome_iff_exists.mp known
  rw [exec_newTrxContext, decoded]
  simp only [known]
  rfl

/-- The fee of the transfer is charged, and the nonce counted. -/
theorem Run.fee_charged_toOneself :
    ∃ acct' t, acct'.nonce = 1 ∧ acct'.balance.toNat = 10 ^ 18 - 4000 * 250000000000 ∧
      run (nodeHandler toOneself storeImpl) (deliverTx toOneself [0]) (App.node toOneselfOpen) =
        (.ok (.success toOneselfContext ⟨4000, [], none⟩), t) ∧
      Stores.account t.ledgers (Concrete.addr 1) = some acct' := by
  have ran : Run toOneself false (Concrete.genesis [(1, 10000000)]) .delivering
      ([] ++ stepsOf toOneself [.beginBlock (Concrete.block 1)] toOneselfStart) toOneselfOpen :=
    (Run.start (eq_ok_of_isSome _)).calls [.beginBlock (Concrete.block 1)] rfl (by decide +kernel)
  have inBlock : (App.node toOneselfOpen).mem.nextBlockCtx = some toOneselfBlock :=
    (Option.some_get _).symm
  have native : TrxExecutor.Native toOneselfContext toOneselfStores := by
    refine ⟨by decide +kernel, fun _ => ?_⟩
    decide +kernel
  have validates : (run (trxHandler storeImpl)
      (validateTrx toOneself.trx toOneself.json toOneselfContext)
      { (App.node toOneselfOpen).toResources with ledgers := toOneselfStores }).1.isOk = true := by
    decide +kernel
  have executes : (exec (AcctCtrler.executeTrx toOneselfContext) toOneselfStores).1.isOk = true := by
    decide +kernel
  have type : toOneselfContext.tx.type = .transfer := by decide +kernel
  obtain ⟨pubKey, valid⟩ := Foundation.exists_eq_ok validates
  obtain ⟨_, executed⟩ := Foundation.exists_eq_ok executes
  have kept := ledgers_validateTrx toOneself.trx toOneself.json toOneselfContext
    { (App.node toOneselfOpen).toResources with ledgers := toOneselfStores }
  have executed' : exec (executeNative toOneselfContext pubKey)
      (run (trxHandler storeImpl)
        (validateTrx toOneself.trx toOneself.json toOneselfContext)
        { (App.node toOneselfOpen).toResources with ledgers := toOneselfStores }).2.ledgers =
      (.ok (), (exec (AcctCtrler.executeTrx toOneselfContext) toOneselfStores).2) := by
    rw [kept, executeNative, type]
    exact executed
  obtain ⟨acct, acct', t, found, -, charged, counted, delivered, -, found'⟩ :=
    ran.fee_charged inBlock made_toOneself native (by decide +kernel) (by decide +kernel) valid
      executed'
  have balance : (Stores.account (exec (AcctCtrler.executeTrx toOneselfContext) toOneselfStores).2
      toOneselfContext.tx.fromAddr).map (fun acct => acct.balance.toNat) = some (10 ^ 18) := by
    decide +kernel
  have fee : toOneselfContext.tx.gas * toOneselfContext.tx.gasPrice.toNat = 4000 * 250000000000 := by
    decide +kernel
  have nonce : toOneselfContext.tx.nonce = 0 := by decide +kernel
  rw [found] at balance
  have coin : acct.balance.toNat = 10 ^ 18 := Option.some.inj balance
  rw [coin, fee] at charged
  rw [nonce] at counted
  exact ⟨acct', t, counted, charged, delivered, found'⟩

end RigoApp

end Rigo
