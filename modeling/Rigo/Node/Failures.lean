import Rigo.Ctrlers.Evm.StateDB
import Rigo.Node.Contracts
import Rigo.Node.Freezing
import Rigo.Node.Restart

/-!
# Failed transactions

A transaction that is answered with an error code should leave the node as it was.  It can fail
when it is validated, when it is executed, or when its fee is taken, and some of these steps come
after a write: the account of the receiver is created before the transaction is validated, the
limiter is charged by the validation itself, an execution is not undone if the fee cannot be taken,
and accounts that geth touches are created even if geth then fails.

`Run.failed_unchanged` says that there are no other ways: if none of these writes is made, the node
after a failed transaction is the node before it, so all later calls are answered as if the
transaction had not been delivered.
-/

namespace Rigo

open Foundation
open Stores
open AcctCtrler Ctrler EvmCtrler StakeCtrler TrxExecutor

variable {acct receiver sender : Account} {addr : Address} {asked : Delegatee × Int}
  {snapshot : Nat} {ls ls' : Stores}

/-! ## Validation -/

/-- Code that writes no ledger leaves everything. -/
theorem run_ledger_unchanged {E : EvmLib} {α : Type} {p : LedgerProg α}
    (writes : Writes (fun _ => False) p) {r r' : Workspace E} {outcome : Except Fault α}
    (ran : run (trxHandler storeImpl) (ledger p) r = (outcome, r')) : r' = r := by
  rw [run_ledger] at ran
  obtain ⟨-, rfl⟩ := Prod.mk.inj ran
  have same : (run (ledgerHandler storeImpl) p r.ledgers).2 = r.ledgers :=
    funext fun l => exec_frame writes id r.ledgers
  rw [same]

namespace StakeLimiter

variable {sl sl' : StakeLimiter} {d : Delegatee} {change : Int} {e : XError}

/-- The limiter is changed by a check that fails only if it leaves a negative power. -/
theorem checkLimit_error (enough : 0 ≤ i64 (d.totalPower + change))
    (failed : sl.checkLimit d change = (.error (.xerr e), sl')) : sl' = sl := by
  unfold checkLimit at failed
  split at failed
  · cases failed
  · split at failed
    · cases failed
      rfl
    · unfold checkUpdatablePowerLimit at failed
      simp only at failed
      split at failed
      · cases failed
        rfl
      · next known =>
        rw [not_not] at known
        split at failed
        · cases failed
          rfl
        · split at failed
          · cases failed
          · split at failed
            · cases failed
              rfl
            · rw [known, if_neg (not_lt.mpr enough)] at failed
              cases failed

end StakeLimiter

namespace StakeCtrler

variable {E : EvmLib} {r r' : Workspace E} {ctx : TrxContext} {e : XError}

/-- What is left of the power of a delegatee without a stake. -/
def leftPower (d : Delegatee) (s0 : Stake) : Int := i64 (d.totalPower + i64 (-1 * s0.power))

/-- An unstaking does not ask the limiter for a negative power. -/
def LeavesPower (ctx : TrxContext) (ls : Stores) : Prop :=
  ctx.tx.type = .unstaking → ∀ txHash d s0, ctx.tx.payload = .unstaking txHash →
    (ls .delegatees).lookup (toLedgerKey ctx.tx.toAddr) = some d → d.findStake txHash = some s0 →
    0 ≤ leftPower d s0

theorem checkLimit_error {validators : Validators} {d : Delegatee} {change : Int}
    (enough : 0 ≤ i64 (d.totalPower + change))
    (failed : run (trxHandler storeImpl) (checkLimit validators d change) r =
      (.error (.xerr e), r')) : r' = r := by
  unfold checkLimit at failed
  split at failed
  · simp only [Prog.bind_eq, run_bind, getLimiter, setLimiter,
      run_perform, trxHandler, trxStep, andThen_ok] at failed
    generalize asked : r.limiter.checkLimit d change = answer at failed
    obtain ⟨(e' | p) | _, sl⟩ := answer
    · obtain rfl := StakeLimiter.checkLimit_error enough asked
      cases failed
      rfl
    · cases failed
    · cases failed
  · cases failed

/-- A valid staking has a delegatee, whose power it asks the limiter about. -/
theorem validateStaking_asks (ran : exec (validateStaking ctx) ls = (.ok asked, ls'))
    (pubKey : HexBytes) :
    ∃ d, StakesOn ctx pubKey ls d ∧ asked.1.totalPower = d.totalPower ∧
      asked.2 = powerOf ctx.tx.amount ∧ 0 ≤ powerOf ctx.tx.amount := by
  obtain ⟨power, totalPower, staker, -, rfl⟩ := validateStaking_inv ran
  cases found : (ls .delegatees).lookup (toLedgerKey ctx.tx.toAddr) with
  | some d => exact ⟨d, .existing found, rfl, rfl, power⟩
  | none =>
    by_cases self : ctx.tx.fromAddr = ctx.tx.toAddr
    · exact ⟨_, .new found self, rfl, rfl, power⟩
    · rw [found, validateStaker, if_neg self] at staker
      cases staker

/-- An unstaking means a stake of the sender. -/
theorem validateUnstaking_asks (ran : exec (validateUnstaking ctx) ls = (.ok asked, ls')) :
    ∃ txHash d s0, ctx.tx.payload = .unstaking txHash ∧
      (ls .delegatees).lookup (toLedgerKey ctx.tx.toAddr) = some d ∧
      d.findStake txHash = some s0 ∧ exec (findOwnStake ctx d) ls = (.ok s0, ls) ∧
      asked = (d, i64 (-1 * s0.power)) := by
  obtain ⟨d, found, ran⟩ := run_ofExcept_ok (LedgerProg.run_get_ok ran)
  obtain ⟨s0, ls₁, chosen, ran⟩ := run_bind_ok ran
  cases ran
  have same : ls' = ls := funext fun l =>
    Calm.frame (S := fun _ => False) (calm_findOwnStake (fun _ => trivial) d) id chosen
  subst same
  have chosen' := chosen
  unfold findOwnStake at chosen
  cases payload : ctx.tx.payload with
  | unstaking txHash =>
    simp only [payload] at chosen
    split at chosen
    · cases chosen
    · split at chosen
      · cases chosen
      · next own =>
        split at chosen
        · cases chosen
        · cases chosen
          exact ⟨txHash, d, s0, rfl, found_eq_ok.mp found, own, chosen', rfl⟩
  | _ =>
    simp only [payload] at chosen
    cases chosen

/-- A request to the limiter that fails has changed nothing. -/
theorem ask_error {request : LedgerProg (Delegatee × Int)} (writes : Writes (fun _ => False) request)
    (enough : ∀ asked, exec request r.ledgers = (.ok asked, r.ledgers) →
      0 ≤ i64 (asked.1.totalPower + asked.2)) {validators : Validators}
    (failed : run (trxHandler storeImpl) ((ledger request).bind fun asked =>
      checkLimit validators asked.1 asked.2) r = (.error (.xerr e), r')) : r' = r := by
  rcases run_bind_error failed with failed | ⟨asked, r₁, worked, failed⟩
  · exact run_ledger_unchanged writes failed
  · obtain ⟨ls, requested, rfl⟩ := run_ledger_ok worked
    have same : ls = r.ledgers := funext fun l => writes.frame id requested
    subst same
    exact checkLimit_error (enough asked requested) failed

/-- A staking transaction that is not valid has changed nothing. -/
theorem validateTrx_error (leaves : LeavesPower ctx r.ledgers)
    (failed : run (trxHandler storeImpl) (validateTrx ctx) r = (.error (.xerr e), r')) :
    r' = r := by
  unfold validateTrx at failed
  cases type : ctx.tx.type with
  | staking =>
    simp only [type] at failed
    refine ask_error (writes_validateStaking ctx) (fun asked requested => ?_) failed
    obtain ⟨d, target, total, change, -⟩ := validateStaking_asks requested []
    rw [total, change]
    exact (validateStaking_ok requested target).le
  | unstaking =>
    simp only [type] at failed
    refine ask_error (writes_validateUnstaking ctx) (fun asked requested => ?_) failed
    obtain ⟨txHash, d, s0, payload, found, own, -, rfl⟩ := validateUnstaking_asks requested
    exact leaves type txHash d s0 payload found own
  | withdraw =>
    simp only [type] at failed
    exact run_ledger_unchanged (writes_validateWithdraw ctx) failed
  | _ =>
    simp only [type] at failed
    cases failed
    rfl

end StakeCtrler

namespace TrxExecutor

variable {E : EvmLib} {r r' : Workspace E} {ctx : TrxContext} {e : XError}

/-- A transaction that is not valid has changed nothing. -/
theorem validateTrx_error {lib : TrxLib} {json : ParamsJSON}
    (leaves : LeavesPower ctx r.ledgers)
    (failed : run (trxHandler storeImpl) (validateTrx lib json ctx) r = (.error (.xerr e), r')) :
    r' = r := by
  rw [validateTrx_eq] at failed
  rcases run_bind_error failed with failed₀ | ⟨pubKey, r₀, checked₀, rest₀⟩
  · exact run_ledger_unchanged (writes_commonValidation0 lib ctx) failed₀
  obtain rfl := run_ledger_unchanged (writes_commonValidation0 lib ctx) checked₀
  rcases run_bind_error rest₀ with failed₁ | ⟨_, r₁, checked₁, rest₁⟩
  · exact run_ledger_unchanged (writes_commonValidation1 ctx) failed₁
  obtain rfl := run_ledger_unchanged (writes_commonValidation1 ctx) checked₁
  rcases run_bind_error rest₁ with failed₂ | ⟨_, r₂, _, ended⟩
  · unfold validateByType at failed₂
    cases type : ctx.tx.type <;> rw [type] at failed₂
    case proposal | voting =>
      exact run_ledger_unchanged (GovCtrler.writes_validateTrx json ctx) failed₂
    case transfer | setDoc => exact run_ledger_unchanged (AcctCtrler.writes_validateTrx ctx) failed₂
    case contract => exact run_ledger_unchanged (EvmCtrler.writes_validateTrx ctx) failed₂
    case staking | unstaking | withdraw => exact StakeCtrler.validateTrx_error leaves failed₂
  · cases ended

end TrxExecutor

/-! ## Execution -/

/-- Code that first reads and then fails, or goes on with code that leaves the ledgers if it
fails. -/
theorem exec_bind_unchanged {α β : Type} {p : LedgerProg β} {f : β → LedgerProg α}
    {fault : Fault} (reads : Writes (fun _ => False) p)
    (rest : ∀ value, exec (f value) ls = (.error fault, ls') → ls' = ls)
    (failed : exec (p >>= f) ls = (.error fault, ls')) : ls' = ls := by
  rcases run_bind_error failed with failed | ⟨value, ls₁, ran, failed⟩
  · exact funext fun l => reads.frame id failed
  · have same : ls₁ = ls := funext fun l => reads.frame id ran
    exact rest value (same ▸ failed)

namespace AcctCtrler

variable {ctx : TrxContext} {ls ls' : Stores} {e : XError}

/-- An account that is missing is a crash, not an error. -/
theorem accountAt_bind_error {p : Account → LedgerProg Unit}
    (failed : exec (accountAt addr >>= p) ls = (.error (.xerr e), ls')) :
    ∃ acct, exec (p acct) ls = (.error (.xerr e), ls') := by
  rw [exec_bind, exec_accountAt] at failed
  cases found : ls.account addr with
  | none =>
    rw [found] at failed
    cases failed
  | some acct =>
    rw [found] at failed
    exact ⟨acct, failed⟩

/-- A transfer or a document that fails has changed no account. -/
theorem executeTrx_error (failed : exec (executeTrx ctx) ls = (.error (.xerr e), ls')) :
    ls' = ls := by
  unfold executeTrx at failed
  split at failed
  · refine exec_bind_unchanged (writes_accountAt trivial _) (fun acct0 failed => ?_) failed
    refine exec_bind_unchanged (calm_ofExcept _) (fun acct0' failed => ?_) failed
    refine exec_bind_unchanged (writes_receiverOf _ _ _) (fun acct1 failed => ?_) failed
    refine exec_bind_unchanged (calm_ofExcept _) (fun acct1' failed => ?_) failed
    cases failed
  · split at failed
    · obtain ⟨acct, failed⟩ := accountAt_bind_error failed
      obtain ⟨acct1, failed⟩ := accountAt_bind_error failed
      cases failed
    · cases failed
  · obtain ⟨acct, failed⟩ := accountAt_bind_error failed
    obtain ⟨acct1, failed⟩ := accountAt_bind_error failed
    cases failed

end AcctCtrler

namespace StakeCtrler

variable {ctx : TrxContext} {ls ls' : Stores} {e : XError} {pubKey : HexBytes}

theorem stakeOn_covered (d : Delegatee)
    (found : ls.account ctx.tx.fromAddr = some sender) (amount : ctx.tx.amount.isNegative = false)
    (covered : ctx.tx.amount.toNat ≤ sender.balance.toNat) (power : 0 ≤ powerOf ctx.tx.amount) :
    (exec (exeStaking.stakeOn ctx d) ls).1.isOk = true := by
  have enough : ¬ sender.balance < ctx.tx.amount := by
    rw [BitVec.lt_def]
    omega
  have taken : sender.subBalance ctx.tx.amount =
      .ok { sender with balance := sender.balance - ctx.tx.amount } := by
    simp only [Account.subBalance, amount, Bool.false_eq_true, if_false, if_neg enough]
  have kept : exec (ofExcept (.ok { sender with balance := sender.balance - ctx.tx.amount }) :
      LedgerProg Account) ls = (.ok { sender with balance := sender.balance - ctx.tx.amount }, ls) :=
    rfl
  unfold exeStaking.stakeOn
  rw [exec_bind, exec_accountAt, found, Option.elim_some, andThen_ok,
    exec_bind, taken, kept, andThen_ok, exec_bind, LedgerProg.exec_set,
    andThen_ok, exec_bind, exec_amountToPower, if_neg (not_lt.mpr power),
    andThen_ok, LedgerProg.exec_set]
  rfl

/-- A staking that is valid and covered is executed. -/
theorem exeStaking_valid (valid : exec (validateStaking ctx) ls = (.ok asked, ls'))
    (found : ls.account ctx.tx.fromAddr = some sender) (amount : ctx.tx.amount.isNegative = false)
    (covered : ctx.tx.amount.toNat ≤ sender.balance.toNat) :
    (exec (exeStaking ctx pubKey) ls).1.isOk = true := by
  obtain ⟨d, target, -, -, power⟩ := validateStaking_asks valid pubKey
  unfold exeStaking
  rw [exec_bind, exec_findDelegatee, andThen_ok]
  cases target with
  | existing there =>
    rw [there]
    exact stakeOn_covered d found amount covered power
  | new missing self =>
    rw [missing]
    simp only [if_pos self]
    exact stakeOn_covered _ found amount covered power

/-- An unstaking that is valid is executed. -/
theorem exeUnstaking_valid (valid : exec (validateUnstaking ctx) ls = (.ok asked, ls')) :
    (exec (exeUnstaking ctx) ls).1.isOk = true := by
  obtain ⟨txHash, d, s0, -, found, -, chosen, -⟩ := validateUnstaking_asks valid
  rw [exec_exeUnstaking_own found chosen]
  rfl

/-- A withdrawal that is valid and fits into the balance is not answered with an error. -/
theorem exeWithdraw_valid {req : Uint256}
    (valid : exec (validateWithdraw ctx) ls = (.ok (), ls)) (payload : ctx.tx.payload = .withdraw req)
    (found : ls.account ctx.tx.fromAddr = some sender) (amount : req.isNegative = false) :
    exec (exeWithdraw ctx) ls ≠ (.error (.xerr e), ls') := by
  obtain ⟨req', rwd, payload', record, -⟩ := validateWithdraw_ok valid
  cases payload.symm.trans payload'
  have credit : sender.addBalance req = .ok { sender with balance := sender.balance + req } := by
    simp only [Account.addBalance, amount, Bool.false_eq_true, if_false]
  rw [exec_exeWithdraw payload record found credit]
  split <;> rintro ⟨⟩

end StakeCtrler

namespace TrxExecutor

variable {E : EvmLib} {r r' : Workspace E} {ctx : TrxContext} {lib : TrxLib} {json : ParamsJSON}
  {pubKey : HexBytes} {ls : Stores} {e : XError}

/-- A withdrawal can be added to the balance of the sender. -/
def Creditable (ctx : TrxContext) (ls : Stores) : Prop :=
  ctx.tx.type = .withdraw → ∀ req acct, ctx.tx.payload = .withdraw req →
    ls.account ctx.tx.fromAddr = some acct →
    req.isNegative = false ∧ acct.balance.toNat + req.toNat < 2 ^ 256

/-- A valid transaction that does not go to the EVM and is not executed has changed nothing. -/
theorem executeNative_error (present : account r.ledgers ctx.tx.toAddr = some receiver)
    (native : Native ctx r.ledgers) (fee : (gasToFee ctx.tx.gas ctx.tx.gasPrice).toNat < 2 ^ 255)
    (creditable : Creditable ctx r.ledgers)
    (valid : run (trxHandler storeImpl) (validateTrx lib json ctx) r = (.ok pubKey, r'))
    (failed : exec (executeNative ctx pubKey) r'.ledgers = (.error (.xerr e), ls)) :
    ({ r' with ledgers := ls } : Workspace E) = r := by
  obtain ⟨common, checked, typed⟩ := validateTrx_ok valid
  obtain ⟨⟨sender, found, -, covered⟩, -⟩ := ready_of_valid common fee checked present
    fun transfer => native.receiver transfer receiver present
  have ledgers : r'.ledgers = r.ledgers := by
    have kept := ledgers_validateTrx lib json ctx r
    rwa [valid] at kept
  rw [ledgers] at failed
  unfold executeNative at failed
  unfold validateByType at typed
  cases type : ctx.tx.type <;> simp only [type] at failed typed
  case contract => exact absurd type native.type
  case proposal | voting =>
    obtain rfl := run_ledger_unchanged (GovCtrler.writes_validateTrx json ctx) typed
    rw [GovCtrler.executeTrx_error failed]
  case transfer | setDoc =>
    obtain rfl := run_ledger_unchanged (AcctCtrler.writes_validateTrx ctx) typed
    rw [executeTrx_error failed]
  case staking =>
    simp only [StakeCtrler.validateTrx, StakeCtrler.executeTrx, type] at typed failed
    obtain ⟨asked, r₁, requested, -⟩ := run_bind_ok typed
    obtain ⟨ls₁, requested, -⟩ := run_ledger_ok requested
    have done : (exec (exeStaking ctx pubKey) r.ledgers).1.isOk = true :=
      exeStaking_valid requested found common.amount (by omega)
    rw [failed] at done
    cases done
  case unstaking =>
    simp only [StakeCtrler.validateTrx, StakeCtrler.executeTrx, type] at typed failed
    obtain ⟨asked, r₁, requested, -⟩ := run_bind_ok typed
    obtain ⟨ls₁, requested, -⟩ := run_ledger_ok requested
    have done := exeUnstaking_valid requested
    rw [failed] at done
    cases done
  case withdraw =>
    simp only [StakeCtrler.validateTrx, StakeCtrler.executeTrx, type] at typed failed
    obtain ⟨ls₁, validated, -⟩ := run_ledger_ok typed
    have same : ls₁ = r.ledgers := funext fun l =>
      (writes_validateWithdraw (S := fun _ => False) ctx).frame id validated
    subst same
    obtain ⟨req, -, payload, -, -⟩ := validateWithdraw_ok validated
    exact absurd failed (exeWithdraw_valid validated payload found
      (creditable type req sender payload found).1)

end TrxExecutor

/-! ## The EVM -/

theorem Stores.withAccount_found (found : ls.account addr = some acct) :
    ls.withAccount addr = ls := by
  unfold withAccount
  rw [found]

namespace EvmCtrler

/-- The numbers of the snapshots that geth takes are not below a number. -/
def SnapshotsFrom {S : Type} (least : Nat) : EvmRun S → Prop
  | .access _ next => ∀ loaded, SnapshotsFrom least (next loaded)
  | .snapshot id next => least ≤ id ∧ SnapshotsFrom least next
  | .revert _ next => SnapshotsFrom least next
  | .done _ _ _ => True

/-- What is assumed of geth: the numbers of its snapshots grow. -/
structure Numbered (E : EvmLib) : Prop where
  setAccount : ∀ state addr nonce balance,
    E.snapshot (E.setAccount state addr nonce balance) = E.snapshot state
  applyMessage : ∀ state msg gasPool,
    SnapshotsFrom (E.snapshot state) (E.applyMessage state msg gasPool)

/-- geth looks at accounts that are there, and ends with a result and an amount of gas as `P`
says. -/
def Confined {S : Type} (ls : Stores) (P : Except String ExecutionResult → Nat → Prop) :
    EvmRun S → Accessed → Nat → Prop
  | .access addr next, accessed, snapshot =>
    if accessed.any (fun entry => entry.1 == addr) then Confined ls P (next none) accessed snapshot
    else ∃ acct, ls.account addr = some acct ∧
      Confined ls P (next (some (acct.nonce, acct.balance))) (accessed ++ [(addr, snapshot + 1)])
        snapshot
  | .snapshot id next, accessed, _ => Confined ls P next accessed id
  | .revert id next, accessed, snapshot =>
    Confined ls P next (revertAccessedObjAddr accessed id) snapshot
  | .done result _ gasPool, _, _ => P result gasPool

/-- The addresses were loaded after a snapshot. -/
def LoadedAfter (snap : Nat) (accessed : Accessed) : Prop := ∀ entry ∈ accessed, snap < entry.2

section

variable {E : EvmLib} {ls : Stores} {P : Except String ExecutionResult → Nat → Prop} {snap : Nat}

variable {accessed : Accessed}

theorem LoadedAfter.append (after : LoadedAfter snap accessed)
    (later : snap ≤ snapshot) (addr : Address) :
    LoadedAfter snap (accessed ++ [(addr, snapshot + 1)]) := by
  intro entry member
  rcases List.mem_append.mp member with member | member
  · exact after entry member
  · rw [List.mem_singleton.mp member]
    exact Nat.lt_succ_of_le later

theorem LoadedAfter.revert (after : LoadedAfter snap accessed) (id : Nat) :
    LoadedAfter snap (revertAccessedObjAddr accessed id) := fun entry member =>
  after entry (List.mem_of_mem_filter member)

theorem LoadedAfter.none_left (after : LoadedAfter snap accessed) :
    revertAccessedObjAddr accessed snap = [] := by
  unfold revertAccessedObjAddr
  rw [List.filter_eq_nil_iff]
  intro entry member
  simp [after entry member]

theorem exec_addAccessedObjAddr_known (new : accessed.any (fun entry => entry.1 == addr) = false)
    (found : ls.account addr = some acct) :
    exec (addAccessedObjAddr accessed snapshot addr) ls =
      (.ok (some (acct.nonce, acct.balance), accessed ++ [(addr, snapshot + 1)]), ls) := by
  unfold addAccessedObjAddr
  rw [new, if_neg Bool.false_ne_true, exec_bind, exec_findOrNewAccount, found,
    withAccount_found found]
  rfl

/-- If geth looks at accounts that are there, nothing is written. -/
theorem runEvm_confined {tree : EvmRun E.State}
    (confined : Confined ls P tree accessed snapshot) (numbered : SnapshotsFrom snap tree)
    (after : LoadedAfter snap accessed) (later : snap ≤ snapshot) :
    ∃ applied, exec (runEvm tree accessed snapshot) ls = (.ok applied, ls) ∧
      P applied.result applied.gasPool ∧ LoadedAfter snap applied.accessed := by
  induction tree generalizing accessed snapshot with
  | access addr next ih =>
    unfold Confined at confined
    split at confined
    · next known =>
      obtain ⟨applied, ran, rest⟩ := ih none confined (numbered none) after later
      refine ⟨applied, ?_, rest⟩
      rw [← ran, runEvm, addAccessedObjAddr, if_pos known]
      rfl
    · next new =>
      obtain ⟨acct, found, confined⟩ := confined
      obtain ⟨applied, ran, rest⟩ :=
        ih (some (acct.nonce, acct.balance)) confined (numbered _) (after.append later addr) later
      refine ⟨applied, ?_, rest⟩
      rw [runEvm, exec_bind,
        exec_addAccessedObjAddr_known (Bool.eq_false_iff.mpr new) found]
      exact ran
  | snapshot id next ih => exact ih confined numbered.2 after numbered.1
  | revert id next ih => exact ih confined numbered (after.revert id) later
  | done result state gasPool => exact ⟨_, rfl, confined, after⟩

/-- An account that is there is loaded, and nothing is written. -/
theorem load_found (numbered : Numbered E) (after : LoadedAfter snap accessed)
    (state : E.State)  (found : ls.account addr = some acct) :
    ∃ state' accessed', exec (load accessed snap state addr) ls = (.ok (state', accessed'), ls) ∧
      LoadedAfter snap accessed' ∧ E.snapshot state' = E.snapshot state := by
  by_cases known : addr ∈ accessed.map Prod.fst
  · exact ⟨state, accessed, exec_load_known known snap state ls, after, rfl⟩
  · have ran := exec_load_new known snap state ls
    rw [withAccount_found found] at ran
    exact ⟨_, _, ran, after.append le_rfl addr, numbered.setAccount ..⟩

theorem prepare_found (numbered : Numbered E) (state : E.State) (snap : Nat)
    {sender receiver : Address} {acct' : Account}
    (found : ls.account (array20 sender) = some acct)
    (found' : ls.account (array20 receiver) = some acct') :
    ∃ prepared accessed, exec (prepare state snap sender receiver) ls = (.ok (prepared, accessed), ls) ∧
      LoadedAfter snap accessed ∧ E.snapshot prepared = E.snapshot state := by
  have nothing : LoadedAfter snap [] := fun _ member => by cases member
  obtain ⟨state₁, accessed₁, ran₁, after₁, same₁⟩ := load_found numbered nothing state found
  unfold prepare
  rw [exec_bind, ran₁, andThen_ok]
  simp only
  split
  · exact ⟨state₁, accessed₁, rfl, after₁, same₁⟩
  · obtain ⟨state₂, accessed₂, ran₂, after₂, same₂⟩ := load_found numbered after₁ state₁ found'
    exact ⟨state₂, accessed₂, ran₂, after₂, same₂.trans same₁⟩

/-- geth looks only at accounts that are there when it is given a transaction. -/
def ConfinedTo (P : Except String ExecutionResult → Nat → Prop) (ctx : TrxContext) (m : EvmMem E)
    (state : E.State) (ls : Stores) : Prop :=
  ∀ prepared accessed,
    (exec (prepare state (E.snapshot state) ctx.tx.fromAddr ctx.tx.toAddr) ls).1 =
      .ok (prepared, accessed) →
    Confined ls P (E.applyMessage prepared (evmMessage ctx m) m.blockGasPool) accessed
      (E.snapshot state)

variable {ctx : TrxContext} {state : E.State}

/-- Then nothing is written until geth has ended. -/
theorem apply_confined (numbered : Numbered E) {m : EvmMem E}
    {acct' : Account} (found : ls.account (array20 ctx.tx.fromAddr) = some acct)
    (found' : ls.account (array20 ctx.tx.toAddr) = some acct')
    (confined : ConfinedTo P ctx m state ls) :
    ∃ applied, exec (apply ctx m state) ls = (.ok applied, ls) ∧
      P applied.result applied.gasPool ∧ LoadedAfter (E.snapshot state) applied.accessed := by
  obtain ⟨prepared, accessed, ran, after, same⟩ :=
    prepare_found numbered state (E.snapshot state) found found'
  have snapshots := numbered.applyMessage prepared (evmMessage ctx m) m.blockGasPool
  rw [same] at snapshots
  obtain ⟨applied, ran', rest⟩ :=
    runEvm_confined (confined prepared accessed (congrArg Prod.fst ran)) snapshots after le_rfl
  refine ⟨applied, ?_, rest⟩
  unfold apply
  rw [exec_bind, ran, andThen_ok]
  exact ran'

/-- `undo`, with the loop of `Finish` in another order. -/
def undoIn (shuffle : Accessed → Accessed) (m : EvmMem E) (state : E.State) (snap : Nat)
    (applied : Applied E.State) : Ctrler E Unit := do
  Ctrler.ledger (finish state (shuffle (revertAccessedObjAddr applied.accessed snap)))
  Ctrler.setEvm { m with stateDB := some state, blockGasPool := applied.gasPool }

/-- The part of `ExecuteTrx` after geth has ended, with the loop of `Finish` in another order. -/
def concludeIn (shuffle : Accessed → Accessed) (ctx : TrxContext) (m : EvmMem E) (state : E.State)
    (applied : Applied E.State) : Ctrler E TrxResult :=
  match applied.result with
  | .error err => do
      undoIn shuffle m state (E.snapshot state) applied
      return ⟨0, [], some (.fromErr err)⟩
  | .ok result =>
    match result.err with
    | some err => do
        undoIn shuffle m state (E.snapshot state) applied
        return ⟨0, result.returnData, some (.fromErr err)⟩
    | none => do
        Ctrler.ledger (finish applied.state (shuffle applied.accessed))
        Ctrler.setEvm { m with
          stateDB := some (E.finalise applied.state)
          blockGasPool := applied.gasPool }
        if isZeroAddress ctx.tx.toAddr then
          return ⟨result.usedGas, ← Ctrler.ledger (recordCreation E ctx), none⟩
        else return ⟨result.usedGas, result.returnData, none⟩

/-- The part of `ExecuteTrx` after geth has ended. -/
def conclude (ctx : TrxContext) (m : EvmMem E) (state : E.State) (applied : Applied E.State) :
    Ctrler E TrxResult :=
  concludeIn id ctx m state applied

variable {applied : Applied E.State} {r : Workspace E}

theorem run_execute {m : EvmMem E}
    (ran : exec (apply ctx m state) r.ledgers = (.ok applied, ls)) :
    run (trxHandler storeImpl) (execute ctx m state) r =
      run (trxHandler storeImpl) (conclude ctx m state applied) { r with ledgers := ls } := by
  obtain ⟨⟨prepared, accessed⟩, ls₁, first, second⟩ := run_bind_ok ran
  unfold execute
  rw [Prog.bind_eq, run_bind, run_ledger_of_exec first, andThen_ok]
  simp only
  rw [Prog.bind_eq, run_bind, run_ledger_of_exec second, andThen_ok]
  rfl

/-- A workspace with another amount of gas left for the block. -/
def leavingGas (r : Workspace E) (gasPool : Nat) : Workspace E :=
  { r with evm := { r.evm with blockGasPool := gasPool } }

/-- geth has refused the message, or its execution has failed. -/
def Unsuccessful : Except String ExecutionResult → Prop
  | .error _ => True
  | .ok result => result.err ≠ none

/-- What was loaded after the snapshot is forgotten, so that nothing is copied back. -/
theorem run_undo (opened : r.evm.stateDB = some state) (after : LoadedAfter snap applied.accessed) :
    run (trxHandler storeImpl) (undo r.evm state snap applied) r =
      (.ok (), leavingGas r applied.gasPool) := by
  unfold undo leavingGas
  rw [after.none_left, ← opened]
  rfl

theorem finish_ok (state : E.State) (accessed : Accessed) (ls : Stores) :
    ∃ ls', exec (finish state accessed) ls = (.ok (), ls') := by
  induction accessed generalizing ls with
  | nil => exact ⟨ls, rfl⟩
  | cons head tail ih =>
    obtain ⟨ls', ran⟩ := ih (put (ls.withAccount head.1) .accounts
      { (ls.account head.1).getD (Account.newAccount head.1) with
        nonce := (E.account state head.1).1
        balance := (E.account state head.1).2 })
    refine ⟨ls', ?_⟩
    change exec ((findOrNewAccount head.1 >>= _) >>= fun _ => finish state tail) ls = _
    rw [exec_bind, exec_bind, exec_findOrNewAccount]
    exact ran

/-- A successful execution does not take the code of an account. -/
def KeepsCode (r : Workspace E) (k : LedgerKey) : Except Fault TrxResult × Workspace E → Prop
  | (.error (.panic _), _) => True
  | (.error (.xerr _), _) => False
  | (.ok result, r') => result.failed = none ∧ (codesOf r.ledgers k ≠ [] → codesOf r'.ledgers k ≠ [])

theorem keepsCode_conclude (state : E.State)
    (removed : (r.ledgers .accounts).removed = []) (hash : ctx.txHash ≠ [])
    (successful : ¬ Unsuccessful applied.result) (k : LedgerKey) :
    KeepsCode r k (run (trxHandler storeImpl) (conclude ctx r.evm state applied) r) := by
  unfold conclude concludeIn
  rw [id]
  split
  · next text refused => exact (successful (refused ▸ trivial)).elim
  · next result ended =>
    split
    · next text failed =>
      refine (successful ?_).elim
      rw [ended, Unsuccessful, failed]
      exact nofun
    · obtain ⟨ls, finished⟩ := finish_ok applied.state applied.accessed r.ledgers
      have holds : Holds .accounts (HasCode (codesOf r.ledgers)) r.ledgers :=
        ⟨removed, fun _ => rfl⟩
      have kept := holds.of_exec (keepsCodes_finish _ _ _) finished
      have same : codesOf ls k = codesOf r.ledgers k := kept.2 k
      rw [Prog.bind_eq, run_bind, run_ledger_of_exec finished, andThen_ok,
        Prog.bind_eq, run_bind, setEvm, run_perform,
        andThen_ok]
      split
      · rw [Prog.bind_eq, run_bind, run_ledger]
        have recorded : run (ledgerHandler storeImpl) (recordCreation E ctx) ls = _ :=
          exec_recordCreation E ctx ls
        simp only [trxHandler, trxStep, recorded]
        cases found : ls.account (E.createAddress (array20 ctx.tx.fromAddr) ctx.tx.nonce) with
        | none => trivial
        | some acct =>
          refine ⟨rfl, fun coded => ?_⟩
          change codeIn ((ls.put .accounts _ .accounts).lookup k) ≠ []
          rw [put_self, Store.lookup_set_of_removed kept.1]
          split
          · exact hash
          · exact fun empty => coded (same.symm.trans empty)
      · exact ⟨rfl, fun coded => same ▸ coded⟩

/-- An execution that was not successful leaves everything but the gas of the block. -/
theorem run_conclude (opened : r.evm.stateDB = some state)
    (after : LoadedAfter (E.snapshot state) applied.accessed)
    (unsuccessful : Unsuccessful applied.result) :
    ∃ retData text, run (trxHandler storeImpl) (conclude ctx r.evm state applied) r =
      (.ok ⟨0, retData, some (.fromErr text)⟩, leavingGas r applied.gasPool) := by
  have undone : run (trxHandler storeImpl) (undoIn id r.evm state _ applied) r = _ :=
    run_undo opened after
  unfold conclude concludeIn
  split
  · next text refused =>
    rw [Prog.bind_eq, run_bind, undone]
    exact ⟨[], text, rfl⟩
  · next result ended =>
    split
    · next text failed =>
      rw [Prog.bind_eq, run_bind, undone]
      exact ⟨result.returnData, text, rfl⟩
    · next successful =>
      rw [ended] at unsuccessful
      exact absurd successful unsuccessful

/-- `ExecuteTrx` runs geth for the transactions that go to the EVM. -/
theorem run_executeTrx (exec : ctx.exec = true)
    (present : account r.ledgers ctx.tx.toAddr = some receiver)
    (goes : ctx.tx.type = .contract ∨ receiver.code ≠ []) :
    run (trxHandler storeImpl) (executeTrx ctx) r =
      match r.evm.stateDB with
      | none => (.error (.panic .nilDereference), r)
      | some state => run (trxHandler storeImpl) (execute ctx r.evm state) r := by
  have read : Rigo.exec (accountAt ctx.tx.toAddr) r.ledgers = (.ok receiver, r.ledgers) := by
    rw [exec_accountAt, present]
    rfl
  unfold executeTrx
  rw [exec, if_neg (by decide), Prog.bind_eq, run_bind, run_ledger_of_exec read,
    andThen_ok, if_neg (by tauto), Prog.bind_eq, run_bind, getEvm,
    run_perform, andThen_ok]
  simp only [trxHandler, trxStep]
  cases r.evm.stateDB <;> rfl

end

end EvmCtrler

namespace TrxExecutor

variable {E : EvmLib} {r r' : Workspace E} {ctx : TrxContext}
  {P : Except String ExecutionResult → Nat → Prop}

/-- A transaction was answered with an error. -/
def Failed : Except Fault TrxResult → Prop
  | .error (.panic _) => False
  | .error (.xerr _) => True
  | .ok result => result.failed ≠ none

/-- No fee is taken from a transaction that went to the EVM. -/
theorem postRunTrx_evm {result : TrxResult} (succeeded : result.failed = none)
    (goes : GoesToEvm ctx ls) : ¬ Failed (exec (postRunTrx ctx result) ls).1 := by
  unfold postRunTrx
  rw [exec_bind, exec_accountAt]
  cases found : ls.account ctx.tx.toAddr with
  | none => exact id
  | some receiver =>
    rw [GoesToEvm, codesOf_account found] at goes
    rw [Option.elim_some, andThen_ok, if_pos goes]
    exact not_not.mpr succeeded

/-- A transaction of the EVM that fails leaves everything but the gas of the block. -/
theorem runEvmTrx_failed (numbered : EvmCtrler.Numbered E) (exec : ctx.exec = true)
    (hash : ctx.txHash ≠ []) (removed : (r.ledgers .accounts).removed = [])
    (found : account r.ledgers (array20 ctx.tx.fromAddr) = some sender)
    (present : account r.ledgers ctx.tx.toAddr = some receiver)
    (size : ctx.tx.toAddr.length = addrSize) (goes : GoesToEvm ctx r.ledgers)
    (confined : ∀ state, r.evm.stateDB = some state →
      ConfinedTo P ctx r.evm state r.ledgers) {outcome : Except Fault TrxResult}
    (ran : run (trxHandler storeImpl) (runEvmTrx ctx) r = (outcome, r')) (failed : Failed outcome) :
    ∃ result gasPool, Unsuccessful result ∧ P result gasPool ∧
      r' = leavingGas r gasPool := by
  unfold runEvmTrx at ran
  rw [Prog.bind_eq, run_bind, run_executeTrx exec present
    (goes.imp id fun coded => codesOf_account present ▸ coded.2)] at ran
  cases opened : r.evm.stateDB with
  | none =>
    rw [opened] at ran
    cases ran
    exact failed.elim
  | some state =>
    have there : account r.ledgers (array20 ctx.tx.toAddr) = some receiver := by
      rwa [array20_of_length size]
    obtain ⟨applied, worked, fits, after⟩ :=
      apply_confined numbered found there (confined state opened)
    simp only [opened] at ran
    rw [run_execute worked] at ran
    by_cases unsuccessful : Unsuccessful applied.result
    · obtain ⟨retData, text, concluded⟩ :=
        run_conclude opened after unsuccessful
      rw [concluded, andThen_ok] at ran
      cases ran
      exact ⟨applied.result, applied.gasPool, unsuccessful, fits, rfl⟩
    · have kept := keepsCode_conclude state removed hash unsuccessful
        (toLedgerKey ctx.tx.toAddr)
      generalize run (trxHandler storeImpl) (conclude ctx r.evm state applied) r =
        concluded at ran kept
      obtain ⟨(e | p) | result, r₁⟩ := concluded
      · exact kept.elim
      · cases ran
        exact failed.elim
      · obtain ⟨succeeded, coded⟩ := kept
        rw [andThen_ok] at ran
        simp only [succeeded] at ran
        rw [run_ledger] at ran
        cases ran
        exact absurd failed (postRunTrx_evm succeeded (goes.imp_right (.imp_right coded)))

theorem native_of_not_goes (native : ¬ GoesToEvm ctx ls) : Native ctx ls where
  type contract := native (.inl contract)
  receiver transfer acct found := by
    rw [← codesOf_account found]
    exact not_not.mp fun coded => native (.inr ⟨transfer, coded⟩)

/-- If a transaction fails, nothing is written before it does: the account of its receiver is there,
an unstaking leaves a power that is not negative, a withdrawal can be credited, a transaction that
does not go to the EVM can pay its fee, and geth looks only at accounts that are there. -/
structure Harmless (ctx : TrxContext) (r : Workspace E) : Prop where
  receiver : ∃ acct, Stores.account r.ledgers ctx.tx.toAddr = some acct
  power : StakeCtrler.LeavesPower ctx r.ledgers
  credit : Creditable ctx r.ledgers
  fee : ¬ GoesToEvm ctx r.ledgers → (gasToFee ctx.tx.gas ctx.tx.gasPrice).isNegative = false
  confined : GoesToEvm ctx r.ledgers → ∀ state, r.evm.stateDB = some state →
    EvmCtrler.ConfinedTo (fun _ _ => True) ctx r.evm state r.ledgers

/-- If geth fails, it leaves the gas of the block. -/
def ReturnsGas (ctx : TrxContext) (r : Workspace E) : Prop :=
  GoesToEvm ctx r.ledgers → ∀ state, r.evm.stateDB = some state →
    EvmCtrler.ConfinedTo (fun result gasPool => EvmCtrler.Unsuccessful result →
      gasPool = r.evm.blockGasPool) ctx r.evm state r.ledgers

section

variable {lib : TrxLib} {json : ParamsJSON} {pubKey : HexBytes} {r₁ : Workspace E}
  {outcome : Except Fault TrxResult}

/-- A valid transaction that does not go to the EVM and fails has changed nothing. -/
theorem runTrx_failed_native (harmless : Harmless ctx r) (native : ¬ GoesToEvm ctx r.ledgers)
    (valid : run (trxHandler storeImpl) (validateTrx lib json ctx) r = (.ok pubKey, r₁))
    (ran : run (trxHandler storeImpl) (runTrx ctx pubKey) r₁ = (outcome, r'))
    (failed : Failed outcome) : r' = r := by
  obtain ⟨receiver, present⟩ := harmless.receiver
  have fee := (Uint256.isNegative_eq_false_iff _).mp (harmless.fee native)
  have native := native_of_not_goes native
  have ledgers : r₁.ledgers = r.ledgers := by
    have kept := ledgers_validateTrx lib json ctx r
    rwa [valid] at kept
  have native₁ := native
  have present₁ := present
  rw [← ledgers] at native₁ present₁
  rw [run_runTrx_native native₁ present₁] at ran
  generalize executed : exec (executeNative ctx pubKey) r₁.ledgers = ended
  have sequence : exec (runNative ctx (executeNative ctx pubKey)) r₁.ledgers =
      andThen (fun _ => exec (postRunTrx ctx ⟨0, [], none⟩)) ended := by
    unfold runNative
    rw [exec_bind, executed]
  obtain ⟨(e | p) | _, ls⟩ := ended
  · rw [run_ledger_of_exec sequence] at ran
    cases ran
    exact executeNative_error present native fee harmless.credit valid executed
  · rw [run_ledger_of_exec sequence] at ran
    cases ran
    exact failed.elim
  · obtain ⟨acct, -, -, -, charged⟩ := postRunTrx_charged present native fee
      (fun req acct withdraw payload found => (harmless.credit withdraw req acct payload found).2)
      valid executed
    rw [andThen_ok, charged] at sequence
    rw [run_ledger_of_exec sequence] at ran
    cases ran
    exact absurd rfl failed

/-- A valid transaction that goes to the EVM is run there. -/
theorem run_runTrx_evm (present : account r.ledgers ctx.tx.toAddr = some receiver)
    (goes : GoesToEvm ctx r.ledgers)
    (valid : run (trxHandler storeImpl) (validateTrx lib json ctx) r = (.ok pubKey, r₁)) :
    run (trxHandler storeImpl) (runTrx ctx pubKey) r₁ =
      run (trxHandler storeImpl) (runEvmTrx ctx) r := by
  obtain ⟨-, -, typed⟩ := validateTrx_ok valid
  unfold validateByType at typed
  rcases goes with contract | ⟨transfer, coded⟩
  · simp only [contract] at typed
    obtain rfl := run_ledger_unchanged (EvmCtrler.writes_validateTrx ctx) typed
    unfold runTrx
    rw [contract]
  · simp only [transfer] at typed
    obtain rfl := run_ledger_unchanged (AcctCtrler.writes_validateTrx ctx) typed
    rw [run_transfer transfer pubKey present, if_pos coded]

/-- What a transaction that fails leaves: everything, but for the gas that geth has used. -/
theorem executeSync_failed (numbered : EvmCtrler.Numbered E) (exec : ctx.exec = true)
    (hash : ctx.txHash ≠ []) (removed : (r.ledgers .accounts).removed = [])
    (found : account r.ledgers ctx.tx.fromAddr = some sender) (harmless : Harmless ctx r)
    (confined : GoesToEvm ctx r.ledgers → ∀ state, r.evm.stateDB = some state →
      ConfinedTo P ctx r.evm state r.ledgers)
    (ran : run (trxHandler storeImpl) (executeSync lib json ctx) r = (outcome, r'))
    (failed : Failed outcome) :
    r' = r ∨ ∃ result gasPool, Unsuccessful result ∧ P result gasPool ∧
      r' = leavingGas r gasPool := by
  unfold executeSync at ran
  rw [Prog.bind_eq, run_bind] at ran
  generalize valid : run (trxHandler storeImpl) (validateTrx lib json ctx) r = validated at ran
  obtain ⟨(e | p) | pubKey, r₁⟩ := validated
  · cases ran
    exact .inl (validateTrx_error harmless.power valid)
  · cases ran
    exact failed.elim
  · rw [andThen_ok] at ran
    by_cases goes : GoesToEvm ctx r.ledgers
    · obtain ⟨receiver, present⟩ := harmless.receiver
      obtain ⟨common, -, -⟩ := validateTrx_ok valid
      rw [run_runTrx_evm present goes valid] at ran
      rw [← array20_of_length common.sender] at found
      exact .inr (runEvmTrx_failed numbered exec hash removed found present common.receiver goes
        (confined goes) ran failed)
    · exact .inl (runTrx_failed_native harmless goes valid ran failed)

end

end TrxExecutor

/-! ## DeliverTx -/

namespace RigoApp

variable {X : External} {s t : Node X.evm}

/-- A node with another amount of gas left for the block. -/
def leavingGas (s : Node X.evm) (gasPool : Nat) : Node X.evm :=
  { s with toResources := EvmCtrler.leavingGas s.toResources gasPool }

theorem respond_failed {bctx : BlockContext} {ctx : TrxContext}
    {executed : Except Fault TrxResult × Workspace X.evm} {answer : TxResponse}
    (answered : respond s bctx ctx executed = (.ok answer, t)) (code : answer.code ≠ 0) :
    Failed executed.1 ∧ t = { s with toResources := executed.2 } := by
  obtain ⟨(e | p) | result, r⟩ := executed
  · cases answered
    exact ⟨trivial, rfl⟩
  · cases answered
  · simp only [respond] at answered
    split at answered
    · next e failed =>
      cases answered
      refine ⟨fun succeeded => ?_, rfl⟩
      cases failed.symm.trans succeeded
    · cases answered
      exact absurd rfl code

/-- What `DeliverTx` leaves if it fails. -/
theorem deliverTx_failed (numbered : EvmCtrler.Numbered X.evm) (hash : ∀ txbz, X.trx.txHash txbz ≠ [])
    (removed : (s.ledgers .accounts).removed = []) {txbz : HexBytes} {answer : TxResponse}
    (ran : DeliversTx X txbz s answer t)
    (code : answer.code ≠ 0) {P : Except String ExecutionResult → Nat → Prop}
    (harmless : ∀ bctx tx, s.mem.nextBlockCtx = some bctx → Trx.decode X.trx txbz = .ok tx →
      Harmless (ctxOf X s bctx txbz tx)
        s.toResources)
    (confined : ∀ bctx tx, s.mem.nextBlockCtx = some bctx → Trx.decode X.trx txbz = .ok tx →
      GoesToEvm (ctxOf X s bctx txbz tx)
        s.ledgers → ∀ state, s.evm.stateDB = some state → ConfinedTo P
          (ctxOf X s bctx txbz tx) s.evm state s.ledgers) :
    t = s ∨ ∃ result gasPool, Unsuccessful result ∧ P result gasPool ∧
      t = leavingGas s gasPool := by
  obtain ⟨bctx, tx, sender, inBlock, decoded, found, answered⟩ := deliverTx_ok ran
  have harmless := harmless bctx tx inBlock decoded
  obtain ⟨receiver, there⟩ := harmless.receiver
  have kept : withAccount s.ledgers tx.toAddr = s.ledgers := withAccount_found there
  rw [kept] at answered
  obtain ⟨failed, rfl⟩ := respond_failed answered code
  rcases executeSync_failed numbered rfl (hash txbz) removed found harmless
    (confined bctx tx inBlock decoded) (Prod.mk.eta).symm failed with same | ⟨result, gasPool, rest⟩
  · refine .inl ?_
    rw [same]
  · refine .inr ⟨result, gasPool, rest.1, rest.2.1, ?_⟩
    rw [rest.2.2]
    rfl

/-! ## The end of the block -/

/-- The nodes differ in the gas left for the block only. -/
def SameButGas (s t : Node X.evm) : Prop := ∃ gasPool, t = leavingGas s gasPool

namespace SameButGas

theorem app (same : SameButGas s t) {β : Type} (op : AppOp β) :
    NodesAlike SameButGas (RigoApp.app op) (RigoApp.app op) s t := by
  obtain ⟨gasPool, rfl⟩ := same
  cases op <;> exact ⟨rfl, gasPool, rfl⟩

theorem ledgerOrPanic (same : SameButGas s t) {β : Type} (p : LedgerProg β) :
    NodesAlike SameButGas (RigoApp.ledgerOrPanic p) (RigoApp.ledgerOrPanic p) s t := by
  obtain ⟨gasPool, rfl⟩ := same
  unfold NodesAlike RunsAlike
  rw [run_ledgerOrPanic, run_ledgerOrPanic]
  exact Alike.of_eq rfl ⟨gasPool, rfl⟩

theorem nextBlockCtx (same : SameButGas s t) :
    NodesAlike SameButGas RigoApp.nextBlockCtx RigoApp.nextBlockCtx s t := by
  refine RunsAlike.bind (same.app .getMem) fun m s' t' same' => ?_
  split
  · exact .pure _ same'
  · exact .fail _

theorem modifyMem (same : SameButGas s t) (f : Mem → Mem) :
    NodesAlike SameButGas (RigoApp.modifyMem f) (RigoApp.modifyMem f) s t :=
  RunsAlike.bind (same.app .getMem) fun _ _ _ same' => same'.app _

/-- The gas is not looked at when a block ends. -/
theorem endBlock (same : SameButGas s t) :
    NodesAlike SameButGas (RigoApp.endBlock X) (RigoApp.endBlock X) s t :=
  RunsAlike.bind (same.app .getMem) fun _ _ _ same =>
    RunsAlike.bind same.nextBlockCtx fun _ _ _ same =>
    RunsAlike.bind (same.ledgerOrPanic _) fun _ _ _ same =>
    RunsAlike.bind (same.ledgerOrPanic _) fun _ _ _ same =>
    RunsAlike.bind (same.ledgerOrPanic _) fun _ _ _ same =>
    RunsAlike.bind (same.app _) fun _ _ _ same => .pure _ same

theorem commitGov (same : SameButGas s t) :
    NodesAlike SameButGas (RigoApp.commitGov X) (RigoApp.commitGov X) s t := by
  refine RunsAlike.bind (same.app _) fun ⟨_, _⟩ _ _ same =>
    RunsAlike.bind (same.app _) fun ⟨_, _⟩ _ _ same =>
    RunsAlike.bind (same.app _) fun ⟨_, _⟩ _ _ same => ?_
  dsimp only
  split
  · exact .fail _
  · exact RunsAlike.bind (same.modifyMem _) fun _ _ _ same => .pure _ same

theorem saveRewardHash (same : SameButGas s t) (version : Int) (hash : HexBytes) :
    NodesAlike SameButGas (RigoApp.saveRewardHash version hash)
      (RigoApp.saveRewardHash version hash) s t := by
  unfold RigoApp.saveRewardHash
  split
  · exact RunsAlike.bind (same.app _) fun _ _ _ same => same.modifyMem _
  · exact .pure _ same

theorem commitStake (same : SameButGas s t) :
    NodesAlike SameButGas (RigoApp.commitStake X) (RigoApp.commitStake X) s t := by
  refine RunsAlike.bind (same.app _) fun ⟨_, _⟩ _ _ same =>
    RunsAlike.bind (same.app _) fun ⟨_, _⟩ _ _ same =>
    RunsAlike.bind (same.app _) fun ⟨_, _⟩ _ _ same => ?_
  dsimp only
  split
  · exact .fail _
  · exact RunsAlike.bind (same.saveRewardHash _ _) fun _ _ _ same =>
      RunsAlike.bind (same.app .getMem) fun _ _ _ same => .pure _ same

theorem commitEvm (same : SameButGas s t) :
    NodesAlike SameButGas (RigoApp.commitEvm X) (RigoApp.commitEvm X) s t := by
  obtain ⟨gasPool, rfl⟩ := same
  have opened : (leavingGas s gasPool).evm.stateDB = s.evm.stateDB := rfl
  unfold NodesAlike RunsAlike
  cases started : s.evm.stateDB with
  | none =>
    rw [started] at opened
    rw [run_commitEvm_none started, run_commitEvm_none opened]
    rfl
  | some state =>
    rw [started] at opened
    rw [run_commitEvm started, run_commitEvm opened]
    exact ⟨rfl, gasPool, rfl⟩

/-- The gas does not matter to the hash of the application. -/
theorem commit (same : SameButGas s t) :
    NodesAlike SameButGas (RigoApp.commit X) (RigoApp.commit X) s t := by
  refine RunsAlike.bind same.nextBlockCtx fun _ _ _ same =>
    RunsAlike.bind same.commitGov fun ⟨_, _⟩ _ _ same =>
    RunsAlike.bind (same.app _) fun ⟨_, _⟩ _ _ same =>
    RunsAlike.bind same.commitStake fun ⟨_, _⟩ _ _ same =>
    RunsAlike.bind same.commitEvm fun ⟨_, _⟩ _ _ same => ?_
  dsimp only
  split
  · exact .fail _
  · exact RunsAlike.bind (same.app _) fun _ _ _ same => RunsAlike.bind (same.app _) fun _ _ _ same =>
      RunsAlike.bind (same.modifyMem _) fun _ _ _ same => .pure _ same

/-- So the rest of a block without more transactions is answered alike. -/
theorem runCalls (same : SameButGas s t) :
    (RigoApp.runCalls X storeImpl [.endBlock, .commit] s).1 =
      (RigoApp.runCalls X storeImpl [.endBlock, .commit] t).1 := by
  refine runCalls_cons_alike
    (RunsAlike.bind same.endBlock fun _ _ _ same => RunsAlike.pure _ same) fun _ _ _ _ same => ?_
  exact runCalls_cons_alike
    (RunsAlike.bind same.commit fun _ _ _ same => RunsAlike.pure _ same) fun _ _ _ _ _ => rfl

end SameButGas

/-! ## Runs -/

/-- In every run, while the transactions of a block are delivered: if a transaction is answered with
a code that is not 0, and nothing was written before it failed, then all ledgers and the limiter are
as before, and if the block then ends it has the hash that it has without the transaction.  If geth
has not used the gas of the block, all later calls are answered as without the transaction. -/
theorem Run.failed_unchanged {mayRestart : Bool} {genesis : Genesis} {steps : List (Step X.evm)}
    {s t : App X.evm} (numbered : EvmCtrler.Numbered X.evm) (hash : ∀ txbz, X.trx.txHash txbz ≠ [])
    (ran : Run X mayRestart genesis .delivering steps s) {txbz : HexBytes} {answer : TxResponse}
    (delivered : run (nodeHandler X finalityImpl) (deliverTx X txbz) s = (.ok answer, t))
    (code : answer.code ≠ 0)
    (harmless : ∀ bctx tx, s.mem.nextBlockCtx = some bctx → Trx.decode X.trx txbz = .ok tx →
      TrxExecutor.Harmless (TrxExecutor.contextOf X.trx (deliverSetting s.mem bctx) txbz tx)
        (App.node s).toResources) :
    (App.node t).ledgers = (App.node s).ledgers ∧ t.limiter = s.limiter ∧
      (runCalls X finalityImpl [.endBlock, .commit] t).1 =
        (runCalls X finalityImpl [.endBlock, .commit] s).1 ∧
      ((∀ bctx tx, s.mem.nextBlockCtx = some bctx → Trx.decode X.trx txbz = .ok tx →
          TrxExecutor.ReturnsGas (TrxExecutor.contextOf X.trx (deliverSetting s.mem bctx) txbz tx)
            (App.node s).toResources) →
        ∀ calls, (runCalls X finalityImpl calls t).1 = (runCalls X finalityImpl calls s).1) := by
  have ran' := run_node_ok delivered
  have failed := fun {P} => deliverTx_failed numbered hash ran.accounts_removed ran' code (P := P)
    harmless
  have same : SameButGas (App.node s) (App.node t) := by
    rcases failed fun bctx tx inBlock decoded => (harmless bctx tx inBlock decoded).confined with
      same | ⟨_, gasPool, -, -, same⟩
    · exact ⟨_, same⟩
    · exact ⟨gasPool, same⟩
  refine ⟨?_, ?_, ?_, fun returns calls => ?_⟩
  · obtain ⟨gasPool, same⟩ := same
    rw [same]
    rfl
  · obtain ⟨gasPool, same⟩ := same
    exact congrArg (fun node => node.limiter) same
  · rw [(runCalls_node X _ t).1, (runCalls_node X _ s).1]
    exact same.runCalls.symm
  · rw [(runCalls_node X _ t).1, (runCalls_node X _ s).1]
    rcases failed returns with same | ⟨result, gasPool, unsuccessful, kept, same⟩
    · rw [same]
    · rw [same, kept unsuccessful]
      rfl

/-! ### Two transactions that fail -/

/-- Two transfers with a wrong nonce, to an account that is there and to a new address. -/
def failing : External :=
  Concrete.external ⟨[Concrete.trx .transfer 1 1 7 5 [], Concrete.trx .transfer 1 9 7 5 []],
    [], [], []⟩

def failingStart : App failing.evm :=
  (start failing (Concrete.genesis [(1, 10000000)])).toOption.get (by decide +kernel)

/-- The first block has begun. -/
def failingOpen : App failing.evm :=
  (runCalls failing finalityImpl [.beginBlock (Concrete.block 1)] failingStart).2

theorem run_failingOpen : Run failing false (Concrete.genesis [(1, 10000000)]) .delivering
    ([] ++ stepsOf failing [.beginBlock (Concrete.block 1)] failingStart) failingOpen :=
  (Run.start (eq_ok_of_isSome _)).calls [.beginBlock (Concrete.block 1)] rfl (by decide +kernel)

theorem numbered_failing : EvmCtrler.Numbered failing.evm where
  setAccount _ _ _ _ := rfl
  applyMessage _ _ _ := trivial

/-- The node after one of the transactions. -/
def failingAfter (txbz : HexBytes) : App failing.evm :=
  (run (nodeHandler failing finalityImpl) (deliverTx failing txbz) failingOpen).2

theorem deliverTx_failing (txbz : HexBytes)
    (answers : (run (nodeHandler failing finalityImpl) (deliverTx failing txbz)
      failingOpen).1.isOk = true)
    (fails : ∀ answer ∈ (run (nodeHandler failing finalityImpl) (deliverTx failing txbz)
      failingOpen).1.toOption, answer.code ≠ 0) :
    ∃ answer, run (nodeHandler failing finalityImpl) (deliverTx failing txbz) failingOpen =
      (.ok answer, failingAfter txbz) ∧ answer.code ≠ 0 := by
  obtain ⟨answer, delivered⟩ := exists_eq_ok answers
  refine ⟨answer, delivered, fails answer ?_⟩
  rw [delivered]
  rfl

/-- The first transfer leaves nothing. -/
theorem Run.failed_unchanged_transfer :
    ∃ answer, run (nodeHandler failing finalityImpl) (deliverTx failing [0]) failingOpen =
        (.ok answer, failingAfter [0]) ∧ answer.code ≠ 0 ∧
      (App.node (failingAfter [0])).ledgers = (App.node failingOpen).ledgers ∧
      ∀ calls, (runCalls failing finalityImpl calls (failingAfter [0])).1 =
        (runCalls failing finalityImpl calls failingOpen).1 := by
  obtain ⟨answer, delivered, code⟩ := deliverTx_failing [0] (by decide +kernel) (by decide +kernel)
  have transfer : ∀ tx ∈ (Trx.decode failing.trx [0]).toOption,
      tx.type = .transfer ∧ tx.toAddr = Concrete.addr 1 ∧
        (gasToFee tx.gas tx.gasPrice).isNegative = false := by decide +kernel
  have known : (Stores.account (App.node failingOpen).ledgers (Concrete.addr 1)).isSome = true := by
    decide +kernel
  obtain ⟨ledgers, -, -, later⟩ := Run.failed_unchanged numbered_failing
    (fun txbz => List.append_ne_nil_of_left_ne_nil (by decide) txbz) run_failingOpen delivered code
    fun bctx tx _ decoded => by
      obtain ⟨type, receiver, fee⟩ := transfer tx (by rw [decoded]; rfl)
      exact {
        receiver := Option.isSome_iff_exists.mp (receiver ▸ known)
        power := fun unstaking => by cases type.symm.trans unstaking
        credit := fun withdraw => by cases type.symm.trans withdraw
        fee := fun _ => fee
        confined := fun _ _ _ _ _ _ => trivial }
  exact ⟨answer, delivered, code, ledgers, later fun _ _ _ _ _ _ _ _ _ _ _ => rfl⟩

/-- The second leaves an account for its receiver, so the block has another hash. -/
theorem failed_creates_receiver :
    Run failing false (Concrete.genesis [(1, 10000000)]) .delivering
        ([] ++ stepsOf failing [.beginBlock (Concrete.block 1)] failingStart) failingOpen ∧
      (∃ answer, run (nodeHandler failing finalityImpl) (deliverTx failing [1]) failingOpen =
        (.ok answer, failingAfter [1]) ∧ answer.code ≠ 0) ∧
      (Stores.account (App.node failingOpen).ledgers (Concrete.addr 9)).isSome = false ∧
      (Stores.account (App.node (failingAfter [1])).ledgers (Concrete.addr 9)).isSome = true ∧
      (runCalls failing finalityImpl [.endBlock, .commit] (failingAfter [1])).1 ≠
        (runCalls failing finalityImpl [.endBlock, .commit] failingOpen).1 :=
  ⟨run_failingOpen, deliverTx_failing [1] (by decide +kernel) (by decide +kernel), by decide +kernel,
    by decide +kernel, by decide +kernel⟩

end RigoApp

end Rigo
