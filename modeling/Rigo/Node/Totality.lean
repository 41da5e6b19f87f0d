import Rigo.Node.Addresses
import Rigo.Node.Choices
import Rigo.Node.Contracts
import Rigo.Node.Heights
import Rigo.Node.Panics
import Rigo.Node.Rewards

/-!
# When DeliverTx returns

A transaction is executed with pointers to the accounts of its sender and its receiver; they
exist from the moment its context is made, and nothing deletes accounts.  Code that counts on
these accounts only, and panics nowhere else, is `Quiet`.  Most of the code of a transaction
is.  What is left are the panics of a staking, of an unstaking and of a withdrawal, whose
conditions are computed in `Panics`, and the context itself, which is nil if the bytes do not
decode or the sender is unknown.
-/

namespace Rigo

open Foundation
open AcctCtrler Ctrler EvmCtrler GovCtrler LedgerProg StakeCtrler TrxExecutor

variable {accessed : Accessed} {ls : Stores} {ctx : TrxContext} {lib : TrxLib}

/-- There are accounts under the keys in `K`. -/
def Present (K : LedgerKey → Prop) (k : LedgerKey) (found : Option Account) : Prop :=
  K k → found.isSome = true

/-- Code that does not panic if there are accounts under the keys in `K`. -/
abbrev Quiet {α : Type} (K : LedgerKey → Prop) (p : LedgerProg α) : Prop :=
  Calm (keeping .accounts (Present K)) (fun _ => False) p

section

variable {α : Type} {K : LedgerKey → Prop} {p : LedgerProg α}

/-- Quiet code ends without a panic, and leaves the accounts. -/
theorem Quiet.wp (quiet : Quiet K p) {bad : Panic → Prop}
    (holds : Holds .accounts (Present K) ls) :
    wp (ledgerHandler storeImpl) (Fault.Avoids bad) p
      (fun _ ls' => Holds .accounts (Present K) ls') ls := by
  refine wp_mono (Obeys.wp (h := ledgerHandler storeImpl) (fun op _ holds asks =>
    honours_keeping op holds asks) quiet (fun fault ended => ?_) holds) ?_
  · cases fault with
    | xerr e => trivial
    | panic p => exact ended.elim
  · exact fun _ _ ended => ended.2

/-- Code that deletes no accounts. -/
theorem Calm.quiet (calm : Calm (writing (fun _ => True) (· ≠ .accounts)) (fun _ => False) p) :
    Quiet K p := by
  refine Obeys.weaken calm (fun op asks => ?_) fun _ _ _ => trivial
  cases op with
  | set l x =>
    rintro rfl _
    rfl
  | del l k => exact asks
  | cancelSet l k => exact asks
  | get _ _ => trivial
  | readAll _ => trivial
  | immutableAt _ _ => trivial

/-- Anything may be set: an account that is set is there. -/
theorem quiet_set {l : LedgerId} (x : l.Item) : Quiet K (set l x) := (writes_set trivial x).quiet

theorem quiet_amountToPower {amt : Uint256} (fits : 0 ≤ powerOf amt) :
    Quiet K (amountToPower amt) := calm_amountToPower (not_lt.mpr fits)

end

/-! ## Accounts -/

namespace AcctCtrler

variable {K : LedgerKey → Prop}

theorem quiet_accountAt {addr : Address} (known : K (toLedgerKey addr)) :
    Quiet K (accountAt addr) := by
  refine ⟨trivial, fun answer granted => ?_⟩
  have here : answer.toOption.isSome = true := granted.1 rfl known
  cases answer with
  | error e => cases here
  | ok acct => trivial

theorem quiet_transfer {sender receiver : Address} (first : K (toLedgerKey sender))
    (second : K (toLedgerKey receiver)) (amt : Uint256) :
    Quiet K (transfer sender receiver amt) := by
  refine (quiet_accountAt first).seq fun acct0 => (calm_ofExcept _).seq fun acct0' => ?_
  refine Calm.seq ?_ fun acct1 => (calm_ofExcept _).seq fun acct1' =>
    (quiet_set _).seq fun _ => quiet_set _
  unfold receiverOf
  split
  · trivial
  · exact quiet_accountAt second

theorem quiet_validateTrx (typed : ctx.tx.WellTyped) :
    Quiet K (validateTrx ctx) := by
  unfold validateTrx
  cases type : ctx.tx.type with
  | setDoc =>
    cases payload : ctx.tx.payload with
    | setDoc doc => exact (calm_ensure _ _).seq fun _ => calm_ensure _ _
    | _ => simp only [Trx.WellTyped, type, payload] at typed
  | _ => trivial

theorem quiet_executeTrx (typed : ctx.tx.WellTyped)
    (sender : K (toLedgerKey ctx.tx.fromAddr)) (receiver : K (toLedgerKey ctx.tx.toAddr)) :
    Quiet K (executeTrx ctx) := by
  unfold executeTrx
  split
  · exact quiet_transfer sender receiver _
  · next type =>
    cases payload : ctx.tx.payload with
    | setDoc doc =>
      exact (quiet_accountAt sender).seq fun _ => (quiet_set _).seq fun _ =>
        (quiet_accountAt receiver).seq fun _ => quiet_set _
    | _ => simp only [Trx.WellTyped, type, payload] at typed
  · exact (quiet_accountAt sender).seq fun _ => (quiet_set _).seq fun _ =>
      (quiet_accountAt receiver).seq fun _ => quiet_set _

end AcctCtrler

/-! ## Governance -/

namespace GovCtrler

variable {K : LedgerKey → Prop}

theorem quiet_execProposing (typed : ctx.tx.WellTyped)
    (type : ctx.tx.type = .proposal) : Quiet K (execProposing ctx) := by
  unfold execProposing
  cases payload : ctx.tx.payload with
  | proposal proposed => exact quiet_set _
  | _ => simp only [Trx.WellTyped, type, payload] at typed

end GovCtrler

/-! ## Stakes -/

namespace StakeCtrler

variable {K : LedgerKey → Prop} {ctx : TrxContext}

theorem quiet_exeStaking (sender : K (toLedgerKey ctx.tx.fromAddr))
    (fits : 0 ≤ powerOf ctx.tx.amount) (pubKey : HexBytes) : Quiet K (exeStaking ctx pubKey) := by
  have stakeOn (d : Delegatee) : Quiet K (exeStaking.stakeOn ctx d) :=
    (quiet_accountAt sender).seq fun _ => (calm_ofExcept _).seq fun _ =>
      (quiet_set _).seq fun _ => (quiet_amountToPower fits).seq fun _ => quiet_set _
  refine (writes_findDelegatee _).quiet.seq fun found => ?_
  cases found with
  | some d => exact stakeOn d
  | none =>
    simp only
    split
    · exact stakeOn _
    · trivial

theorem quiet_exeUnstaking {txHash : HexBytes} (payload : ctx.tx.payload = .unstaking txHash) :
    Quiet K (exeUnstaking ctx) :=
  Calm.keeping (S := (· ≠ .accounts))
    (writes_exeUnstaking (by decide) (by decide) fun other => other _ payload) (not_not.mpr rfl)

/-- The part of `exeWithdraw` after the record was cut. -/
theorem quiet_payOut (addr : Address) (amt : Uint256) (rwd : Reward) :
    Quiet K (do
      set .rewards rwd
      match ← tryXError (reward addr amt) with
      | .ok () => return ()
      | .error e =>
        cancelSet .rewards (LedgerItem.key rwd)
        throwX e) := by
  refine (quiet_set _).seq fun _ => (writes_reward trivial _ _).quiet.tryXError.seq fun caught => ?_
  cases caught with
  | ok _ => trivial
  | error e => exact (writes_cancelSet (by decide) _).quiet.seq fun _ => trivial

/-- A staking that is not refused: the powers of its amount and of the minimum it is compared
with fit 64 bits, the power of the delegatee does not overflow, and the limiter does not
break. -/
def StakingFits (ctx : TrxContext) (d : Option Delegatee) (limit : Prop) : Prop :=
  let power := powerOf ctx.tx.amount
  Whole ctx.tx.amount → 0 ≤ power ∧
    (ctx.tx.fromAddr = ctx.tx.toAddr →
      0 ≤ powerOf ctx.params.minValidatorStake ∧
        (powerOf ctx.params.minValidatorStake ≤ selfPowerAfter d power →
          0 < i64 (totalPowerOf d + power) ∧ limit)) ∧
    (ctx.tx.fromAddr ≠ ctx.tx.toAddr → ∀ d₀, d = some d₀ →
      0 ≤ powerOf ctx.params.minDelegatorStake ∧
        (EnoughToDelegate ctx.params power → i64 (d₀.totalPower + power) ≠ 0 ∧
          (ctx.params.minSelfStakeRatio ≤ selfRatioAfter d₀ power →
            0 < i64 (d₀.totalPower + power) ∧ limit)))

theorem wp_validateStaking_any {post : Delegatee × Int → Prop} :
    wp (ledgerHandler storeImpl) (Fault.Avoids anyPanic) (validateStaking ctx)
      (fun asked _ => post asked) ls ↔
    StakingFits ctx ((ls .delegatees).lookup (toLedgerKey ctx.tx.toAddr))
      (post (((ls .delegatees).lookup (toLedgerKey ctx.tx.toAddr)).getD
        (Delegatee.newDelegatee ctx.tx.toAddr []), powerOf ctx.tx.amount)) := by
  have fits {x : Int} {p : Panic} {q : Prop} :
      (x < 0 → ¬ anyPanic p) ∧ (0 ≤ x → q) ↔ 0 ≤ x ∧ q := by
    simp only [anyPanic, not_true, imp_false, not_lt]
    exact and_congr_right fun holds => by simp [holds]
  have grows {x : Int} {p : Panic} {q : Prop} :
      (x ≤ 0 → ¬ anyPanic p) ∧ (¬ x ≤ 0 → q) ↔ 0 < x ∧ q := by
    simp only [anyPanic, not_true, imp_false, not_le]
    exact and_congr_right fun holds => by simp [holds]
  have divides {x : Int} {p : Panic} {q : Prop} :
      (x = 0 → ¬ anyPanic p) ∧ (x ≠ 0 → q) ↔ x ≠ 0 ∧ q := by
    simp only [anyPanic, not_true, imp_false]
    exact and_congr_right fun holds => by simp [holds]
  rw [wp_validateStaking, StakingFits]
  refine imp_congr_right fun _ => ?_
  rw [fits]
  refine and_congr_right fun _ => ?_
  unfold validateStaker
  simp only [wp_ite, wp_validateSelfStaking, wp_validateDelegating, Asks, fits, grows,
    divides, ne_eq]

/-- An unstaking that is not refused: the limiter does not break. -/
def UnstakingFits (ctx : TrxContext) (txHash : HexBytes) (d : Option Delegatee)
    (sl : StakeLimiter) : Prop :=
  ∀ d₀, d = some d₀ → ∀ s0, Unstakes ctx txHash d₀ s0 →
    LimitFits sl ctx.validators d₀ (i64 (-1 * s0.power))

/-- A withdrawal that is not refused: the record is not ahead of the block. -/
def WithdrawFits (ctx : TrxContext) (reqAmt : Uint256) (record : Option Reward) : Prop :=
  ctx.tx.amount = 0 → ∀ rwd, record = some rwd → ¬ rwd.cumulated < reqAmt →
    rwd.height ≤ ctx.height

theorem wp_validateWithdraw {reqAmt : Uint256} (payload : ctx.tx.payload = .withdraw reqAmt)
    {bad : Panic → Prop} {post : Unit → Stores → Prop} :
    wp (ledgerHandler storeImpl) (Fault.Avoids bad) (validateWithdraw ctx) post ls ↔
      (ctx.tx.amount = 0 → ∀ rwd, (ls .rewards).lookup (toLedgerKey ctx.tx.fromAddr) = some rwd →
        ¬ rwd.cumulated < reqAmt → post () ls) := by
  simp only [validateWithdraw, payload, Prog.bind_eq, wp_bind, wp_ensure, wp_get,
    wp_ofExcept, Store.get, found_eq_ok, beq_iff_eq, decide_eq_true_eq]

end StakeCtrler

/-! ## The executor -/

namespace TrxExecutor

variable {K : LedgerKey → Prop} {ctx : TrxContext}

theorem quiet_commonValidation1 (sender : K (toLedgerKey ctx.tx.fromAddr)) :
    Quiet K (commonValidation1 ctx) := by
  refine (quiet_accountAt sender).seq fun acct => (calm_ofExcept _).seq fun _ => ?_
  split
  · trivial
  · trivial

theorem quiet_postRunTrx (sender : K (toLedgerKey ctx.tx.fromAddr))
    (receiver : K (toLedgerKey ctx.tx.toAddr)) (result : TrxResult) :
    Quiet K (postRunTrx ctx result) := by
  refine (quiet_accountAt receiver).seq fun _ => ?_
  split
  · trivial
  · exact (quiet_accountAt sender).seq fun _ => (calm_ofExcept _).seq fun _ =>
      (quiet_set _).seq fun _ => trivial

end TrxExecutor

namespace EvmCtrler

variable {K : LedgerKey → Prop} {E : EvmLib}

theorem quiet_validateTrx (receiver : K (toLedgerKey ctx.tx.toAddr)) :
    Quiet K (validateTrx E ctx) := by
  refine (quiet_accountAt receiver).seq fun _ => (calm_ensure _ _).seq fun _ => ?_
  split
  · trivial
  · exact calm_ensure _ _

end EvmCtrler

/-! ## The EVM -/

/-- geth touches an address in every run that succeeds. -/
def EvmRun.Reaches {S : Type} (target : Address) : EvmRun S → Prop
  | .access addr next => addr = target ∨ ∀ loaded, (next loaded).Reaches target
  | .snapshot _ next => next.Reaches target
  | .revert _ next => next.Reaches target
  | .done result _ _ => ∀ executed, result = .ok executed → executed.err ≠ none

/-- geth puts the address of a contract it creates on the access list. -/
def EvmLib.ReachesCreated (E : EvmLib) : Prop :=
  ∀ (state : E.State) (msg : EvmMessage) (gasPool : Nat), msg.toAddr = none →
    (E.applyMessage state msg gasPool).Reaches (E.createAddress msg.fromAddr msg.nonce)

/-- The keys in `K`, and the key of an address. -/
def AlsoAt (K : LedgerKey → Prop) (addr : Address) (k : LedgerKey) : Prop :=
  K k ∨ k = toLedgerKey addr

section

variable {K K' : LedgerKey → Prop} {ls : Stores}

theorem Holds.fewer (holds : Holds .accounts (Present K') ls) (fewer : ∀ k, K k → K' k) :
    Holds .accounts (Present K) ls :=
  ⟨holds.1, fun k known => holds.2 k (fewer k known)⟩

/-- An account that is created is there. -/
theorem Holds.withAccount (holds : Holds .accounts (Present K) ls) (addr : Address) :
    Holds .accounts (Present (AlsoAt K addr)) (ls.withAccount addr) := by
  unfold Stores.withAccount
  cases found : ls.account addr with
  | some acct =>
    refine ⟨holds.1, fun k known => ?_⟩
    rcases known with known | rfl
    · exact holds.2 k known
    · exact Option.isSome_of_eq_some found
  | none =>
    simp only
    refine ⟨by rw [Stores.put_self]; exact holds.1, fun k known => ?_⟩
    rw [Stores.put_self, Store.lookup_set_of_removed holds.1]
    split
    · rfl
    · next other =>
      rcases known with known | rfl
      · exact holds.2 k known
      · exact absurd rfl other

end

namespace EvmCtrler

variable {E : EvmLib} {bad : Panic → Prop} {K : LedgerKey → Prop} {ls : Stores}

/-- There are accounts for the addresses that were copied in. -/
abbrev Loaded (K : LedgerKey → Prop) (accessed : Accessed) : Prop :=
  AllIn (fun addr => K (toLedgerKey addr)) accessed

theorem wp_addAccessedObjAddr (holds : Holds .accounts (Present K) ls)
    (loaded : Loaded K accessed) (snapshot : Nat) (addr : Address) :
    wp (ledgerHandler storeImpl) (Fault.Avoids bad) (addAccessedObjAddr accessed snapshot addr)
      (fun found ls' => Holds .accounts (Present (AlsoAt K addr)) ls' ∧
        Loaded (AlsoAt K addr) found.2) ls := by
  unfold addAccessedObjAddr
  split
  · next known =>
    obtain ⟨entry, member, same⟩ := List.any_eq_true.mp known
    obtain rfl : entry.1 = addr := eq_of_beq same
    refine ⟨holds.fewer fun k known => ?_, fun entry member => .inl (loaded entry member)⟩
    rcases known with known | rfl
    · exact known
    · exact loaded entry member
  · simp only [Prog.bind_eq, wp_bind]
    refine (wp_of_ok (exec_findOrNewAccount addr ls)).mpr ?_
    refine ⟨holds.withAccount addr, fun entry member => ?_⟩
    rcases List.mem_append.mp member with old | new
    · exact .inl (loaded entry old)
    · rw [List.mem_singleton.mp new]
      exact .inr rfl

/-- A run of geth leaves the accounts, and one that succeeds the account it reaches. -/
theorem wp_runEvm {tree : EvmRun E.State} {target : Address}
    (reaches : tree.Reaches target ∨ K (toLedgerKey target))
    (holds : Holds .accounts (Present K) ls) (loaded : Loaded K accessed)
    (snapshot : Nat) :
    wp (ledgerHandler storeImpl) (Fault.Avoids bad) (runEvm tree accessed snapshot)
      (fun applied ls' => Holds .accounts (Present K) ls' ∧
        ∀ executed, applied.result = .ok executed → executed.err = none →
          Holds .accounts (Present (AlsoAt K target)) ls') ls := by
  induction tree generalizing K ls accessed snapshot with
  | access addr next ih =>
    simp only [runEvm, Prog.bind_eq, wp_bind]
    refine wp_mono (wp_addAccessedObjAddr holds loaded snapshot addr) ?_
    rintro ⟨found, accessed'⟩ ls' ⟨holds', loaded'⟩
    have reaches' : (next found).Reaches target ∨ AlsoAt K addr (toLedgerKey target) := by
      rcases reaches with (rfl | later) | known
      · exact .inr (.inr rfl)
      · exact .inl (later found)
      · exact .inr (.inl known)
    refine wp_mono (ih found reaches' holds' loaded' snapshot) ?_
    rintro applied ls'' ⟨kept, created⟩
    refine ⟨kept.fewer fun k known => .inl known, fun executed done succeeded => ?_⟩
    exact (created executed done succeeded).fewer fun k known =>
      known.elim (fun known => .inl (.inl known)) .inr
  | snapshot id next ih => exact ih reaches holds loaded id
  | revert id next ih => exact ih reaches holds (loaded.revert id) snapshot
  | done result state gasPool =>
    refine ⟨holds, fun executed done succeeded => ?_⟩
    rcases reaches with failed | known
    · exact absurd succeeded (failed executed done)
    · refine holds.fewer fun k here => ?_
      rcases here with here | rfl
      · exact here
      · exact known

theorem wp_load (holds : Holds .accounts (Present K) ls)
    (loaded : Loaded K accessed) (snapshot : Nat) (state : E.State) (addr : Address) :
    wp (ledgerHandler storeImpl) (Fault.Avoids bad) (load accessed snapshot state addr)
      (fun found ls' => Holds .accounts (Present (AlsoAt K addr)) ls' ∧
        Loaded (AlsoAt K addr) found.2) ls := by
  simp only [load, Prog.bind_eq, wp_bind]
  refine wp_mono (wp_addAccessedObjAddr holds loaded snapshot addr) ?_
  rintro ⟨_ | ⟨nonce, balance⟩, accessed'⟩ ls' ended
  · exact ended
  · exact ended

theorem wp_prepare (holds : Holds .accounts (Present K) ls) (state : E.State) (snap : Nat)
    (sender receiver : Address) :
    wp (ledgerHandler storeImpl) (Fault.Avoids bad) (prepare state snap sender receiver)
      (fun found ls' => ∃ K' : LedgerKey → Prop, (∀ k, K k → K' k) ∧
        Holds .accounts (Present K') ls' ∧ Loaded K' found.2) ls := by
  simp only [prepare, Prog.bind_eq, wp_bind]
  refine wp_mono
    (wp_load holds (fun _ member => absurd member List.not_mem_nil) snap state _) ?_
  rintro ⟨state', accessed⟩ ls' ⟨holds', loaded⟩
  simp only [wp_ite]
  refine ⟨fun _ => ⟨_, fun k known => .inl known, holds', loaded⟩, fun _ => ?_⟩
  refine wp_mono (wp_load holds' loaded snap state' _) ?_
  rintro found ls'' ⟨holds'', loaded'⟩
  exact ⟨_, fun k known => .inl (.inl known), holds'', loaded'⟩

theorem wp_recordCreation (holds : Holds .accounts
      (Present (AlsoAt K (E.createAddress (array20 ctx.tx.fromAddr) ctx.tx.nonce))) ls) :
    wp (ledgerHandler storeImpl) (Fault.Avoids bad) (recordCreation E ctx)
      (fun _ ls' => Holds .accounts (Present K) ls') ls := by
  have there := holds.2 _ (.inr rfl)
  obtain ⟨acct, found⟩ := Option.isSome_iff_exists.mp there
  have ran := exec_recordCreation E ctx ls
  rw [show ls.account (E.createAddress (array20 ctx.tx.fromAddr) ctx.tx.nonce) = some acct
    from found] at ran
  refine (wp_of_ok ran).mpr ?_
  refine Holds.put (holds.fewer fun k known => .inl known) ?_
  rintro _ _
  rfl

variable {r : Workspace E}

theorem wp_undo (holds : Holds .accounts (Present K) r.ledgers) (m : EvmMem E) (state : E.State)
    (snap : Nat) (applied : Applied E.State) :
    wp (trxHandler storeImpl) (Fault.Avoids bad) (undo m state snap applied)
      (fun _ r' => Holds .accounts (Present K) r'.ledgers) r := by
  simp only [undo, Prog.bind_eq, wp_bind, wp_ledger]
  exact wp_mono ((Calm.quiet (writes_finish trivial _ _)).wp holds) fun _ _ kept => kept

theorem wp_execute (law : E.ReachesCreated) (holds : Holds .accounts (Present K) r.ledgers)
    (ctx : TrxContext) (m : EvmMem E) (state : E.State) :
    wp (trxHandler storeImpl) (Fault.Avoids bad) (execute ctx m state)
      (fun _ r' => Holds .accounts (Present K) r'.ledgers) r := by
  have undone (r' : Workspace E) (holds : Holds .accounts (Present K) r'.ledgers)
      (applied : Applied E.State) (result : TrxResult) :
      wp (trxHandler storeImpl) (Fault.Avoids bad)
        (undo m state (E.snapshot state) applied >>= fun _ => pure result)
        (fun _ r' => Holds .accounts (Present K) r'.ledgers) r' := by
    simp only [Prog.bind_eq, wp_bind]
    exact wp_mono (wp_undo holds m state _ applied) fun _ _ kept => kept
  simp only [execute, Prog.bind_eq, wp_bind, wp_ledger]
  refine wp_mono (wp_prepare holds state _ _ _) ?_
  rintro ⟨prepared, accessed⟩ ls₁ ⟨K', more, holds₁, loaded⟩
  simp only
  -- a creation reaches the address of the contract; a call has nothing to reach
  let created := E.createAddress (array20 ctx.tx.fromAddr) ctx.tx.nonce
  have reached : wp (ledgerHandler storeImpl) (Fault.Avoids bad)
      (runEvm (E.applyMessage prepared (evmMessage ctx m) m.blockGasPool) accessed
        (E.snapshot state))
      (fun applied ls' => Holds .accounts (Present K) ls' ∧
        (isZeroAddress ctx.tx.toAddr = true → ∀ executed, applied.result = .ok executed →
          executed.err = none → Holds .accounts (Present (AlsoAt K created)) ls')) ls₁ := by
    by_cases creation : isZeroAddress ctx.tx.toAddr = true
    · have reaches := law prepared (evmMessage ctx m) m.blockGasPool (if_pos creation)
      refine wp_mono (wp_runEvm (.inl reaches) holds₁ loaded _) ?_
      rintro applied ls₂ ⟨kept, present⟩
      refine ⟨kept.fewer more, fun _ executed done succeeded => ?_⟩
      exact (present executed done succeeded).fewer fun k known => known.imp_left (more k)
    · refine wp_mono ((Calm.quiet (writes_runEvm trivial _ _ _)).wp holds₁) fun applied ls₂ kept => ?_
      exact ⟨kept.fewer more, fun zero => absurd zero creation⟩
  refine wp_mono reached ?_
  rintro applied ls₂ ⟨kept, present⟩
  cases done : applied.result with
  | error err => exact undone { r with ledgers := ls₂ } kept applied _
  | ok executed =>
    simp only
    cases succeeded : executed.err with
    | some err => exact undone { r with ledgers := ls₂ } kept applied _
    | none =>
      simp only [wp_bind, wp_ledger, wp_setEvm, wp_ite]
      by_cases creation : isZeroAddress ctx.tx.toAddr = true
      · have account := present creation executed done succeeded
        refine wp_mono ((Calm.quiet (writes_finish trivial _ _)).wp account) fun _ ls₃ account' => ?_
        refine ⟨fun _ => ?_, fun call => absurd creation call⟩
        exact wp_mono (wp_recordCreation account') fun _ _ kept' => kept'
      · refine wp_mono ((Calm.quiet (writes_finish trivial _ _)).wp kept) fun _ ls₃ kept' => ?_
        exact ⟨fun zero => absurd zero creation, fun _ => kept'⟩

/-- `EVMCtrler.ExecuteTrx` does not panic in a block. -/
theorem wp_executeTrx (law : E.ReachesCreated) (opened : r.evm.stateDB.isSome = true)
    (receiver : K (toLedgerKey ctx.tx.toAddr))
    (holds : Holds .accounts (Present K) r.ledgers) :
    wp (trxHandler storeImpl) (Fault.Avoids bad) (executeTrx ctx)
      (fun _ r' => Holds .accounts (Present K) r'.ledgers) r := by
  obtain ⟨state, opened⟩ := Option.isSome_iff_exists.mp opened
  unfold executeTrx
  rw [wp_ite]
  refine ⟨fun _ => holds, fun _ => ?_⟩
  simp only [Prog.bind_eq, wp_bind, wp_ledger]
  refine wp_mono ((quiet_accountAt receiver).wp holds) fun acct ls kept => ?_
  rw [wp_ite]
  refine ⟨fun _ => kept, fun _ => ?_⟩
  simp only [wp_bind, wp_getEvm, opened]
  exact wp_execute law kept ctx _ state

end EvmCtrler

/-! ## Running a transaction -/

namespace TrxExecutor

variable {E : EvmLib} {bad : Panic → Prop} {K : LedgerKey → Prop} {r : Workspace E}
  {ctx : TrxContext}

/-- The accounts of a context. -/
structure Pointers (K : LedgerKey → Prop) (ctx : TrxContext) (ls : Stores) : Prop where
  sender : K (toLedgerKey ctx.tx.fromAddr)
  receiver : K (toLedgerKey ctx.tx.toAddr)
  holds : Holds .accounts (Present K) ls

theorem Pointers.native (pointers : Pointers K ctx r.ledgers) {execute : LedgerProg Unit}
    (quiet : Quiet K execute) :
    wp (trxHandler storeImpl) (Fault.Avoids bad)
      (ledger (runNative ctx execute) : Ctrler E TrxResult) (fun _ _ => True) r := by
  rw [wp_ledger]
  refine wp_mono (Quiet.wp (K := K) ?_ pointers.holds) fun _ _ _ => trivial
  exact quiet.seq fun _ => quiet_postRunTrx pointers.sender pointers.receiver _

theorem Pointers.runEvmTrx (pointers : Pointers K ctx r.ledgers) (law : E.ReachesCreated)
    (opened : r.evm.stateDB.isSome = true) :
    wp (trxHandler storeImpl) (Fault.Avoids bad) (TrxExecutor.runEvmTrx ctx) (fun _ _ => True)
      r := by
  have pays {r' : Workspace E} (holds : Holds .accounts (Present K) r'.ledgers)
      (result : TrxResult) : wp (trxHandler storeImpl) (Fault.Avoids bad)
        (Ctrler.ledger (postRunTrx ctx result)) (fun _ _ => True) r' := by
    rw [wp_ledger]
    exact wp_mono ((quiet_postRunTrx pointers.sender pointers.receiver _).wp holds)
      fun _ _ _ => trivial
  simp only [TrxExecutor.runEvmTrx, Prog.bind_eq, wp_bind]
  refine wp_mono
    (EvmCtrler.wp_executeTrx law opened pointers.receiver pointers.holds) fun result r' kept => ?_
  cases result.failed with
  | none => exact pays kept _
  | some e =>
    simp only [wp_ite]
    exact ⟨fun _ => pays kept _, fun _ => trivial⟩

theorem Pointers.transfer (pointers : Pointers K ctx r.ledgers) (law : E.ReachesCreated)
    (opened : r.evm.stateDB.isSome = true) (typed : ctx.tx.WellTyped)
    (type : ctx.tx.type = .transfer) (pubKey : HexBytes) :
    wp (trxHandler storeImpl) (Fault.Avoids bad) (runTrx ctx pubKey) (fun _ _ => True) r := by
  simp only [runTrx, type, Prog.bind_eq, wp_bind, wp_ledger]
  refine wp_mono ((quiet_accountAt pointers.receiver).wp pointers.holds)
    fun receiver ls kept => ?_
  have pointers' : Pointers K ctx ({ r with ledgers := ls } : Workspace E).ledgers :=
    ⟨pointers.sender, pointers.receiver, kept⟩
  simp only [wp_ite]
  refine ⟨fun _ => pointers'.runEvmTrx law opened, fun _ => ?_⟩
  exact pointers'.native
    (quiet_executeTrx typed pointers.sender pointers.receiver)

/-- A valid vote is counted. -/
theorem Pointers.voting (pointers : Pointers K ctx r.ledgers) (type : ctx.tx.type = .voting)
    (chosen : Everywhere .proposals GovProposal.Chosen r.ledgers)
    (valid : exec (validateVoting ctx) r.ledgers = (.ok (), ls)) (pubKey : HexBytes) :
    wp (trxHandler storeImpl) (Fault.Avoids bad) (runTrx ctx pubKey) (fun _ _ => True) r := by
  obtain ⟨payload, prop, voted, found, -, high, -⟩ := validateVoting_ok valid
  simp only [runTrx, GovCtrler.executeTrx, type, wp_ledger, runNative, Prog.bind_eq,
    wp_bind, execVoting, voted, wp_get, wp_ofExcept, Store.get, found_eq_ok]
  intro prop' found'
  cases found.symm.trans found'
  rcases (Store.All.lookup chosen found).vote (F := LedgerOp) ctx.tx.fromAddr high with
    ⟨e, missing⟩ | ⟨counted, added, -⟩
  · rw [missing]
    trivial
  · rw [added, wp_pure, wp_set]
    have kept : Holds .accounts (Present K) (Stores.put r.ledgers .proposals counted) := by
      refine pointers.holds.put fun same => ?_
      cases same
    exact wp_mono
      ((quiet_postRunTrx pointers.sender pointers.receiver _).wp kept) fun _ _ _ => trivial

/-- A withdrawal panics if the record is ahead of the block. -/
theorem Pointers.withdraw (pointers : Pointers K ctx r.ledgers) (type : ctx.tx.type = .withdraw)
    {reqAmt : Uint256} (payload : ctx.tx.payload = .withdraw reqAmt) {rwd : Reward}
    (record : (r.ledgers .rewards).lookup (toLedgerKey ctx.tx.fromAddr) = some rwd)
    (pubKey : HexBytes) :
    wp (trxHandler storeImpl) (Fault.Avoids anyPanic) (runTrx ctx pubKey) (fun _ _ => True) r ↔
      rwd.height ≤ ctx.height := by
  simp only [runTrx, StakeCtrler.executeTrx, type, wp_ledger, runNative, Prog.bind_eq,
    wp_bind, exeWithdraw, payload, wp_get, wp_ofExcept, Store.get,
    found_eq_ok]
  constructor
  · intro ends
    have cut := ends rwd record
    by_contra ahead
    rw [Reward.withdraw_eq, if_neg ahead] at cut
    exact cut trivial
  · intro behind rwd' record'
    cases record.symm.trans record'
    rw [Reward.withdraw_eq, if_pos behind, wp_pure]
    have pays := (quiet_payOut (K := K) ctx.tx.fromAddr reqAmt
      (rwd.withdrawnFrom reqAmt ctx.height)).seq fun _ =>
        quiet_postRunTrx pointers.sender pointers.receiver ⟨0, [], none⟩
    have ends : wp _ (Fault.Avoids anyPanic) _ _ r.ledgers := Quiet.wp pays pointers.holds
    simp only [Prog.bind_eq, wp_bind] at ends
    exact wp_mono ends fun _ _ kept => wp_mono kept fun _ _ kept =>
      wp_mono kept fun _ _ kept => wp_mono kept fun _ _ _ => trivial

/-! ## Validating a transaction -/

/-- The transaction passes the checks that do not depend on its type. -/
def Admitted (lib : TrxLib) (ctx : TrxContext) (ls : Stores) : Prop :=
  (∃ pubKey, CommonlyValid lib ctx pubKey) ∧ ∃ sender, ls.account ctx.tx.fromAddr = some sender ∧
    sender.checkBalance (gasToFee ctx.tx.gas ctx.tx.gasPrice + ctx.tx.amount) = .ok () ∧
    sender.nonce = ctx.tx.nonce

/-- What a transaction must fit, by its type. -/
def Fits (ctx : TrxContext) (r : Workspace E) : Prop :=
  match ctx.tx.type, ctx.tx.payload with
  | .staking, _ =>
    StakeCtrler.StakingFits ctx ((r.ledgers .delegatees).lookup (toLedgerKey ctx.tx.toAddr))
      (StakeCtrler.LimitFits r.limiter ctx.validators
        (((r.ledgers .delegatees).lookup (toLedgerKey ctx.tx.toAddr)).getD
          (Delegatee.newDelegatee ctx.tx.toAddr [])) (powerOf ctx.tx.amount))
  | .unstaking, .unstaking txHash =>
    StakeCtrler.UnstakingFits ctx txHash
      ((r.ledgers .delegatees).lookup (toLedgerKey ctx.tx.toAddr)) r.limiter
  | .withdraw, .withdraw reqAmt =>
    StakeCtrler.WithdrawFits ctx reqAmt
      ((r.ledgers .rewards).lookup (toLedgerKey ctx.tx.fromAddr))
  | _, _ => True

theorem exec_commonValidation0 {pubKey : HexBytes} (executing : ctx.exec = true)
    (valid : CommonlyValid lib ctx pubKey) (ls : Stores) :
    exec (commonValidation0 lib ctx) ls = (.ok pubKey, ls) := by
  obtain ⟨sender, receiver, amount, gas, gasPrice, fee, signed⟩ := valid
  have gasPrice' := decide_eq_true gasPrice
  have fee' := decide_eq_true fee
  simp only [commonValidation0, Prog.bind_eq, run_bind, run_ensure, sender, receiver,
    amount, gas, gasPrice', fee', executing, signed executing, beq_self_eq_true, if_true,
    andThen_ok, run_ofExcept, Except.mapError, Bool.not_false, decide_true,
    Prog.pure_eq, run_pure]

theorem exec_commonValidation1 {sender : Account}
    (found : ls.account ctx.tx.fromAddr = some sender)
    (balance : sender.checkBalance (gasToFee ctx.tx.gas ctx.tx.gasPrice + ctx.tx.amount) = .ok ())
    (nonce : sender.nonce = ctx.tx.nonce) :
    exec (commonValidation1 ctx) ls = (.ok (), ls) := by
  have checked : sender.checkNonce ctx.tx.nonce = .ok () := by
    unfold Account.checkNonce
    rw [if_neg (not_not.mpr nonce)]
  simp only [commonValidation1, Prog.bind_eq, run_bind, exec_accountAt, found,
    Option.elim_some, andThen_ok, run_ofExcept, balance, Except.mapError, checked,
    Prog.pure_eq, run_pure]

/-- The common checks never panic; what passes them is checked by its type and run. -/
theorem Pointers.wp_executeSync {json : ParamsJSON}
    (pointers : Pointers K ctx r.ledgers) (executing : ctx.exec = true) {fits : Prop}
    (byType : ∀ pubKey, wp (trxHandler storeImpl) (Fault.Avoids bad) (validateByType json ctx)
      (fun _ r' => wp (trxHandler storeImpl) (Fault.Avoids bad) (runTrx ctx pubKey)
        (fun _ _ => True) r') r ↔ fits) :
    wp (trxHandler storeImpl) (Fault.Avoids bad) (executeSync lib json ctx) (fun _ _ => True) r ↔
      (Admitted lib ctx r.ledgers → fits) := by
  simp only [executeSync, validateTrx_eq, Prog.bind_eq, wp_bind, wp_ledger,
    wp_pure]
  constructor
  · rintro ends ⟨⟨pubKey, valid⟩, sender, found, balance, nonce⟩
    have first := (wp_of_ok (exec_commonValidation0 executing valid r.ledgers)).mp ends
    exact (byType pubKey).mp
      ((wp_of_ok (exec_commonValidation1 found balance nonce)).mp first)
  · intro holds
    refine wp_iff_ok.mpr ⟨?_, fun pubKey ls checked₀ => ?_⟩
    · exact wp_mono ((Calm.quiet (writes_commonValidation0 lib ctx)).wp pointers.holds)
        fun _ _ _ => trivial
    obtain ⟨valid, rfl⟩ := commonValidation0_ok checked₀
    refine wp_iff_ok.mpr ⟨?_, fun _ ls checked₁ => ?_⟩
    · exact wp_mono ((quiet_commonValidation1 pointers.sender).wp pointers.holds)
        fun _ _ _ => trivial
    obtain ⟨rfl, admitted⟩ := commonValidation1_ok checked₁
    exact (byType pubKey).mpr (holds ⟨⟨pubKey, valid⟩, admitted⟩)

/-- A request to the limiter. -/
theorem wp_ask (arithmetic : ∀ p : Panic, p.Arithmetic → bad p)
    (request : LedgerProg (Delegatee × Int)) (validators : Validators) :
    wp (trxHandler storeImpl) (Fault.Avoids bad) ((ledger request).bind fun asked =>
        checkLimit validators asked.1 asked.2) (fun _ _ => True) r ↔
      wp (ledgerHandler storeImpl) (Fault.Avoids bad) request
        (fun asked _ => LimitFits r.limiter validators asked.1 asked.2) r.ledgers := by
  simp only [wp_bind, wp_ledger, wp_checkLimit arithmetic]

theorem ask_ok {request : LedgerProg (Delegatee × Int)} (writes : Writes (fun _ => False) request)
    {validators : Validators} {r' : Workspace E}
    (ran : run (trxHandler storeImpl) ((ledger request).bind fun asked =>
      checkLimit validators asked.1 asked.2) r = (.ok (), r')) :
    r'.ledgers = r.ledgers ∧ ∃ asked, exec request r.ledgers = (.ok asked, r.ledgers) := by
  obtain ⟨asked, r₁, worked, limited⟩ := run_bind_ok ran
  obtain ⟨ls, requested, rfl⟩ := run_ledger_ok worked
  have same : ls = r.ledgers := funext fun l => writes.frame id requested
  subst same
  refine ⟨funext fun l => ?_, asked, requested⟩
  have obeys : Obeys (within (fun _ => False) True true r.evm.lastRootHash r.evm.lastBlockHeight) _
      (checkLimit validators asked.1 asked.2 : Ctrler E Unit) :=
    obeys_checkLimit validators asked.1 asked.2
  have kept := run_frame obeys ⟨rfl, rfl⟩ id (r := { r with ledgers := r.ledgers }) (l := l)
  rw [limited] at kept
  exact kept

/-- A transaction that asks the limiter, and is run without a panic after that. -/
theorem Pointers.asks (pointers : Pointers K ctx r.ledgers)
    (arithmetic : ∀ p : Panic, p.Arithmetic → bad p) {request : LedgerProg (Delegatee × Int)}
    (writes : Writes (fun _ => False) request) {execute : LedgerProg Unit}
    (quiet : ∀ asked, exec request r.ledgers = (.ok asked, r.ledgers) → Quiet K execute) :
    wp (trxHandler storeImpl) (Fault.Avoids bad) ((ledger request).bind fun asked =>
        checkLimit ctx.validators asked.1 asked.2)
      (fun _ r' => wp (trxHandler storeImpl) (Fault.Avoids bad)
        (ledger (runNative ctx execute) : Ctrler E TrxResult) (fun _ _ => True) r') r ↔
      wp (ledgerHandler storeImpl) (Fault.Avoids bad) request
        (fun asked _ => LimitFits r.limiter ctx.validators asked.1 asked.2)
        r.ledgers := by
  rw [← wp_ask arithmetic]
  refine ⟨fun ends => wp_mono ends fun _ _ _ => trivial, fun ends => ?_⟩
  refine wp_iff_ok.mpr ⟨ends, fun _ r' ran => ?_⟩
  obtain ⟨same, asked, requested⟩ := ask_ok writes ran
  have pointers' : Pointers K ctx r'.ledgers := by
    rw [same]
    exact pointers
  exact pointers'.native (quiet asked requested)

/-- Whether a transaction panics depends on its type: only stakings, unstakings and withdrawals
do. -/
theorem Pointers.returns_iff {json : ParamsJSON}
    (pointers : Pointers K ctx r.ledgers) (executing : ctx.exec = true)
    (typed : ctx.tx.WellTyped) (law : E.ReachesCreated) (opened : r.evm.stateDB.isSome = true)
    (chosen : Everywhere .proposals GovProposal.Chosen r.ledgers) :
    wp (trxHandler storeImpl) (Fault.Avoids anyPanic) (executeSync lib json ctx) (fun _ _ => True)
      r ↔ (Admitted lib ctx r.ledgers → Fits ctx r) := by
  have anything (p : Panic) : p.Arithmetic → anyPanic p := fun _ => trivial
  have moved {ls : Stores} (holds : Holds .accounts (Present K) ls) :
      Pointers K ctx ({ r with ledgers := ls } : Workspace E).ledgers :=
    ⟨pointers.sender, pointers.receiver, holds⟩
  refine pointers.wp_executeSync executing fun pubKey => ?_
  cases type : ctx.tx.type with
  | transfer =>
    refine iff_of_true ?_ (by simp only [Fits, type])
    simp only [validateByType, type, wp_ledger]
    exact wp_mono ((AcctCtrler.quiet_validateTrx typed).wp pointers.holds)
      fun _ ls holds => (moved holds).transfer law opened typed type pubKey
  | setDoc =>
    refine iff_of_true ?_ (by simp only [Fits, type])
    simp only [validateByType, type, wp_ledger]
    refine wp_mono ((AcctCtrler.quiet_validateTrx typed).wp pointers.holds)
      fun _ ls holds => ?_
    simp only [runTrx, type]
    exact (moved holds).native
      (quiet_executeTrx typed pointers.sender pointers.receiver)
  | contract =>
    refine iff_of_true ?_ (by simp only [Fits, type])
    simp only [validateByType, type, wp_ledger]
    refine wp_mono ((EvmCtrler.quiet_validateTrx pointers.receiver).wp pointers.holds)
      fun _ ls holds => ?_
    simp only [runTrx, type]
    exact (moved holds).runEvmTrx law opened
  | proposal =>
    refine iff_of_true ?_ (by simp only [Fits, type])
    simp only [validateByType, type, wp_ledger]
    refine wp_mono ((Calm.quiet (GovCtrler.writes_validateTrx json ctx)).wp pointers.holds)
      fun _ ls holds => ?_
    simp only [runTrx, type]
    refine (moved holds).native ?_
    simp only [GovCtrler.executeTrx, type]
    exact quiet_execProposing typed type
  | voting =>
    refine iff_of_true ?_ (by simp only [Fits, type])
    simp only [validateByType, type, wp_ledger]
    refine wp_iff_ok.mpr ⟨?_, fun _ ls valid => ?_⟩
    · exact wp_mono ((Calm.quiet (GovCtrler.writes_validateTrx json ctx)).wp pointers.holds)
        fun _ _ _ => trivial
    obtain rfl : ls = r.ledgers := funext fun l =>
      (GovCtrler.writes_validateTrx (S := fun _ => False) json ctx).frame id valid
    simp only [GovCtrler.validateTrx, type] at valid
    exact pointers.voting type chosen valid pubKey
  | staking =>
    have quiet (asked : Delegatee × Int)
        (requested : exec (validateStaking ctx) r.ledgers = (.ok asked, r.ledgers)) :
        Quiet K (exeStaking ctx pubKey) :=
      quiet_exeStaking pointers.sender
        (validateStaking_inv requested).1 pubKey
    simp only [validateByType, StakeCtrler.validateTrx, runTrx, StakeCtrler.executeTrx, type, Fits]
    refine (pointers.asks anything (writes_validateStaking ctx) quiet).trans ?_
    exact wp_validateStaking_any
  | unstaking =>
    cases payload : ctx.tx.payload with
    | unstaking txHash =>
      simp only [validateByType, StakeCtrler.validateTrx, runTrx, StakeCtrler.executeTrx, type,
        payload, Fits]
      refine (pointers.asks anything (writes_validateUnstaking ctx)
        fun _ _ => quiet_exeUnstaking payload).trans ?_
      exact wp_validateUnstaking payload
    | _ => simp only [Trx.WellTyped, type, payload] at typed
  | withdraw =>
    cases payload : ctx.tx.payload with
    | withdraw reqAmt =>
      simp only [validateByType, StakeCtrler.validateTrx, type, payload, Fits, wp_ledger,
        wp_validateWithdraw payload, WithdrawFits]
      refine imp_congr_right fun _ => forall_congr' fun rwd => forall_congr' fun record =>
        imp_congr_right fun _ => ?_
      exact pointers.withdraw type payload record pubKey
    | _ => simp only [Trx.WellTyped, type, payload] at typed

end TrxExecutor

/-! ## The state of the EVM -/

section

variable {E : EvmLib} {α β : Type}

/-- The state of geth is replaced by another one, but never closed. -/
def opening (E : EvmLib) : Contract (TrxOp E) where
  asks op :=
    match op with
    | .inl _ => True
    | .inr .getLimiter => True
    | .inr (.setLimiter _) => True
    | .inr .getEvm => True
    | .inr (.setEvm m) => m.stateDB.isSome = true
  grants _ _ := True

/-- The code does not close the state of geth. -/
def KeepsOpen (p : Ctrler E α) : Prop := Obeys (opening E) (fun _ => True) p

theorem KeepsOpen.seq {p : Ctrler E β} {f : β → Ctrler E α} (first : KeepsOpen p)
    (next : ∀ value, KeepsOpen (f value)) : KeepsOpen (p >>= f) := Obeys.seq first next

theorem keepsOpen_ledger (p : LedgerProg α) : KeepsOpen (ledger p : Ctrler E α) :=
  (obeys_lift Sum.inl p).mpr (Obeys.of_asks (fun _ => trivial) p)

theorem KeepsOpen.run {p : Ctrler E α} (keeps : KeepsOpen p) {r : Workspace E}
    (opened : r.evm.stateDB.isSome = true) :
    (run (trxHandler storeImpl) p r).2.evm.stateDB.isSome = true := by
  refine (Obeys.run (trxHandler storeImpl) (I := fun r => r.evm.stateDB.isSome = true) ?_ keeps
    opened).2
  intro γ op r' opened' asks
  cases op with
  | inl op => exact ⟨trivial, opened'⟩
  | inr op =>
    cases op with
    | getLimiter | getEvm => exact ⟨trivial, opened'⟩
    | setLimiter sl => exact ⟨trivial, opened'⟩
    | setEvm m => exact ⟨trivial, asks⟩

theorem EvmCtrler.keepsOpen_execute (ctx : TrxContext) (m : EvmMem E) (state : E.State) :
    KeepsOpen (execute ctx m state) := by
  have set' (state : E.State) (gasPool : Nat) :
      KeepsOpen (setEvm { m with stateDB := some state, blockGasPool := gasPool }) :=
    ⟨rfl, fun _ _ => trivial⟩
  refine (keepsOpen_ledger _).seq fun prepared => (keepsOpen_ledger _).seq fun applied => ?_
  split
  · exact ((keepsOpen_ledger _).seq fun _ => set' _ _).seq fun _ => trivial
  · split
    · exact ((keepsOpen_ledger _).seq fun _ => set' _ _).seq fun _ => trivial
    · refine (keepsOpen_ledger _).seq fun _ => (set' _ _).seq fun _ => ?_
      split
      · exact (keepsOpen_ledger _).seq fun _ => trivial
      · trivial

theorem EvmCtrler.keepsOpen_executeTrx (ctx : TrxContext) :
    KeepsOpen (EvmCtrler.executeTrx ctx : Ctrler E TrxResult) := by
  unfold EvmCtrler.executeTrx
  split
  · trivial
  · refine (keepsOpen_ledger _).seq fun receiver => ?_
    split
    · trivial
    · refine KeepsOpen.seq (p := getEvm) ⟨trivial, fun _ _ => trivial⟩ fun m => ?_
      split
      · trivial
      · exact keepsOpen_execute ctx m _

theorem TrxExecutor.keepsOpen_executeSync (lib : TrxLib) (json : ParamsJSON) (ctx : TrxContext) :
    KeepsOpen (executeSync lib json ctx : Ctrler E TrxResult) := by
  have evm : KeepsOpen (runEvmTrx ctx : Ctrler E TrxResult) := by
    refine (keepsOpen_executeTrx ctx).seq fun result => ?_
    split
    · exact keepsOpen_ledger _
    · split
      · exact keepsOpen_ledger _
      · trivial
  have ask {request : LedgerProg (Delegatee × Int)} :
      KeepsOpen (do
        let asked ← ledger request
        checkLimit ctx.validators asked.1 asked.2 : Ctrler E Unit) := by
    refine (keepsOpen_ledger _).seq fun asked => ?_
    unfold checkLimit
    split
    · refine KeepsOpen.seq (p := getLimiter) ⟨trivial, fun _ _ => trivial⟩ fun sl => ?_
      refine KeepsOpen.seq (p := setLimiter _) ⟨trivial, fun _ _ => trivial⟩ fun _ => ?_
      split <;> trivial
    · trivial
  refine KeepsOpen.seq ?_ fun pubKey => ?_
  · rw [validateTrx_eq]
    refine (keepsOpen_ledger _).seq fun pubKey => (keepsOpen_ledger _).seq fun _ =>
      KeepsOpen.seq ?_ fun _ => trivial
    cases type : ctx.tx.type <;>
      simp only [validateByType, StakeCtrler.validateTrx, type]
    case staking => exact ask
    case unstaking => exact ask
    all_goals exact keepsOpen_ledger _
  · cases type : ctx.tx.type <;> simp only [runTrx, type]
    case contract => exact evm
    case transfer =>
      refine (keepsOpen_ledger _).seq fun receiver => ?_
      split
      · exact evm
      · exact keepsOpen_ledger _
    all_goals exact keepsOpen_ledger _

end

/-! ## DeliverTx -/

namespace RigoApp

variable {X : External} {mayRestart : Bool} {genesis : Genesis} {phase : Phase}
  {steps : List (Step X.evm)} {s : App X.evm}

/-- In a block the state of geth is open. -/
theorem Run.evm_open (ran : Run X mayRestart genesis phase steps s) (inBlock : phase ≠ .idle) :
    (App.node s).evm.stateDB.isSome = true := by
  refine ran.node_induction
    (I := fun phase _ s => phase ≠ .idle → s.evm.stateDB.isSome = true) ?_ ?_ ?_ ?_ ?_ ?_ ?_ inBlock
  · exact fun _ _ idle => absurd rfl idle
  · intro steps s t info _ began _
    obtain ⟨last, ls, ls', allDelegatees, -, -, -, -, -, -, rfl⟩ := beginBlock_ok began
    rfl
  · intro steps s t txbz answer opened delivered _
    obtain ⟨bctx, tx, sender, -, -, -, answered⟩ := deliverTx_ok delivered
    rw [(respond_ok answered).1]
    exact (keepsOpen_executeSync _ _ _).run (opened (by decide))
  · intro steps s t valUpdates opened ended _
    obtain ⟨bctx, newGovParams, lastValidators, ls, ls', ls'', -, -, -, -, rfl⟩ := endBlock_ok ended
    exact opened (by decide)
  · exact fun _ _ _ idle => absurd rfl idle
  · exact fun _ opened => opened
  · exact fun _ _ _ _ _ idle => absurd rfl idle

/-- The bytes are a transaction of a known sender.  If it passes the common checks, the powers
it is about and the limiter do not overflow or divide by zero, and no record is ahead. -/
def Answerable (X : External) (s : Node X.evm) (txbz : HexBytes) : Prop :=
  ∃ tx, Trx.decode X.trx txbz = .ok tx ∧ (Stores.account s.ledgers tx.fromAddr).isSome = true ∧
    ∀ bctx, s.mem.nextBlockCtx = some bctx →
      TrxExecutor.Admitted X.trx (ctxOf X s bctx txbz tx) s.ledgers →
      TrxExecutor.Fits (ctxOf X s bctx txbz tx) s.toResources

theorem respond_isOk {E : EvmLib} (s : Node E) (bctx : BlockContext) (ctx : TrxContext)
    (p : Ctrler E TrxResult) (r : Workspace E) :
    (respond s bctx ctx (run (trxHandler storeImpl) p r)).1.isOk = true ↔
      wp (trxHandler storeImpl) (Fault.Avoids anyPanic) p (fun _ _ => True) r := by
  unfold wp
  generalize run (trxHandler storeImpl) p r = executed
  obtain ⟨outcome, r'⟩ := executed
  rcases outcome with (e | panicked) | result
  · exact iff_of_true rfl trivial
  · exact iff_of_false (fun ok => by cases ok) fun avoids => avoids trivial
  · refine iff_of_true ?_ trivial
    simp only [respond]
    cases result.failed with
    | none => rfl
    | some e => rfl

/-- The receiver that is created for a context changes neither what the sender has nor what the
delegatees and the records are. -/
theorem fits_withAccount  {r : Workspace X.evm} {sender : Account}
    (found : Stores.account r.ledgers ctx.tx.fromAddr = some sender) (addr : Address) :
    (Admitted lib ctx (Stores.withAccount r.ledgers addr) →
        TrxExecutor.Fits ctx
          ({ r with ledgers := Stores.withAccount r.ledgers addr } : Workspace X.evm)) ↔
      (Admitted lib ctx r.ledgers → TrxExecutor.Fits ctx r) := by
  have delegatees : Stores.withAccount r.ledgers addr .delegatees = r.ledgers .delegatees :=
    Stores.withAccount_of_ne (by decide) _ _
  have rewards : Stores.withAccount r.ledgers addr .rewards = r.ledgers .rewards :=
    Stores.withAccount_of_ne (by decide) _ _
  have found' := Stores.account_withAccount found addr
  simp only [Admitted, TrxExecutor.Fits, delegatees, rewards, found, found']

/-- `DeliverTx` returns a response exactly to the bytes that are answerable. -/
theorem Run.deliverTx_returns_iff (ran : Run X mayRestart genesis .delivering steps s)
    (law : X.evm.ReachesCreated) (txbz : HexBytes) :
    (run (nodeHandler X finalityImpl) (deliverTx X txbz) s).1.isOk = true ↔
      Answerable X (App.node s) txbz := by
  have opened := ran.evm_open (by decide)
  have removed := ran.accounts_removed
  have chosen := ran.chosen
  have height := ran.heights.opened
  rw [(run_node X (deliverTx X txbz) s).1, run_deliverTx]
  generalize App.node s = node at opened removed chosen height ⊢
  cases inBlock : node.mem.nextBlockCtx with
  | none =>
    rw [openHeight, inBlock] at height
    cases height
  | some bctx =>
    unfold Answerable
    cases decoded : Trx.decode X.trx txbz with
    | error e =>
      refine iff_of_false (fun ok => by cases ok) ?_
      rintro ⟨_, other, -⟩
      cases other
    | ok tx =>
      cases found : Stores.account node.ledgers tx.fromAddr with
      | none =>
        simp only [found]
        refine iff_of_false (fun ok => by cases ok) ?_
        rintro ⟨_, ⟨⟩, known, -⟩
        rw [found] at known
        cases known
      | some sender =>
        have sent : Holds .accounts (Present fun k => k = toLedgerKey tx.fromAddr)
            node.ledgers := by
          refine ⟨removed, fun k known => ?_⟩
          subst known
          exact Option.isSome_of_eq_some found
        have pointers : TrxExecutor.Pointers _ (ctxOf X node bctx txbz tx)
            ({ node.toResources with
              ledgers := Stores.withAccount node.ledgers tx.toAddr } :
              Workspace X.evm).ledgers :=
          ⟨.inl rfl, .inr rfl, sent.withAccount tx.toAddr⟩
        have chosen' : Everywhere .proposals GovProposal.Chosen
            (Stores.withAccount node.ledgers tx.toAddr) := by
          rw [Everywhere, Stores.withAccount_of_ne (by decide)]
          exact chosen
        simp only [found]
        rw [respond_isOk, pointers.returns_iff rfl (Trx.decode_wellTyped decoded) law opened
          chosen', fits_withAccount found]
        constructor
        · intro fits
          refine ⟨tx, rfl, Option.isSome_of_eq_some found, fun bctx' same => ?_⟩
          cases inBlock.symm.trans same
          exact fits
        · rintro ⟨_, ⟨⟩, -, fits⟩
          exact fits bctx inBlock

/-- A block that has begun. -/
def begun : App twoTransfers.evm :=
  (runCalls twoTransfers finalityImpl [.beginBlock (Concrete.block 1)] transferring).2

theorem run_begun : ∃ steps, Run twoTransfers false (Concrete.genesis [(1, 10000000)]) .delivering
    steps begun :=
  ⟨_, (Run.start (eq_ok_of_isSome _)).calls [.beginBlock (Concrete.block 1)] rfl
    (by decide +kernel)⟩

/-- Bytes that are no transaction make the node panic. -/
theorem Run.undecodable : ∃ steps s, Run twoTransfers false (Concrete.genesis [(1, 10000000)])
    .delivering steps s ∧
      (run (nodeHandler twoTransfers finalityImpl) (deliverTx twoTransfers []) s).1 =
        .error (.panic .nilDereference) := by
  obtain ⟨steps, ran⟩ := run_begun
  exact ⟨steps, begun, ran, by decide +kernel⟩

/-- A transfer is answered. -/
theorem Run.deliverTx_returns_iff_transfer :
    twoTransfers.evm.ReachesCreated ∧ Answerable twoTransfers (App.node begun) [0] := by
  obtain ⟨steps, ran⟩ := run_begun
  have law : twoTransfers.evm.ReachesCreated := by
    intro state msg gasPool _ executed failed
    cases failed
  exact ⟨law, (Run.deliverTx_returns_iff ran law [0]).mp (by decide +kernel)⟩

end RigoApp

end Rigo
