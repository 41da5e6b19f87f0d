import Rigo.Ledger.CommitOrder
import Rigo.Node.Concrete
import Rigo.Node.Rewards

/-!
# Cancelled calls

`CancelSetFinality` and `CancelDelFinality` are meant to undo a `SetFinality` and a `DelFinality`.
They do so by dropping entries: neither puts back the item that was written under the key earlier in
the same block, which `SetFinality` has replaced and `DelFinality` has dropped.  Without such an item
both undo the call completely; with one they never do, as the next `Commit` does not write under the
key any more (`cancel_undoes_iff`).

`exeWithdraw` cancels the record of a withdrawal that cannot be credited.
-/

namespace Rigo

open Foundation

namespace Store

variable {T : Type} [LedgerItem T]

/-- A cancelled write is a dropped one. -/
theorem cancelSet_set (s : Store T) (x : T) :
    (s.set x).cancelSet (LedgerItem.key x) = s.cancelSet (LedgerItem.key x) := by
  rw [cancelSet, set, cancelSet]
  congr 1
  ext1 k
  rw [KeyedMap.find?_erase, KeyedMap.find?_erase, KeyedMap.find?_insert]
  split <;> rfl

/-- A cancelled removal is a dropped write too. -/
theorem cancelDel_erase {s : Store T} {k : LedgerKey} {x : T} (present : s.lookup k = some x) :
    (s.erase k).cancelDel k = s.cancelSet k := by
  rw [erase, present]
  simp only [cancelDel, cancelSet, List.erase_append_right _ (not_mem_removed present),
    List.erase_cons_head, List.append_nil]

theorem cancelSet_eq_self_iff (s : Store T) (k : LedgerKey) :
    s.cancelSet k = s ↔ s.updated.find? k = none := by
  constructor
  · intro same
    rw [← congrArg Store.updated same]
    exact KeyedMap.find?_erase_self _ _
  · intro missing
    rw [cancelSet, KeyedMap.erase_of_find?_none missing]

end Store

namespace FinalityLedger

open Simulation (answers)

variable {T : Type} [LedgerItem T]

/-- All later answers of the finality mode, and all trees that are saved, are the same. -/
def AnswersAlike (l l' : FinalityLedger T) : Prop := ∀ calls, answers calls l = answers calls l'

theorem answersAlike_of_store {l l' : FinalityLedger T} (same : l.store = l'.store) :
    AnswersAlike l l' := by
  intro calls
  rw [Simulation.answers_withoutSimulation calls same,
    ← Simulation.answers_withoutSimulation calls (rfl : l'.store = l'.store)]

/-- Dropping the item that was written under a key changes no answer only if there is none:
otherwise the next `Commit` does not write it. -/
theorem answersAlike_cancel_iff {l l' : FinalityLedger T} {k : LedgerKey}
    (cancelled : l'.store = l.store.cancelSet k) :
    AnswersAlike l' l ↔ l.finalityItems.updatedItems.find? k = none := by
  constructor
  · intro alike
    have saved : l'.store.commit.tree = l.store.commit.tree := by
      have answer := alike [.finality .commit]
      simp only [answers, Simulation.FinalityOp.run] at answer
      injection answer with first
      injection first
    rw [cancelled] at saved
    have there := updated_of_commit (congrArg Tree.log saved) k
    rw [Store.cancelSet, KeyedMap.find?_erase_self] at there
    cases written : l.store.updated.find? k with
    | none => exact written
    | some x =>
      rw [written] at there
      cases there
  · intro missing
    exact answersAlike_of_store (cancelled.trans ((Store.cancelSet_eq_self_iff _ _).mpr missing))

/-- A cancelled `SetFinality`. -/
theorem cancelSet_iff (l : FinalityLedger T) (x : T) :
    AnswersAlike ((l.setFinality x).cancelSetFinality (LedgerItem.key x)) l ↔
      l.finalityItems.updatedItems.find? (LedgerItem.key x) = none :=
  answersAlike_cancel_iff (l.store.cancelSet_set x)

/-- A cancelled `DelFinality` that was successful. -/
theorem cancelDel_iff (l : FinalityLedger T) {k : LedgerKey} {x : T}
    (deleted : (l.delFinality k).1 = .ok x) :
    AnswersAlike ((l.delFinality k).2.cancelDelFinality k) l ↔
      l.finalityItems.updatedItems.find? k = none := by
  have present : l.store.lookup k = some x := by
    rw [delFinality_fst, Store.del, Store.get, found_eq_ok] at deleted
    exact deleted
  refine answersAlike_cancel_iff ?_
  rw [store_cancelDelFinality, store_delFinality]
  exact Store.cancelDel_erase present

end FinalityLedger

/-! ## Withdrawals that cannot be credited -/

namespace StakeCtrler

variable {ctx : TrxContext} {req : Uint256} {rwd : Reward} {ls ls' : Stores} {e : XError}

/-- A withdrawal that ends with an error has dropped the record that was written. -/
theorem exeWithdraw_error (payload : ctx.tx.payload = .withdraw req)
    (record : (ls .rewards).lookup (toLedgerKey ctx.tx.fromAddr) = some rwd)
    (failed : exec (exeWithdraw ctx) ls = (.error (.xerr e), ls')) :
    ls' = Function.update ls .rewards
      ((ls .rewards).cancelSet (toLedgerKey ctx.tx.fromAddr)) := by
  have filed : LedgerItem.key rwd = toLedgerKey ctx.tx.fromAddr := Store.key_of_lookup record
  have key : LedgerItem.key (rwd.withdrawnFrom req ctx.height) = toLedgerKey ctx.tx.fromAddr := filed
  have cancelled : Function.update (ls.put .rewards (rwd.withdrawnFrom req ctx.height)) .rewards
      (((ls.put .rewards (rwd.withdrawnFrom req ctx.height)) .rewards).cancelSet
        (toLedgerKey ctx.tx.fromAddr)) = Function.update ls .rewards
      ((ls .rewards).cancelSet (toLedgerKey ctx.tx.fromAddr)) := by
    rw [Stores.put_self, ← key, Store.cancelSet_set]
    exact Function.update_idem _ _ _
  unfold exeWithdraw at failed
  simp only [payload, Prog.bind_eq, run_bind, LedgerProg.exec_get, Store.get, record,
    found_some, andThen_ok, run_ofExcept, Except.mapError, Reward.withdraw_eq] at failed
  split at failed
  · simp only [run_pure, andThen_ok, LedgerProg.exec_set, run_tryXError,
      AcctCtrler.exec_reward, key] at failed
    generalize (ls.put .rewards (rwd.withdrawnFrom req ctx.height)).account ctx.tx.fromAddr =
      sender at failed
    cases sender with
    | none =>
      cases failed
      exact cancelled
    | some acct =>
      simp only at failed
      cases credit : acct.addBalance req with
      | error e' =>
        rw [credit] at failed
        cases failed
        exact cancelled
      | ok acct' =>
        rw [credit] at failed
        cases failed
  · cases failed

end StakeCtrler

/-- **Cancelling.**  A `SetFinality` that is cancelled, and a successful `DelFinality` that is
cancelled, leave all later answers and saved trees as if neither call had happened, exactly if nothing
was written under the key since the last `Commit`.  A withdrawal that ends with an error leaves all
ledgers as they were under the same condition on the record. -/
theorem cancel_undoes_iff (T : Type) [LedgerItem T] (l : FinalityLedger T) :
    (∀ x : T,
      FinalityLedger.AnswersAlike ((l.setFinality x).cancelSetFinality (LedgerItem.key x)) l ↔
        l.finalityItems.updatedItems.find? (LedgerItem.key x) = none) ∧
    (∀ (k : LedgerKey) (x : T), (l.delFinality k).1 = .ok x →
      (FinalityLedger.AnswersAlike ((l.delFinality k).2.cancelDelFinality k) l ↔
        l.finalityItems.updatedItems.find? k = none)) ∧
    ∀ (ctx : TrxContext) (req : Uint256) (rwd : Reward) (e : XError) (ls ls' : Stores),
      ctx.tx.payload = .withdraw req →
      (ls .rewards).lookup (toLedgerKey ctx.tx.fromAddr) = some rwd →
      exec (StakeCtrler.exeWithdraw ctx) ls = (.error (.xerr e), ls') →
      (ls' = ls ↔ (ls .rewards).updated.find? (toLedgerKey ctx.tx.fromAddr) = none) := by
  refine ⟨l.cancelSet_iff, fun k x deleted => l.cancelDel_iff deleted, ?_⟩
  intro ctx req rwd e ls ls' payload record failed
  rw [StakeCtrler.exeWithdraw_error payload record failed, Function.update_eq_self_iff]
  exact Store.cancelSet_eq_self_iff _ _

/-! ### A record that was written before -/

namespace StakeCtrler

/-- The record of an address with an amount. -/
def rewardOf (cumulated : Uint256) : Reward :=
  { Reward.newReward (Concrete.addr 1) with cumulated := cumulated }

/-- A ledger in which a record of 5 was committed, and perhaps a record of 9 was written since. -/
def recorded (again : Bool) : FinalityLedger Reward :=
  let committed := ((FinalityLedger.new Tree.empty).setFinality (rewardOf 5)).commit
  if again then committed.setFinality (rewardOf 9) else committed

/-- A withdrawal of 2 by a sender that has no account, so that it cannot be credited. -/
def withdrawalOf2 : TrxContext where
  height := 1
  txHash := List.replicate 32 1
  tx :=
    { version := 1
      time := 0
      nonce := 0
      fromAddr := Concrete.addr 1
      toAddr := zeroAddress
      amount := 0
      gas := 4000
      gasPrice := GovParams.defaultGovParams.gasPrice
      type := .withdraw
      payload := .withdraw 2
      sig := [] }
  exec := true
  chainID := "rigo"
  params := GovParams.defaultGovParams
  validators := []

/-- Stores with such a ledger of rewards, and nothing else. -/
def recordedStores (again : Bool) : Stores :=
  Function.update (fun l => Store.new (T := l.Item) Tree.empty) .rewards (recorded again).store

end StakeCtrler

open StakeCtrler in
/-- Nothing was written since the last commit: a record that is set, or deleted, is as before once
this is cancelled, and so is the record of a withdrawal that fails. -/
theorem cancel_undoes_recorded :
    FinalityLedger.AnswersAlike (((recorded false).setFinality (rewardOf 7)).cancelSetFinality
        (toLedgerKey (Concrete.addr 1))) (recorded false) ∧
      FinalityLedger.AnswersAlike (((recorded false).delFinality
        (toLedgerKey (Concrete.addr 1))).2.cancelDelFinality (toLedgerKey (Concrete.addr 1)))
        (recorded false) ∧
      (exec (exeWithdraw withdrawalOf2) (recordedStores false)).2 = recordedStores false := by
  obtain ⟨set, deleted, withdrawn⟩ := cancel_undoes_iff Reward (recorded false)
  refine ⟨?_, ?_, ?_⟩
  · exact (set (rewardOf 7)).mpr (by decide +kernel)
  · exact (deleted (toLedgerKey (Concrete.addr 1)) (rewardOf 5) (by decide +kernel)).mpr
      (by decide +kernel)
  · have fails : (exec (exeWithdraw withdrawalOf2) (recordedStores false)).1 =
        .error (.xerr (XError.errNotFoundAccount.wrapf
          ("Reward - address: " ++ HexBytes.toHex (Concrete.addr 1)))) := by decide +kernel
    exact (withdrawn withdrawalOf2 2 (rewardOf 5) _ (recordedStores false) _ rfl
      (by decide +kernel) (Prod.ext fails rfl)).mpr (by decide +kernel)

open StakeCtrler in
/-- A record of 9 was written since the commit.  A record of 7 that is set and cancelled, a deletion
that is cancelled, and a withdrawal that fails leave the committed record of 5. -/
theorem cancel_drops_earlier_write :
    ((recorded true).getFinality (toLedgerKey (Concrete.addr 1))).1 = .ok (rewardOf 9) ∧
      ((((recorded true).setFinality (rewardOf 7)).cancelSetFinality
        (toLedgerKey (Concrete.addr 1))).getFinality (toLedgerKey (Concrete.addr 1))).1 =
          .ok (rewardOf 5) ∧
      ((((recorded true).delFinality (toLedgerKey (Concrete.addr 1))).2.cancelDelFinality
        (toLedgerKey (Concrete.addr 1))).getFinality (toLedgerKey (Concrete.addr 1))).1 =
          .ok (rewardOf 5) ∧
      (exec (exeWithdraw withdrawalOf2) (recordedStores true)).1.isOk = false ∧
      ((exec (exeWithdraw withdrawalOf2) (recordedStores true)).2 .rewards).lookup
        (toLedgerKey (Concrete.addr 1)) = some (rewardOf 5) := by
  decide +kernel

end Rigo
