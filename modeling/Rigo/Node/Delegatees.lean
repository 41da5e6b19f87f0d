import Rigo.Node.Entries
import Rigo.Node.Runs
import Rigo.Ctrlers.Stake.Selection
import Rigo.Ctrlers.Stake.Signing

/-!
# What happens to the delegatees

The delegatees are written by `InitChain`, by `BeginBlock`, which slashes them, marks the blocks
they missed and stops them, and by transactions that stake and unstake.  This file says once what
each of them does to the ledger of the delegatees, whether it succeeds or not.
-/

namespace Rigo

open Foundation
open Store Stores
open Delegatee LedgerProg StakeCtrler

variable {d : Delegatee} {pubKey : HexBytes} {l : LedgerId} {ls ls' : Stores}

namespace StakeCtrler

/-! ## Staking -/

theorem exec_findDelegatee (addr : Address) (ls : Stores) :
    exec (findDelegatee addr) ls = (.ok ((ls .delegatees).lookup (toLedgerKey addr)), ls) := by
  simp only [findDelegatee, Prog.bind_eq, run_bind, LedgerProg.exec_get,
    andThen_ok, Store.get]
  cases (ls .delegatees).lookup (toLedgerKey addr) <;> rfl

/-- The stake that a transaction adds. -/
def stakeOf (ctx : TrxContext) : Stake :=
  Stake.newStakeWithPower ctx.tx.fromAddr ctx.tx.toAddr (powerOf ctx.tx.amount)
    (i64 (ctx.height + 1)) ctx.txHash

/-- The delegatee that a transaction stakes on: there is one, or the sender becomes one. -/
inductive StakesOn (ctx : TrxContext) (pubKey : HexBytes) (ls : Stores) : Delegatee → Prop
  | existing {d : Delegatee}
      (found : (ls .delegatees).lookup (toLedgerKey ctx.tx.toAddr) = some d) : StakesOn ctx pubKey ls d
  | new (missing : (ls .delegatees).lookup (toLedgerKey ctx.tx.toAddr) = none)
      (self : ctx.tx.fromAddr = ctx.tx.toAddr) :
      StakesOn ctx pubKey ls (Delegatee.newDelegatee ctx.tx.fromAddr pubKey)

variable {ctx : TrxContext} {ls ls' : Stores} {d : Delegatee}

theorem StakesOn.congr (target : StakesOn ctx pubKey ls d) (same : ls .delegatees = ls' .delegatees) :
    StakesOn ctx pubKey ls' d := by
  cases target with
  | existing found => exact .existing (same ▸ found)
  | new missing self => exact .new (same ▸ missing) self

/-- A stake is added, or the delegatees are left as they are. -/
theorem exec_stakeOn (ctx : TrxContext) (d : Delegatee) (ls : Stores) :
    (∃ fault ls', exec (exeStaking.stakeOn ctx d) ls = (.error fault, ls') ∧
      ls' .delegatees = ls .delegatees) ∨
    0 ≤ powerOf ctx.tx.amount ∧ ∃ sender', exec (exeStaking.stakeOn ctx d) ls =
      (.ok (), (put ls .accounts sender').put .delegatees (d.addStake (stakeOf ctx))) := by
  unfold exeStaking.stakeOn
  rw [exec_bind, AcctCtrler.exec_accountAt]
  cases ls.account ctx.tx.fromAddr with
  | none => exact .inl ⟨_, _, rfl, rfl⟩
  | some sender =>
    rw [Option.elim_some, andThen_ok, exec_bind]
    cases sender.subBalance ctx.tx.amount with
    | error e => exact .inl ⟨_, _, rfl, rfl⟩
    | ok sender' =>
      have kept : exec (ofExcept (.ok sender') : LedgerProg Account) ls = (.ok sender', ls) := rfl
      rw [kept, andThen_ok, exec_bind, exec_set, andThen_ok,
        exec_bind, exec_amountToPower]
      split
      · rw [andThen_error]
        exact .inl ⟨_, _, rfl, put_of_ne ls _ (by decide)⟩
      · next power =>
        rw [andThen_ok, exec_set]
        exact .inr ⟨not_lt.mp power, sender', by rw [stakeOf]⟩

/-- Staking leaves the delegatees, or adds a stake to one of them. -/
theorem exec_exeStaking (ctx : TrxContext) (pubKey : HexBytes) (ls : Stores) :
    (∃ fault ls', exec (exeStaking ctx pubKey) ls = (.error fault, ls') ∧
      ls' .delegatees = ls .delegatees) ∨
    0 ≤ powerOf ctx.tx.amount ∧ ∃ d sender', StakesOn ctx pubKey ls d ∧
      exec (exeStaking ctx pubKey) ls =
        (.ok (), (put ls .accounts sender').put .delegatees (d.addStake (stakeOf ctx))) := by
  unfold exeStaking
  rw [exec_bind, exec_findDelegatee, andThen_ok]
  cases found : (ls .delegatees).lookup (toLedgerKey ctx.tx.toAddr) with
  | some d =>
    rcases exec_stakeOn ctx d ls with failed | ⟨power, sender', staked⟩
    · exact .inl failed
    · exact .inr ⟨power, d, sender', .existing found, staked⟩
  | none =>
    simp only
    split
    · next self =>
      rcases exec_stakeOn ctx (newDelegatee ctx.tx.fromAddr pubKey) ls with
        failed | ⟨power, sender', staked⟩
      · exact .inl failed
      · exact .inr ⟨power, _, sender', .new found self, staked⟩
    · exact .inl ⟨_, _, rfl, rfl⟩

/-- The total power that is checked is that of the delegatee. -/
theorem validateStaker_ok {ls₀ : Stores} {txPower totalPower : Int}
    (ran : exec (validateStaker ctx ((ls .delegatees).lookup (toLedgerKey ctx.tx.toAddr)) txPower)
      ls₀ = (.ok totalPower, ls'))
    (target : StakesOn ctx pubKey ls d) : totalPower = d.totalPower := by
  unfold validateStaker validateSelfStaking validateDelegating at ran
  split at ran
  · obtain ⟨minPower, ls₁, -, ran⟩ := run_bind_ok ran
    obtain ⟨-, ran⟩ := run_ensure_ok ran
    cases ran
    cases target with
    | existing found => rw [found]; rfl
    | new missing self => rw [missing]; rfl
  · cases target with
    | existing found =>
      rw [found] at ran
      obtain ⟨minPower, ls₁, -, ran⟩ := run_bind_ok ran
      obtain ⟨-, ran⟩ := run_ensure_ok ran
      obtain ⟨ratio, ls₂, -, ran⟩ := run_bind_ok ran
      obtain ⟨-, ran⟩ := run_ensure_ok ran
      cases ran
      rfl
    | new missing self =>
      rw [missing] at ran
      cases ran

/-- What a valid staking has passed, and what it asks the limiter. -/
theorem validateStaking_inv {asked : Delegatee × Int}
    (ran : exec (validateStaking ctx) ls = (.ok asked, ls')) :
    let found := (ls .delegatees).lookup (toLedgerKey ctx.tx.toAddr)
    0 ≤ powerOf ctx.tx.amount ∧ ∃ totalPower,
      exec (validateStaker ctx found (powerOf ctx.tx.amount)) ls = (.ok totalPower, ls') ∧
      0 < i64 (totalPower + powerOf ctx.tx.amount) ∧
      asked = (found.getD (newDelegatee ctx.tx.toAddr []), powerOf ctx.tx.amount) := by
  obtain ⟨-, ran⟩ := run_ensure_ok ran
  obtain ⟨-, ran⟩ := run_ensure_ok ran
  obtain ⟨txPower, ls₁, priced, found⟩ := run_bind_ok ran
  have nonneg : 0 ≤ powerOf ctx.tx.amount := by
    by_contra negative
    have failed := (exec_amountToPower ctx.tx.amount ls).symm.trans priced
    rw [if_pos (not_le.mp negative)] at failed
    cases failed
  obtain ⟨rfl, rfl⟩ := amountToPower_ok priced
  obtain ⟨delegatee, ls₂, looked, judged⟩ := run_bind_ok found
  cases (exec_findDelegatee ctx.tx.toAddr ls₁).symm.trans looked
  obtain ⟨totalPower, ls₃, staker, ended⟩ := run_bind_ok judged
  split at ended
  · cases ended
  · next positive =>
    cases ended
    exact ⟨nonneg, totalPower, staker, not_le.mp positive, rfl⟩

/-- The total power that a valid staking leads to is positive. -/
theorem validateStaking_ok {answer : Delegatee × Int}
    (ran : exec (validateStaking ctx) ls = (.ok answer, ls'))
    (target : StakesOn ctx pubKey ls d) : 0 < i64 (d.totalPower + powerOf ctx.tx.amount) := by
  obtain ⟨-, totalPower, staker, positive, -⟩ := validateStaking_inv ran
  rwa [← validateStaker_ok staker target]

/-! ## Unstaking -/

/-- The stake that a transaction means, which belongs to its sender. -/
structure OwnStake (ctx : TrxContext) (d : Delegatee) (s0 : Stake) : Prop where
  found : d.findStake s0.txHash = some s0
  owner : s0.fromAddr = ctx.tx.fromAddr

theorem exec_findOwnStake (ctx : TrxContext) (d : Delegatee) (ls : Stores) :
    (∃ fault, exec (findOwnStake ctx d) ls = (.error fault, ls)) ∨
      ∃ s0, OwnStake ctx d s0 ∧ exec (findOwnStake ctx d) ls = (.ok s0, ls) := by
  unfold findOwnStake
  split
  · next txHash payload =>
    split
    · exact .inl ⟨_, rfl⟩
    · split
      · exact .inl ⟨_, rfl⟩
      · next s0 found =>
        split
        · exact .inl ⟨_, rfl⟩
        · next owner =>
          have hash : s0.txHash = txHash :=
            eq_of_beq (List.find?_some (p := fun s : Stake => s.txHash == txHash) found)
          exact .inr ⟨s0, ⟨by rw [hash]; exact found, (not_not.mp owner).symm⟩, rfl⟩
  · exact .inl ⟨_, rfl⟩

/-- The delegatee that is left after an unstaking: without power of its own it has no stakes. -/
def leftOver (d : Delegatee) (s0 : Stake) : Delegatee :=
  if (d.delStake s0.txHash).selfPower = 0 then (d.delStake s0.txHash).delAllStakes
  else d.delStake s0.txHash

/-- The stakes that an unstaking freezes. -/
def unstakedOf (d : Delegatee) (s0 : Stake) : List Stake :=
  s0 :: if (d.delStake s0.txHash).selfPower = 0 then (d.delStake s0.txHash).stakes else []

/-- The stores after a delegatee was stored: it is deleted if it has no power. -/
def stored (d : Delegatee) (ls : Stores) : Stores :=
  if d.totalPower = 0 then ls.remove .delegatees (LedgerItem.key d) else ls.put .delegatees d

theorem stored_congr (d : Delegatee) (same : ls .delegatees = ls' .delegatees) :
    stored d ls .delegatees = stored d ls' .delegatees := by
  unfold stored
  split
  · rw [remove_self, remove_self, same]
  · rw [put_self, put_self, same]

theorem stored_of_ne (d : Delegatee) (ls : Stores) (other : l ≠ .delegatees) :
    stored d ls l = ls l := by
  unfold stored
  split
  · exact remove_of_ne ls _ other
  · exact put_of_ne ls _ other

theorem key_leftOver (d : Delegatee) (s0 : Stake) :
    LedgerItem.key (leftOver d s0) = LedgerItem.key d := by
  have left := d.delStake_addr s0.txHash
  unfold leftOver
  split
  · exact congrArg toLedgerKey left
  · exact congrArg toLedgerKey left

theorem exec_storeDelegatee {d' : Delegatee}
    (found : (ls .delegatees).lookup (LedgerItem.key d) = some d') :
    exec (storeDelegatee d) ls = (.ok (), stored d ls) := by
  unfold storeDelegatee stored
  split
  · rw [exec_bind, LedgerProg.exec_del, andThen_ok, Store.get, found]
    rfl
  · rfl

theorem exec_freezeOthers (refundHeight : Int) (d : Delegatee) (s0 : Stake) (ls : Stores) :
    exec (freezeOthers refundHeight (d.delStake s0.txHash))
        (put ls .frozenStakes { s0 with refundHeight := refundHeight }) =
      (.ok (leftOver d s0), frozen refundHeight (unstakedOf d s0) ls) := by
  unfold freezeOthers leftOver unstakedOf
  split
  · rw [exec_bind, exec_freezeStakes, andThen_ok]
    rfl
  · rfl

/-- Unstaking a stake of one's own freezes it, and with it all stakes of a delegatee that has no
power of its own left. -/
theorem exec_exeUnstaking_own {s0 : Stake}
    (found : (ls .delegatees).lookup (toLedgerKey ctx.tx.toAddr) = some d)
    (chosen : exec (findOwnStake ctx d) ls = (.ok s0, ls)) :
    exec (exeUnstaking ctx) ls = (.ok (), stored (leftOver d s0)
      (frozen (i64 (ctx.height + ctx.params.lazyRewardBlocks)) (unstakedOf d s0) ls)) := by
  have kept : exec (ofExcept (.ok d) : LedgerProg Delegatee) ls = (.ok d, ls) := rfl
  have key := Store.key_of_lookup found
  have first : exec (freezeStake (i64 (ctx.height + ctx.params.lazyRewardBlocks)) s0) ls =
    (.ok (), Stores.put ls .frozenStakes
      { s0 with refundHeight := i64 (ctx.height + ctx.params.lazyRewardBlocks) }) := rfl
  have found' : (frozen (i64 (ctx.height + ctx.params.lazyRewardBlocks)) (unstakedOf d s0) ls
      .delegatees).lookup (LedgerItem.key (leftOver d s0)) = some d := by
    rw [frozen_of_ne _ _ _ (by decide), key_leftOver, key]
    exact found
  unfold exeUnstaking
  rw [exec_bind, LedgerProg.exec_get, andThen_ok, exec_bind, Store.get, found,
    Rigo.found, kept, andThen_ok, exec_bind, chosen, andThen_ok, exec_bind,
    first, andThen_ok, exec_bind, exec_freezeOthers, andThen_ok,
    exec_storeDelegatee found']

/-- Unstaking fails and leaves the ledgers, or there is a stake to be unstaked. -/
theorem exec_exeUnstaking (ctx : TrxContext) (ls : Stores) :
    (∃ fault, exec (exeUnstaking ctx) ls = (.error fault, ls)) ∨
      ∃ d s0, (ls .delegatees).lookup (toLedgerKey ctx.tx.toAddr) = some d ∧ OwnStake ctx d s0 ∧
        exec (exeUnstaking ctx) ls = (.ok (), stored (leftOver d s0)
          (frozen (i64 (ctx.height + ctx.params.lazyRewardBlocks)) (unstakedOf d s0) ls)) := by
  cases found : (ls .delegatees).lookup (toLedgerKey ctx.tx.toAddr) with
  | none =>
    unfold exeUnstaking
    rw [exec_bind, LedgerProg.exec_get, andThen_ok, exec_bind, Store.get, found]
    exact .inl ⟨_, rfl⟩
  | some d =>
    rcases exec_findOwnStake ctx d ls with ⟨fault, failed⟩ | ⟨s0, own, chosen⟩
    · have kept : exec (ofExcept (.ok d) : LedgerProg Delegatee) ls = (.ok d, ls) := rfl
      unfold exeUnstaking
      rw [exec_bind, LedgerProg.exec_get, andThen_ok, exec_bind, Store.get, found,
        Rigo.found, kept, andThen_ok, exec_bind, failed]
      exact .inl ⟨_, rfl⟩
    · exact .inr ⟨d, s0, rfl, own, exec_exeUnstaking_own found chosen⟩

/-! ## BeginBlock -/

section

variable {P : Delegatee → Prop}

theorem exec_doPunish (slashRatio : Int) (addr : Address) (ls : Stores) :
    exec (doPunish slashRatio addr) ls =
      (.ok (), match (ls .delegatees).lookup (toLedgerKey addr) with
        | none => ls
        | some d => ls.put .delegatees (d.doSlash slashRatio)) := by
  unfold doPunish
  rw [exec_bind, LedgerProg.exec_get, andThen_ok, Store.get]
  cases (ls .delegatees).lookup (toLedgerKey addr) <;> rfl

/-- A delegatee after some slashes. -/
def slashedTimes (slashRatio : Int) : Nat → Delegatee → Delegatee
  | 0, d => d
  | n + 1, d => slashedTimes slashRatio n (d.doSlash slashRatio)

theorem slashedTimes_induction {slashRatio : Int} (slashed : ∀ d, P d → P (d.doSlash slashRatio))
    (n : Nat) (holds : P d) : P (slashedTimes slashRatio n d) := by
  induction n generalizing d with
  | zero => exact holds
  | succ n ih => exact ih (slashed d holds)

/-- The evidence against the delegatee with a key. -/
def evidence (byzantines : List Address) (k : LedgerKey) : Nat :=
  byzantines.countP fun addr => toLedgerKey addr = k

theorem evidence_cons_le (addr : Address) (rest : List Address) (k : LedgerKey) :
    evidence rest k ≤ evidence (addr :: rest) k := by
  rw [evidence, evidence, List.countP_cons]
  omega

theorem everywhere_put (holds : Everywhere .delegatees P ls)
    (new : P d) : Everywhere .delegatees P (ls.put .delegatees d) := by
  rw [Everywhere, put_self]
  exact All.set holds new

/-- Storing a delegatee, which is deleted if it has no power. -/
theorem all_stored (holds : Everywhere .delegatees P ls)
    (left : d.totalPower ≠ 0 → P d) : (stored d ls .delegatees).All P := by
  unfold stored
  split
  · rw [remove_self]
    exact All.erase holds _
  · next power =>
    rw [put_self]
    exact All.set holds (left power)

/-- Every delegatee is slashed once for each evidence against it. -/
theorem everywhere_punish {slashRatio : Int} {byzantines : List Address}
    (holds : Everywhere .delegatees P ls)
    (slashed : ∀ k d, (ls .delegatees).lookup k = some d → ∀ n, 1 ≤ n → n ≤ evidence byzantines k →
      P (slashedTimes slashRatio n d)) :
    Everywhere .delegatees P (exec (byzantines.forM (doPunish slashRatio)) ls).2 := by
  induction byzantines generalizing ls with
  | nil => exact holds
  | cons addr rest ih =>
    rw [List.forM, exec_bind, exec_doPunish, andThen_ok]
    cases found : (ls .delegatees).lookup (toLedgerKey addr) with
    | none =>
      exact ih holds fun k d found' n low high =>
        slashed k d found' n low (high.trans (evidence_cons_le addr rest k))
    | some d =>
      have key := key_of_lookup found
      have first : P (d.doSlash slashRatio) := by
        refine slashed (toLedgerKey addr) d found 1 le_rfl ?_
        simp [evidence]
      refine ih (everywhere_put holds first) fun k d' found' n low high => ?_
      simp only at found'
      rw [put_self, lookup_set] at found'
      split at found'
      · next here =>
        -- the same delegatee again
        cases found'
        have same : toLedgerKey addr = k := key.symm.trans here.1
        refine slashed k d (same ▸ found) (n + 1) (by omega) ?_
        simp only [evidence, List.countP_cons, same, decide_true, if_true] at high ⊢
        omega
      · exact slashed k d' found' n low (high.trans (evidence_cons_le addr rest k))

theorem files_missedBlock (marked : ∀ d marker, P d → P { d with notSignedHeights := marker })
    (params : GovParams) (height : Int) (addr : Address) :
    Files True .delegatees P (missedBlock params height addr) := by
  refine (fetches_get _).bind fun found granted => ?_
  cases found with
  | error e => trivial
  | ok d =>
    obtain ⟨marker, first⟩ := processNotSignedBlock_eq d (i64 (height - 1))
    have first : P (processNotSignedBlock d (i64 (height - 1))) :=
      first ▸ marked d marker (granted d rfl)
    have second := marked _ (((processNotSignedBlock d (i64 (height - 1)))
      |>.getNotSignedBlockCount (windowStart params (i64 (height - 1))) (i64 (height - 1))).2
        |>.notSignedHeights) first
    refine (files_set first).seq fun _ => (files_set second).seq fun _ => ?_
    split
    · refine Obeys.seq (Obeys.forM _ trivial fun s0 _ => ?_) fun _ => (files_del (fun _ => trivial) _).seq fun _ => trivial
      exact Calm.files (S := fun l => l = .frozenStakes)
        (writes_set (S := fun l => l = .frozenStakes) rfl _) (by decide)
    · trivial

/-- A property that slashing and marking keep holds of the delegatees when a block has begun. -/
theorem everywhere_punishAndReward {params : GovParams} {info : BlockInfo}
    (marked : ∀ d marker, P d → P { d with notSignedHeights := marker })
    (holds : Everywhere .delegatees P ls)
    (slashed : ∀ k d, (ls .delegatees).lookup k = some d →
      ∀ n, 1 ≤ n → n ≤ evidence info.byzantines k →
        P (slashedTimes params.slashRatio n d))
    (ran : exec (punishAndReward params info) ls = (.ok (), ls')) :
    Everywhere .delegatees P ls' := by
  obtain ⟨_, ls₁, punished, rewarded⟩ := run_bind_ok ran
  have after : Everywhere .delegatees P ls₁ := by
    have kept := everywhere_punish holds slashed
    rwa [show exec (info.byzantines.forM (doPunish params.slashRatio)) ls = (.ok (), ls₁)
      from punished] at kept
  refine Everywhere.of_exec after ?_ rewarded
  split
  · trivial
  · refine Obeys.seq (Calm.files (S := fun _ => False) (writes_immutableAt _ _) id) fun immu =>
      Obeys.seq (Calm.files (S := fun _ => False) (calm_ofExcept _) id) fun immu => ?_
    refine Obeys.forM _ trivial fun vote _ => ?_
    unfold processVote
    split
    · refine Calm.files (S := fun l => l = .rewards) ?_ (by decide)
      split
      · trivial
      · split
        · trivial
        · exact writes_doRewardTo (S := fun l => l = .rewards) (fun _ _ => trivial) rfl _ _ _
    · exact files_missedBlock marked _ _ _

end

end StakeCtrler

/-! ## DeliverTx -/

namespace TrxExecutor

/-- The fee is taken from the ledger of the accounts. -/
theorem exec_runNative_frame (ctx : TrxContext) (execute : LedgerProg Unit) (ls : Stores)
    (other : l ≠ .accounts) :
    (exec (runNative ctx execute) ls).2 l = (exec execute ls).2 l := by
  rw [runNative, exec_bind]
  generalize exec execute ls = executed
  obtain ⟨outcome, ls'⟩ := executed
  cases outcome with
  | error fault => rfl
  | ok _ =>
    exact exec_frame (S := fun l => l = .accounts)
      (writes_postRunTrx (S := fun l => l = .accounts) rfl ctx _) other ls'

/-- A transaction that stakes or unstakes, run without its fee. -/
theorem runTrx_stakes {E : EvmLib} {ctx : TrxContext}
    (type : ctx.tx.type = .staking ∨ ctx.tx.type = .unstaking) (pubKey : HexBytes)
    (r : Workspace E) (other : l ≠ .accounts) :
    (run (trxHandler storeImpl) (runTrx ctx pubKey) r).2.ledgers l =
      (exec (executeTrx ctx pubKey) r.ledgers).2 l := by
  have native : (runTrx ctx pubKey : Ctrler E TrxResult) =
      Ctrler.ledger (runNative ctx (executeTrx ctx pubKey)) := by
    rcases type with type | type <;> simp only [runTrx, type]
  rw [native, run_ledger]
  exact exec_runNative_frame ctx _ r.ledgers other

/-- What a transaction does to the delegatees and the frozen stakes. -/
inductive StakesAfter (lib : TrxLib) (ctx : TrxContext) (ls : Stores) :
    Store Delegatee → Store Stake → Prop
  | kept : StakesAfter lib ctx ls (ls .delegatees) (ls .frozenStakes)
  | staked {pubKey : HexBytes} {d : Delegatee} (valid : CommonlyValid lib ctx pubKey)
      (power : 0 ≤ powerOf ctx.tx.amount) (grows : 0 < i64 (d.totalPower + powerOf ctx.tx.amount))
      (target : StakeCtrler.StakesOn ctx pubKey ls d) :
      StakesAfter lib ctx ls ((ls .delegatees).set (d.addStake (StakeCtrler.stakeOf ctx)))
        (ls .frozenStakes)
  | unstaked {pubKey : HexBytes} {d : Delegatee} {s0 : Stake} (valid : CommonlyValid lib ctx pubKey)
      (found : (ls .delegatees).lookup (toLedgerKey ctx.tx.toAddr) = some d)
      (own : StakeCtrler.OwnStake ctx d s0) :
      StakesAfter lib ctx ls (StakeCtrler.stored (StakeCtrler.leftOver d s0) ls .delegatees)
        (StakeCtrler.frozen (i64 (ctx.height + ctx.params.lazyRewardBlocks))
          (StakeCtrler.unstakedOf d s0) ls .frozenStakes)

variable {E : EvmLib} {lib : TrxLib} {json : ParamsJSON} {ctx : TrxContext}

theorem StakesAfter.congr {delegatees : Store Delegatee}
    {frozenStakes : Store Stake} (effect : StakesAfter lib ctx ls delegatees frozenStakes)
    (same : ls .delegatees = ls' .delegatees) (same' : ls .frozenStakes = ls' .frozenStakes) :
    StakesAfter lib ctx ls' delegatees frozenStakes := by
  cases effect with
  | kept =>
    rw [same, same']
    exact .kept
  | staked valid power grows target =>
    rw [same, same']
    exact .staked valid power grows (target.congr same)
  | unstaked valid found own =>
    rw [stored_congr _ same, frozen_congr _ _ same']
    exact .unstaked valid (same ▸ found) own

theorem executeSync_staking (type : ctx.tx.type = .staking) {r r' : Workspace E}
    (validated : run (trxHandler storeImpl) (validateTrx lib json ctx) r = (.ok pubKey, r')) :
    StakesAfter lib ctx r.ledgers
      ((exec (exeStaking ctx pubKey) r.ledgers).2 .delegatees)
      ((exec (exeStaking ctx pubKey) r.ledgers).2 .frozenStakes) := by
  obtain ⟨valid, -, checked⟩ := validateTrx_ok validated
  simp only [validateByType, StakeCtrler.validateTrx, type] at checked
  obtain ⟨_, _, staking, -⟩ := run_bind_ok checked
  obtain ⟨_, judged, -⟩ := run_ledger_ok staking
  have frozen : (exec (exeStaking ctx pubKey) r.ledgers).2 .frozenStakes =
      r.ledgers .frozenStakes :=
    exec_frame (S := fun l => l ≠ .frozenStakes)
      (writes_exeStaking trivial (fun _ => trivial) (by decide) (by decide) ctx pubKey) (not_not.mpr rfl) _
  rw [frozen]
  rcases exec_exeStaking ctx pubKey r.ledgers with
    ⟨fault, ls', failed, same⟩ | ⟨power, d, sender', target, executed⟩
  · rw [failed]
    change StakesAfter lib ctx r.ledgers (ls' .delegatees) _
    rw [same]
    exact .kept
  · rw [executed]
    simp only [put_self]
    rw [put_of_ne _ _ (by decide)]
    exact .staked valid power (validateStaking_ok judged target) target

theorem executeSync_unstaking {r r' : Workspace E}
    (validated : run (trxHandler storeImpl) (validateTrx lib json ctx) r = (.ok pubKey, r')) :
    StakesAfter lib ctx r.ledgers
      ((exec (exeUnstaking ctx) r.ledgers).2 .delegatees)
      ((exec (exeUnstaking ctx) r.ledgers).2 .frozenStakes) := by
  have valid := (validateTrx_ok validated).1
  rcases exec_exeUnstaking ctx r.ledgers with
    ⟨fault, failed⟩ | ⟨d, s0, found, own, executed⟩
  · rw [failed]
    exact .kept
  · rw [executed]
    simp only
    have same : frozen (i64 (ctx.height + ctx.params.lazyRewardBlocks))
        (unstakedOf d s0) r.ledgers .delegatees = r.ledgers .delegatees :=
      frozen_of_ne _ _ r.ledgers (by decide)
    rw [stored_congr _ same,
      stored_of_ne _ _ (by decide : LedgerId.frozenStakes ≠ .delegatees)]
    exact .unstaked valid found own

/-- Whether it succeeds or not, a transaction does one of these things. -/
theorem executeSync_stakes (lib : TrxLib) (json : ParamsJSON) (ctx : TrxContext)
    (r : Workspace E) :
    StakesAfter lib ctx r.ledgers
      ((run (trxHandler storeImpl) (executeSync lib json ctx) r).2.ledgers .delegatees)
      ((run (trxHandler storeImpl) (executeSync lib json ctx) r).2.ledgers .frozenStakes) := by
  by_cases type : ctx.tx.type = .staking ∨ ctx.tx.type = .unstaking
  · rcases executeSync_cases lib json ctx r with
      ⟨fault, r', failed, ledgers⟩ | ⟨pubKey, r', validated, ledgers, sequence⟩
    · rw [failed]
      simp only [ledgers]
      exact .kept
    · rw [sequence, runTrx_stakes type _ _ (by decide), runTrx_stakes type _ _ (by decide), ledgers]
      rcases type with type | type
      · simp only [executeTrx, type]
        exact executeSync_staking type validated
      · simp only [executeTrx, type]
        exact executeSync_unstaking validated
  · have frame {l : LedgerId} (other : ¬ WrittenBy ctx.tx.type l) :=
      run_frame (obeys_executeSync_type lib json ctx) ⟨rfl, rfl⟩ other (r := r)
    rw [frame (l := .delegatees) type, frame (l := .frozenStakes) fun unstaking => type (.inr unstaking)]
    exact .kept

end TrxExecutor

namespace RigoApp

variable {X : External} {s t : Node X.evm}

theorem deliverTx_stakes {txbz : HexBytes} {answer : TxResponse}
    (ran : DeliversTx X txbz s answer t) :
    ∃ bctx tx, s.mem.nextBlockCtx = some bctx ∧ Trx.decode X.trx txbz = .ok tx ∧
      TrxExecutor.StakesAfter X.trx (ctxOf X s bctx txbz tx) s.ledgers
        (t.ledgers .delegatees) (t.ledgers .frozenStakes) := by
  obtain ⟨bctx, tx, sender, inBlock, decoded, -, answered⟩ := deliverTx_ok ran
  refine ⟨bctx, tx, inBlock, decoded, ?_⟩
  rw [(respond_ok answered).1]
  exact (TrxExecutor.executeSync_stakes _ _ _ _).congr
    (withAccount_of_ne (by decide) _ _) (withAccount_of_ne (by decide) _ _)

/-! ## The other calls -/

section

variable {P : Delegatee → Prop}

/-- The delegatee that a genesis validator becomes. -/
def genesisDelegatee (X : External) (val : HexBytes × Int) : Delegatee :=
  (Delegatee.newDelegatee (X.pubBytes2Addr val.1) val.1).addStake (initStake X val.1 val.2).stake

/-- A new node has no items. -/
theorem everywhere_firstNode {Q : l.Item → Prop} (first : firstNode X = .ok s) :
    Everywhere l Q s.ledgers := by
  cases first
  exact ⟨.empty, .empty, fun m saved => absurd saved List.not_mem_nil⟩

theorem initChain_delegatees {genesis : Genesis} (first : firstNode X = .ok s)
    (ran : InitsChain X genesis s t)
    (holds : ∀ val ∈ genesis.validators, P (genesisDelegatee X val)) :
    Everywhere .delegatees P t.ledgers := by
  have empty : Everywhere .delegatees P s.ledgers := everywhere_firstNode first
  obtain ⟨ls, ls', ls'', held, accounts, staked, rfl⟩ := initChain_ok ran
  have before : ls' .delegatees = s.ledgers .delegatees := by
    rw [(writes_validatorAccounts (S := fun l => l = .accounts) rfl _).frame (by decide) accounts,
      (AcctCtrler.writes_initLedger (S := fun l => l = .accounts) rfl _).frame (by decide) held,
      put_of_ne _ _ (by decide)]
  have empty' : Everywhere .delegatees P ls' := by
    rw [Everywhere, before]
    exact empty
  refine empty'.of_exec (Obeys.forM _ trivial fun init member => files_set ?_) staked
  obtain ⟨val, member', rfl⟩ := List.mem_map.mp member
  exact holds val member'

theorem beginBlock_delegatees {info : BlockInfo}
    (marked : ∀ d marker, P d → P { d with notSignedHeights := marker })
    (holds : Everywhere .delegatees P s.ledgers)
    (slashed : ∀ k d, (s.ledgers .delegatees).lookup k = some d →
      ∀ n, 1 ≤ n → n ≤ evidence info.byzantines k →
        P (slashedTimes s.mem.govParams.slashRatio n d))
    (ran : BeginsBlock X info s t) :
    Everywhere .delegatees P t.ledgers := by
  obtain ⟨last, ls, ls', allDelegatees, -, -, -, governed, -, rewarded, rfl⟩ := beginBlock_ok ran
  have before : ls .delegatees = s.ledgers .delegatees :=
    GovCtrler.beginBlock_frame (by decide) governed
  have holds' : Everywhere .delegatees P ls := by
    rw [Everywhere, before]
    exact holds
  exact everywhere_punishAndReward marked holds' (before ▸ slashed) rewarded

/-- A commit keeps what holds of every item, also for a new process. -/
theorem commit_everywhere {Q : l.Item → Prop} {appHash : HexBytes}
    (holds : Everywhere l Q s.ledgers)
    (ran : Commits X s appHash t) :
    Everywhere l Q t.ledgers := by
  obtain ⟨bctx, state, -, -, -, rfl, -, -⟩ := commit_ok ran
  exact holds.commit

end

end RigoApp

end Rigo
