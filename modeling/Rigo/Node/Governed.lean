import Rigo.Node.Totality
import Rigo.Node.Stakes
import Rigo.Node.LifeCycle

/-!
# Staking under the parameters of governance

The options of a proposal are checked for being parameters, not for being sensible ones.  This
module says what the stake controller needs of the parameters in force: which of its calls end in
an index out of range or in a division by zero is characterised exactly (`CallSafe`, `CallFits`),
and no stake gets a negative power in a run whose slashes take no more than there is
(`Run.staking_safe`).  An accepted proposal can set the number of validators to -1, which the end of
the next block does not survive (`Run.endBlock_outOfRange`).
-/

namespace Rigo

open Foundation
open Delegatee StakeCtrler

/-! ## Code without arithmetic panics -/

/-- Code that has no panic of a bad kind, from any ledgers. -/
def Spares {α : Type} (bad : Panic → Prop) (p : LedgerProg α) : Prop :=
  ∀ ls, wp (ledgerHandler storeImpl) (Fault.Avoids bad) p (fun _ _ => True) ls

section

variable {bad : Panic → Prop} {α : Type}

/-- Code whose panics are not bad, from any ledgers. -/
theorem Calm.spares {p : LedgerProg α}
    (calm : Calm (writing (fun _ => True) fun _ => True) (fun p => ¬ bad p) p) : Spares bad p := by
  intro ls
  refine wp_mono (Obeys.wp (h := ledgerHandler storeImpl) (I := fun _ => True)
    (fun _ _ _ _ => ⟨trivial, trivial⟩) calm (fun fault ended => ?_) trivial) fun _ _ _ => trivial
  cases fault with
  | xerr e => trivial
  | panic p => exact ended

end

namespace StakeCtrler

section

variable {bad : Panic → Prop} (explicit : ∀ text, ¬ bad (.explicit text))

include explicit

/-- `BeginBlock` has no panics but explicit ones. -/
theorem wp_beginBlock {E : EvmLib} (params : GovParams) (info : BlockInfo) (r : Workspace E) :
    wp (trxHandler storeImpl) (Fault.Avoids bad) (beginBlock params info) (fun _ _ => True) r := by
  simp only [beginBlock, Prog.bind_eq, wp_bind, wp_ledger, wp_setLimiter, Prog.pure_eq,
    wp_pure]
  refine wp_mono ((writes_collectDelegatees (fun _ => explicit _) params).spares _) fun _ ls _ => ?_
  exact (writes_punishAndReward (fun _ _ => explicit _) trivial trivial trivial params info).spares ls

end

/-- A number of validators that is not negative is all that `EndBlock` needs. -/
theorem spares_endBlock_iff {params : GovParams} {allDelegatees : List Delegatee}
    {lastValidators : Validators} {height : Int} :
    Spares Panic.Arithmetic (endBlock params allDelegatees lastValidators height) ↔
      0 ≤ params.maxValidatorCnt := by
  constructor
  · intro spares
    by_contra negative
    -- from empty ledgers there is nothing to refund, and the validators are selected
    have ended := spares fun _ => Store.new Tree.empty
    have refunded : run (ledgerHandler storeImpl) (unfreezingStakes height)
        (fun _ => Store.new Tree.empty) = (.ok (), fun _ => Store.new Tree.empty) := rfl
    simp only [endBlock, updateValidators, selectValidators, not_le.mp negative, if_true,
      Prog.bind_eq, wp_bind, wp_of_ok refunded] at ended
    exact ended (.inl rfl)
  · intro enough
    refine Calm.spares ((writes_unfreezingStakes trivial trivial height).seq fun _ =>
      Calm.seq ?_ fun _ => trivial)
    unfold selectValidators
    rw [if_neg (not_lt.mpr enough)]
    trivial

/-! ## The checks on a transaction -/

/-- A staking on whose way to the limiter no divisor is zero. -/
def StakingDivides (ctx : TrxContext) (d : Option Delegatee) (limit : Prop) : Prop :=
  let power := powerOf ctx.tx.amount
  Whole ctx.tx.amount → 0 ≤ power →
    (ctx.tx.fromAddr = ctx.tx.toAddr → 0 ≤ powerOf ctx.params.minValidatorStake →
      powerOf ctx.params.minValidatorStake ≤ selfPowerAfter d power →
        0 < i64 (totalPowerOf d + power) → limit) ∧
    (ctx.tx.fromAddr ≠ ctx.tx.toAddr → ∀ d₀, d = some d₀ →
      0 ≤ powerOf ctx.params.minDelegatorStake → EnoughToDelegate ctx.params power →
        i64 (d₀.totalPower + power) ≠ 0 ∧
          (ctx.params.minSelfStakeRatio ≤ selfRatioAfter d₀ power →
            0 < i64 (d₀.totalPower + power) → limit))

/-- What a transaction must meet, by its type. -/
def Divides {E : EvmLib} (ctx : TrxContext) (r : Workspace E) : Prop :=
  match ctx.tx.type, ctx.tx.payload with
  | .staking, _ =>
    StakingDivides ctx ((r.ledgers .delegatees).lookup (toLedgerKey ctx.tx.toAddr))
      (LimitFits r.limiter ctx.validators
        (((r.ledgers .delegatees).lookup (toLedgerKey ctx.tx.toAddr)).getD
          (Delegatee.newDelegatee ctx.tx.toAddr [])) (powerOf ctx.tx.amount))
  | .unstaking, .unstaking txHash =>
    UnstakingFits ctx txHash ((r.ledgers .delegatees).lookup (toLedgerKey ctx.tx.toAddr))
      r.limiter
  | _, _ => True

theorem not_arithmetic_explicit (text : String) : ¬ Panic.Arithmetic (.explicit text) := by
  rintro (⟨⟨⟩⟩ | ⟨⟨⟩⟩)

theorem wp_validateStaking_arithmetic {ctx : TrxContext} {ls : Stores}
    {post : Delegatee × Int → Prop} :
    wp (ledgerHandler storeImpl) (Fault.Avoids Panic.Arithmetic) (validateStaking ctx)
      (fun asked _ => post asked) ls ↔
    StakingDivides ctx ((ls .delegatees).lookup (toLedgerKey ctx.tx.toAddr))
      (post (((ls .delegatees).lookup (toLedgerKey ctx.tx.toAddr)).getD
        (newDelegatee ctx.tx.toAddr []), powerOf ctx.tx.amount)) := by
  have negative (amt : Uint256) : ¬ Panic.Arithmetic (negativePower amt) :=
    not_arithmetic_explicit _
  have zero : Panic.Arithmetic .divisionByZero := .inr rfl
  have divides {x : Int} {q : Prop} :
      (x = 0 → ¬ Panic.Arithmetic .divisionByZero) ∧ (x ≠ 0 → q) ↔ x ≠ 0 ∧ q := by
    simp only [zero, not_true, imp_false]
    exact and_congr_right fun holds => by simp [holds]
  rw [wp_validateStaking, StakingDivides]
  refine imp_congr_right fun _ => ?_
  simp only [negative, not_false_eq_true, implies_true, true_and]
  refine imp_congr_right fun _ => ?_
  unfold validateStaker
  simp only [wp_ite, wp_validateSelfStaking, wp_validateDelegating, Asks, negative,
    not_arithmetic_explicit, not_false_eq_true, implies_true, true_and, divides, not_le, ne_eq]

/-- A request that ends well is put to the limiter. -/
theorem wp_ask_arithmetic {E : EvmLib} {request : LedgerProg (Delegatee × Int)}
    {validators : Validators} {r : Workspace E} :
    wp (trxHandler storeImpl) (Fault.Avoids Panic.Arithmetic)
      ((Ctrler.ledger request).bind fun asked => checkLimit validators asked.1 asked.2)
      (fun _ _ => True) r ↔
    wp (ledgerHandler storeImpl) (Fault.Avoids Panic.Arithmetic) request
      (fun asked _ => LimitFits r.limiter validators asked.1 asked.2) r.ledgers := by
  rw [wp_bind, wp_ledger]
  simp only [wp_checkLimit fun _ => id]

/-- `ValidateTrx` has no arithmetic panic exactly if the transaction meets the condition. -/
theorem wp_validateTrx_arithmetic {E : EvmLib} {ctx : TrxContext} {r : Workspace E} :
    wp (trxHandler storeImpl) (Fault.Avoids Panic.Arithmetic) (validateTrx ctx)
      (fun _ _ => True) r ↔ Divides ctx r := by
  unfold validateTrx Divides
  cases ctx.tx.type with
  | staking => exact wp_ask_arithmetic.trans wp_validateStaking_arithmetic
  | unstaking =>
    refine wp_ask_arithmetic.trans ?_
    cases payload : ctx.tx.payload with
    | unstaking txHash => exact wp_validateUnstaking payload
    | _ =>
      simp only [validateUnstaking, findOwnStake, payload, Prog.bind_eq, wp_bind,
        wp_get, wp_ofExcept, wp_crash]
      exact iff_of_true (fun _ _ => by rintro (⟨⟨⟩⟩ | ⟨⟨⟩⟩)) trivial
  | withdraw =>
    refine iff_of_true ((wp_ledger _).mpr ?_) trivial
    cases payload : ctx.tx.payload with
    | withdraw reqAmt => exact (wp_validateWithdraw payload).mpr fun _ _ _ _ => trivial
    | _ =>
      simp only [validateWithdraw, payload, Prog.bind_eq, wp_bind, wp_ensure,
        wp_throwX, implies_true]
  | _ => exact iff_of_true trivial trivial

end StakeCtrler

namespace RigoApp

variable {X : External}

/-! ## The calls of a run -/

/-- What the stake controller does in a call has no index out of range and no division by zero. -/
def CallSafe (X : External) (s : Node X.evm) : ConsensusCall → Prop
  | .beginBlock info => ∀ r : Workspace X.evm,
      wp (trxHandler storeImpl) (Fault.Avoids Panic.Arithmetic)
        (StakeCtrler.beginBlock s.mem.govParams info) (fun _ _ => True) r
  | .deliverTx txbz => ∀ bctx tx, s.mem.nextBlockCtx = some bctx →
      Trx.decode X.trx txbz = .ok tx →
        wp (trxHandler storeImpl) (Fault.Avoids Panic.Arithmetic)
          (StakeCtrler.validateTrx (ctxOf X s bctx txbz tx)) (fun _ _ => True)
          { s.toResources with ledgers := Stores.withAccount s.ledgers tx.toAddr }
  | .endBlock => ∀ height,
      Spares Panic.Arithmetic (StakeCtrler.endBlock s.mem.govParams s.mem.allDelegatees
        s.mem.lastValidators height)
  | .commit => True

/-- What is needed for that, of the parameters in force and of the state before the call. -/
def CallFits (X : External) (s : Node X.evm) : ConsensusCall → Prop
  | .beginBlock _ => True
  | .deliverTx txbz => ∀ bctx tx, s.mem.nextBlockCtx = some bctx →
      Trx.decode X.trx txbz = .ok tx →
        StakeCtrler.Divides (ctxOf X s bctx txbz tx) s.toResources
  | .endBlock => 0 ≤ s.mem.govParams.maxValidatorCnt
  | .commit => True

theorem callSafe_iff (s : Node X.evm) (call : ConsensusCall) :
    CallSafe X s call ↔ CallFits X s call := by
  cases call with
  | beginBlock info =>
    refine iff_of_true ?_ trivial
    exact wp_beginBlock not_arithmetic_explicit s.mem.govParams info
  | deliverTx txbz =>
    refine forall₄_congr fun bctx tx _ _ => ?_
    rw [wp_validateTrx_arithmetic]
    unfold Divides
    simp only [Stores.withAccount_of_ne (l := .delegatees) (by decide)]
  | endBlock => exact (forall_congr' fun _ => spares_endBlock_iff).trans (forall_const Int)
  | commit => exact Iff.rfl

/-- No slash of a block takes more of a stake than there is. -/
def SlashesFit (step : Step X.evm) : Prop :=
  match step.call with
  | .beginBlock info => ∀ addr ∈ info.byzantines,
      ∀ d ∈ (step.before.ledgers .delegatees).lookup (toLedgerKey addr),
      ∀ n < StakeCtrler.evidence info.byzantines (toLedgerKey addr),
      ∀ s0 ∈ (StakeCtrler.slashedTimes step.before.mem.govParams.slashRatio n d).stakes,
        Delegatee.slashOf step.before.mem.govParams.slashRatio s0 ≤ s0.power
  | _ => True

instance (step : Step X.evm) : Decidable (SlashesFit step) :=
  match step with
  | ⟨_, .beginBlock info, _, _⟩ => inferInstanceAs (Decidable (∀ addr ∈ info.byzantines, _))
  | ⟨_, .deliverTx _, _, _⟩ => .isTrue trivial
  | ⟨_, .endBlock, _, _⟩ => .isTrue trivial
  | ⟨_, .commit, _, _⟩ => .isTrue trivial

/-- A power that is not negative, in 64 bits. -/
def Stake.InRange (s0 : Stake) : Prop := 0 ≤ s0.power ∧ s0.power < 2 ^ 63

theorem inRange_slashStake {ratio : Int} {s0 : Stake} (inRange : Stake.InRange s0)
    (fits : slashOf ratio s0 ≤ s0.power) :
    Stake.InRange (slashStake ratio s0) := by
  unfold slashStake
  split
  · exact inRange
  · next kept =>
    obtain ⟨low, high⟩ := inRange
    refine ⟨?_, (i64_range _).2⟩
    simp only
    rw [i64_of_range (by omega) (by omega)]
    omega

/-- In every run whose slashes take no more than there is, no stake has a negative power; and a
call of the stake controller has no index out of range and no division by zero exactly if the
parameters and the state before it fit. -/
theorem Run.staking_safe {mayRestart : Bool} {genesis : Genesis} {phase : Phase}
    {steps : List (Step X.evm)} {s : App X.evm} (ran : Run X mayRestart genesis phase steps s)
    (powers : ∀ val ∈ genesis.validators, 0 ≤ val.2 ∧ val.2 < 2 ^ 63)
    (fits : ∀ step ∈ steps, SlashesFit step) :
    EveryStake (fun s0 => 0 ≤ s0.power) (App.node s).ledgers ∧
      ∀ call, CallSafe X (App.node s) call ↔ CallFits X (App.node s) call := by
  have inRange : EveryStake Stake.InRange (App.node s).ledgers := by
    refine ran.everyStake (Q := Stake.InRange) (fun _ _ holds => holds) ?_ powers ?_
    · exact fun ctx power => ⟨power, powerOf_lt _⟩
    · intro step member
      have fits := fits step member
      unfold SlashesFit at fits
      unfold SlashesKeep
      split
      · next info call =>
        rw [call] at fits
        intro addr byzantine d found n less s0 held holds
        exact inRange_slashStake holds (fits addr byzantine d found n less s0 held)
      · trivial
  exact ⟨⟨inRange.held.mono fun d holds s0 member => (holds s0 member).1,
    inRange.frozen.mono fun s0 holds => holds.1⟩, callSafe_iff (App.node s)⟩

/-! ### A proposal for a negative number of validators -/

/-- The text of an option that sets the number of validators to -1. -/
def noValidators : GovParamsText :=
  ⟨0, -1, "", "", "", 0, 0, "", 0, 0, 0, 0, 0, 0, 0, 0, 0, 0, 0⟩

/-- The proposal of that option, voted on in the blocks 4 and 5 and applied from block 5 on, and
a vote for it. -/
def negativeProposal : External :=
  Concrete.external ⟨[Concrete.trx .proposal 1 0 0 0 [0], Concrete.trx .voting 1 0 1 0 [0]],
    [⟨[], 4, 1, 5, proposalGovParams, [[7]]⟩], [⟨List.replicate 31 1 ++ [0], 0⟩],
    [([7], noValidators)]⟩

def negativeStarted : App negativeProposal.evm :=
  (start negativeProposal shortPeriods).toOption.get (by decide +kernel)

/-- The proposal is accepted and applied, and block 8 begins. -/
def sevenBlocksAndOne : List ConsensusCall := sevenBlocks ++ [.beginBlock (Concrete.block 8)]

/-- The proposal and the vote are executed, and the block after the proposal was applied cannot be
ended. -/
theorem Run.endBlock_outOfRange : ∃ steps s,
    Run negativeProposal false shortPeriods .delivering steps s ∧
      (steps.filterMap (executedTrx negativeProposal)).length = 2 ∧
      shortPeriods.params.maxValidatorCnt = 21 ∧ s.mem.govParams.maxValidatorCnt = -1 ∧
      (run (nodeHandler negativeProposal finalityImpl) (endBlock negativeProposal) s).1 =
        .error (.panic .outOfRange) := by
  have length : (stepsOf negativeProposal sevenBlocksAndOne negativeStarted).length =
      sevenBlocksAndOne.length := by decide +kernel
  have ran : Run negativeProposal false shortPeriods .delivering
      ([] ++ stepsOf negativeProposal sevenBlocksAndOne negativeStarted) _ :=
    (Run.start (eq_ok_of_isSome _)).calls sevenBlocksAndOne rfl length
  exact ⟨_, _, ran, by decide +kernel, rfl, by decide +kernel, by decide +kernel⟩

/-- A block with evidence against a validator has begun, and can be ended. -/
theorem Run.staking_safe_slashed :
    EveryStake (fun s0 => 0 ≤ s0.power) (App.node
        (runCalls twoStakings finalityImpl (stakedAndSlashed.take 6) tenStaked).2).ledgers ∧
      CallSafe twoStakings (App.node
        (runCalls twoStakings finalityImpl (stakedAndSlashed.take 6) tenStaked).2) .endBlock := by
  have length : (stepsOf twoStakings (stakedAndSlashed.take 6) tenStaked).length =
      (stakedAndSlashed.take 6).length := by decide +kernel
  have ran : Run twoStakings false (smallStakes 10) .delivering
      ([] ++ stepsOf twoStakings (stakedAndSlashed.take 6) tenStaked) _ :=
    (Run.start (eq_ok_of_isSome _)).calls (stakedAndSlashed.take 6) rfl length
  obtain ⟨powers, safe⟩ := Run.staking_safe ran (by decide) (by decide +kernel)
  have enough : 0 ≤ (runCalls twoStakings finalityImpl (stakedAndSlashed.take 6)
    tenStaked).2.mem.govParams.maxValidatorCnt := by decide +kernel
  exact ⟨powers, (safe .endBlock).mpr enough⟩

end RigoApp

end Rigo
