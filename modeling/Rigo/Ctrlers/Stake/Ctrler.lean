import Rigo.Ctrlers.Account.Ctrler

/-!
# The stake controller

`ctrlers/stake/ctrler.go`.  Staking moves an amount from an account to a stake of a
delegatee; unstaking moves the stake to the frozen stakes, where it stays until its
refund height.  `beginBlock` collects the delegatees who may become validators,
slashes the byzantine ones, issues rewards, and stops validators that did not sign
enough blocks; `endBlock` refunds the frozen stakes that are due and reports the
changes of the validators.
-/

namespace Rigo

open LedgerProg
open Ctrler (ledger getLimiter setLimiter)

namespace StakeCtrler

/-! ## The start of a block -/

/-- The delegatees with enough power of their own to become validators. -/
def candidates (minValidatorStake : Uint256) : List Delegatee → LedgerProg (List Delegatee)
  | [] => return []
  | d :: rest => do
      let minPower ← amountToPower minValidatorStake
      let others ← candidates minValidatorStake rest
      return if d.selfPower ≥ minPower then d :: others else others

/-- The first part of `BeginBlock`: the field `allDelegatees`, sorted by power. -/
def collectDelegatees (params : GovParams) : LedgerProg (List Delegatee) := do
  let committed ← readAll .delegatees
  let allDelegatees ← candidates params.minValidatorStake (committed.toOption.getD [])
  return sortBy Delegatee.powerLess allDelegatees

/-- The limiter reset to the delegatees of a block. -/
def resetLimiter (params : GovParams) (allDelegatees : List Delegatee) : StakeLimiter :=
  StakeLimiter.reset allDelegatees params.maxValidatorCnt params.maxIndividualStakeRatio
    params.maxUpdatableStakeRatio

/-- `doPunish`; an error is only logged. -/
def doPunish (slashRatio : Int) (addr : Address) : LedgerProg Unit := do
  match ← get .delegatees (toLedgerKey addr) with
  | .error _ => return ()
  | .ok delegatee => set .delegatees (Delegatee.doSlash delegatee slashRatio)

/-- One round of the loop of `doRewardTo`. -/
def rewardStake (params : GovParams) (height : Int) (s0 : Stake) : LedgerProg Unit := do
  let rwd := Uint256.newInt (uint64OfInt s0.power) * params.rewardPerPower
  match ← get .rewards (toLedgerKey s0.fromAddr) with
  | .ok rwdObj => set .rewards (← Reward.issue rwdObj rwd height)
  | .error e =>
    if e = .errNotFoundResult then
      set .rewards (← (Reward.newReward s0.fromAddr).issue rwd height)
    else return ()

/-- `doRewardTo`. -/
def doRewardTo (params : GovParams) (height : Int) (delegatee : Delegatee) : LedgerProg Unit :=
  delegatee.stakes.forM (rewardStake params height)

/-- Put a stake with its refund height on the frozen ledger. -/
def freezeStake (refundHeight : Int) (s0 : Stake) : LedgerProg Unit :=
  set .frozenStakes { s0 with refundHeight := refundHeight }

/-- The start of the window in which a validator must have signed enough blocks. -/
def windowStart (params : GovParams) (signedHeight : Int) : Int :=
  max 0 (i64 (signedHeight - params.signedBlocksWindow))

/-- The forced stop of a validator: its stakes are frozen and it is deleted. -/
def stopValidator (refundHeight : Int) (delegatee : Delegatee) : LedgerProg Unit := do
  delegatee.stakes.forM (freezeStake refundHeight)
  let _ ← del .delegatees (LedgerItem.key delegatee)

/-- The part of `BeginBlock` for a validator that did not sign the last block. -/
def missedBlock (params : GovParams) (height : Int) (addr : Address) : LedgerProg Unit := do
  let signedHeight := i64 (height - 1)
  match ← get .delegatees (toLedgerKey addr) with
  | .error _ => return ()
  | .ok delegatee =>
    let delegatee := Delegatee.processNotSignedBlock delegatee signedHeight
    set .delegatees delegatee
    let counted :=
      delegatee.getNotSignedBlockCount (windowStart params signedHeight) signedHeight
    -- the marker is cut in the object that has just been set
    set .delegatees counted.2
    if i64 (params.signedBlocksWindow - counted.1) < params.minSignedBlocks then
      stopValidator (i64 (height + params.lazyRewardBlocks)) counted.2
    else return ()

/-- One round of the loop over the votes in `BeginBlock`. -/
def processVote (params : GovParams) (height : Int) (immu : ItemMap Delegatee)
    (vote : VoteInfo) : LedgerProg Unit :=
  if vote.signedLastBlock then
    match ItemMap.read immu (toLedgerKey vote.address) with
    | .error _ => return ()
    | .ok delegatee =>
      if delegatee.totalPower ≠ vote.power then return ()
      else doRewardTo params height delegatee
  else missedBlock params height vote.address

/-- The height whose powers the votes are based on. -/
def heightOfPower (height : Int) : Int := if i64 (height - 4) < 0 then 1 else i64 (height - 4)

/-- The second part of `BeginBlock`: evidence, rewards and missed blocks. -/
def punishAndReward (params : GovParams) (info : BlockInfo) : LedgerProg Unit := do
  info.byzantines.forM (doPunish params.slashRatio)
  if info.votes = [] then return ()
  else
    let immu ← ofExcept (← immutableAt .delegatees (heightOfPower info.height))
    info.votes.forM (processVote params info.height immu)

/-- `StakeCtrler.BeginBlock`, with the field `allDelegatees` it leaves. -/
def beginBlock {E : EvmLib} (params : GovParams) (info : BlockInfo) :
    Ctrler E (List Delegatee) := do
  let allDelegatees ← ledger (collectDelegatees params)
  setLimiter (resetLimiter params allDelegatees)
  ledger (punishAndReward params info)
  return allDelegatees

/-! ## Transactions -/

/-- `CheckLimit` of the controller's limiter, if there are at least three validators.
The limiter is kept as the check leaves it. -/
def checkLimit {E : EvmLib} (validators : Validators) (delegatee : Delegatee)
    (changePower : Int) : Ctrler E Unit :=
  if validators.length ≥ 3 then do
    let limiter ← getLimiter
    match limiter.checkLimit delegatee changePower with
    | (outcome, limiter') =>
      setLimiter limiter'
      match outcome with
      | .ok () => return ()
      | .error (.xerr e) => throwX (XError.errUpdatableStakeRatio.wrap e)
      | .error (.panic p) => crash p
  else return ()

/-- A delegatee that may be missing; any other error is returned. -/
def findDelegatee (addr : Address) : LedgerProg (Option Delegatee) := do
  match ← get .delegatees (toLedgerKey addr) with
  | .ok delegatee => return some delegatee
  | .error e => if e = .errNotFoundResult then return none else throwX e

/-- The check on a self staking; the total power of the delegatee so far. -/
def validateSelfStaking (params : GovParams) (delegatee : Option Delegatee) (txPower : Int) :
    LedgerProg Int := do
  let selfPower := (delegatee.map fun d => i64 (txPower + d.selfPower)).getD txPower
  let minPower ← amountToPower params.minValidatorStake
  ensure (decide (minPower ≤ selfPower)) (XError.errInvalidTrx.wrapf
    ("too small stake to become validator: a minimum is " ++
      toString params.minValidatorStake.toNat))
  return (delegatee.map Delegatee.totalPower).getD 0

/-- The check on a delegation; the total power of the delegatee so far. -/
def validateDelegating (params : GovParams) (addr : Address) (delegatee : Option Delegatee)
    (txPower : Int) : LedgerProg Int :=
  match delegatee with
  | none => throwX (XError.errNotFoundDelegatee.wrapf ("address(" ++ HexBytes.toHex addr ++ ")"))
  | some d => do
      let minDelegatorPower ← amountToPower params.minDelegatorStake
      ensure (decide (¬ (minDelegatorPower > 0 ∧ minDelegatorPower > txPower)))
        (XError.errInvalidTrx.wrapf ("too small stake to become delegator: a minimum is " ++
          toString params.minDelegatorStake.toNat))
      let selfRatio ← d.selfStakeRatio txPower
      ensure (decide (params.minSelfStakeRatio ≤ selfRatio)) (.fromErr
        ("not enough self power - validator: " ++ HexBytes.toHex d.addr ++ ", self power: " ++
          toString d.selfPower ++ ", total power: " ++ toString d.totalPower))
      return d.totalPower

/-- The check on who may stake; the total power of the delegatee so far. -/
def validateStaker (ctx : TrxContext) (delegatee : Option Delegatee) (txPower : Int) :
    LedgerProg Int :=
  if ctx.tx.fromAddr = ctx.tx.toAddr then validateSelfStaking ctx.params delegatee txPower
  else validateDelegating ctx.params ctx.tx.toAddr delegatee txPower

/-- `StakeCtrler.ValidateTrx` for `TRX_STAKING` up to the limiter: the delegatee and
the change of its power that are to be checked. -/
def validateStaking (ctx : TrxContext) : LedgerProg (Delegatee × Int) := do
  ensure (Uint256.isPositive (ctx.tx.amount / amountPerPower)) (XError.errInvalidTrx.wrapf
    ("wrong amount: it should be greater than " ++ toString amountPerPower.toNat))
  ensure (ctx.tx.amount % amountPerPower == 0) (XError.errInvalidTrx.wrapf
    ("wrong amount: it should be multiple of " ++ toString amountPerPower.toNat))
  let txPower ← amountToPower ctx.tx.amount
  let delegatee ← findDelegatee ctx.tx.toAddr
  let totalPower ← validateStaker ctx delegatee txPower
  if i64 (totalPower + txPower) ≤ 0 then crash (.explicit "delegatee power overflow occurs.")
  else return (delegatee.getD (Delegatee.newDelegatee ctx.tx.toAddr []), txPower)

/-- The checks on an unstaking: the stake that is meant must belong to the sender. -/
def findOwnStake (ctx : TrxContext) (delegatee : Delegatee) : LedgerProg Stake :=
  match ctx.tx.payload with
  | .unstaking txHash =>
    if txHash.length ≠ 32 then throwX .errInvalidTrxPayloadParams
    else
      match delegatee.findStake txHash with
      | none => throwX .errNotFoundStake
      | some s0 =>
        if ctx.tx.fromAddr ≠ s0.fromAddr then
          throwX (XError.errNotFoundStake.wrapf "you not stake owner")
        else return s0
  | _ => crash .typeAssertion

/-- `StakeCtrler.ValidateTrx` for `TRX_UNSTAKING` up to the limiter. -/
def validateUnstaking (ctx : TrxContext) : LedgerProg (Delegatee × Int) := do
  let delegatee ← ofExcept (← get .delegatees (toLedgerKey ctx.tx.toAddr))
  let s0 ← findOwnStake ctx delegatee
  return (delegatee, i64 (-1 * s0.power))

/-- `StakeCtrler.ValidateTrx` for `TRX_WITHDRAW`. -/
def validateWithdraw (ctx : TrxContext) : LedgerProg Unit := do
  ensure (ctx.tx.amount == 0) (XError.errInvalidTrx.wrapf "amount must be 0")
  match ctx.tx.payload with
  | .withdraw reqAmt => do
      let rwd ← ofExcept (← get .rewards (toLedgerKey ctx.tx.fromAddr))
      ensure (decide (¬ rwd.cumulated < reqAmt)) (XError.errInvalidTrx.wrapf "insufficient reward")
  | _ => throwX .errInvalidTrxPayloadType

/-- `StakeCtrler.ValidateTrx`. -/
def validateTrx {E : EvmLib} (ctx : TrxContext) : Ctrler E Unit :=
  match ctx.tx.type with
  | .staking => do
      let (delegatee, changePower) ← ledger (validateStaking ctx)
      checkLimit ctx.validators delegatee changePower
  | .unstaking => do
      let (delegatee, changePower) ← ledger (validateUnstaking ctx)
      checkLimit ctx.validators delegatee changePower
  | .withdraw => ledger (validateWithdraw ctx)
  | _ => throwX .errUnknownTrxType

/-- `exeStaking`. -/
def exeStaking (ctx : TrxContext) (senderPubKey : HexBytes) : LedgerProg Unit := do
  match ← findDelegatee ctx.tx.toAddr with
  | some delegatee => stakeOn delegatee
  | none =>
    if ctx.tx.fromAddr = ctx.tx.toAddr then
      stakeOn (Delegatee.newDelegatee ctx.tx.fromAddr senderPubKey)
    else
      throwX (XError.errNotFoundDelegatee.wrapf
        ("address(" ++ HexBytes.toHex ctx.tx.toAddr ++ ")"))
where
  /-- Take the amount from the sender and add it to the delegatee as a stake. -/
  stakeOn (delegatee : Delegatee) : LedgerProg Unit := do
    let sender ← AcctCtrler.accountAt ctx.tx.fromAddr
    let sender ← ofExcept (sender.subBalance ctx.tx.amount)
    set .accounts sender
    let power ← amountToPower ctx.tx.amount
    set .delegatees (delegatee.addStake (Stake.newStakeWithPower ctx.tx.fromAddr ctx.tx.toAddr
      power (i64 (ctx.height + 1)) ctx.txHash))

/-- The part of `exeUnstaking` for a delegatee without power of its own: it loses all
other stakes too. -/
def freezeOthers (refundHeight : Int) (delegatee : Delegatee) : LedgerProg Delegatee :=
  if delegatee.selfPower = 0 then do
    delegatee.stakes.forM (freezeStake refundHeight)
    return delegatee.delAllStakes
  else return delegatee

/-- The end of `exeUnstaking`: a delegatee without any power is deleted. -/
def storeDelegatee (delegatee : Delegatee) : LedgerProg Unit :=
  if delegatee.totalPower = 0 then do
    let _ ← ofExcept (← del .delegatees (LedgerItem.key delegatee))
  else set .delegatees delegatee

/-- `exeUnstaking`. -/
def exeUnstaking (ctx : TrxContext) : LedgerProg Unit := do
  let delegatee ← ofExcept (← get .delegatees (toLedgerKey ctx.tx.toAddr))
  let s0 ← findOwnStake ctx delegatee
  let refundHeight := i64 (ctx.height + ctx.params.lazyRewardBlocks)
  let delegatee := delegatee.delStake s0.txHash
  freezeStake refundHeight s0
  storeDelegatee (← freezeOthers refundHeight delegatee)

/-- `exeWithdraw`. -/
def exeWithdraw (ctx : TrxContext) : LedgerProg Unit :=
  match ctx.tx.payload with
  | .withdraw reqAmt => do
      let rwd ← ofExcept (← get .rewards (toLedgerKey ctx.tx.fromAddr))
      let rwd ← Reward.withdraw rwd reqAmt ctx.height
      set .rewards rwd
      match ← tryXError (AcctCtrler.reward ctx.tx.fromAddr reqAmt) with
      | .ok () => return ()
      | .error e =>
        cancelSet .rewards (LedgerItem.key rwd)
        throwX e
  | _ => throwX .errInvalidTrxPayloadType

/-- `StakeCtrler.ExecuteTrx`. -/
def executeTrx (ctx : TrxContext) (senderPubKey : HexBytes) : LedgerProg Unit :=
  match ctx.tx.type with
  | .staking => exeStaking ctx senderPubKey
  | .unstaking => exeUnstaking ctx
  | .withdraw => exeWithdraw ctx
  | _ => throwX .errUnknownTrxType

/-! ## The end of a block -/

/-- One round of the loop of `unfreezingStakes`. -/
def unfreezeStake (height : Int) (s0 : Stake) : LedgerProg Unit :=
  if s0.refundHeight ≤ height then do
    AcctCtrler.reward s0.fromAddr (powerToAmount s0.power)
    let _ ← del .frozenStakes (LedgerItem.key s0)
  else return ()

/-- `unfreezingStakes`: the loop goes through the committed frozen stakes. -/
def unfreezingStakes (height : Int) : LedgerProg Unit := do
  let frozen ← ofExcept (← readAll .frozenStakes)
  frozen.forM (unfreezeStake height)

/-- `abcitypes.UpdateValidator` with the power of a delegatee. -/
def updated (d : Delegatee) : ValidatorUpdate := ⟨d.pubKey, d.totalPower⟩

/-- `abcitypes.UpdateValidator` with power 0. -/
def removed (d : Delegatee) : ValidatorUpdate := ⟨d.pubKey, 0⟩

/-- The part of the loop of `validatorUpdates` in which one existing validator is
compared with the new ones; `rest` goes on with the next existing validator. -/
def updatesAgainst (existing : Delegatee) (rest : List Delegatee → List ValidatorUpdate) :
    List Delegatee → List ValidatorUpdate
  | [] => removed existing :: rest []
  | newer :: newers =>
    match compare existing.addr newer.addr with
    | .lt => removed existing :: rest (newer :: newers)
    | .eq =>
      if existing.totalPower ≠ newer.totalPower then updated newer :: rest newers
      else rest newers
    | .gt => updated newer :: updatesAgainst existing rest newers

/-- `validatorUpdates` of two lists sorted by address. -/
def validatorUpdates : List Delegatee → List Delegatee → List ValidatorUpdate
  | [], newers => newers.map updated
  | existing :: rest, newers => updatesAgainst existing (validatorUpdates rest) newers

/-- `selectValidators`: a negative number of validators is not a slice bound. -/
def selectValidators (delegatees : List Delegatee) (maxVals : Int) :
    LedgerProg (List Delegatee) :=
  if maxVals < 0 then crash .outOfRange else return delegatees.take maxVals.toNat

/-- `updateValidators`: the updates and the new field `lastValidators`. -/
def updateValidators (allDelegatees : List Delegatee) (lastValidators : Validators)
    (maxVals : Int) : LedgerProg (List ValidatorUpdate × Validators) := do
  let newValidators ← selectValidators allDelegatees maxVals
  let upVals := validatorUpdates (sortBy Delegatee.addrLess lastValidators)
    (sortBy Delegatee.addrLess newValidators)
  return (upVals, sortBy Delegatee.powerLess newValidators)

/-- `StakeCtrler.EndBlock`. -/
def endBlock (params : GovParams) (allDelegatees : List Delegatee) (lastValidators : Validators)
    (height : Int) : LedgerProg (List ValidatorUpdate × Validators) := do
  unfreezingStakes height
  updateValidators allDelegatees lastValidators params.maxValidatorCnt

/-- The updates of a block against two lists of last validators are the same. -/
def SameUpdates (params : GovParams) (allDelegatees : List Delegatee)
    (lastValidators lastValidators' : Validators) : Prop :=
  let newValidators := sortBy Delegatee.addrLess (allDelegatees.take params.maxValidatorCnt.toNat)
  validatorUpdates (sortBy Delegatee.addrLess lastValidators) newValidators =
    validatorUpdates (sortBy Delegatee.addrLess lastValidators') newValidators

theorem endBlock_validators {params : GovParams} {allDelegatees : List Delegatee}
    {lastValidators lastValidators' : Validators}
    (same : SameUpdates params allDelegatees lastValidators lastValidators') (height : Int) :
    endBlock params allDelegatees lastValidators height =
      endBlock params allDelegatees lastValidators' height := by
  unfold endBlock updateValidators selectValidators
  split
  · rfl
  · simp only [Foundation.Prog.bind_eq, Foundation.Prog.pure_eq, Foundation.Prog.pure_bind]
    rw [same]

/-! ## Genesis -/

/-- `InitStake`, with its single stake. -/
structure InitStake where
  pubKey : HexBytes
  stake : Stake
  deriving DecidableEq

/-- `StakeCtrler.InitLedger`. -/
def initLedger (initStakes : List InitStake) : LedgerProg Unit :=
  initStakes.forM fun init =>
    set .delegatees ((Delegatee.newDelegatee init.stake.toAddr init.pubKey).addStake init.stake)

end StakeCtrler

end Rigo
