import Rigo.Ledger.Store

/-!
# Governance parameters

`ctrlers/types/gov_params.go`.  The parameters are one item of a ledger of their
own, stored as a `GovParamsProto`.  A proposal's option is a JSON text with some of
them; a parameter that is missing there is decoded to its zero value (an amount to
a nil pointer), and `mergeGovParams` then keeps the old one.  A nil amount and a
zero one are not told apart by the merge, so both are 0 here.

Parsing JSON and decimal numbers is the work of libraries (`ParamsJSON`).
-/

namespace Rigo

open Foundation

/-- `types.GovParams`. -/
structure GovParams where
  version : Int
  maxValidatorCnt : Int
  minValidatorStake : Uint256
  minDelegatorStake : Uint256
  rewardPerPower : Uint256
  lazyRewardBlocks : Int
  lazyApplyingBlocks : Int
  gasPrice : Uint256
  minTrxGas : Nat
  maxTrxGas : Nat
  maxBlockGas : Nat
  minVotingPeriodBlocks : Int
  maxVotingPeriodBlocks : Int
  minSelfStakeRatio : Int
  maxUpdatableStakeRatio : Int
  maxIndividualStakeRatio : Int
  slashRatio : Int
  signedBlocksWindow : Int
  minSignedBlocks : Int
  deriving DecidableEq

/-- `GovParamsProto`: the amounts are byte strings. -/
structure GovParamsProto where
  version : Int
  maxValidatorCnt : Int
  xMinValidatorStake : HexBytes
  xMinDelegatorStake : HexBytes
  xRewardPerPower : HexBytes
  lazyRewardBlocks : Int
  lazyApplyingBlocks : Int
  xGasPrice : HexBytes
  minTrxGas : Nat
  maxTrxGas : Nat
  maxBlockGas : Nat
  minVotingPeriodBlocks : Int
  maxVotingPeriodBlocks : Int
  minSelfStakeRatio : Int
  maxUpdatableStakeRatio : Int
  maxIndividualStakeRatio : Int
  slashRatio : Int
  signedBlocksWindow : Int
  minSignedBlocks : Int
  deriving DecidableEq

/-- The struct `UnmarshalJSON` parses into: the amounts are decimal texts. -/
structure GovParamsText where
  version : Int
  maxValidatorCnt : Int
  minValidatorStake : String
  minDelegatorStake : String
  rewardPerPower : String
  lazyRewardBlocks : Int
  lazyApplyingBlocks : Int
  gasPrice : String
  minTrxGas : Nat
  maxTrxGas : Nat
  maxBlockGas : Nat
  minVotingBlocks : Int
  maxVotingBlocks : Int
  minSelfStakeRatio : Int
  maxUpdatableStakeRatio : Int
  maxIndividualStakeRatio : Int
  slashRatio : Int
  signedBlocksWindow : Int
  minSignedBlocks : Int
  deriving DecidableEq

/-- The libraries an option text goes through: `tmjson.Unmarshal` into the struct of
texts, and `uint256.FromDecimal`. -/
structure ParamsJSON where
  unmarshal : HexBytes → Except String GovParamsText
  fromDecimal : String → Except String Uint256

namespace GovParams

/-- `DefaultGovParams`. -/
def defaultGovParams : GovParams where
  version := 1
  maxValidatorCnt := 21
  minValidatorStake := 7000000000000000000000000
  minDelegatorStake := 0
  rewardPerPower := 4756468797
  lazyRewardBlocks := 2592000
  lazyApplyingBlocks := 259200
  gasPrice := 250000000000
  minTrxGas := 4000
  maxTrxGas := 25000000
  maxBlockGas := 2 ^ 64 - 1
  minVotingPeriodBlocks := 259200
  maxVotingPeriodBlocks := 2592000
  minSelfStakeRatio := 50
  maxUpdatableStakeRatio := 33
  maxIndividualStakeRatio := 33
  slashRatio := 50
  signedBlocksWindow := 10000
  minSignedBlocks := 500

def fromProto (pm : GovParamsProto) : GovParams where
  version := pm.version
  maxValidatorCnt := pm.maxValidatorCnt
  minValidatorStake := Uint256.ofBytes pm.xMinValidatorStake
  minDelegatorStake := Uint256.ofBytes pm.xMinDelegatorStake
  rewardPerPower := Uint256.ofBytes pm.xRewardPerPower
  lazyRewardBlocks := pm.lazyRewardBlocks
  lazyApplyingBlocks := pm.lazyApplyingBlocks
  gasPrice := Uint256.ofBytes pm.xGasPrice
  minTrxGas := pm.minTrxGas
  maxTrxGas := pm.maxTrxGas
  maxBlockGas := pm.maxBlockGas
  minVotingPeriodBlocks := pm.minVotingPeriodBlocks
  maxVotingPeriodBlocks := pm.maxVotingPeriodBlocks
  minSelfStakeRatio := pm.minSelfStakeRatio
  maxUpdatableStakeRatio := pm.maxUpdatableStakeRatio
  maxIndividualStakeRatio := pm.maxIndividualStakeRatio
  slashRatio := pm.slashRatio
  signedBlocksWindow := pm.signedBlocksWindow
  minSignedBlocks := pm.minSignedBlocks

def toProto (r : GovParams) : GovParamsProto where
  version := r.version
  maxValidatorCnt := r.maxValidatorCnt
  xMinValidatorStake := r.minValidatorStake.toBytes
  xMinDelegatorStake := r.minDelegatorStake.toBytes
  xRewardPerPower := r.rewardPerPower.toBytes
  lazyRewardBlocks := r.lazyRewardBlocks
  lazyApplyingBlocks := r.lazyApplyingBlocks
  xGasPrice := r.gasPrice.toBytes
  minTrxGas := r.minTrxGas
  maxTrxGas := r.maxTrxGas
  maxBlockGas := r.maxBlockGas
  minVotingPeriodBlocks := r.minVotingPeriodBlocks
  maxVotingPeriodBlocks := r.maxVotingPeriodBlocks
  minSelfStakeRatio := r.minSelfStakeRatio
  maxUpdatableStakeRatio := r.maxUpdatableStakeRatio
  maxIndividualStakeRatio := r.maxIndividualStakeRatio
  slashRatio := r.slashRatio
  signedBlocksWindow := r.signedBlocksWindow
  minSignedBlocks := r.minSignedBlocks

/-- `GovParams.Key`: there is one item in the ledger. -/
def paramsKey : LedgerKey := toLedgerKey (zeroBytes 32)

instance : LedgerItem GovParams where
  Encoded := GovParamsProto
  key _ := paramsKey
  encode := toProto
  decode pm := .ok (fromProto pm)
  decode_encode r := by simp [toProto, fromProto]

/-! ## Options -/

/-- `stringToUint256`; an empty text is a nil amount. -/
def stringToUint256 (json : ParamsJSON) (value : String) : Except String Uint256 :=
  if value = "" then .ok 0 else json.fromDecimal value

/-- `GovParams.UnmarshalJSON`. -/
def unmarshalJSON (json : ParamsJSON) (bz : HexBytes) : Except String GovParams := do
  let tm ← json.unmarshal bz
  let minValidatorStake ← stringToUint256 json tm.minValidatorStake
  let minDelegatorStake ← stringToUint256 json tm.minDelegatorStake
  let rewardPerPower ← stringToUint256 json tm.rewardPerPower
  let gasPrice ← stringToUint256 json tm.gasPrice
  return {
    version := tm.version
    maxValidatorCnt := tm.maxValidatorCnt
    minValidatorStake
    minDelegatorStake
    rewardPerPower
    lazyRewardBlocks := tm.lazyRewardBlocks
    lazyApplyingBlocks := tm.lazyApplyingBlocks
    gasPrice
    minTrxGas := tm.minTrxGas
    maxTrxGas := tm.maxTrxGas
    maxBlockGas := tm.maxBlockGas
    minVotingPeriodBlocks := tm.minVotingBlocks
    maxVotingPeriodBlocks := tm.maxVotingBlocks
    minSelfStakeRatio := tm.minSelfStakeRatio
    maxUpdatableStakeRatio := tm.maxUpdatableStakeRatio
    maxIndividualStakeRatio := tm.maxIndividualStakeRatio
    slashRatio := tm.slashRatio
    signedBlocksWindow := tm.signedBlocksWindow
    minSignedBlocks := tm.minSignedBlocks }

/-- A new value, unless it is zero. -/
def orOld {α : Type} [DecidableEq α] [Zero α] (old new : α) : α := if new = 0 then old else new

/-- `MergeGovParams`, as the parameters it leaves in `newParams`. -/
def mergeGovParams (old new : GovParams) : GovParams where
  version := orOld old.version new.version
  maxValidatorCnt := orOld old.maxValidatorCnt new.maxValidatorCnt
  minValidatorStake := orOld old.minValidatorStake new.minValidatorStake
  minDelegatorStake := orOld old.minDelegatorStake new.minDelegatorStake
  rewardPerPower := orOld old.rewardPerPower new.rewardPerPower
  lazyRewardBlocks := orOld old.lazyRewardBlocks new.lazyRewardBlocks
  lazyApplyingBlocks := orOld old.lazyApplyingBlocks new.lazyApplyingBlocks
  gasPrice := orOld old.gasPrice new.gasPrice
  minTrxGas := orOld old.minTrxGas new.minTrxGas
  maxTrxGas := orOld old.maxTrxGas new.maxTrxGas
  maxBlockGas := orOld old.maxBlockGas new.maxBlockGas
  minVotingPeriodBlocks := orOld old.minVotingPeriodBlocks new.minVotingPeriodBlocks
  maxVotingPeriodBlocks := orOld old.maxVotingPeriodBlocks new.maxVotingPeriodBlocks
  minSelfStakeRatio := orOld old.minSelfStakeRatio new.minSelfStakeRatio
  maxUpdatableStakeRatio := orOld old.maxUpdatableStakeRatio new.maxUpdatableStakeRatio
  maxIndividualStakeRatio := orOld old.maxIndividualStakeRatio new.maxIndividualStakeRatio
  slashRatio := orOld old.slashRatio new.slashRatio
  signedBlocksWindow := orOld old.signedBlocksWindow new.signedBlocksWindow
  minSignedBlocks := orOld old.minSignedBlocks new.minSignedBlocks

end GovParams

/-! ## Amounts, power and fees -/

/-- `amountPerPower`. -/
def amountPerPower : Uint256 := 1000000000000000000

/-- `MaxTotalPower`, Tendermint's `MaxTotalVotingPower`. -/
def maxTotalPower : Int := (2 ^ 63 - 1) / 8

/-- The power of an amount before the check on its sign.  Unfolding it would have Lean
compute with the 256-bit words in it. -/
@[irreducible] def powerOf (amt : Uint256) : Int := Uint256.int64 (amt / amountPerPower)

/-- `AmountToPower`. -/
def amountToPower {Op : Type → Type} (amt : Uint256) : Prog Op Fault Int :=
  if powerOf amt < 0 then
    crash (.explicit ("voting power is negative: " ++ toString (powerOf amt)))
  else .pure (powerOf amt)

/-- `PowerToAmount`. -/
def powerToAmount (power : Int) : Uint256 := Uint256.newInt (uint64OfInt power) * amountPerPower

/-- `GasToFee`. -/
def gasToFee (gas : Nat) (price : Uint256) : Uint256 := Uint256.newInt gas * price

/-- `MinTrxFee`. -/
def GovParams.minTrxFee (r : GovParams) : Uint256 := gasToFee r.minTrxGas r.gasPrice

/-- A power that is not negative is worth `10 ^ 18` times as much. -/
theorem toNat_powerToAmount {power : Int} (low : 0 ≤ power) (high : power < 2 ^ 64) :
    (powerToAmount power).toNat = power.toNat * 10 ^ 18 := by
  have small : power.toNat < 2 ^ 64 := by omega
  unfold powerToAmount Uint256.newInt
  rw [uint64OfInt_of_nonneg low high, BitVec.toNat_mul, BitVec.toNat_ofNat,
    Nat.mod_eq_of_lt (by omega : power.toNat < 2 ^ 256)]
  change power.toNat * 10 ^ 18 % 2 ^ 256 = _
  exact Nat.mod_eq_of_lt (by omega)

end Rigo
