import Rigo.Ctrlers.Types.GovParams

/-!
# Rewards

`ctrlers/stake/reward.go`.  A reward item keeps what was issued, withdrawn and slashed in
the last block that touched it, and the cumulated amount that can be withdrawn.
A height in the past is a panic.
-/

namespace Rigo

open Foundation

/-- `stake.Reward`. -/
structure Reward where
  address : Address
  issued : Uint256
  withdrawn : Uint256
  slashed : Uint256
  cumulated : Uint256
  height : Int
  deriving DecidableEq

/-- `RewardProto`. -/
structure RewardProto where
  address : HexBytes
  xIssued : HexBytes
  xWithdrawn : HexBytes
  xSlashed : HexBytes
  xCumulated : HexBytes
  height : Int
  deriving DecidableEq

namespace Reward

/-- `NewReward`. -/
def newReward (addr : Address) : Reward where
  address := addr
  issued := 0
  withdrawn := 0
  slashed := 0
  cumulated := 0
  height := 0

def encode (rwd : Reward) : RewardProto where
  address := rwd.address
  xIssued := rwd.issued.toBytes
  xWithdrawn := rwd.withdrawn.toBytes
  xSlashed := rwd.slashed.toBytes
  xCumulated := rwd.cumulated.toBytes
  height := rwd.height

def decode (pm : RewardProto) : Reward where
  address := pm.address
  issued := Uint256.ofBytes pm.xIssued
  withdrawn := Uint256.ofBytes pm.xWithdrawn
  slashed := Uint256.ofBytes pm.xSlashed
  cumulated := Uint256.ofBytes pm.xCumulated
  height := pm.height

instance : LedgerItem Reward where
  Encoded := RewardProto
  key rwd := toLedgerKey rwd.address
  encode := encode
  decode pm := .ok (decode pm)
  decode_encode rwd := by simp [encode, decode]

/-- The panic of a reward that is ahead of the block. -/
def aheadOf (rwd : Reward) (h : Int) : Panic :=
  .explicit ("the Reward::height(" ++ toString rwd.height ++ ") is not same current height(" ++
    toString h ++ ")")

/-- `Reward.Issue`. -/
def issue {Op : Type → Type} (rwd : Reward) (r : Uint256) (h : Int) : Prog Op Fault Reward :=
  if rwd.height < h then
    .pure { rwd with issued := r, height := h, cumulated := rwd.cumulated + r }
  else if rwd.height = h then
    .pure { rwd with issued := rwd.issued + r, cumulated := rwd.cumulated + r }
  else crash (rwd.aheadOf h)

/-- `Reward.Withdraw`. -/
def withdraw {Op : Type → Type} (rwd : Reward) (r : Uint256) (h : Int) :
    Prog Op Fault Reward :=
  if rwd.height < h then
    .pure { rwd with withdrawn := r, height := h, cumulated := rwd.cumulated - r }
  else if rwd.height = h then
    .pure { rwd with withdrawn := rwd.withdrawn + r, cumulated := rwd.cumulated - r }
  else crash (rwd.aheadOf h)

/-- `Reward.Slash`. -/
def slash {Op : Type → Type} (rwd : Reward) (r : Uint256) (h : Int) : Prog Op Fault Reward :=
  if rwd.height < h then
    .pure { rwd with slashed := r, height := h, cumulated := rwd.cumulated - r }
  else if rwd.height = h then
    .pure { rwd with slashed := rwd.slashed + r, cumulated := rwd.cumulated - r }
  else crash (rwd.aheadOf h)

end Reward

end Rigo
