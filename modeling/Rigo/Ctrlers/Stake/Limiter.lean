import Rigo.Ctrlers.Stake.Delegatee

/-!
# The stake limiter

`ctrlers/stake/limiter.go`.  The limiter holds the powers of the delegatees at the
start of the block and bounds how much of the validators' power may change within
the block.  `checkLimit` is both the check and the bookkeeping: it returns the
limiter as the call leaves it, also when the call ends in an error or a panic.
-/

namespace Rigo

/-- `powerObj`. -/
structure PowerObj where
  addr : Address
  power : Int
  deriving DecidableEq

/-- `orderedPowerObj.Less`. -/
def PowerObj.less (o o' : PowerObj) : Bool :=
  if o.power ≠ o'.power then o.power > o'.power else compare o.addr o'.addr == .gt

/-- `StakeLimiter`. -/
structure StakeLimiter where
  individualLimitRatio : Int
  updatableLimitRatio : Int
  maxValidatorCnt : Int
  powerObjs : List PowerObj
  baseTotalPower : Int
  updatedPower : Int
  deriving DecidableEq

namespace StakeLimiter

/-- The loop of `reset` that sums the powers of the first `maxValCnt` delegatees. -/
def baseOf (maxValCnt : Int) (delgs : List Delegatee) : Int :=
  (delgs.take maxValCnt.toNat).foldl (fun base d => i64 (base + d.totalPower)) 0

/-- `NewStakeLimiter` and `Reset`. -/
def reset (delgs : List Delegatee) (maxValCnt indiLimitRatio upLimitRatio : Int) :
    StakeLimiter where
  individualLimitRatio := indiLimitRatio
  updatableLimitRatio := upLimitRatio
  maxValidatorCnt := maxValCnt
  powerObjs := delgs.map fun d => ⟨d.addr, d.totalPower⟩
  baseTotalPower := baseOf maxValCnt delgs
  updatedPower := 0

/-- `findPowerObj`: the index is `-1` if there is none. -/
def findPowerObj (sl : StakeLimiter) (addr : Address) : Int × Option PowerObj :=
  match sl.powerObjs.findIdx? fun o => o.addr == addr with
  | none => (-1, none)
  | some i => (i, sl.powerObjs[i]?)

def checkIndividualPowerLimit (sl : StakeLimiter) (delg : Delegatee) (diffPower : Int) :
    Except Fault Unit :=
  if diffPower ≤ 0 then .ok ()
  else if i64 (sl.baseTotalPower + diffPower) = 0 then .error (.panic .divisionByZero)
  else
    let individualRatio := i64 ((i64 (i64 (delg.totalPower + diffPower) * 100)).tdiv
      (i64 (sl.baseTotalPower + diffPower)))
    if individualRatio > sl.individualLimitRatio then
      .error (.xerr (.fromErr ("StakeLimiter error: exceeding individual power limit - delegatee(" ++
        HexBytes.toHex delg.addr ++ "), power(" ++ toString delg.totalPower ++ "), diff:" ++
        toString diffPower ++ ", base(" ++ toString sl.baseTotalPower ++ "), ratio(" ++
        toString individualRatio ++ "), limit(" ++ toString sl.individualLimitRatio ++ ")")))
    else .ok ()

/-- The power that leaves the validators when a validator with `power` at `ridx`
gives up some. -/
def leavingPower (sl : StakeLimiter) (ridx power diffPower : Int) : Int :=
  if 0 ≤ ridx ∧ ridx < sl.maxValidatorCnt ∧ diffPower < 0 then
    let candidate :=
      if (sl.powerObjs.length : Int) > sl.maxValidatorCnt then
        sl.powerObjs[sl.maxValidatorCnt.toNat]?
      else none
    match candidate with
    | some o => if i64 (power + diffPower) < o.power then power else i64 (-1 * diffPower)
    | none => i64 (-1 * diffPower)
  else 0

/-- The power of the validator that is pushed out when somebody else with `power`
stakes more.  The index of the last validator is out of range if no validators are
allowed. -/
def pushedOutPower (sl : StakeLimiter) (ridx power diffPower : Int) : Except Fault Int :=
  if (ridx < 0 ∨ ridx ≥ sl.maxValidatorCnt) ∧ diffPower > 0 then
    if (sl.powerObjs.length : Int) ≥ sl.maxValidatorCnt then
      if sl.maxValidatorCnt - 1 < 0 then .error (.panic .outOfRange)
      else
        match sl.powerObjs[(sl.maxValidatorCnt - 1).toNat]? with
        | none => .error (.panic .outOfRange)
        | some lastVal =>
          .ok (if i64 (power + diffPower) > lastVal.power then lastVal.power else 0)
    else .ok 0
  else .ok 0

/-- Set the power at an index, if it is the index of an object. -/
def setPower (sl : StakeLimiter) (ridx : Int) (power : Int) : List PowerObj :=
  if ridx < 0 then sl.powerObjs
  else sl.powerObjs.modify ridx.toNat fun o => { o with power := power }

/-- `checkUpdatablePowerLimit`, with the limiter it leaves. -/
def checkUpdatablePowerLimit (sl : StakeLimiter) (delg : Delegatee) (diffPower : Int) :
    Except Fault Unit × StakeLimiter :=
  match sl.findPowerObj delg.addr with
  | (ridx, found) =>
    -- a delegatee the limiter does not know is a new face
    let power := (found.map PowerObj.power).getD delg.totalPower
    if power ≠ delg.totalPower then
      (.error (.xerr (.fromErr ("StakeLimiter's power(" ++ toString power ++
        ") object is not equal to delegatee's power(" ++ toString delg.totalPower ++
        "). delegatee: " ++ HexBytes.toHex delg.addr))), sl)
    else
      match sl.pushedOutPower ridx power diffPower with
      | .error fault => (.error fault, sl)
      | .ok pushedOut =>
        let updatedPower :=
          i64 (i64 (sl.updatedPower + sl.leavingPower ridx power diffPower) + pushedOut)
        if sl.baseTotalPower = 0 then (.error (.panic .divisionByZero), sl)
        else
          let ratio := i64 ((i64 (updatedPower * 100)).tdiv sl.baseTotalPower)
          if sl.updatableLimitRatio < ratio then
            (.error (.xerr (.fromErr ("StakeLimiter error: Exceeding the updatable power limit. " ++
              "updated(" ++ toString updatedPower ++ "), base(" ++ toString sl.baseTotalPower ++
              "), ratio(" ++ toString ratio ++ "), limit(" ++ toString sl.updatableLimitRatio ++
              ")"))), sl)
          else if i64 (power + diffPower) < 0 then
            -- the power object has been changed already
            (.error (.xerr (.fromErr ("StakeLimiter error: power(" ++
                toString (i64 (power + diffPower)) ++ ") of " ++ HexBytes.toHex delg.addr ++
                " is negative"))),
              { sl with powerObjs := sl.setPower ridx (i64 (power + diffPower)) })
          else
            (.ok (),
              { sl with
                updatedPower := updatedPower
                powerObjs := sortBy PowerObj.less (sl.setPower ridx (i64 (power + diffPower))) })

/-- `CheckLimit`. -/
def checkLimit (sl : StakeLimiter) (delg : Delegatee) (changePower : Int) :
    Except Fault Unit × StakeLimiter :=
  if sl.powerObjs = [] then (.ok (), sl)
  else
    match sl.checkIndividualPowerLimit delg changePower with
    | .error fault => (.error fault, sl)
    | .ok () => sl.checkUpdatablePowerLimit delg changePower

end StakeLimiter

end Rigo
