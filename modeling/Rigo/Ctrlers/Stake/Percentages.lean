import Rigo.Ctrlers.Stake.Accounting
import Rigo.Ctrlers.Stake.Limiter

/-!
# Percentages of powers

Four places of the staking code multiply a power by a percentage before they divide: the share of a
delegatee's own power, the two checks of the limiter, and slashing.  Tendermint admits powers up to
`maxTotalPower`, that is `2 ^ 60 - 1`, which leaves a factor of 8 and not of 100.

Every quotient is the intended one exactly if its product fits (`i64_tdiv_eq_iff`): a product that
was wrapped is too small by `2 ^ 64` at least, and no divisor is large enough to hide that.
-/

namespace Rigo

open Foundation
open Delegatee StakeLimiter

/-- The quotient of a wrapped product is that of the product exactly if the product fits. -/
theorem i64_tdiv_eq_iff {x b : Int} (nonneg : 0 ≤ x) (positive : 0 < b) (small : b ≤ 2 ^ 62) :
    i64 ((i64 x).tdiv b) = x / b ↔ x < 2 ^ 63 := by
  constructor
  · intro same
    by_contra large
    have large := not_lt.mp large
    have wrapped := i64_le_sub large
    obtain ⟨low, high⟩ := i64_range x
    have quotient : (2 : Int) ≤ x / b := by
      rw [Int.le_ediv_iff_mul_le positive]
      omega
    rcases lt_or_ge (i64 x) 0 with negative | nonneg'
    · -- a negative number has no positive quotient
      have opposite : (i64 x).tdiv b = -((-i64 x).tdiv b) := by rw [Int.neg_tdiv, neg_neg]
      have below : 0 ≤ (-i64 x).tdiv b := Int.tdiv_nonneg (by omega) positive.le
      have above : (-i64 x).tdiv b ≤ -i64 x := by
        rw [Int.tdiv_eq_ediv_of_nonneg (by omega)]
        exact Int.ediv_le_self _ (by omega)
      rw [i64_of_range (by omega) (by omega)] at same
      omega
    · have divided : (i64 x).tdiv b = i64 x / b := Int.tdiv_eq_ediv_of_nonneg nonneg'
      have bound : i64 x / b ≤ i64 x := Int.ediv_le_self _ nonneg'
      have below : i64 x / b < x / b := by
        have step : (i64 x + b) / b ≤ x / b := Int.ediv_le_ediv positive (by omega)
        rw [Int.add_ediv_of_dvd_right (dvd_refl b), Int.ediv_self positive.ne'] at step
        omega
      have nonneg'' : 0 ≤ i64 x / b := Int.ediv_nonneg nonneg' positive.le
      rw [divided, i64_of_range (by omega) (by omega)] at same
      omega
  · intro fits
    have bound : x / b ≤ x := Int.ediv_le_self _ nonneg
    have nonneg' : 0 ≤ x / b := Int.ediv_nonneg nonneg positive.le
    rw [i64_of_range (by omega) fits, Int.tdiv_eq_ediv_of_nonneg nonneg,
      i64_of_range (by omega) (by omega)]

/-- A power that consensus admits. -/
def Admissible (power : Int) : Prop := 0 ≤ power ∧ power ≤ maxTotalPower

instance : DecidablePred Admissible := fun _ => inferInstanceAs (Decidable (_ ∧ _))

theorem Admissible.lt {power : Int} (admissible : Admissible power) : power < 2 ^ 60 := by
  have := admissible.2
  unfold maxTotalPower at this
  omega

/-- Wrapping does nothing to an admissible power. -/
theorem Admissible.i64_eq {power : Int} (admissible : Admissible power) : i64 power = power := by
  have := admissible.lt
  exact i64_of_range (by have := admissible.1; omega) (by omega)

/-! ## The share of a delegatee's own power -/

/-- The share of its own power that a delegatee is meant to have after a change. -/
def Delegatee.selfShare {Op : Type → Type} (d : Delegatee) (added : Int) : Prog Op Fault Int :=
  if d.totalPower + added = 0 then crash .divisionByZero
  else .pure (d.selfPower * 100 / (d.totalPower + added))

theorem Delegatee.selfStakeRatio_eq_iff {Op : Type → Type} {d : Delegatee} {added : Int}
    (own : Admissible d.selfPower) (after : Admissible (d.totalPower + added)) :
    (d.selfStakeRatio added : Prog Op Fault Int) = d.selfShare added ↔
      d.totalPower + added = 0 ∨ d.selfPower * 100 < 2 ^ 63 := by
  unfold selfStakeRatio selfShare
  rw [after.i64_eq]
  by_cases zero : d.totalPower + added = 0
  · simp [zero]
  · have nonneg := own.1
    have positive := after.1
    have small := after.lt
    rw [if_neg zero, if_neg zero, or_iff_right zero,
      ← i64_tdiv_eq_iff (b := d.totalPower + added) (by omega) (by omega) (by omega)]
    exact ⟨fun same => by injection same, fun same => by rw [same]⟩

/-! ## The limit on one delegatee -/

namespace StakeLimiter

variable {sl : StakeLimiter} {delg : Delegatee} {diffPower : Int}

/-- The ratio that `checkIndividualPowerLimit` compares with its limit. -/
def individualRatio (sl : StakeLimiter) (delg : Delegatee) (diffPower : Int) : Int :=
  i64 ((i64 (i64 (delg.totalPower + diffPower) * 100)).tdiv (i64 (sl.baseTotalPower + diffPower)))

/-- The share of the power that a delegatee is meant to have after a change. -/
def individualShare (sl : StakeLimiter) (delg : Delegatee) (diffPower : Int) : Int :=
  (delg.totalPower + diffPower) * 100 / (sl.baseTotalPower + diffPower)

theorem checkIndividualPowerLimit_isOk (grows : 0 < diffPower)
    (nonzero : i64 (sl.baseTotalPower + diffPower) ≠ 0) :
    (sl.checkIndividualPowerLimit delg diffPower).isOk = true ↔
      sl.individualRatio delg diffPower ≤ sl.individualLimitRatio := by
  unfold checkIndividualPowerLimit individualRatio
  rw [if_neg (not_le.mpr grows), if_neg nonzero]
  simp only
  split
  · next exceeds => exact iff_of_false (by simp [Except.isOk, Except.toBool]) (not_le.mpr exceeds)
  · next within => exact iff_of_true rfl (not_lt.mp within)

/-- The check is made with the share that is meant, and decides by it, exactly if the product
fits. -/
theorem individualRatio_eq_iff (grows : 0 < diffPower) (base : Admissible sl.baseTotalPower)
    (after : Admissible (delg.totalPower + diffPower))
    (baseAfter : Admissible (sl.baseTotalPower + diffPower)) :
    (sl.individualRatio delg diffPower = sl.individualShare delg diffPower ∧
        ((sl.checkIndividualPowerLimit delg diffPower).isOk = true ↔
          sl.individualShare delg diffPower ≤ sl.individualLimitRatio)) ↔
      (delg.totalPower + diffPower) * 100 < 2 ^ 63 := by
  have positive : 0 < sl.baseTotalPower + diffPower := by
    have := base.1
    omega
  have nonneg := after.1
  have small := baseAfter.lt
  have decided : (sl.checkIndividualPowerLimit delg diffPower).isOk = true ↔
      sl.individualRatio delg diffPower ≤ sl.individualLimitRatio := by
    apply checkIndividualPowerLimit_isOk grows
    rw [baseAfter.i64_eq]
    exact positive.ne'
  have exact_iff : sl.individualRatio delg diffPower = sl.individualShare delg diffPower ↔
      (delg.totalPower + diffPower) * 100 < 2 ^ 63 := by
    unfold individualRatio individualShare
    rw [after.i64_eq, baseAfter.i64_eq]
    exact i64_tdiv_eq_iff (by omega) positive (by omega)
  rw [← exact_iff]
  exact ⟨And.left, fun same => ⟨same, same ▸ decided⟩⟩

/-! ## The limit on all changes of a block -/

/-- The power that a change is meant to move into or out of the validators: what a validator gives
up, or all of it if it falls behind the first of the others; and the power of the last validator if
somebody else passes it. -/
def movedPower (sl : StakeLimiter) (ridx power diffPower : Int) : Int :=
  if 0 ≤ ridx ∧ ridx < sl.maxValidatorCnt then
    if diffPower < 0 then
      match sl.powerObjs[sl.maxValidatorCnt.toNat]? with
      | some candidate => if power + diffPower < candidate.power then power else -diffPower
      | none => -diffPower
    else 0
  else if diffPower > 0 then
    match sl.powerObjs[(sl.maxValidatorCnt - 1).toNat]? with
    | some lastVal => if power + diffPower > lastVal.power then lastVal.power else 0
    | none => 0
  else 0

/-- The power that is meant to count as updated after a change. -/
def updatedWith (sl : StakeLimiter) (delg : Delegatee) (diffPower : Int) : Int :=
  sl.updatedPower + sl.movedPower (sl.findPowerObj delg.addr).1 delg.totalPower diffPower

/-- The ratio that `checkUpdatablePowerLimit` compares with its limit, if it gets that far. -/
def updatableRatio (sl : StakeLimiter) (delg : Delegatee) (diffPower : Int) : Option Int :=
  match sl.findPowerObj delg.addr with
  | (ridx, found) =>
    let power := (found.map PowerObj.power).getD delg.totalPower
    if power ≠ delg.totalPower then none
    else
      match sl.pushedOutPower ridx power diffPower with
      | .error _ => none
      | .ok pushedOut =>
        if sl.baseTotalPower = 0 then none
        else
          let updatedPower :=
            i64 (i64 (sl.updatedPower + sl.leavingPower ridx power diffPower) + pushedOut)
          some (i64 ((i64 (updatedPower * 100)).tdiv sl.baseTotalPower))

/-- The share of the validators' power that is meant to have changed. -/
def updatableShare (sl : StakeLimiter) (delg : Delegatee) (diffPower : Int) : Int :=
  sl.updatedWith delg diffPower * 100 / sl.baseTotalPower

theorem checkUpdatablePowerLimit_isOk {ratio : Int}
    (computed : sl.updatableRatio delg diffPower = some ratio)
    (after : 0 ≤ i64 (delg.totalPower + diffPower)) :
    (sl.checkUpdatablePowerLimit delg diffPower).1.isOk = true ↔
      ratio ≤ sl.updatableLimitRatio := by
  unfold updatableRatio at computed
  unfold checkUpdatablePowerLimit
  generalize sl.findPowerObj delg.addr = place at computed ⊢
  obtain ⟨ridx, found⟩ := place
  simp only at computed ⊢
  split at computed
  · cases computed
  · next same =>
    rw [if_neg same]
    rw [not_not.mp same] at computed ⊢
    generalize sl.pushedOutPower ridx delg.totalPower diffPower = out at computed ⊢
    cases out with
    | error fault => cases computed
    | ok pushedOut =>
      simp only at computed ⊢
      split at computed
      · cases computed
      · next nonzero =>
        obtain rfl := Option.some.inj computed
        rw [if_neg nonzero]
        split
        · next exceeds =>
          exact iff_of_false (by simp [Except.isOk, Except.toBool]) (not_le.mpr exceeds)
        · next within =>
          rw [if_neg (not_lt.mpr after)]
          exact iff_of_true rfl (not_lt.mp within)

section

variable {ridx power pushedOut : Int}

/-- A validator gives up power, and somebody else pushes one out. -/
theorem movedPower_cases (exact : i64 (power + diffPower) = power + diffPower)
    (exact' : i64 (-1 * diffPower) = -diffPower)
    (out : sl.pushedOutPower ridx power diffPower = .ok pushedOut) :
    sl.leavingPower ridx power diffPower = sl.movedPower ridx power diffPower ∧ pushedOut = 0 ∨
      sl.leavingPower ridx power diffPower = 0 ∧ pushedOut = sl.movedPower ridx power diffPower := by
  unfold pushedOutPower at out
  unfold leavingPower movedPower
  by_cases validator : 0 ≤ ridx ∧ ridx < sl.maxValidatorCnt
  · refine .inl ⟨?_, ?_⟩
    · rw [if_pos validator]
      by_cases falls : diffPower < 0
      · -- the first of the others is there exactly if there are more than the validators
        have candidate : (if (sl.powerObjs.length : Int) > sl.maxValidatorCnt then
              sl.powerObjs[sl.maxValidatorCnt.toNat]? else none) =
            sl.powerObjs[sl.maxValidatorCnt.toNat]? := by
          split
          · rfl
          · rw [eq_comm, List.getElem?_eq_none_iff]
            omega
        rewrite [if_pos ⟨validator.1, validator.2, falls⟩, if_pos falls, candidate, exact, exact']
        rfl
      · rw [if_neg fun given => falls given.2.2, if_neg falls]
    · rw [if_neg (by omega)] at out
      exact (Except.ok.inj out).symm
  · refine .inr ⟨if_neg fun leaves => validator ⟨leaves.1, leaves.2.1⟩, ?_⟩
    rw [if_neg validator]
    by_cases grows : diffPower > 0
    · rw [if_pos ⟨by omega, grows⟩] at out
      rw [if_pos grows]
      split at out
      · split at out
        · cases out
        · cases found : sl.powerObjs[(sl.maxValidatorCnt - 1).toNat]? with
          | none =>
            rw [found] at out
            cases out
          | some lastVal =>
            rw [found] at out
            simp only [exact] at out
            exact (Except.ok.inj out).symm
      · rw [List.getElem?_eq_none_iff.mpr (by omega)]
        exact (Except.ok.inj out).symm
    · rw [if_neg fun asked => grows asked.2] at out
      rw [if_neg grows]
      exact (Except.ok.inj out).symm

/-- What is added up is what is meant, if it is in range. -/
theorem updated_eq (exact : i64 (power + diffPower) = power + diffPower)
    (exact' : i64 (-1 * diffPower) = -diffPower)
    (out : sl.pushedOutPower ridx power diffPower = .ok pushedOut)
    (before : i64 sl.updatedPower = sl.updatedPower)
    (after : i64 (sl.updatedPower + sl.movedPower ridx power diffPower) =
      sl.updatedPower + sl.movedPower ridx power diffPower) :
    i64 (i64 (sl.updatedPower + sl.leavingPower ridx power diffPower) + pushedOut) =
      sl.updatedPower + sl.movedPower ridx power diffPower := by
  rcases movedPower_cases exact exact' out with ⟨leaves, none⟩ | ⟨none, pushed⟩
  · rw [leaves, none, after, add_zero, after]
  · rw [none, pushed, add_zero, before, after]

/-- The power that moves is admissible. -/
theorem admissible_movedPower (before : Admissible power) (after : Admissible (power + diffPower))
    (objs : ∀ o ∈ sl.powerObjs, Admissible o.power) :
    Admissible (sl.movedPower ridx power diffPower) := by
  have zero : Admissible 0 := by decide
  unfold movedPower
  split
  · split
    · next falls =>
      have high := before.2
      have least := after.1
      have given : Admissible (-diffPower) := ⟨by omega, by omega⟩
      split
      · split
        · exact before
        · exact given
      · exact given
    · exact zero
  · split
    · split
      · next found =>
        split
        · exact objs _ (List.mem_of_getElem? found)
        · exact zero
      · exact zero
    · exact zero

end

/-- What is added up is what is meant, as nothing is out of range. -/
theorem updatedWith_eq {ridx pushedOut : Int} {found : Option PowerObj}
    (place : sl.findPowerObj delg.addr = (ridx, found))
    (out : sl.pushedOutPower ridx delg.totalPower diffPower = .ok pushedOut)
    (objs : ∀ o ∈ sl.powerObjs, Admissible o.power) (updated : Admissible sl.updatedPower)
    (before : Admissible delg.totalPower) (after : Admissible (delg.totalPower + diffPower)) :
    i64 (i64 (sl.updatedPower + sl.leavingPower ridx delg.totalPower diffPower) + pushedOut) =
        sl.updatedWith delg diffPower ∧ 0 ≤ sl.updatedWith delg diffPower := by
  have moved : Admissible (sl.movedPower ridx delg.totalPower diffPower) :=
    admissible_movedPower before after objs
  have low := updated.1
  have small := updated.lt
  have least := moved.1
  have bound := moved.lt
  have change : i64 (-1 * diffPower) = -diffPower := by
    have := before.1
    have := before.lt
    have := after.1
    have := after.lt
    rw [neg_one_mul]
    exact i64_of_range (by omega) (by omega)
  unfold updatedWith
  rw [place]
  refine ⟨updated_eq after.i64_eq change out updated.i64_eq ?_, add_nonneg low least⟩
  exact i64_of_range (by omega) (by omega)

/-- The check is made with the share that is meant, and decides by it, exactly if the product
fits. -/
theorem updatableRatio_eq_iff {ratio : Int}
    (computed : sl.updatableRatio delg diffPower = some ratio)
    (objs : ∀ o ∈ sl.powerObjs, Admissible o.power) (updated : Admissible sl.updatedPower)
    (base : Admissible sl.baseTotalPower) (before : Admissible delg.totalPower)
    (after : Admissible (delg.totalPower + diffPower)) :
    (ratio = sl.updatableShare delg diffPower ∧
        ((sl.checkUpdatablePowerLimit delg diffPower).1.isOk = true ↔
          sl.updatableShare delg diffPower ≤ sl.updatableLimitRatio)) ↔
      sl.updatedWith delg diffPower * 100 < 2 ^ 63 := by
  have decided := checkUpdatablePowerLimit_isOk computed (after.i64_eq.symm ▸ after.1)
  have exact_iff : ratio = sl.updatableShare delg diffPower ↔
      sl.updatedWith delg diffPower * 100 < 2 ^ 63 := by
    unfold updatableRatio at computed
    rcases place : sl.findPowerObj delg.addr with ⟨ridx, found⟩
    rw [place] at computed
    simp only at computed
    split at computed
    · cases computed
    · next same =>
      rw [not_not.mp same] at computed
      cases out : sl.pushedOutPower ridx delg.totalPower diffPower with
      | error fault =>
        rw [out] at computed
        cases computed
      | ok pushedOut =>
        rw [out] at computed
        simp only at computed
        obtain ⟨sum, nonneg⟩ := updatedWith_eq place out objs updated before after
        split at computed
        · cases computed
        · next nonzero =>
          rw [← Option.some.inj computed, sum]
          have := base.1
          have := base.lt
          exact i64_tdiv_eq_iff (by omega) (by omega) (by omega)
  rw [← exact_iff]
  exact ⟨And.left, fun same => ⟨same, same ▸ decided⟩⟩

end StakeLimiter

/-! ## Slashing -/

namespace Delegatee

/-- The power that a stake is meant to lose. -/
def slashShare (ratio : Int) (s : Stake) : Int := s.power * ratio / 100

/-- The stakes that are meant to be left by `doSlashAll`. -/
def slashedWith (ratio : Int) (stakes : List Stake) : List Stake :=
  ((stakes.filter fun s => slashShare ratio s < 1).map Stake.txHash).foldl delStakeByHash
    (stakes.map fun s =>
      if slashShare ratio s < 1 then s else { s with power := s.power - slashShare ratio s })

/-- The power that `doSlashAll` is meant to report. -/
def slashedSum (ratio : Int) (stakes : List Stake) : Int :=
  ((stakes.filter fun s => 1 ≤ slashShare ratio s).map (slashShare ratio)).sum

variable {ratio : Int}

theorem slashOf_eq_iff {s : Stake} (low : 0 ≤ ratio) (power : 0 ≤ s.power) :
    slashOf ratio s = slashShare ratio s ↔ s.power * ratio < 2 ^ 63 :=
  i64_tdiv_eq_iff (mul_nonneg power low) (by decide) (by decide)

theorem slashShare_le {s : Stake} (low : 0 ≤ ratio) (high : ratio ≤ 100) (power : 0 ≤ s.power) :
    0 ≤ slashShare ratio s ∧ slashShare ratio s ≤ s.power := by
  unfold slashShare
  have nonneg : 0 ≤ s.power * ratio := mul_nonneg power low
  have whole : s.power * ratio ≤ s.power * 100 := mul_le_mul_of_nonneg_left high power
  omega

section

variable (low : 0 ≤ ratio) (high : ratio ≤ 100)

include low high

/-- The power that is to be reported is not larger than all power. -/
theorem slashedSum_le {stakes : List Stake} (powers : ∀ s ∈ stakes, 0 ≤ s.power) :
    0 ≤ slashedSum ratio stakes ∧ slashedSum ratio stakes ≤ sumPower stakes := by
  have kept : ∀ s ∈ stakes.filter fun s => 1 ≤ slashShare ratio s, s ∈ stakes := fun s member =>
    List.mem_of_mem_filter member
  constructor
  · refine List.sum_nonneg fun share member => ?_
    obtain ⟨s, member', rfl⟩ := List.mem_map.mp member
    exact (slashShare_le low high (powers s (kept s member'))).1
  · have removed : 0 ≤ sumPower (stakes.filter fun s => !decide (1 ≤ slashShare ratio s)) :=
      sumPower_nonneg fun s member => powers s (List.mem_of_mem_filter member)
    have each : slashedSum ratio stakes ≤
        sumPower (stakes.filter fun s => 1 ≤ slashShare ratio s) :=
      List.sum_le_sum fun s member => (slashShare_le low high (powers s (kept s member))).2
    rw [sumPower_filter stakes fun s => 1 ≤ slashShare ratio s]
    omega

/-- Slashing takes the shares that are meant, leaves the stakes and reports the power that are
meant, exactly if every product fits. -/
theorem doSlash_eq_iff {stakes : List Stake} (powers : ∀ s ∈ stakes, 0 ≤ s.power)
    (total : Admissible (sumPower stakes)) :
    ((∀ s ∈ stakes, slashOf ratio s = slashShare ratio s) ∧
        slashedStakes ratio stakes = slashedWith ratio stakes ∧
        sumSlashedPower ratio stakes = slashedSum ratio stakes) ↔
      ∀ s ∈ stakes, s.power * ratio < 2 ^ 63 := by
  constructor
  · rintro ⟨shares, -, -⟩ s member
    exact (slashOf_eq_iff low (powers s member)).mp (shares s member)
  · intro fits
    have shares : ∀ s ∈ stakes, slashOf ratio s = slashShare ratio s := fun s member =>
      (slashOf_eq_iff low (powers s member)).mpr (fits s member)
    have small := total.lt
    refine ⟨shares, ?_, ?_⟩
    · have removed : (stakes.filter fun s => slashOf ratio s < 1) =
          stakes.filter fun s => slashShare ratio s < 1 :=
        List.filter_congr fun s member => by rw [shares s member]
      have lowered : stakes.map (slashStake ratio) = stakes.map fun s =>
          if slashShare ratio s < 1 then s else { s with power := s.power - slashShare ratio s } := by
        refine List.map_congr_left fun s member => ?_
        obtain ⟨least, most⟩ := slashShare_le low high (powers s member)
        have whole := le_sumPower powers member
        rw [slashStake, shares s member, i64_of_range (by omega) (by omega)]
      rw [slashedStakes, slashedWith, removed, lowered]
    · have kept : (stakes.filter fun s => 1 ≤ slashOf ratio s) =
          stakes.filter fun s => 1 ≤ slashShare ratio s :=
        List.filter_congr fun s member => by rw [shares s member]
      have sum : sumSlash ratio (stakes.filter fun s => 1 ≤ slashShare ratio s) =
          slashedSum ratio stakes :=
        congrArg List.sum (List.map_congr_left fun s member =>
          shares s (List.mem_of_mem_filter member))
      obtain ⟨least, most⟩ := slashedSum_le low high powers
      rw [sumSlashedPower_eq, kept, sum, i64_of_range (by omega) (by omega)]

end

end Delegatee

/-- **Percentages.**  With powers that consensus admits, each of the four computations gives what it
gives with numbers of any size, and the limiter decides accordingly, exactly if its product fits.
(Without a change that adds power, or if `checkUpdatablePowerLimit` ends before, the limiter computes
no ratio.) -/
theorem percentages_exact_iff (Op : Type → Type) (d : Delegatee) (added : Int) :
    (Admissible d.selfPower → Admissible d.totalPower → Admissible (d.totalPower + added) →
      ((d.selfStakeRatio added : Prog Op Fault Int) = d.selfShare added ↔
        d.totalPower + added = 0 ∨ d.selfPower * 100 < 2 ^ 63)) ∧
    (∀ (sl : StakeLimiter) (delg : Delegatee) (diffPower : Int), 0 < diffPower →
      Admissible sl.baseTotalPower → Admissible delg.totalPower →
      Admissible (delg.totalPower + diffPower) → Admissible (sl.baseTotalPower + diffPower) →
      ((sl.individualRatio delg diffPower = sl.individualShare delg diffPower ∧
          ((sl.checkIndividualPowerLimit delg diffPower).isOk = true ↔
            sl.individualShare delg diffPower ≤ sl.individualLimitRatio)) ↔
        (delg.totalPower + diffPower) * 100 < 2 ^ 63)) ∧
    (∀ (sl : StakeLimiter) (delg : Delegatee) (diffPower ratio : Int),
      sl.updatableRatio delg diffPower = some ratio →
      (∀ o ∈ sl.powerObjs, Admissible o.power) → Admissible sl.updatedPower →
      Admissible sl.baseTotalPower → Admissible delg.totalPower →
      Admissible (delg.totalPower + diffPower) →
      ((ratio = sl.updatableShare delg diffPower ∧
          ((sl.checkUpdatablePowerLimit delg diffPower).1.isOk = true ↔
            sl.updatableShare delg diffPower ≤ sl.updatableLimitRatio)) ↔
        sl.updatedWith delg diffPower * 100 < 2 ^ 63)) ∧
    ∀ ratio : Int, 0 ≤ ratio → ratio ≤ 100 → (∀ s ∈ d.stakes, 0 ≤ s.power) →
      Admissible (sumPower d.stakes) →
      (((∀ s ∈ d.stakes, slashOf ratio s = slashShare ratio s) ∧
          (d.doSlash ratio).stakes = slashedWith ratio d.stakes ∧
          sumSlashedPower ratio d.stakes = slashedSum ratio d.stakes) ↔
        ∀ s ∈ d.stakes, s.power * ratio < 2 ^ 63) := by
  refine ⟨?_, ?_, ?_, ?_⟩
  · intro own _ after
    exact selfStakeRatio_eq_iff own after
  · intro sl delg diffPower grows base _ after baseAfter
    exact individualRatio_eq_iff grows base after baseAfter
  · intro sl delg diffPower ratio computed objs updated base before after
    exact updatableRatio_eq_iff computed objs updated base before after
  · intro ratio low high powers total
    exact doSlash_eq_iff low high powers total

/-- A limiter that knows two validators of one power. -/
def StakeLimiter.ofTwo (power : Int) : StakeLimiter :=
  reset [holding power, { holding power with addr := [2] }] 2 33 33

/-- Powers of a few million are no problem. -/
theorem percentages_exact_millions :
    ((holding 8000000).selfStakeRatio 2000000 : Prog (fun _ => Empty) Fault Int) =
        (holding 8000000).selfShare 2000000 ∧
      ((ofTwo 8000000).checkIndividualPowerLimit (holding 8000000)
          1000000).isOk =
        decide (individualShare (ofTwo 8000000)
          (holding 8000000) 1000000 ≤ 33) ∧
      ((ofTwo 8000000).checkUpdatablePowerLimit (holding 8000000)
          (-1000000)).1.isOk =
        decide (updatableShare (ofTwo 8000000)
          (holding 8000000) (-1000000) ≤ 33) ∧
      sumSlashedPower 50 (holding 8000000).stakes =
        slashedSum 50 (holding 8000000).stakes := by
  obtain ⟨own, individual, updatable, slashed⟩ :=
    percentages_exact_iff (fun _ => Empty) (holding 8000000) 2000000
  refine ⟨?_, ?_, ?_, ?_⟩
  · exact (own (by decide) (by decide) (by decide)).mpr (by decide)
  · have decided := ((individual (ofTwo 8000000)
      (holding 8000000) 1000000 (by decide) (by decide) (by decide) (by decide)
      (by decide)).mpr (by decide)).2
    exact Bool.eq_iff_iff.mpr (decided.trans (by simp [ofTwo, reset]))
  · have decided := ((updatable (ofTwo 8000000)
      (holding 8000000) (-1000000) _ rfl (by decide) (by decide) (by decide) (by decide)
      (by decide)).mpr (by decide)).2
    exact Bool.eq_iff_iff.mpr (decided.trans (by simp [ofTwo, reset]))
  · exact ((slashed 50 (by decide) (by decide) (by decide) (by decide)).mpr (by decide)).2.2

/-- Powers of `2 ^ 58` and `2 ^ 59` are admitted.  A delegatee that has all of its power itself is
found to have 4 per cent of it; one of two validators may double, to 66 per cent of all power, with a
limit of 33 per cent; one of two may give up all its power, half of the whole, with a limit of 33 per
cent; and 32 per cent of a stake come out as no power at all, so that the stake is removed. -/
theorem percentages_wrap :
    Admissible (2 ^ 59 + 2 ^ 58) ∧
      ((holding (2 ^ 59)).selfStakeRatio 0 : Prog (fun _ => Empty) Fault Int) = .pure 4 ∧
      ((holding (2 ^ 59)).selfShare 0 : Prog (fun _ => Empty) Fault Int) = .pure 100 ∧
      ((ofTwo (2 ^ 58)).checkIndividualPowerLimit (holding (2 ^ 58))
        (2 ^ 58)).isOk = true ∧
      (ofTwo (2 ^ 58)).individualShare (holding (2 ^ 58)) (2 ^ 58) = 66 ∧
      ((ofTwo (2 ^ 58)).checkUpdatablePowerLimit (holding (2 ^ 58))
        (-2 ^ 58)).1.isOk = true ∧
      (ofTwo (2 ^ 58)).updatableShare (holding (2 ^ 58)) (-2 ^ 58) = 50 ∧
      ((holding (2 ^ 59)).doSlash 32).stakes = [] ∧
      (slashedWith 32 (holding (2 ^ 59)).stakes).map Stake.power =
        [2 ^ 59 - 2 ^ 59 * 32 / 100] :=
  ⟨by decide, rfl, rfl, by decide, by decide, by decide, by decide, by decide, by decide⟩

end Rigo
