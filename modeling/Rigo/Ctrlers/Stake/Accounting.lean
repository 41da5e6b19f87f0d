import Rigo.Ctrlers.Stake.Delegatee

/-!
# The powers of a delegatee

A delegatee keeps its total power and its own power beside its stakes.  `Summed` says that
they are the sums over the stakes, as `int64`, and that all stakes are stakes on this delegatee;
`Distinct` says that the hashes of its stakes are distinct.  The operations on a delegatee keep
both.

A slash reports the power it takes, but not that of the stakes it removes (`slashedInFull_iff`).
-/

namespace Rigo

open Delegatee

variable {stakes : List Stake} {s : Stake}

theorem i64_add (x y : Int) : i64 (i64 x + y) = i64 (x + y) := Int.bmod_add_bmod

theorem i64_sub (x y : Int) : i64 (i64 x - y) = i64 (x - y) := by
  rw [sub_eq_add_neg, i64_add, ← sub_eq_add_neg]

/-- Division by 100 rounds toward zero. -/
theorem tdiv_hundred (x : Int) :
    x / 100 ≤ x.tdiv 100 ∧ (x.tdiv 100 ≤ 0 ∨ x.tdiv 100 = x / 100) := by
  rw [Int.tdiv_eq_ediv, show Int.sign 100 = 1 from rfl]
  split <;> omega

theorem sumPower_perm {stakes' : List Stake} (same : stakes.Perm stakes') :
    sumPower stakes = sumPower stakes' := (same.map Stake.power).sum_eq

namespace Delegatee

/-- The stakes of the delegatee itself. -/
def ownStakes (addr : Address) (stakes : List Stake) : List Stake :=
  stakes.filter fun s => s.fromAddr = addr

theorem ownStakes_cons (addr : Address) (s : Stake) (stakes : List Stake) :
    ownStakes addr (s :: stakes) =
      if s.fromAddr = addr then s :: ownStakes addr stakes else ownStakes addr stakes := by
  by_cases self : s.fromAddr = addr <;> simp [ownStakes, self]

theorem ownStakes_append (addr : Address) (stakes stakes' : List Stake) :
    ownStakes addr (stakes ++ stakes') = ownStakes addr stakes ++ ownStakes addr stakes' :=
  List.filter_append ..

/-- The powers are those of the stakes, and all of these are stakes on the delegatee. -/
structure Summed (d : Delegatee) : Prop where
  total : d.totalPower = i64 (sumPower d.stakes)
  own : d.selfPower = i64 (sumPower (ownStakes d.addr d.stakes))
  onIt : ∀ s ∈ d.stakes, s.toAddr = d.addr

/-- The hashes of the stakes are distinct, so that a hash stands for one stake. -/
def Distinct (d : Delegatee) : Prop := (d.stakes.map Stake.txHash).Nodup

theorem summed_newDelegatee (addr : Address) (pubKey : HexBytes) :
    (newDelegatee addr pubKey).Summed :=
  ⟨rfl, rfl, fun _ member => (by cases member)⟩

section

variable {d : Delegatee}

/-- The powers of stakes, whatever their sign. -/
def magnitude (stakes : List Stake) : Int := (stakes.map fun s => |s.power|).sum

theorem abs_sumPower_le (stakes : List Stake) : |sumPower stakes| ≤ magnitude stakes := by
  induction stakes with
  | nil => exact le_rfl
  | cons head tail ih =>
    rw [sumPower_cons]
    exact (abs_add_le _ _).trans (add_le_add le_rfl ih)

theorem magnitude_filter_le (stakes : List Stake) (p : Stake → Bool) :
    magnitude (stakes.filter p) ≤ magnitude stakes := by
  refine ((List.filter_sublist (p := p)).map _).sum_le_sum fun power member => ?_
  obtain ⟨s, _, rfl⟩ := List.mem_map.mp member
  exact abs_nonneg _

/-- Sums that fit are exact. -/
theorem Summed.exact_of_small (summed : d.Summed) (small : magnitude d.stakes < 2 ^ 63) :
    d.totalPower = sumPower d.stakes ∧ d.selfPower = sumPower (ownStakes d.addr d.stakes) := by
  have fits (stakes : List Stake) (small : magnitude stakes < 2 ^ 63) :
      i64 (sumPower stakes) = sumPower stakes := by
    have bound := abs_le.mp (abs_sumPower_le stakes)
    exact i64_of_range (by omega) (by omega)
  have own : magnitude (ownStakes d.addr d.stakes) < 2 ^ 63 :=
    (magnitude_filter_le d.stakes _).trans_lt small
  exact ⟨summed.total.trans (fits _ small), summed.own.trans (fits _ own)⟩

theorem Summed.addStake (summed : d.Summed) (onIt : s.toAddr = d.addr) :
    (d.addStake s).Summed := by
  refine ⟨?_, ?_, ?_⟩
  · simp only [Delegatee.addStake, summed.total, i64_add, sumPower_append, sumPower_cons,
      sumPower_nil, add_zero]
  · simp only [Delegatee.addStake, Stake.isSelfStake, onIt, beq_iff_eq, summed.own, i64_add,
      ownStakes_append, sumPower_append, ownStakes_cons]
    split <;> simp [ownStakes]
  · intro s' member
    rcases List.mem_append.mp member with old | new
    · exact summed.onIt s' old
    · rw [List.mem_singleton.mp new]
      exact onIt

/-- A new stake has a hash of its own. -/
theorem Distinct.addStake (distinct : d.Distinct)
    (fresh : ∀ s' ∈ d.stakes, s'.txHash ≠ s.txHash) : (d.addStake s).Distinct := by
  rw [Distinct, Delegatee.addStake, List.map_append, List.nodup_append]
  refine ⟨distinct, List.nodup_singleton _, ?_⟩
  rintro hash old hash' new rfl
  obtain ⟨s', member, rfl⟩ := List.mem_map.mp old
  rw [List.map_singleton, List.mem_singleton] at new
  exact fresh s' member new

/-! ## Removing stakes -/

/-- The stake with a hash and what is left without it. -/
theorem perm_delStakeByHash {txHash : HexBytes}
    (found : stakes.find? (fun s => s.txHash == txHash) = some s) :
    stakes.Perm (s :: delStakeByHash stakes txHash) := by
  induction stakes with
  | nil => cases found
  | cons head tail ih =>
    rw [List.find?_cons] at found
    rw [delStakeByHash, List.eraseP_cons]
    split at found
    · next here =>
      cases found
      rw [here]
      exact List.Perm.refl _
    · next other =>
      rw [other]
      exact ((ih found).cons head).trans (List.Perm.swap _ _ _)

theorem delStake_stakes_sublist (d : Delegatee) (txHash : HexBytes) :
    (d.delStake txHash).stakes.Sublist d.stakes := by
  unfold delStake
  split
  · exact List.Sublist.refl _
  · exact List.eraseP_sublist

theorem delStake_addr (d : Delegatee) (txHash : HexBytes) : (d.delStake txHash).addr = d.addr := by
  unfold delStake
  split <;> rfl

theorem Distinct.delStake (distinct : d.Distinct) (txHash : HexBytes) :
    (d.delStake txHash).Distinct :=
  List.Nodup.sublist ((d.delStake_stakes_sublist txHash).map _) distinct

theorem Summed.delStake (summed : d.Summed) (txHash : HexBytes) : (d.delStake txHash).Summed := by
  have left := d.delStake_stakes_sublist txHash
  refine ⟨?_, ?_, ?_⟩
  · unfold Delegatee.delStake
    split
    · exact summed.total
    · next s found =>
      have whole := sumPower_perm (perm_delStakeByHash found)
      rw [sumPower_cons] at whole
      simp only [summed.total, i64_sub, whole, add_sub_cancel_left]
  · unfold Delegatee.delStake
    split
    · exact summed.own
    · next s found =>
      have perm := perm_delStakeByHash found
      have member : s ∈ d.stakes := List.mem_of_find?_eq_some found
      have whole := sumPower_perm (perm.filter fun s => decide (s.fromAddr = d.addr))
      have own : sumPower (ownStakes d.addr d.stakes) =
          sumPower (ownStakes d.addr (s :: delStakeByHash d.stakes txHash)) := whole
      rw [ownStakes_cons] at own
      simp only [Stake.isSelfStake, summed.onIt s member, beq_iff_eq, summed.own, own]
      split
      · rw [sumPower_cons, i64_sub, add_sub_cancel_left]
      · rfl
  · intro s member
    rw [delStake_addr]
    exact summed.onIt s (left.subset member)

/-- Without any stake there is no power left. -/
theorem Summed.delAllStakes_totalPower (summed : d.Summed) :
    d.delAllStakes.totalPower = 0 := by
  have taken (stakes : List Stake) (total : Int) :
      stakes.foldl (fun total s => i64 (total - s.power)) (i64 total) =
        i64 (total - sumPower stakes) := by
    induction stakes generalizing total with
    | nil => simp
    | cons head tail ih =>
      rw [List.foldl_cons, i64_sub, ih, sumPower_cons, sub_sub]
  rw [delAllStakes]
  simp only
  rw [summed.total, taken, sub_self]
  rfl

/-! ## Slashing -/

theorem sumPowerOf_eq (stakes : List Stake) (addr : Option Address) :
    sumPowerOf stakes addr =
      i64 (sumPower (stakes.filter fun s => addr.isNone || addr == some s.fromAddr)) := by
  have sums (stakes : List Stake) (power : Int) :
      stakes.foldl (fun power s =>
        if addr.isNone || addr == some s.fromAddr then i64 (power + s.power) else power)
        (i64 power) =
      i64 (power + sumPower (stakes.filter fun s => addr.isNone || addr == some s.fromAddr)) := by
    induction stakes generalizing power with
    | nil => simp
    | cons head tail ih =>
      rw [List.foldl_cons, List.filter_cons]
      split
      · rw [i64_add, ih, sumPower_cons, add_assoc]
      · exact ih power
  have whole := sums stakes 0
  rwa [zero_add] at whole

theorem sumPowerOf_none (stakes : List Stake) : sumPowerOf stakes none = i64 (sumPower stakes) := by
  simp [sumPowerOf_eq]

theorem sumPowerOf_some (stakes : List Stake) (addr : Address) :
    sumPowerOf stakes (some addr) = i64 (sumPower (ownStakes addr stakes)) := by
  rw [sumPowerOf_eq, ownStakes]
  congr 3
  funext s
  simp [eq_comm, beq_eq_decide]

theorem delStakeByHash_eq_filter (distinct : (stakes.map Stake.txHash).Nodup) (txHash : HexBytes) :
    delStakeByHash stakes txHash = stakes.filter fun s => s.txHash ≠ txHash := by
  induction stakes with
  | nil => rfl
  | cons head tail ih =>
    rw [List.map_cons, List.nodup_cons] at distinct
    rw [delStakeByHash, List.eraseP_cons, List.filter_cons]
    by_cases here : head.txHash = txHash
    · subst here
      have others : tail.filter (fun s => decide (s.txHash ≠ head.txHash)) = tail := by
        refine List.filter_eq_self.mpr fun s member => decide_eq_true fun same => ?_
        exact distinct.1 (same ▸ List.mem_map_of_mem member)
      simp only [BEq.rfl, cond_true, ne_eq, not_true_eq_false, decide_false, Bool.false_eq_true,
        if_false]
      exact others.symm
    · have rest := ih distinct.2
      rw [delStakeByHash] at rest
      simp [beq_false_of_ne here, here, rest]

/-- Removing stakes by their hashes. -/
theorem foldl_delStakeByHash (distinct : (stakes.map Stake.txHash).Nodup)
    (hashes : List HexBytes) :
    hashes.foldl delStakeByHash stakes = stakes.filter fun s => s.txHash ∉ hashes := by
  induction hashes generalizing stakes with
  | nil => simp
  | cons head tail ih =>
    have left : ((stakes.filter fun s => s.txHash ≠ head).map Stake.txHash).Nodup :=
      distinct.sublist (List.filter_sublist.map _)
    rw [List.foldl_cons, delStakeByHash_eq_filter distinct, ih left, List.filter_filter]
    congr 1
    funext s
    simp [Bool.and_comm]

/-- The hash of a stake is not changed by a slash. -/
theorem slashStake_txHash (ratio : Int) (s : Stake) : (slashStake ratio s).txHash = s.txHash := by
  unfold slashStake
  split <;> rfl

theorem slashStake_toAddr (ratio : Int) (s : Stake) : (slashStake ratio s).toAddr = s.toAddr := by
  unfold slashStake
  split <;> rfl

/-- A slash keeps the stakes that lose at least one power. -/
theorem slashedStakes_eq (distinct : (stakes.map Stake.txHash).Nodup)
    (ratio : Int) :
    slashedStakes ratio stakes =
      (stakes.filter fun s => 1 ≤ slashOf ratio s).map (slashStake ratio) := by
  have hashes : (stakes.map (slashStake ratio)).map Stake.txHash = stakes.map Stake.txHash := by
    rw [List.map_map]
    exact List.map_congr_left fun s _ => slashStake_txHash ratio s
  rw [slashedStakes, foldl_delStakeByHash (by rw [hashes]; exact distinct), List.filter_map]
  congr 1
  refine List.filter_congr fun s member => ?_
  have gone : s.txHash ∈ (stakes.filter fun s => slashOf ratio s < 1).map Stake.txHash ↔
      slashOf ratio s < 1 := by
    constructor
    · intro removed
      obtain ⟨s', member', same⟩ := List.mem_map.mp removed
      rw [List.mem_filter] at member'
      rw [← List.inj_on_of_nodup_map distinct member'.1 member same]
      exact of_decide_eq_true member'.2
    · intro small
      exact List.mem_map_of_mem (List.mem_filter.mpr ⟨member, decide_eq_true small⟩)
  simp only [Function.comp_apply, slashStake_txHash, gone, not_lt]

theorem foldl_delStakeByHash_sublist (hashes : List HexBytes) (stakes : List Stake) :
    (hashes.foldl delStakeByHash stakes).Sublist stakes := by
  induction hashes generalizing stakes with
  | nil => exact List.Sublist.refl _
  | cons head tail ih => exact (ih _).trans List.eraseP_sublist

theorem slashedStakes_sublist (ratio : Int) (stakes : List Stake) :
    (slashedStakes ratio stakes).Sublist (stakes.map (slashStake ratio)) :=
  foldl_delStakeByHash_sublist _ _

/-- A slash leaves some of the stakes, with less power. -/
theorem mem_slashedStakes {ratio : Int} (member : s ∈ slashedStakes ratio stakes) :
    ∃ s' ∈ stakes, s = slashStake ratio s' := by
  obtain ⟨s', member', rfl⟩ := List.mem_map.mp ((slashedStakes_sublist _ _).subset member)
  exact ⟨s', member', rfl⟩

theorem Summed.doSlash (summed : d.Summed) (ratio : Int) : (d.doSlash ratio).Summed := by
  refine ⟨sumPowerOf_none _, sumPowerOf_some _ _, fun s member => ?_⟩
  obtain ⟨s', member', rfl⟩ := mem_slashedStakes member
  rw [slashStake_toAddr]
  exact summed.onIt s' member'

theorem Distinct.doSlash (distinct : d.Distinct) (ratio : Int) : (d.doSlash ratio).Distinct := by
  rw [Distinct, Delegatee.doSlash, slashedStakes_eq distinct, List.map_map]
  have hashes : (Stake.txHash ∘ slashStake ratio) = Stake.txHash :=
    funext fun s => slashStake_txHash ratio s
  rw [hashes]
  exact List.Nodup.sublist (List.filter_sublist.map _) distinct

/-! ## Missed blocks -/

/-- Marking a missed block changes the marks only. -/
theorem processNotSignedBlock_eq (d : Delegatee) (height : Int) :
    ∃ marker, d.processNotSignedBlock height = { d with notSignedHeights := marker } := by
  unfold processNotSignedBlock
  split
  · exact ⟨_, rfl⟩
  · exact ⟨d.notSignedHeights, rfl⟩

theorem Summed.withMarks (summed : d.Summed) (marker : BlockMarker) :
    Summed { d with notSignedHeights := marker } :=
  ⟨summed.total, summed.own, summed.onIt⟩

end

/-! ## Slashing in full -/

/-- What a slash is to leave of a stake: a stake that would lose less than one power goes. -/
def fairSlash (ratio : Int) (s : Stake) : Option Stake :=
  if 1 ≤ s.power * ratio / 100 then some { s with power := s.power - s.power * ratio / 100 }
  else none

/-- A slash reports all the power that the delegatee loses, and takes from each stake its part. -/
def SlashedInFull (d : Delegatee) (ratio : Int) : Prop :=
  sumSlashedPower ratio d.stakes = d.totalPower - (d.doSlash ratio).totalPower ∧
    (d.doSlash ratio).stakes = d.stakes.filterMap (fairSlash ratio)

section

variable {ratio : Int} {s : Stake}

/-- The product with the ratio fits into an `int64`. -/
def Fits (ratio : Int) (s : Stake) : Prop := s.power * ratio < 2 ^ 63

theorem slashOf_of_fits (nonneg : 0 ≤ s.power * ratio) (fits : Fits ratio s) :
    slashOf ratio s = s.power * ratio / 100 := by
  unfold Fits at fits
  unfold slashOf
  rw [i64_of_range (by omega) fits, Int.tdiv_eq_ediv_of_nonneg nonneg, i64_of_range]
  · omega
  · omega

/-- A part of the power is not more than the power. -/
theorem part_le (positive : 0 < s.power) (high : ratio ≤ 100) :
    s.power * ratio / 100 ≤ s.power := by
  have bound : s.power * ratio ≤ s.power * 100 := by gcongr
  omega

theorem slashStake_of_fits (positive : 0 < s.power) (small : s.power < 2 ^ 63) (low : 1 ≤ ratio)
    (high : ratio ≤ 100) (fits : Fits ratio s) (kept : 1 ≤ slashOf ratio s) :
    slashStake ratio s = { s with power := s.power - s.power * ratio / 100 } := by
  have nonneg : 0 ≤ s.power * ratio := by positivity
  have part := part_le positive high
  have same := slashOf_of_fits nonneg fits
  have nonneg' : 0 ≤ s.power * ratio / 100 := Int.ediv_nonneg nonneg (by decide)
  unfold slashStake
  rw [if_neg (by omega), same, i64_of_range (by omega) (by omega)]

/-- A product that does not fit makes the slash come out too small. -/
theorem fits_of_slashStake (positive : 0 < s.power) (small : s.power < 2 ^ 63)
    (high : ratio ≤ 100) (kept : 1 ≤ slashOf ratio s)
    (same : (slashStake ratio s).power = s.power - s.power * ratio / 100) : Fits ratio s := by
  have part := part_le positive high
  unfold Fits
  by_contra large
  push Not at large
  have less : slashOf ratio s < s.power * ratio / 100 := by
    have wrapped := i64_le_sub large
    have low := (i64_range (s.power * ratio)).1
    have quotient := tdiv_hundred (i64 (s.power * ratio))
    have bound := (i64_range (s.power * ratio)).2
    unfold slashOf at kept ⊢
    rw [i64_of_range (by omega) (by omega)] at kept ⊢
    omega
  unfold slashStake at same
  rw [if_neg (by omega)] at same
  simp only at same
  rw [i64_of_range (by omega) (by omega)] at same
  omega

/-- The slashes of some stakes, added up. -/
def sumSlash (ratio : Int) (stakes : List Stake) : Int := (stakes.map (slashOf ratio)).sum

theorem sumSlashedPower_eq (ratio : Int) (stakes : List Stake) :
    sumSlashedPower ratio stakes =
      i64 (sumSlash ratio (stakes.filter fun s => 1 ≤ slashOf ratio s)) := by
  have sums (stakes : List Stake) (sum : Int) :
      stakes.foldl (fun sum s => if slashOf ratio s < 1 then sum else i64 (sum + slashOf ratio s))
        (i64 sum) =
      i64 (sum + sumSlash ratio (stakes.filter fun s => 1 ≤ slashOf ratio s)) := by
    induction stakes generalizing sum with
    | nil => simp [sumSlash]
    | cons head tail ih =>
      rw [List.foldl_cons, List.filter_cons]
      by_cases small : slashOf ratio head < 1
      · rw [if_pos small, if_neg (by simpa using small)]
        exact ih sum
      · rw [if_neg small, if_pos (by simpa using small), i64_add, ih, sumSlash, sumSlash,
          List.map_cons, List.sum_cons, add_assoc]
  have whole := sums stakes 0
  rwa [zero_add] at whole

theorem sumPower_filter (stakes : List Stake) (p : Stake → Bool) :
    sumPower stakes = sumPower (stakes.filter p) + sumPower (stakes.filter fun s => !p s) := by
  induction stakes with
  | nil => rfl
  | cons head tail ih =>
    rw [List.filter_cons, List.filter_cons, sumPower_cons, ih]
    cases p head <;> simp <;> ring

theorem le_sumPower (nonneg : ∀ s ∈ stakes, 0 ≤ s.power) (member : s ∈ stakes) :
    s.power ≤ sumPower stakes := by
  refine List.single_le_sum ?_ _ (List.mem_map_of_mem member)
  intro power present
  obtain ⟨s', member', rfl⟩ := List.mem_map.mp present
  exact nonneg s' member'

end

section

variable {d : Delegatee} {ratio : Int} (positive : ∀ s ∈ d.stakes, 0 < s.power)
  (distinct : (d.stakes.map Stake.txHash).Nodup) (total : d.totalPower = sumPower d.stakes)
  (small : d.totalPower < 2 ^ 63) (low : 1 ≤ ratio) (high : ratio ≤ 100)

include positive total small in
theorem power_small (member : s ∈ d.stakes) : s.power < 2 ^ 63 := by
  have bound := le_sumPower (fun s member => (positive s member).le) member
  omega

include positive distinct total small low high in
/-- If the products fit, the stakes are slashed as they should be. -/
theorem doSlash_stakes_of_fits (fits : ∀ s ∈ d.stakes, Fits ratio s) :
    (d.doSlash ratio).stakes = d.stakes.filterMap (fairSlash ratio) := by
  rw [doSlash, slashedStakes_eq distinct, ← List.filterMap_eq_map, List.filterMap_filter]
  refine List.filterMap_congr fun s member => ?_
  have nonneg : 0 ≤ s.power * ratio := mul_nonneg (positive s member).le (by omega)
  have part := slashOf_of_fits nonneg (fits s member)
  have power := power_small positive total small member
  simp only [fairSlash, decide_eq_true_eq, Function.comp_apply, part]
  split
  · next kept =>
    rw [slashStake_of_fits (positive s member) power low high (fits s member) (part ▸ kept)]
  · rfl

include positive distinct total small high in
/-- If the stakes are slashed as they should be, the products fit. -/
theorem fits_of_doSlash_stakes
    (fair : (d.doSlash ratio).stakes = d.stakes.filterMap (fairSlash ratio)) :
    ∀ s ∈ d.stakes, Fits ratio s := by
  intro s member
  by_contra large
  have product : 2 ^ 63 ≤ s.power * ratio := not_lt.mp large
  -- such a stake is to stay, with its power reduced
  have left : fairSlash ratio s = some { s with power := s.power - s.power * ratio / 100 } := by
    rw [fairSlash, if_pos (by omega)]
  have present : { s with power := s.power - s.power * ratio / 100 } ∈ (d.doSlash ratio).stakes := by
    rw [fair]
    exact List.mem_filterMap.mpr ⟨s, member, left⟩
  rw [doSlash, slashedStakes_eq distinct] at present
  obtain ⟨s', member', same⟩ := List.mem_map.mp present
  rw [List.mem_filter] at member'
  have hash : s'.txHash = s.txHash := by
    rw [← slashStake_txHash ratio s', same]
  obtain rfl := List.inj_on_of_nodup_map distinct member'.1 member hash
  exact large (fits_of_slashStake (positive s' member) (power_small positive total small member)
    high (of_decide_eq_true member'.2) (by rw [same]))

include positive total small low high in
/-- If the products fit, the stakes that stay lose what is reported. -/
theorem sumPower_slashStake (fits : ∀ s ∈ d.stakes, Fits ratio s) (kept : List Stake)
    (among : ∀ s ∈ kept, s ∈ d.stakes ∧ 1 ≤ slashOf ratio s) :
    sumPower (kept.map (slashStake ratio)) = sumPower kept - sumSlash ratio kept ∧
      0 ≤ sumSlash ratio kept ∧ sumSlash ratio kept ≤ sumPower kept := by
  induction kept with
  | nil => exact ⟨rfl, le_refl _, le_refl _⟩
  | cons s rest ih =>
    obtain ⟨sum, nonneg, bound⟩ := ih fun s' later => among s' (List.mem_cons_of_mem _ later)
    obtain ⟨member, taken⟩ := among s List.mem_cons_self
    have power := power_small positive total small member
    have part := part_le (positive s member) high
    have same := slashOf_of_fits (mul_nonneg (positive s member).le (by omega))
      (fits s member)
    have unfolded : sumSlash ratio (s :: rest) = slashOf ratio s + sumSlash ratio rest := rfl
    rw [List.map_cons, sumPower_cons, sumPower_cons, unfolded,
      slashStake_of_fits (positive s member) power low high (fits s member) taken]
    exact ⟨by simp only; omega, by omega, by omega⟩

include positive distinct total small low high in
/-- If the products fit, the delegatee loses the reported power and that of the removed stakes. -/
theorem totalPower_doSlash (fits : ∀ s ∈ d.stakes, Fits ratio s) :
    d.totalPower - (d.doSlash ratio).totalPower = sumSlashedPower ratio d.stakes +
      sumPower (d.stakes.filter fun s => !decide (1 ≤ slashOf ratio s)) := by
  have split := sumPower_filter d.stakes fun s => 1 ≤ slashOf ratio s
  have removed : 0 ≤ sumPower (d.stakes.filter fun s => !decide (1 ≤ slashOf ratio s)) :=
    sumPower_nonneg fun s member => (positive s (List.mem_of_mem_filter member)).le
  obtain ⟨sum, nonneg, bound⟩ := sumPower_slashStake positive total small low high fits
    (d.stakes.filter fun s => 1 ≤ slashOf ratio s) (fun s member =>
      ⟨List.mem_of_mem_filter member, of_decide_eq_true (List.mem_filter.mp member).2⟩)
  have after : (d.doSlash ratio).totalPower =
      sumPower (d.stakes.filter fun s => 1 ≤ slashOf ratio s) -
        sumSlash ratio (d.stakes.filter fun s => 1 ≤ slashOf ratio s) := by
    have same : (d.doSlash ratio).totalPower = sumPowerOf (slashedStakes ratio d.stakes) none := rfl
    rw [same, sumPowerOf_none, slashedStakes_eq distinct, sum, i64_of_range (by omega) (by omega)]
  rw [after, sumSlashedPower_eq, i64_of_range (by omega) (by omega)]
  omega

include positive distinct total small low high in
/-- A slash is accounted in full exactly if no stake is so small that it is removed, and no
product overflows. -/
theorem slashedInFull_iff :
    SlashedInFull d ratio ↔ ∀ s ∈ d.stakes, 100 ≤ s.power * ratio ∧ s.power * ratio < 2 ^ 63 := by
  constructor
  · rintro ⟨reported, fair⟩ s member
    have fits := fits_of_doSlash_stakes positive distinct total small high fair
    have lost := totalPower_doSlash positive distinct total small low high fits
    refine ⟨?_, fits s member⟩
    by_contra tiny
    -- the power of a removed stake is not reported
    have part := slashOf_of_fits (mul_nonneg (positive s member).le (by omega)) (fits s member)
    have removed : s ∈ d.stakes.filter fun s => !decide (1 ≤ slashOf ratio s) := by
      rw [List.mem_filter]
      exact ⟨member, by simp only [part, Bool.not_eq_true', decide_eq_false_iff_not]; omega⟩
    have bound := le_sumPower
      (fun s member => (positive s (List.mem_of_mem_filter member)).le) removed
    have own := positive s member
    omega
  · intro large
    have fits : ∀ s ∈ d.stakes, Fits ratio s := fun s member => (large s member).2
    have lost := totalPower_doSlash positive distinct total small low high fits
    refine ⟨?_, doSlash_stakes_of_fits positive distinct total small low high fits⟩
    have none_removed : (d.stakes.filter fun s => !decide (1 ≤ slashOf ratio s)) = [] := by
      refine List.filter_eq_nil_iff.mpr fun s member => ?_
      have part := slashOf_of_fits (mul_nonneg (positive s member).le (by omega)) (fits s member)
      have enough := (large s member).1
      simp only [part, Bool.not_eq_true', decide_eq_false_iff_not]
      omega
    rw [none_removed] at lost
    rw [lost]
    exact (add_zero _).symm

end

/-- A delegatee with one stake of its own. -/
def holding (power : Int) : Delegatee :=
  { addr := [1], pubKey := [1], selfPower := power, totalPower := power, slashedPower := 0
    stakes := [{ fromAddr := [1], toAddr := [1], txHash := [1], startHeight := 1,
                 refundHeight := 0, power := power }]
    notSignedHeights := ⟨[]⟩ }

/-- A delegatee with a stake of its own and two that are delegated to it. -/
def holdingThree (power : Int) : Delegatee :=
  ((holding 150).addStake ⟨[2], [1], [2], 1, 0, power⟩).addStake ⟨[3], [1], [3], 2, 0, 999⟩

/-- One of three stakes decides whether a slash by 1 percent is accounted in full. -/
theorem slashedInFull_iff_three :
    SlashedInFull (holdingThree 100) 1 ∧ ¬ SlashedInFull (holdingThree 99) 1 :=
  ⟨(slashedInFull_iff (by decide) (by decide) (by decide) (by decide) (by decide) (by decide)).mpr
      (by decide),
    fun full => absurd ((slashedInFull_iff (by decide) (by decide) (by decide) (by decide)
      (by decide) (by decide)).mp full) (by decide)⟩

/-- A stake of power 1 is slashed by 1 percent: it is removed, and no power is reported. -/
theorem not_slashedInFull_one :
    (∀ s ∈ (holding 1).stakes, 0 < s.power) ∧ (holding 1).totalPower = sumPower (holding 1).stakes ∧
      ((holding 1).stakes.map Stake.txHash).Nodup ∧ ¬ SlashedInFull (holding 1) 1 := by
  refine ⟨by decide, by decide, by decide, ?_⟩
  rintro ⟨reported, _⟩
  revert reported
  decide

end Delegatee

end Rigo
