import Rigo.Node.Powers

/-!
# Delegations without a delegatee

A delegatee that has no power of its own left is to be deleted and the stakes of its delegators
frozen.  Unstaking does that, and so does the stop of a validator that misses blocks.  A slash does
not: it stores the delegatee with whatever power is left (`Run.orphan_slashed`).  In a run in which
every slash leaves the delegatee a stake of its own, every delegatee has power of its own
(`Run.no_orphans`).
-/

namespace Rigo

open Foundation
open Delegatee StakeCtrler

theorem powerOf_lt (amt : Uint256) : powerOf amt < 2 ^ 63 := by
  unfold powerOf Uint256.int64
  exact (i64_range _).2

namespace Delegatee

/-! ## Powers that are not negative -/

/-- The powers of a delegatee, none of them negative, add up without an overflow. -/
structure Sound (d : Delegatee) : Prop where
  summed : d.Summed
  nonneg : ∀ s ∈ d.stakes, 0 ≤ s.power
  small : sumPower d.stakes < 2 ^ 63

instance (d : Delegatee) : Decidable d.Sound :=
  decidable_of_iff ((d.totalPower = i64 (sumPower d.stakes) ∧
      d.selfPower = i64 (sumPower (ownStakes d.addr d.stakes)) ∧
      ∀ s ∈ d.stakes, s.toAddr = d.addr) ∧
      (∀ s ∈ d.stakes, 0 ≤ s.power) ∧ sumPower d.stakes < 2 ^ 63)
    ⟨fun all => ⟨⟨all.1.1, all.1.2.1, all.1.2.2⟩, all.2.1, all.2.2⟩, fun sound =>
      ⟨⟨sound.summed.total, sound.summed.own, sound.summed.onIt⟩, sound.nonneg, sound.small⟩⟩

theorem sound_newDelegatee (addr : Address) (pubKey : HexBytes) :
    (newDelegatee addr pubKey).Sound :=
  ⟨summed_newDelegatee addr pubKey, fun _ member => absurd member List.not_mem_nil, by
    rw [newDelegatee, sumPower_nil]; decide⟩

theorem magnitude_of_nonneg {stakes : List Stake} (nonneg : ∀ s ∈ stakes, 0 ≤ s.power) :
    magnitude stakes = sumPower stakes := by
  refine congrArg List.sum (List.map_congr_left fun s member => ?_)
  exact abs_of_nonneg (nonneg s member)

theorem sumPower_le_of_sublist {stakes stakes' : List Stake} (sublist : stakes.Sublist stakes')
    (nonneg : ∀ s ∈ stakes', 0 ≤ s.power) : sumPower stakes ≤ sumPower stakes' := by
  refine (sublist.map Stake.power).sum_le_sum fun power member => ?_
  obtain ⟨s, present, rfl⟩ := List.mem_map.mp member
  exact nonneg s present

variable {d : Delegatee} {ratio : Int} {s : Stake}

theorem Sound.total (sound : d.Sound) : d.totalPower = sumPower d.stakes :=
  (sound.summed.exact_of_small (by rw [magnitude_of_nonneg sound.nonneg]; exact sound.small)).1

theorem Sound.totalPower_range (sound : d.Sound) :
    0 ≤ d.totalPower ∧ d.totalPower < 2 ^ 63 := by
  rw [sound.total]
  exact ⟨sumPower_nonneg sound.nonneg, sound.small⟩

theorem Sound.own (sound : d.Sound) : d.selfPower = sumPower (ownStakes d.addr d.stakes) :=
  (sound.summed.exact_of_small (by rw [magnitude_of_nonneg sound.nonneg]; exact sound.small)).2

theorem Sound.own_nonneg (sound : d.Sound) : 0 ≤ d.selfPower := by
  rw [sound.own]
  exact sumPower_nonneg fun s member => sound.nonneg s (List.mem_of_mem_filter member)

theorem Sound.own_le_total (sound : d.Sound) : d.selfPower ≤ d.totalPower := by
  rw [sound.own, sound.total]
  exact sumPower_le_of_sublist List.filter_sublist sound.nonneg

/-- A stake of its own that has power is power of the delegatee. -/
theorem Sound.own_pos (sound : d.Sound) (member : s ∈ d.stakes) (own : s.fromAddr = d.addr)
    (power : 0 < s.power) : 0 < d.selfPower := by
  rw [sound.own]
  refine power.trans_le (le_sumPower (fun s' member' => ?_) ?_)
  · exact sound.nonneg s' (List.mem_of_mem_filter member')
  · exact List.mem_filter.mpr ⟨member, decide_eq_true own⟩

theorem Sound.stakes_ne_nil (sound : d.Sound) (own : 0 < d.selfPower) : d.stakes ≠ [] := by
  intro none
  rw [sound.own, none] at own
  exact lt_irrefl _ own

theorem Sound.withMarks (sound : d.Sound) (marker : BlockMarker) :
    Sound { d with notSignedHeights := marker } :=
  ⟨sound.summed.withMarks marker, sound.nonneg, sound.small⟩

theorem Sound.addStake (sound : d.Sound) (onIt : s.toAddr = d.addr) (power : 0 ≤ s.power)
    (small : sumPower d.stakes + s.power < 2 ^ 63) : (d.addStake s).Sound := by
  refine ⟨sound.summed.addStake onIt, fun s' member => ?_, ?_⟩
  · rcases List.mem_append.mp member with old | new
    · exact sound.nonneg s' old
    · rw [List.mem_singleton.mp new]
      exact power
  · rw [Delegatee.addStake, sumPower_append, sumPower_cons, sumPower_nil, add_zero]
    exact small

theorem Sound.delStake (sound : d.Sound) (txHash : HexBytes) : (d.delStake txHash).Sound := by
  have left := d.delStake_stakes_sublist txHash
  refine ⟨sound.summed.delStake txHash, fun s member => sound.nonneg s (left.subset member), ?_⟩
  exact (sumPower_le_of_sublist left sound.nonneg).trans_lt sound.small

/-- A slash takes no more than there is, also if the product with the ratio overflows. -/
theorem slashStake_power_mem (nonneg : 0 ≤ s.power) (small : s.power < 2 ^ 63) (low : 1 ≤ ratio)
    (high : ratio ≤ 100) : 0 ≤ (slashStake ratio s).power ∧ (slashStake ratio s).power ≤ s.power := by
  unfold slashStake
  split
  · exact ⟨nonneg, le_rfl⟩
  · next kept =>
    have product : 0 ≤ s.power * ratio := by positivity
    have bound : s.power * ratio ≤ s.power * 100 := by gcongr
    have wrapped := i64_le product
    have quotient := tdiv_hundred (i64 (s.power * ratio))
    have range := i64_range (s.power * ratio)
    have exact : slashOf ratio s = (i64 (s.power * ratio)).tdiv 100 :=
      i64_of_range (by omega) (by omega)
    rw [exact] at kept ⊢
    simp only
    rw [i64_of_range (by omega) (by omega)]
    omega

theorem Sound.doSlash (sound : d.Sound) (low : 1 ≤ ratio) (high : ratio ≤ 100) :
    (d.doSlash ratio).Sound := by
  have slashed (s : Stake) (member : s ∈ d.stakes) := slashStake_power_mem (sound.nonneg s member)
    ((le_sumPower sound.nonneg member).trans_lt sound.small) low high
  have nonneg : ∀ s ∈ d.stakes.map (slashStake ratio), 0 ≤ s.power := by
    intro s member
    obtain ⟨s', member', rfl⟩ := List.mem_map.mp member
    exact (slashed s' member').1
  have less : sumPower (d.stakes.map (slashStake ratio)) ≤ sumPower d.stakes := by
    rw [sumPower, List.map_map]
    exact List.sum_le_sum fun s member => (slashed s member).2
  have left := slashedStakes_sublist ratio d.stakes
  refine ⟨sound.summed.doSlash ratio, fun s member => nonneg s (left.subset member), ?_⟩
  exact ((sumPower_le_of_sublist left nonneg).trans less).trans_lt sound.small

theorem slashOf_lt_power_iff (nonneg : 0 ≤ s.power) (small : s.power < 2 ^ 63) :
    slashOf ratio s < s.power ↔ 0 < (slashStake ratio s).power := by
  have range := i64_range ((i64 (s.power * ratio)).tdiv 100)
  rw [← slashOf] at range
  unfold slashStake
  split
  · refine ⟨fun less => lt_of_le_of_ne nonneg fun zero => ?_, fun positive => by omega⟩
    rw [slashOf, ← zero, zero_mul] at less
    exact absurd less (by decide)
  · simp only
    rw [i64_of_range (by omega) (by omega)]
    omega

theorem foldl_delStakeByHash_cons (hashes : List HexBytes) (head : Stake) (tail : List Stake) :
    hashes.foldl delStakeByHash (head :: tail) =
      if head.txHash ∈ hashes then (hashes.erase head.txHash).foldl delStakeByHash tail
      else head :: hashes.foldl delStakeByHash tail := by
  induction hashes generalizing tail with
  | nil => rfl
  | cons hash rest ih =>
    rw [List.foldl_cons, delStakeByHash, List.eraseP_cons]
    by_cases here : head.txHash = hash
    · simp [here]
    · simp [beq_false_of_ne here, here, ih, delStakeByHash, Ne.symm here]

/-- Each hash removes the first stake that is left with it. -/
theorem mem_foldl_delStakeByHash {stakes : List Stake} {hashes : List HexBytes} :
    s ∈ hashes.foldl delStakeByHash stakes ↔ ∃ i, stakes[i]? = some s ∧
      hashes.count s.txHash ≤ (stakes.take i).countP fun s' => s'.txHash = s.txHash := by
  induction stakes generalizing hashes with
  | nil =>
    have none := List.sublist_nil.mp (foldl_delStakeByHash_sublist hashes [])
    simp [none]
  | cons head tail ih =>
    rw [foldl_delStakeByHash_cons, ← Nat.or_exists_add_one]
    simp only [List.getElem?_cons_zero, List.take_zero, List.countP_nil, List.getElem?_cons_succ,
      List.take_succ_cons, List.countP_cons, Option.some.injEq, decide_eq_true_eq]
    split
    · next listed =>
      have some := List.count_pos_iff.mpr listed
      rw [ih, List.count_erase]
      grind
    · next free =>
      have none := List.count_eq_zero.mpr free
      rw [List.mem_cons, ih]
      grind

/-- The delegatee has a stake of its own that loses less than its power and is not removed. The
stakes that would lose less than one power are removed by their hashes, each the first with its
hash that is left; with distinct hashes the stake itself has to lose at least one power. -/
def KeepsOwnStake (ratio : Int) (d : Delegatee) : Prop :=
  ∃ i < d.stakes.length, ∃ s ∈ d.stakes[i]?, s.fromAddr = d.addr ∧ slashOf ratio s < s.power ∧
    (d.stakes.countP fun s' => s'.txHash = s.txHash ∧ slashOf ratio s' < 1) ≤
      (d.stakes.take i).countP fun s' => s'.txHash = s.txHash

instance (ratio : Int) (d : Delegatee) : Decidable (KeepsOwnStake ratio d) :=
  inferInstanceAs (Decidable (∃ i < d.stakes.length, ∃ s ∈ _, _))

theorem slashStake_fromAddr (ratio : Int) (s : Stake) :
    (slashStake ratio s).fromAddr = s.fromAddr := by
  unfold slashStake
  split <;> rfl

/-- This is that a slash leaves a stake of its own that has power. -/
theorem keepsOwnStake_iff (sound : d.Sound) : KeepsOwnStake ratio d ↔
    ∃ s ∈ slashedStakes ratio d.stakes, s.fromAddr = d.addr ∧ 0 < s.power := by
  have power {i : Nat} {s : Stake} (found : d.stakes[i]? = some s) :
      slashOf ratio s < s.power ↔ 0 < (slashStake ratio s).power := by
    have member := List.mem_of_getElem? found
    exact slashOf_lt_power_iff (sound.nonneg s member)
      ((le_sumPower sound.nonneg member).trans_lt sound.small)
  have lost (s : Stake) : ((d.stakes.filter fun s' => slashOf ratio s' < 1).map
      Stake.txHash).count s.txHash =
        d.stakes.countP fun s' => s'.txHash = s.txHash ∧ slashOf ratio s' < 1 := by
    rw [List.count, List.countP_map, List.countP_filter]
    exact List.countP_congr fun s' _ => by simp
  simp only [slashedStakes, mem_foldl_delStakeByHash, List.getElem?_map, Option.map_eq_some_iff,
    ← List.map_take, List.countP_map, Function.comp_def, slashStake_txHash]
  constructor
  · rintro ⟨i, -, s, found, own, less, stays⟩
    refine ⟨slashStake ratio s, ⟨i, ⟨s, found, rfl⟩, ?_⟩, ?_, (power found).mp less⟩
    · rwa [slashStake_txHash, lost]
    · rwa [slashStake_fromAddr]
  · rintro ⟨_, ⟨i, ⟨s, found, rfl⟩, stays⟩, own, positive⟩
    rw [slashStake_txHash, lost] at stays
    rw [slashStake_fromAddr] at own
    exact ⟨i, List.getElem?_eq_some_iff.mp found |>.1, s, found, own, (power found).mpr positive,
      stays⟩

end Delegatee

namespace StakeCtrler

theorem slashedTimes_succ (slashRatio : Int) (n : Nat) (d : Delegatee) :
    slashedTimes slashRatio (n + 1) d = (slashedTimes slashRatio n d).doSlash slashRatio := by
  induction n generalizing d with
  | zero => rfl
  | succ n ih => exact ih (d.doSlash slashRatio)

end StakeCtrler

namespace RigoApp

variable {X : External} {txbz : HexBytes} {answer : TxResponse}

/-! ## The invariant -/

/-- A delegatee with power of its own. -/
structure Funded (d : Delegatee) : Prop where
  sound : d.Sound
  address : d.addr.length = addrSize
  own : 0 < d.selfPower

variable {d : Delegatee}

theorem Funded.stakes_ne_nil (funded : Funded d) : d.stakes ≠ [] :=
  funded.sound.stakes_ne_nil funded.own

theorem funded_genesisDelegatee {val : HexBytes × Int}
    (length : (X.pubBytes2Addr val.1).length = addrSize) (low : 0 < val.2) (high : val.2 < 2 ^ 63) :
    Funded (genesisDelegatee X val) := by
  have sound : (genesisDelegatee X val).Sound := by
    exact (sound_newDelegatee _ _).addStake rfl low.le ((zero_add val.2).trans_lt high)
  exact ⟨sound, length, sound.own_pos List.mem_cons_self rfl low⟩

/-- The ratio that a block slashes with is a percentage. -/
def SlashesInRange (step : Step X.evm) : Prop :=
  match step.call with
  | .beginBlock _ => 1 ≤ step.before.mem.govParams.slashRatio ∧
      step.before.mem.govParams.slashRatio ≤ 100
  | _ => True

/-- Each slash of a delegatee against which there is evidence leaves it a stake of its own. -/
def SlashesLeaveOwn (step : Step X.evm) : Prop :=
  match step.call with
  | .beginBlock info => ∀ addr ∈ info.byzantines,
      ∀ d ∈ (step.before.ledgers .delegatees).lookup (toLedgerKey addr),
      ∀ n < StakeCtrler.evidence info.byzantines (toLedgerKey addr),
        (StakeCtrler.slashedTimes step.before.mem.govParams.slashRatio n d).KeepsOwnStake
          step.before.mem.govParams.slashRatio
  | _ => True

instance (step : Step X.evm) : Decidable (SlashesInRange step) :=
  match step with
  | ⟨_, .beginBlock _, _, _⟩ => inferInstanceAs (Decidable (_ ∧ _))
  | ⟨_, .deliverTx _, _, _⟩ => .isTrue trivial
  | ⟨_, .endBlock, _, _⟩ => .isTrue trivial
  | ⟨_, .commit, _, _⟩ => .isTrue trivial

instance (step : Step X.evm) : Decidable (SlashesLeaveOwn step) :=
  match step with
  | ⟨_, .beginBlock info, _, _⟩ => inferInstanceAs (Decidable (∀ addr ∈ info.byzantines, _))
  | ⟨_, .deliverTx _, _, _⟩ => .isTrue trivial
  | ⟨_, .endBlock, _, _⟩ => .isTrue trivial
  | ⟨_, .commit, _, _⟩ => .isTrue trivial

section

variable {s t : Node X.evm}

theorem funded_beginBlock {info : BlockInfo} {response : Response}
    (holds : Everywhere .delegatees Funded s.ledgers)
    (ratio : SlashesInRange ⟨s, .beginBlock info, response, t⟩)
    (left : SlashesLeaveOwn ⟨s, .beginBlock info, response, t⟩)
    (ran : BeginsBlock X info s t) :
    Everywhere .delegatees Funded t.ledgers := by
  refine beginBlock_delegatees ?_ holds ?_ ran
  · intro d marker funded
    exact ⟨funded.sound.withMarks marker, funded.address, funded.own⟩
  · intro k d found n low high
    obtain ⟨n, rfl⟩ := Nat.exists_eq_succ_of_ne_zero (Nat.one_le_iff_ne_zero.mp low)
    obtain ⟨addr, member, same⟩ := List.countP_pos_iff.mp (low.trans high)
    obtain rfl := of_decide_eq_true same
    have before := holds.lookup found
    have sound := slashedTimes_induction (P := fun d => d.Sound ∧ d.addr.length = addrSize)
      (fun d holds => ⟨holds.1.doSlash ratio.1 ratio.2, holds.2⟩) n ⟨before.sound, before.address⟩
    obtain ⟨s0, kept, own, power⟩ :=
      (keepsOwnStake_iff sound.1).mp (left addr member d found n high)
    rw [Nat.succ_eq_add_one, slashedTimes_succ]
    have after := sound.1.doSlash ratio.1 ratio.2
    exact ⟨after, sound.2, after.own_pos kept own power⟩

/-- Staking on a delegatee, or as a new one. -/
theorem Funded.staked {ctx : TrxContext} {pubKey : HexBytes} {ls : Stores}
    (holds : Everywhere .delegatees Funded ls) (receiver : ctx.tx.toAddr.length = addrSize)
    (power : 0 ≤ powerOf ctx.tx.amount) (grows : 0 < i64 (d.totalPower + powerOf ctx.tx.amount))
    (target : StakesOn ctx pubKey ls d) :
    Funded (d.addStake (stakeOf ctx)) := by
  have high := powerOf_lt ctx.tx.amount
  have addr : d.addr = ctx.tx.toAddr := target.addr receiver fun found => (holds.lookup found).address
  cases target with
  | existing found =>
    have funded := holds.lookup found
    -- a sum that overflows would be negative
    have fits : sumPower d.stakes + powerOf ctx.tx.amount < 2 ^ 63 := by
      rw [funded.sound.total] at grows
      by_contra large
      have wrapped := i64_le_sub (not_lt.mp large)
      have small := funded.sound.small
      omega
    have sound := funded.sound.addStake (s := stakeOf ctx) addr.symm power fits
    refine ⟨sound, funded.address, ?_⟩
    have before := funded.own
    have more := sumPower_nonneg fun s0 (member : s0 ∈ ownStakes d.addr
      [stakeOf ctx]) => sound.nonneg s0
        (List.mem_append_right _ (List.mem_of_mem_filter member))
    rw [sound.own]
    rw [funded.sound.own] at before
    change 0 < sumPower (ownStakes d.addr (d.stakes ++ [stakeOf ctx]))
    rw [ownStakes_append, sumPower_append]
    omega
  | new missing self =>
    have positive : 0 < powerOf ctx.tx.amount := by
      change 0 < i64 (0 + powerOf ctx.tx.amount) at grows
      rwa [zero_add, i64_of_range (by omega) high] at grows
    have sound := (sound_newDelegatee _ pubKey).addStake (s := stakeOf ctx) addr.symm power
      ((zero_add _).trans_lt high)
    refine ⟨sound, (congrArg List.length addr).trans receiver, ?_⟩
    exact sound.own_pos List.mem_cons_self rfl positive

theorem funded_deliverTx (holds : Everywhere .delegatees Funded s.ledgers)
    (ran : DeliversTx X txbz s answer t) :
    Everywhere .delegatees Funded t.ledgers := by
  obtain ⟨bctx, tx, -, -, effect⟩ := deliverTx_stakes ran
  rw [Everywhere]
  generalize t.ledgers .delegatees = delegatees at effect ⊢
  generalize t.ledgers .frozenStakes = frozenStakes at effect
  cases effect with
  | kept => exact holds
  | staked valid power grows target =>
    exact Store.All.set holds (Funded.staked holds valid.receiver power grows target)
  | @unstaked pubKey d s0 valid found own =>
    have funded := holds.lookup found
    refine all_stored holds fun power => ?_
    rcases leftOver_cases funded.sound.summed s0 with none | ⟨some, left⟩
    · exact absurd none power
    · have sound := funded.sound.delStake s0.txHash
      rw [left]
      refine ⟨sound, ?_, lt_of_le_of_ne sound.own_nonneg some.symm⟩
      rw [delStake_addr]
      exact funded.address

/-- A step leaves a delegatee, or freezes all its stakes. -/
def FreezesWhatItEnds (step : Step X.evm) : Prop :=
  ∀ k d, (step.before.ledgers .delegatees).lookup k = some d →
    (step.after.ledgers .delegatees).lookup k = none →
      ∃ refundHeight stakes, stakes.Perm d.stakes ∧ step.after.ledgers .frozenStakes =
        StakeCtrler.frozen refundHeight stakes step.before.ledgers .frozenStakes

theorem freezesWhatItEnds_deliverTx (holds : Everywhere .delegatees Funded s.ledgers)
    (ran : DeliversTx X txbz s answer t) :
    FreezesWhatItEnds ⟨s, .deliverTx txbz, .deliverTx answer, t⟩ := by
  obtain ⟨bctx, tx, -, -, effect⟩ := deliverTx_stakes ran
  intro k d before gone
  dsimp only at before gone ⊢
  generalize t.ledgers .delegatees = delegatees at effect gone
  generalize t.ledgers .frozenStakes = frozenStakes at effect
  cases effect with
  | kept =>
    rw [before] at gone
    cases gone
  | staked valid power grows target =>
    rw [Store.lookup_set] at gone
    split at gone
    · cases gone
    · rw [before] at gone
      cases gone
  | @unstaked pubKey d' s0 valid found own =>
    have key := (key_leftOver d' s0).trans (Store.key_of_lookup found)
    have sound := (holds.lookup found).sound
    have present := Store.not_mem_removed found
    unfold stored at gone
    split at gone
    · next none =>
      rw [Stores.remove_self, Store.lookup_erase] at gone
      split at gone
      · next same =>
        -- the delegatee lost its last power of its own
        rw [← same, key, found] at before
        cases before
        refine ⟨_, _, ?_, rfl⟩
        rw [unstakedOf]
        split
        · rw [delStake, own.found]
          exact (perm_delStakeByHash own.found).symm
        · next some =>
          have after := sound.delStake s0.txHash
          have most := after.own_le_total
          have nonneg := after.own_nonneg
          rw [leftOver, if_neg some] at none
          omega
      · rw [before] at gone
        cases gone
    · rw [Stores.put_self, Store.lookup_set, key] at gone
      split at gone
      · cases gone
      · rw [before] at gone
        cases gone

end

/-! ## Runs -/

section

variable {steps : List (Step X.evm)} {mayRestart : Bool} {genesis : Genesis} {phase : Phase}
  {s : App X.evm}

theorem Run.funded (ran : Run X mayRestart genesis phase steps s)
    (lengths : ∀ val ∈ genesis.validators, (X.pubBytes2Addr val.1).length = addrSize)
    (powers : ∀ val ∈ genesis.validators, 0 < val.2 ∧ val.2 < 2 ^ 63) :
    (∀ step ∈ steps, SlashesInRange step ∧ SlashesLeaveOwn step) →
      Everywhere .delegatees Funded (App.node s).ledgers := by
  refine ran.node_induction_of (I := fun _ _ s => Everywhere .delegatees Funded s.ledgers)
    ?_ ?_ ?_ ?_ ?_ ?_ ?_
  · intro s t first ran
    exact initChain_delegatees first ran fun val member =>
      funded_genesisDelegatee (lengths val member) (powers val member).1 (powers val member).2
  · intro steps s t info ih met ran
    exact funded_beginBlock ih met.1 met.2 ran
  · intro steps s t txbz answer ih _ ran
    exact funded_deliverTx ih ran
  · intro steps s t valUpdates ih _ ran
    rw [Everywhere, endBlock_frame ran id]
    exact ih
  · intro steps s t appHash ih _ ran
    exact commit_everywhere ih ran
  · intro phase steps s limiter ih
    exact ih
  · intro steps t u ih same _
    rw [same]
    exact ih

/-- In every run in which the slashes leave the delegatees stakes of their own, every delegatee has
power of its own, a transaction freezes all stakes of a delegatee that it ends, and so does the
stop of a validator. -/
theorem Run.no_orphans (ran : Run X mayRestart genesis phase steps s)
    (lengths : ∀ val ∈ genesis.validators, (X.pubBytes2Addr val.1).length = addrSize)
    (powers : ∀ val ∈ genesis.validators, 0 < val.2 ∧ val.2 < 2 ^ 63)
    (inRange : ∀ step ∈ steps, SlashesInRange step)
    (left : ∀ step ∈ steps, SlashesLeaveOwn step) :
    (∀ k d, (((App.node s).ledgers .delegatees).lookup k = some d ∨
        ((App.node s).ledgers .delegatees).tree.contents.find? k = some d) →
      0 < d.selfPower ∧ d.stakes ≠ []) ∧
    (∀ step ∈ steps, (∃ txbz, step.call = .deliverTx txbz) → FreezesWhatItEnds step) ∧
    ∀ (params : GovParams) (height : Int) (addr : Address) (ls : Stores) (d : Delegatee),
      (ls .delegatees).lookup (toLedgerKey addr) = some d →
      ((exec (StakeCtrler.missedBlock params height addr) ls).2 .delegatees).lookup
        (toLedgerKey addr) = none →
      (exec (StakeCtrler.missedBlock params height addr) ls).2 .frozenStakes =
        StakeCtrler.frozen (i64 (height + params.lazyRewardBlocks)) d.stakes ls .frozenStakes := by
  have all (step : Step X.evm) (member : step ∈ steps) := And.intro (inRange step member) (left step member)
  refine ⟨fun k d present => ?_, fun step member delivered => ?_, ?_⟩
  · have holds := ran.funded lengths powers all
    have funded : Funded d := by
      rcases present with seen | stored
      · exact holds.lookup seen
      · exact holds.committed k d stored
    exact ⟨funded.own, funded.stakes_ne_nil⟩
  · obtain ⟨txbz, delivered⟩ := delivered
    obtain ⟨earlier, later, same⟩ := List.append_of_mem member
    obtain ⟨phase₁, s₁, phase₂, s₂, before, started, -, called, ended⟩ := ran.split same
    have holds := before.funded lengths powers fun step' member' =>
      all step' (same ▸ List.mem_append_left _ member')
    obtain ⟨node, call, response, node'⟩ := step
    obtain rfl : call = .deliverTx txbz := delivered
    obtain rfl : node = App.node s₁ := started
    obtain rfl : node' = App.node s₂ := ended
    obtain ⟨answer, rfl, delivered'⟩ := consensus_deliverTx_ok (run_node_ok called)
    exact freezesWhatItEnds_deliverTx holds delivered'
  · intro params height addr ls d found gone
    exact StakeCtrler.missedBlock_freezes found gone

end

/-! ### A slash that leaves a delegation -/

/-- The validator stakes one coin on itself, and another account two coins on the validator. -/
def twoStakings : External :=
  Concrete.external ⟨[Concrete.trx .staking 1 1 0 Concrete.coin [],
    Concrete.trx .staking 2 1 0 (Uint256.newInt 2 * Concrete.coin) []], [], [], []⟩

/-- A chain with a validator, on which everybody may stake. -/
def smallStakes (power : Int) : Genesis where
  chainID := "rigo"
  params := { GovParams.defaultGovParams with
    minValidatorStake := Concrete.coin
    maxUpdatableStakeRatio := 100
    maxIndividualStakeRatio := 100 }
  assetHolders := [1, 2].map fun n => (Concrete.addr n, Uint256.newInt 10 * Concrete.coin)
  validators := [(Concrete.addr 1, power)]

/-- The stakings, and a block with evidence against the validator. -/
def stakedAndSlashed : List ConsensusCall :=
  [.beginBlock (Concrete.block 1), .deliverTx [0], .deliverTx [1], .endBlock, .commit,
    .beginBlock { Concrete.block 2 with byzantines := [Concrete.addr 1] }, .endBlock, .commit]

def oneStaked : App twoStakings.evm :=
  (start twoStakings (smallStakes 1)).toOption.get (by decide +kernel)

def tenStaked : App twoStakings.evm :=
  (start twoStakings (smallStakes 10)).toOption.get (by decide +kernel)

/-- The validator in a state of the ledgers. -/
def validatorIn (s : App twoStakings.evm) : Option Delegatee :=
  ((App.node s).ledgers .delegatees).tree.contents.find? (toLedgerKey (Concrete.addr 1))

/-- A validator with two stakes of one power each loses both, and keeps the delegation. -/
theorem Run.orphan_slashed : ∃ steps s d,
    Run twoStakings false (smallStakes 1) .idle steps s ∧ (∀ step ∈ steps, SlashesInRange step) ∧
      ((App.node s).ledgers .delegatees).tree.contents.find? (toLedgerKey (Concrete.addr 1)) =
        some d ∧ d.selfPower = 0 ∧ d.stakes.map Stake.power = [1] := by
  have length : (stepsOf twoStakings stakedAndSlashed oneStaked).length =
      stakedAndSlashed.length := by decide +kernel
  have ran : Run twoStakings false (smallStakes 1) .idle
      ([] ++ stepsOf twoStakings stakedAndSlashed oneStaked) _ :=
    (Run.start (eq_ok_of_isSome _)).calls stakedAndSlashed rfl length
  obtain ⟨d, found⟩ : ∃ d, validatorIn
      (runCalls twoStakings finalityImpl stakedAndSlashed oneStaked).2 = some d :=
    Option.isSome_iff_exists.mp (by decide +kernel)
  have orphan : ∀ d ∈ validatorIn
      (runCalls twoStakings finalityImpl stakedAndSlashed oneStaked).2,
      d.selfPower = 0 ∧ d.stakes.map Stake.power = [1] := by decide +kernel
  exact ⟨_, _, d, ran, by decide +kernel, found, orphan d found⟩

/-- With ten times the power the validator keeps half of it. -/
theorem Run.no_orphans_ten :
    ∃ d, validatorIn (runCalls twoStakings finalityImpl stakedAndSlashed tenStaked).2 = some d ∧
      0 < d.selfPower ∧ d.stakes ≠ [] := by
  have length : (stepsOf twoStakings stakedAndSlashed tenStaked).length =
      stakedAndSlashed.length := by decide +kernel
  have ran : Run twoStakings false (smallStakes 10) .idle
      ([] ++ stepsOf twoStakings stakedAndSlashed tenStaked) _ :=
    (Run.start (eq_ok_of_isSome _)).calls stakedAndSlashed rfl length
  obtain ⟨d, found⟩ : ∃ d, validatorIn
      (runCalls twoStakings finalityImpl stakedAndSlashed tenStaked).2 = some d :=
    Option.isSome_iff_exists.mp (by decide +kernel)
  have funded := Run.no_orphans ran (by decide +kernel) (by decide +kernel) (by decide +kernel)
    (by decide +kernel)
  exact ⟨d, found, funded.1 _ d (.inr found)⟩

end RigoApp

end Rigo
