import Rigo.Node.Delegatees

/-!
# The powers of the delegatees in a run

In every run the powers of a delegatee are the sums over its stakes, all of these are stakes on
it, and their hashes are distinct (`Run.powers_booked`).  This is kept by every call, whether the
transactions in it succeed or not.
-/

namespace Rigo

open Foundation

namespace StakeCtrler

/-- What an unstaking leaves of a delegatee has no power, or is the delegatee without the stake. -/
theorem leftOver_cases {d : Delegatee} (summed : d.Summed) (s0 : Stake) :
    (leftOver d s0).totalPower = 0 ∨
      (d.delStake s0.txHash).selfPower ≠ 0 ∧ leftOver d s0 = d.delStake s0.txHash := by
  unfold leftOver
  split
  · exact .inl (summed.delStake _).delAllStakes_totalPower
  · next own => exact .inr ⟨own, rfl⟩

/-- The delegatee that a valid transaction stakes on has the address of the receiver. -/
theorem StakesOn.addr {ctx : TrxContext} {pubKey : HexBytes} {ls : Stores} {d : Delegatee}
    (target : StakesOn ctx pubKey ls d) (receiver : ctx.tx.toAddr.length = addrSize)
    (address : (ls .delegatees).lookup (toLedgerKey ctx.tx.toAddr) = some d →
      d.addr.length = addrSize) : d.addr = ctx.tx.toAddr := by
  cases target with
  | existing found =>
    have key : toLedgerKey d.addr = toLedgerKey ctx.tx.toAddr := Store.key_of_lookup found
    have length := address found
    refine toLedgerKey_injOn ?_ (length.trans receiver.symm) key
    rw [length]
    decide
  | new missing self => exact self

end StakeCtrler

namespace RigoApp

variable {X : External} {txbz : HexBytes} {answer : TxResponse}

/-! ## The hashes of the stakes -/

/-- The hash of the transaction that a step delivers. -/
def txHashOf (X : External) (step : Step X.evm) : Option HexBytes :=
  match step.call with
  | .deliverTx txbz => some (X.trx.txHash txbz)
  | _ => none

/-- The hashes of the stakes there can be: that of the genesis, and those of the transactions. -/
def stakeHashes (X : External) (steps : List (Step X.evm)) : List HexBytes :=
  zeroBytes 32 :: steps.filterMap (txHashOf X)

theorem mem_stakeHashes_append {steps : List (Step X.evm)} {hash : HexBytes}
    (member : hash ∈ stakeHashes X steps) (step : Step X.evm) :
    hash ∈ stakeHashes X (steps ++ [step]) := by
  rw [stakeHashes, List.filterMap_append, ← List.cons_append]
  exact List.mem_append_left _ member

theorem nodup_stakeHashes_of_append {steps : List (Step X.evm)} {step : Step X.evm}
    (nodup : (stakeHashes X (steps ++ [step])).Nodup) : (stakeHashes X steps).Nodup := by
  rw [stakeHashes, List.filterMap_append, ← List.cons_append] at nodup
  exact nodup.sublist (List.sublist_append_left _ _)

/-- The hash of the last transaction is new. -/
theorem not_mem_stakeHashes {steps : List (Step X.evm)} {s t : Node X.evm}
    (nodup : (stakeHashes X (steps ++ [⟨s, .deliverTx txbz, .deliverTx answer, t⟩])).Nodup) :
    X.trx.txHash txbz ∉ stakeHashes X steps := by
  rw [stakeHashes, List.filterMap_append, ← List.cons_append] at nodup
  exact fun old => List.disjoint_of_nodup_append nodup old List.mem_cons_self

/-! ## The invariant -/

/-- The books of a delegatee after some steps. -/
structure Booked (X : External) (steps : List (Step X.evm)) (d : Delegatee) : Prop where
  summed : d.Summed
  distinct : d.Distinct
  address : d.addr.length = addrSize
  hashes : ∀ s0 ∈ d.stakes, s0.txHash ∈ stakeHashes X steps

section

variable {steps : List (Step X.evm)} {d : Delegatee}

theorem Booked.later (booked : Booked X steps d) (step : Step X.evm) :
    Booked X (steps ++ [step]) d :=
  ⟨booked.summed, booked.distinct, booked.address, fun s0 member =>
    mem_stakeHashes_append (booked.hashes s0 member) step⟩

theorem booked_genesisDelegatee {val : HexBytes × Int}
    (length : (X.pubBytes2Addr val.1).length = addrSize) :
    Booked X [] (genesisDelegatee X val) := by
  refine ⟨(Delegatee.summed_newDelegatee _ _).addStake rfl, List.nodup_singleton _, length, ?_⟩
  intro s0 member
  rw [List.mem_singleton.mp member]
  exact List.mem_cons_self

theorem Booked.withMarks (booked : Booked X steps d) (marker : BlockMarker) :
    Booked X steps { d with notSignedHeights := marker } :=
  ⟨booked.summed.withMarks marker, booked.distinct, booked.address, booked.hashes⟩

theorem Booked.doSlash (booked : Booked X steps d) (ratio : Int) :
    Booked X steps (d.doSlash ratio) := by
  refine ⟨booked.summed.doSlash ratio, booked.distinct.doSlash ratio, booked.address, ?_⟩
  intro s0 member
  obtain ⟨s', member', rfl⟩ := Delegatee.mem_slashedStakes member
  rw [Delegatee.slashStake_txHash]
  exact booked.hashes s' member'

theorem Booked.delStake (booked : Booked X steps d) (txHash : HexBytes) :
    Booked X steps (d.delStake txHash) := by
  refine ⟨booked.summed.delStake txHash, booked.distinct.delStake txHash, ?_, fun s0 member => ?_⟩
  · rw [Delegatee.delStake_addr]
    exact booked.address
  · exact booked.hashes s0 ((d.delStake_stakes_sublist txHash).subset member)

/-- A stake with a new hash. -/
theorem Booked.addStake (booked : Booked X steps d) {s0 : Stake} (onIt : s0.toAddr = d.addr)
    (fresh : s0.txHash ∉ stakeHashes X steps) {steps' : List (Step X.evm)}
    (later : ∀ hash ∈ stakeHashes X steps, hash ∈ stakeHashes X steps')
    (known : s0.txHash ∈ stakeHashes X steps') : Booked X steps' (d.addStake s0) := by
  refine ⟨booked.summed.addStake onIt, booked.distinct.addStake fun s' member same => ?_,
    booked.address, fun s' member => ?_⟩
  · exact fresh (same ▸ booked.hashes s' member)
  · rcases List.mem_append.mp member with old | new
    · exact later _ (booked.hashes s' old)
    · rw [List.mem_singleton.mp new]
      exact known

/-! ## Runs -/

variable {s t : Node X.evm}

theorem booked_beginBlock {info : BlockInfo} (holds : Everywhere .delegatees (Booked X steps) s.ledgers)
    (ran : BeginsBlock X info s t) :
    Everywhere .delegatees (Booked X steps) t.ledgers := by
  refine beginBlock_delegatees (fun d marker booked => booked.withMarks marker) holds ?_ ran
  intro k d found n _ _
  exact StakeCtrler.slashedTimes_induction (fun d booked => booked.doSlash _) n (holds.lookup found)

theorem booked_deliverTx (holds : Everywhere .delegatees (Booked X steps) s.ledgers)
    (nodup : (stakeHashes X (steps ++ [⟨s, .deliverTx txbz, .deliverTx answer, t⟩])).Nodup)
    (ran : DeliversTx X txbz s answer t) :
    Everywhere .delegatees
      (Booked X (steps ++ [⟨s, .deliverTx txbz, .deliverTx answer, t⟩])) t.ledgers := by
  have holds' : Everywhere .delegatees
      (Booked X (steps ++ [⟨s, .deliverTx txbz, .deliverTx answer, t⟩])) s.ledgers :=
    holds.mono fun d booked => booked.later _
  obtain ⟨bctx, tx, -, -, effect⟩ := deliverTx_stakes ran
  rw [Everywhere]
  generalize t.ledgers .delegatees = delegatees at effect ⊢
  generalize t.ledgers .frozenStakes = frozenStakes at effect
  cases effect with
  | kept => exact holds'
  | @staked pubKey d valid power grows target =>
    refine Store.All.set holds' ?_
    have addr : d.addr = tx.toAddr := target.addr valid.receiver fun found =>
      (holds.lookup found).address
    have known : X.trx.txHash txbz ∈
        stakeHashes X (steps ++ [⟨s, .deliverTx txbz, .deliverTx answer, t⟩]) := by
      rw [stakeHashes, List.filterMap_append, ← List.cons_append]
      exact List.mem_append_right _ List.mem_cons_self
    have before : Booked X steps d := by
      cases target with
      | existing found => exact holds.lookup found
      | new missing self =>
        refine ⟨Delegatee.summed_newDelegatee _ _, List.nodup_nil, valid.sender, ?_⟩
        exact fun s0 member => absurd member List.not_mem_nil
    exact before.addStake addr.symm (not_mem_stakeHashes nodup)
      (fun hash member => mem_stakeHashes_append member _) known
  | @unstaked pubKey d s0 valid found own =>
    have booked := holds'.lookup found
    refine StakeCtrler.all_stored holds' fun power => ?_
    rcases StakeCtrler.leftOver_cases booked.summed s0 with none | ⟨_, left⟩
    · exact absurd none power
    · rw [left]
      exact booked.delStake _

/-- The books of the delegatees in every run. -/
theorem Run.booked {mayRestart : Bool} {genesis : Genesis} {phase : Phase} {s : App X.evm}
    (ran : Run X mayRestart genesis phase steps s)
    (lengths : ∀ val ∈ genesis.validators, (X.pubBytes2Addr val.1).length = addrSize) :
    (stakeHashes X steps).Nodup →
      Everywhere .delegatees (Booked X steps) (App.node s).ledgers := by
  refine ran.node_induction (I := fun _ steps s => (stakeHashes X steps).Nodup →
    Everywhere .delegatees (Booked X steps) s.ledgers) ?_ ?_ ?_ ?_ ?_ ?_ ?_
  · intro s t first ran _
    exact initChain_delegatees first ran fun val member =>
      booked_genesisDelegatee (lengths val member)
  · intro steps s t info ih ran nodup
    exact (booked_beginBlock (ih (nodup_stakeHashes_of_append nodup)) ran).mono
      fun d booked => booked.later _
  · intro steps s t txbz answer ih ran nodup
    exact booked_deliverTx (ih (nodup_stakeHashes_of_append nodup)) nodup ran
  · intro steps s t valUpdates ih ran nodup
    rw [Everywhere, endBlock_frame ran id]
    exact (ih (nodup_stakeHashes_of_append nodup)).mono fun d booked => booked.later _
  · intro steps s t appHash ih ran nodup
    exact commit_everywhere
      ((ih (nodup_stakeHashes_of_append nodup)).mono fun d booked => booked.later _) ran
  · intro phase steps s limiter ih
    exact ih
  · intro steps s t u appHash _ ih ran restarted nodup
    rw [restartNode_ledgers ran restarted]
    exact commit_everywhere
      ((ih (nodup_stakeHashes_of_append nodup)).mono fun d booked => booked.later _) ran

/-- In every run the powers of every delegatee, in the view of the block and committed, are the
sums over its stakes, if these fit; its stakes are stakes on it, with distinct hashes. -/
theorem Run.powers_booked {mayRestart : Bool} {genesis : Genesis} {phase : Phase} {s : App X.evm}
    (ran : Run X mayRestart genesis phase steps s)
    (lengths : ∀ val ∈ genesis.validators, (X.pubBytes2Addr val.1).length = addrSize)
    (hashes : (stakeHashes X steps).Nodup) {k : LedgerKey}
    (present : ((App.node s).ledgers .delegatees).lookup k = some d ∨
      ((App.node s).ledgers .delegatees).tree.contents.find? k = some d) :
    (Delegatee.magnitude d.stakes < 2 ^ 63 → d.totalPower = sumPower d.stakes ∧
      d.selfPower = sumPower (d.stakes.filter fun s0 => s0.fromAddr = d.addr)) ∧
    (∀ s0 ∈ d.stakes, s0.toAddr = d.addr) ∧ (d.stakes.map Stake.txHash).Nodup := by
  have holds := ran.booked lengths hashes
  have booked : Booked X steps d := by
    rcases present with seen | stored
    · exact holds.lookup seen
    · exact holds.committed k d stored
  exact ⟨booked.summed.exact_of_small, booked.summed.onIt, booked.distinct⟩

end

/-! ### A run with a staking -/

/-- A staking of one coin by the validator on itself. -/
def oneStaking : External :=
  Concrete.external ⟨[Concrete.trx .staking 1 1 0 Concrete.coin []], [], [], []⟩

/-- A chain with one validator, that has coins left. -/
def oneStaker : Genesis :=
  { Concrete.genesis [(1, 10000000)] with
    assetHolders := [(Concrete.addr 1, Uint256.newInt 10 * Concrete.coin)] }

/-- A block in which the validator stakes. -/
def stakingOnce : List ConsensusCall := [.beginBlock (Concrete.block 1), .deliverTx [0]]

def staker : App oneStaking.evm := (start oneStaking oneStaker).toOption.get (by decide +kernel)

/-- The delegatee after the staking has two stakes, and the power of both. -/
theorem Run.powers_booked_oneStaking :
    ∃ d, ((App.node (runCalls oneStaking finalityImpl stakingOnce staker).2).ledgers
        .delegatees).lookup (toLedgerKey (Concrete.addr 1)) = some d ∧ d.stakes.length = 2 ∧
      d.totalPower = sumPower d.stakes := by
  have length : (stepsOf oneStaking stakingOnce staker).length = stakingOnce.length := by
    decide +kernel
  have ran : Run oneStaking false oneStaker .delivering ([] ++ stepsOf oneStaking stakingOnce staker) _ :=
    (Run.start (eq_ok_of_isSome _)).calls stakingOnce rfl length
  obtain ⟨d, found⟩ : ∃ d, ((App.node (runCalls oneStaking finalityImpl stakingOnce staker).2).ledgers
      .delegatees).lookup (toLedgerKey (Concrete.addr 1)) = some d :=
    Option.isSome_iff_exists.mp (by decide +kernel)
  have booked := Run.powers_booked ran (by decide +kernel) (by decide +kernel) (.inl found)
  have small : ∀ d ∈ ((App.node (runCalls oneStaking finalityImpl stakingOnce staker).2).ledgers
      .delegatees).lookup (toLedgerKey (Concrete.addr 1)),
      Delegatee.magnitude d.stakes < 2 ^ 63 ∧ d.stakes.length = 2 := by decide +kernel
  exact ⟨d, found, (small d found).2, (booked.1 (small d found).1).1⟩

end RigoApp

end Rigo
