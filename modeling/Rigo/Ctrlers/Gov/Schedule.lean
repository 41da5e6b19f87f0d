import Rigo.Ctrlers.Gov.Tally
import Rigo.Ctrlers.Types.TrxCodec

/-!
# The schedule of a proposal

A proposal names the height at which voting starts, for how many blocks it lasts, and the height
at which the outcome is applied.  `ValidateTrx` adds two heights up: the end of the voting period,
and the first height at which the outcome may be applied.  Both sums are int64 numbers.

The first sum is checked for an overflow: it must not be less than the start.  The second is not.
Where it wraps around, the proposal may be applied as soon as voting has ended
(`validateTrx_scheduled_iff`).
-/

namespace Rigo

namespace GovCtrler

variable {json : ParamsJSON} {ctx : TrxContext} {payload : TrxPayloadProposal}

/-- What `checkProposal` has checked. -/
structure Checked (ctx : TrxContext) (payload : TrxPayloadProposal) : Prop where
  future : ctx.height < payload.startVotingHeight
  shortest : ctx.params.minVotingPeriodBlocks ≤ payload.votingPeriodBlocks
  longest : payload.votingPeriodBlocks ≤ ctx.params.maxVotingPeriodBlocks
  ends : payload.startVotingHeight ≤
    i64 (payload.startVotingHeight + payload.votingPeriodBlocks)
  applied : i64 (payload.startVotingHeight + payload.votingPeriodBlocks) ≤ payload.applyingHeight
  lazily : i64 (i64 (payload.startVotingHeight + payload.votingPeriodBlocks) +
    ctx.params.lazyApplyingBlocks) ≤ payload.applyingHeight

theorem checkProposal_ok (checked : checkProposal json ctx payload = .ok ()) :
    Checked ctx payload := by
  unfold checkProposal at checked
  simp only at checked
  split at checked
  · cases checked
  next future =>
    split at checked
    · cases checked
    next period =>
      split at checked
      on_goal 1 =>
        rcases options : checkOptions json payload.options with e | _ <;> rw [options] at checked
        · cases checked
        simp only [bind, Except.bind] at checked
      all_goals
        split at checked
        · cases checked
        next ends =>
          split at checked
          · cases checked
          next late =>
            exact ⟨by omega, by omega, by omega, by omega, by omega, by omega⟩

/-- `ValidateTrx` accepts only proposals that pass the checks on the payload. -/
theorem validateTrx_proposal {ls ls' : Stores} (proposes : ctx.tx.payload = .proposal payload)
    (accepted : exec (validateTrx json ctx) ls = (.ok (), ls')) :
    checkProposal json ctx payload = .ok () := by
  unfold validateTrx at accepted
  cases type : ctx.tx.type with
  | proposal =>
    simp only [type, validateProposal] at accepted
    obtain ⟨-, accepted⟩ := run_ensure_ok accepted
    obtain ⟨-, accepted⟩ := run_ensure_ok accepted
    simp only [proposes] at accepted
    have accepted := LedgerProg.run_get_ok accepted
    cases found : (ls .proposals).get (toLedgerKey ctx.txHash) with
    | ok prop =>
      rw [found] at accepted
      cases accepted
    | error e =>
      rw [found] at accepted
      obtain ⟨-, accepted⟩ := run_ensure_ok accepted
      exact ofExcept_ok accepted
  | voting =>
    simp only [type, validateVoting] at accepted
    obtain ⟨-, accepted⟩ := run_ensure_ok accepted
    simp only [proposes] at accepted
    cases accepted
  | _ =>
    simp only [type] at accepted
    cases accepted

/-- What `ValidateTrx` has checked, where it accepts a proposal. -/
theorem validateTrx_checked {ls ls' : Stores} (proposes : ctx.tx.payload = .proposal payload)
    (accepted : exec (validateTrx json ctx) ls = (.ok (), ls')) : Checked ctx payload :=
  checkProposal_ok (validateTrx_proposal proposes accepted)

/-- The schedule of a proposal, over the integers: voting starts after the block, ends when the
voting period is over, and the outcome is applied no sooner than the parameters allow. -/
structure Scheduled (ctx : TrxContext) (payload : TrxPayloadProposal) (prop : GovProposal) :
    Prop where
  future : ctx.height < prop.startVotingHeight
  ordered : prop.startVotingHeight ≤ prop.endVotingHeight
  ends : prop.endVotingHeight = payload.startVotingHeight + payload.votingPeriodBlocks
  small : prop.endVotingHeight < 2 ^ 63
  shortest : ctx.params.minVotingPeriodBlocks ≤ payload.votingPeriodBlocks
  longest : payload.votingPeriodBlocks ≤ ctx.params.maxVotingPeriodBlocks
  applied : prop.endVotingHeight + ctx.params.lazyApplyingBlocks ≤ prop.applyingHeight

/-- A sum of int64 numbers that is not negative wraps around to a smaller one, if at all. -/
theorem i64_add_of_le {x y : Int} (range : IsInt64 x) (range' : IsInt64 y) (nonneg : 0 ≤ y)
    (le : x ≤ i64 (x + y)) : i64 (x + y) = x + y ∧ x + y < 2 ^ 63 := by
  have small : x + y < 2 ^ 63 := by
    by_contra large
    have wrapped := i64_le_sub (not_lt.mp large)
    have := range'.2
    omega
  exact ⟨i64_of_range (by have := range.1; omega) small, small⟩

/-- An accepted proposal has its schedule exactly if the height from which on its outcome may be
applied is an int64. -/
theorem validateTrx_scheduled_iff {ls ls' : Stores} (proposes : ctx.tx.payload = .proposal payload)
    (start : IsInt64 payload.startVotingHeight) (period : IsInt64 payload.votingPeriodBlocks)
    (applying : IsInt64 payload.applyingHeight) (shortest : 0 ≤ ctx.params.minVotingPeriodBlocks)
    (lazy : 0 ≤ ctx.params.lazyApplyingBlocks)
    (accepted : exec (validateTrx json ctx) ls = (.ok (), ls')) :
    Scheduled ctx payload (GovProposal.proposed ctx.txHash payload ctx.validators) ↔
      payload.startVotingHeight + payload.votingPeriodBlocks + ctx.params.lazyApplyingBlocks <
        2 ^ 63 := by
  have checked := validateTrx_checked proposes accepted
  obtain ⟨ends, small⟩ := i64_add_of_le start period (shortest.trans checked.shortest) checked.ends
  have applied := checked.applied
  have lazily := checked.lazily
  have earliest := checked.ends
  rw [ends] at applied lazily earliest
  constructor
  · intro scheduled
    have late := scheduled.applied
    rw [scheduled.ends] at late
    exact late.trans_lt applying.2
  · intro fits
    rw [i64_of_range (by have := start.1; omega) fits] at lazily
    have stored : (GovProposal.proposed ctx.txHash payload ctx.validators).endVotingHeight =
        payload.startVotingHeight + payload.votingPeriodBlocks := ends
    refine ⟨checked.future, ?_, stored, ?_, checked.shortest, checked.longest, ?_⟩ <;> rw [stored]
    · exact earliest
    · exact small
    · exact lazily

/-- Voting starts at some height and lasts for as long as the default parameters ask for. -/
def votingFrom (start applying : Int) : TrxPayloadProposal :=
  { GovProposal.proposing [[1]] with
    startVotingHeight := start
    votingPeriodBlocks := GovParams.defaultGovParams.minVotingPeriodBlocks
    applyingHeight := applying }

/-- A validator makes a proposal in the first block. -/
def firstTrx (payload : TrxPayloadProposal) : TrxContext where
  height := 1
  txHash := List.replicate 32 1
  tx :=
    { version := 1
      time := 0
      nonce := 0
      fromAddr := [0]
      toAddr := zeroAddress
      amount := 0
      gas := 4000
      gasPrice := GovParams.defaultGovParams.gasPrice
      type := .proposal
      payload := .proposal payload
      sig := [] }
  exec := true
  chainID := "rigo"
  params := GovParams.defaultGovParams
  validators := GovProposal.validatorsOf [1]

/-- Options are not read as parameters. -/
def noParams : ParamsJSON where
  unmarshal _ := .error "unexpected end of JSON input"
  fromDecimal _ := .error "invalid decimal string"

theorem validateTrx_scheduled_first :
    Scheduled (firstTrx (votingFrom 10 (10 + 2 * 259200))) (votingFrom 10 (10 + 2 * 259200))
      (GovProposal.proposed (List.replicate 32 1) (votingFrom 10 (10 + 2 * 259200))
        (GovProposal.validatorsOf [1])) := by
  have own : (firstTrx (votingFrom 10 (10 + 2 * 259200))).tx.payload =
      .proposal (votingFrom 10 (10 + 2 * 259200)) := rfl
  obtain ⟨_, accepted⟩ : ∃ value, exec (validateTrx noParams
      (firstTrx (votingFrom 10 (10 + 2 * 259200)))) (fun _ => Store.new Tree.empty) =
        (.ok value, _) := Foundation.exists_eq_ok (by decide +kernel)
  exact (validateTrx_scheduled_iff own (by decide) (by decide) (by decide) (by decide) (by decide)
    accepted).mpr (by decide)

/-- Voting ends at the last height there is; the outcome is applied then too, without the blocks
that the parameters ask to wait for. -/
theorem validateTrx_scheduled_wraps :
    (∃ ls, exec (validateTrx noParams (firstTrx (votingFrom (2 ^ 63 - 1 - 259200) (2 ^ 63 - 1))))
        (fun _ => Store.new Tree.empty) = (.ok (), ls)) ∧
      ¬ Scheduled (firstTrx (votingFrom (2 ^ 63 - 1 - 259200) (2 ^ 63 - 1)))
        (votingFrom (2 ^ 63 - 1 - 259200) (2 ^ 63 - 1))
        (GovProposal.proposed (List.replicate 32 1) (votingFrom (2 ^ 63 - 1 - 259200) (2 ^ 63 - 1))
          (GovProposal.validatorsOf [1])) := by
  obtain ⟨_, accepted⟩ : ∃ value, exec (validateTrx noParams
      (firstTrx (votingFrom (2 ^ 63 - 1 - 259200) (2 ^ 63 - 1)))) (fun _ => Store.new Tree.empty) =
        (.ok value, _) := Foundation.exists_eq_ok (by decide +kernel)
  refine ⟨⟨_, accepted⟩, fun scheduled => ?_⟩
  exact absurd scheduled.applied (by decide +kernel)

end GovCtrler

end Rigo
