import Rigo.Node.Delegatees

/-!
# The choices of voters

A voter's choice is an index into the options of the proposal, or negative.  A vote and a
punishment first take the votes back from the option with this index, so a choice outside of
the options would be a panic.  No such choice is ever stored (`Run.chosen`), since a vote is
checked against the options and the number of options does not change.
-/

namespace Rigo

open Foundation
open GovCtrler GovProposal TrxExecutor

namespace GovProposal

variable {F : Type → Type}

/-- The choice of every voter is one of the options, or negative. -/
def Chosen (prop : GovProposal) : Prop := ∀ voter ∈ prop.voters, voter.choice < prop.options.length

/-- The same voters and as many options. -/
def SameShape (prop prop' : GovProposal) : Prop :=
  prop'.voters = prop.voters ∧ prop'.options.length = prop.options.length

theorem SameShape.chosen {prop prop' : GovProposal} (same : prop.SameShape prop')
    (chosen : prop.Chosen) : prop'.Chosen := by
  intro voter member
  rw [same.2]
  exact chosen voter (same.1 ▸ member)

variable {choice : Int}

theorem addVotes_returns (prop : GovProposal) (low : 0 ≤ choice)
    (high : choice < prop.options.length) (power : Int) :
    ∃ prop', (prop.addVotes choice power : Prog F Fault GovProposal) = .pure prop' ∧
      prop.SameShape prop' := by
  refine ⟨_, if_pos ⟨low, high⟩, rfl, ?_⟩
  exact List.length_modify _ _ _

variable {voter : Voter}

theorem cancelVote_returns (prop : GovProposal)
    (high : voter.choice < prop.options.length) :
    ∃ prop' voter',
      (prop.cancelVote voter : Prog F Fault (GovProposal × Voter)) = .pure (prop', voter') ∧
      prop.SameShape prop' ∧ voter'.choice < prop.options.length := by
  unfold cancelVote
  split
  · next low =>
    obtain ⟨prop', added, same⟩ := prop.addVotes_returns (F := F) low high (-voter.power)
    rw [added]
    refine ⟨prop', _, rfl, same, ?_⟩
    exact lt_of_lt_of_le (by decide : (-1 : Int) < 0) (Int.natCast_nonneg _)
  · exact ⟨prop, voter, rfl, ⟨rfl, rfl⟩, high⟩

theorem doVote_returns (prop : GovProposal)
    (before : voter.choice < prop.options.length)
    (high : choice < prop.options.length) :
    ∃ prop' voter',
      (prop.doVote voter choice : Prog F Fault (GovProposal × Voter)) = .pure (prop', voter') ∧
      prop.SameShape prop' ∧ voter'.choice < prop.options.length := by
  unfold doVote
  split
  · next low =>
    obtain ⟨prop', added, same⟩ := prop.addVotes_returns (F := F) low high voter.power
    rw [added]
    exact ⟨prop', _, rfl, same, high⟩
  · exact ⟨prop, voter, rfl, ⟨rfl, rfl⟩, before⟩

variable {prop : GovProposal}

theorem Chosen.putVoter (chosen : prop.Chosen)
    (high : voter.choice < prop.options.length) : (prop.putVoter voter).Chosen := by
  intro voter' member
  obtain ⟨old, member', rfl⟩ := List.mem_map.mp member
  split
  · exact high
  · exact chosen old member'

/-- A vote for one of the options is counted, unless the sender is no voter. -/
theorem Chosen.vote (chosen : prop.Chosen) (addr : Address)
    (high : choice < prop.options.length) :
    (∃ e, (prop.vote addr choice : Prog F Fault GovProposal) = throwX e) ∨
      ∃ prop', (prop.vote addr choice : Prog F Fault GovProposal) = .pure prop' ∧
        prop'.Chosen := by
  unfold GovProposal.vote
  cases found : prop.findVoter addr with
  | none => exact .inl ⟨_, rfl⟩
  | some voter =>
    obtain ⟨prop₁, voter₁, cancelled, same₁, high₁⟩ :=
      prop.cancelVote_returns (F := F) (chosen voter (List.mem_of_find?_eq_some found))
    rw [← same₁.2] at high high₁
    obtain ⟨prop₂, voter₂, voted, same₂, high₂⟩ := prop₁.doVote_returns (F := F) high₁ high
    refine .inr ⟨prop₂.putVoter voter₂, ?_,
      (same₂.chosen (same₁.chosen chosen)).putVoter (same₂.2 ▸ high₂)⟩
    simp only [cancelled, voted, Prog.bind_eq, Prog.pure_bind, Prog.pure_eq]

theorem Chosen.voteAgain (chosen : prop.Chosen)
    (before : voter.choice < prop.options.length)
    (high : choice < prop.options.length) :
    ∃ prop', (prop.voteAgain voter choice : Prog F Fault GovProposal) = .pure prop' ∧
      prop'.Chosen := by
  unfold GovProposal.voteAgain
  split
  · exact ⟨_, rfl, fun voter' member => chosen voter' (List.mem_filter.mp member).1⟩
  · obtain ⟨prop', voter', voted, same, high'⟩ := prop.doVote_returns (F := F) before high
    refine ⟨prop'.putVoter voter', ?_, (same.chosen chosen).putVoter (same.2 ▸ high')⟩
    simp only [voted, Prog.bind_eq, Prog.pure_bind, Prog.pure_eq]

/-- A punished voter votes again for what it had chosen. -/
theorem Chosen.doPunish (chosen : prop.Chosen) (addr : Address)
    (ratio : Int) :
    (∃ e, (prop.doPunish addr ratio : Prog F Fault (Int × GovProposal)) = throwX e) ∨
      ∃ slashed prop', (prop.doPunish addr ratio : Prog F Fault (Int × GovProposal)) =
        .pure (slashed, prop') ∧ prop'.Chosen := by
  unfold GovProposal.doPunish
  cases found : prop.findVoter addr with
  | none => exact .inl ⟨_, rfl⟩
  | some voter =>
    have high := chosen voter (List.mem_of_find?_eq_some found)
    obtain ⟨prop₁, voter₁, cancelled, same₁, high₁⟩ := prop.cancelVote_returns (F := F) high
    rw [← same₁.2] at high high₁
    let slashing := slashingPower voter₁.power ratio
    have again : ({ voter₁ with power := i64 (voter₁.power - slashing) } : Voter).choice <
        prop₁.options.length := high₁
    obtain ⟨prop₂, voted, chosen₂⟩ := (same₁.chosen chosen).voteAgain (F := F) again high
    let total := i64 (prop₂.totalVotingPower - slashing)
    refine .inr ⟨slashing,
      { prop₂ with totalVotingPower := total, majorityPower := majorityOf total }, ?_, chosen₂⟩
    simp only [cancelled, Prog.bind_eq, Prog.pure_bind]
    exact congrArg (Prog.bind · _) voted

theorem chosen_newGovProposal (txHash : HexBytes)
    (optType startHeight votingBlocks totalVotingPower applyingHeight : Int)
    (validators : Validators) (options : List HexBytes) :
    (newGovProposal txHash optType startHeight votingBlocks totalVotingPower applyingHeight
      (votersOf validators).1 options).Chosen := by
  intro voter member
  obtain ⟨d, -, rfl⟩ := List.mem_map.mp member
  exact lt_of_lt_of_le (by decide : notChoice < 0) (Int.natCast_nonneg _)

end GovProposal

/-! ## The governance controller -/

namespace GovCtrler

theorem files_punishProposal (slashRatio : Int) (target : Address) (k : LedgerKey) :
    Files True .proposals Chosen (punishProposal slashRatio target k) := by
  refine (fetches_get k).bind fun answer granted => ?_
  cases answer with
  | error e => trivial
  | ok prop =>
    have chosen := granted prop rfl
    rcases chosen.doPunish (F := LedgerOp) target slashRatio with
      ⟨e, missing⟩ | ⟨slashed, prop', punished, chosen'⟩
    · simp only [missing]
      exact (files_set chosen).seq fun _ => trivial
    · simp only [punished]
      exact (files_set chosen').seq fun _ => trivial

theorem files_beginBlock (params : GovParams) (info : BlockInfo) :
    Files True .proposals Chosen (beginBlock params info) := by
  refine Obeys.forM _ trivial fun target _ => ?_
  refine (Calm.files (S := fun _ => False) (writes_readAll _) id).seq fun props => ?_
  split
  · trivial
  · exact Obeys.forM _ trivial fun k _ => (files_punishProposal _ target k).seq fun _ => trivial

/-- The end of a block sets no proposal that can be voted on. -/
theorem files_endBlock {P : GovProposal → Prop} (json : ParamsJSON) (sort : OptionSort)
    (params : GovParams) (newParams : Option GovParams) (height : Int) :
    Files True .proposals P (endBlock json sort params newParams height) := by
  refine Obeys.seq ?_ fun _ => ?_
  · refine (Calm.files (S := fun _ => False) (writes_readAll _) id).seq fun props =>
      (Calm.files (S := fun _ => False) (calm_ofExcept _) id).seq fun props => ?_
    refine Obeys.forM _ trivial fun prop _ => ?_
    unfold freezeProposal
    split
    · refine (files_del (fun _ => trivial) _).seq fun deleted => ?_
      -- what follows sets a frozen proposal only
      refine Calm.files (S := fun l => l = .frozenProposals) ?_ (by decide)
      refine (calm_ofExcept _).seq fun _ => Calm.seq ?_ fun prop' => ?_
      · unfold updateMajorOption
        split <;> trivial
      · split
        · exact writes_set (S := fun l => l = .frozenProposals) rfl _
        · trivial
    · trivial
  · exact Calm.files (S := fun l => l ≠ .proposals)
      (writes_applyProposals (by decide) (by decide) _ _ _ _) (not_not.mpr rfl)

/-- What `validateVoting` has checked. -/
theorem validateVoting_ok {ctx : TrxContext} {ls ls' : Stores}
    (ran : exec (validateVoting ctx) ls = (.ok (), ls')) :
    ∃ payload prop, ctx.tx.payload = .voting payload ∧
      (ls .proposals).lookup (toLedgerKey payload.txHash) = some prop ∧
      prop.isVoter ctx.tx.fromAddr = true ∧ payload.choice < prop.options.length ∧
      ctx.height ≤ prop.endVotingHeight ∧ prop.startVotingHeight ≤ ctx.height := by
  obtain ⟨-, ran⟩ := run_ensure_ok ran
  cases payload : ctx.tx.payload with
  | voting voting =>
    simp only [payload] at ran
    obtain ⟨prop, found, ran⟩ := run_ofExcept_ok (LedgerProg.run_get_ok ran)
    obtain ⟨voter, ran⟩ := run_ensure_ok ran
    obtain ⟨range, ran⟩ := run_ensure_ok ran
    have period := of_decide_eq_true (ensure_ok ran)
    exact ⟨voting, prop, rfl, found_eq_ok.mp found, voter, (of_decide_eq_true range).2,
      period.1, period.2⟩
  | _ =>
    simp only [payload] at ran
    cases ran

/-- A proposal and a valid vote leave the choices within the options. -/
theorem everywhere_executeTrx {ctx : TrxContext} {ls : Stores}
    (holds : Everywhere .proposals Chosen ls)
    (voting : ctx.tx.type = .voting → ∃ ls', exec (validateVoting ctx) ls = (.ok (), ls')) :
    Everywhere .proposals Chosen (exec (executeTrx ctx) ls).2 := by
  unfold executeTrx
  split
  · refine holds.exec ?_
    unfold execProposing
    split
    · exact files_set (chosen_newGovProposal _ _ _ _ _ _ _ _)
    · trivial
  · next type =>
    obtain ⟨ls', valid⟩ := voting type
    obtain ⟨payload, prop, voted, found, -, high, -⟩ := validateVoting_ok valid
    have chosen : prop.Chosen := Store.All.lookup holds found
    have read : exec (execVoting ctx) ls = exec (Prog.bind
        (prop.vote ctx.tx.fromAddr payload.choice) (LedgerProg.set .proposals)) ls := by
      simp only [execVoting, voted]
      rw [exec_bind, LedgerProg.exec_get, andThen_ok, Store.get, found]
      rfl
    rw [read]
    rcases chosen.vote (F := LedgerOp) ctx.tx.fromAddr high with
      ⟨e, missing⟩ | ⟨prop', counted, chosen'⟩
    · rw [missing]
      exact holds
    · rw [counted]
      exact holds.exec (files_set chosen')
  · exact holds

end GovCtrler

/-! ## Runs -/

namespace RigoApp

variable {X : External} {s t : Node X.evm} {mayRestart : Bool} {genesis : Genesis}

section

variable {P : GovProposal → Prop}

/-- `BeginBlock` keeps what punishments keep of every proposal. -/
theorem beginBlock_proposals {info : BlockInfo}
    (files : Files True .proposals P (GovCtrler.beginBlock s.mem.govParams info))
    (holds : Everywhere .proposals P s.ledgers)
    (ran : BeginsBlock X info s t) :
    Everywhere .proposals P t.ledgers := by
  obtain ⟨last, ls, ls', allDelegatees, -, -, -, governed, -, rewarded, rfl⟩ := beginBlock_ok ran
  have same : ls' .proposals = ls .proposals :=
    StakeCtrler.punishAndReward_frame (by decide) rewarded
  have after : Everywhere .proposals P ls := holds.of_exec files governed
  rw [Everywhere, ← same] at after
  exact after

/-- A transaction keeps what valid proposals and votes keep of every proposal. -/
theorem deliverTx_proposals {txbz : HexBytes} {answer : TxResponse}
    (executed : ∀ {ctx ls ls'}, Trx.decode X.trx txbz = .ok ctx.tx → Everywhere .proposals P ls →
      exec (GovCtrler.validateTrx X.json ctx) ls = (.ok (), ls') →
      Everywhere .proposals P (exec (executeTrx ctx) ls).2)
    (holds : Everywhere .proposals P s.ledgers)
    (ran : DeliversTx X txbz s answer t) :
    Everywhere .proposals P t.ledgers := by
  obtain ⟨bctx, tx, sender, -, decoded, -, answered⟩ := deliverTx_ok ran
  by_cases governance : tx.type = .proposal ∨ tx.type = .voting
  · have created : (Stores.withAccount s.ledgers tx.toAddr) .proposals = s.ledgers .proposals :=
      Stores.withAccount_of_ne (by decide) _ _
    have before : Everywhere .proposals P (Stores.withAccount s.ledgers tx.toAddr) := by
      rw [Everywhere, created]
      exact holds
    rw [(respond_ok answered).1]
    rcases executeSync_cases X.trx X.json (ctxOf X s bctx txbz tx)
        { s.toResources with ledgers := Stores.withAccount s.ledgers tx.toAddr } with
      ⟨fault, r, failed, kept⟩ | ⟨pubKey, r, valid, kept, sequence⟩
    · rw [failed, Everywhere, kept]
      exact before
    · have native : runTrx (ctxOf X s bctx txbz tx) pubKey =
          (Ctrler.ledger (runNative (ctxOf X s bctx txbz tx)
            (executeTrx (ctxOf X s bctx txbz tx))) : Ctrler X.evm TrxResult) := by
        unfold runTrx
        rcases governance with type | type <;> simp only [contextOf, type]
      have typed : validateByType X.json (ctxOf X s bctx txbz tx) =
          (Ctrler.ledger (GovCtrler.validateTrx X.json (ctxOf X s bctx txbz tx)) :
            Ctrler X.evm Unit) := by
        unfold validateByType
        rcases governance with type | type <;> simp only [contextOf, type]
      rw [sequence, native, run_ledger, Everywhere, kept]
      simp only
      rw [exec_runNative_frame _ _ _ (by decide)]
      obtain ⟨-, -, checked⟩ := validateTrx_ok valid
      rw [typed] at checked
      obtain ⟨ls, checked, -⟩ := run_ledger_ok checked
      exact executed decoded before checked
  · have same : t.ledgers .proposals = s.ledgers .proposals := deliverTx_frame ran decoded governance
    rw [Everywhere, same]
    exact holds

/-- `EndBlock` keeps everything of every proposal. -/
theorem endBlock_proposals {valUpdates : List ValidatorUpdate}
    (holds : Everywhere .proposals P s.ledgers)
    (ran : EndsBlock X s valUpdates t) :
    Everywhere .proposals P t.ledgers := by
  obtain ⟨bctx, newGovParams, lastValidators, ls, ls', ls'', -, governed, paid, refunded, rfl⟩ :=
    endBlock_ok ran
  have same : ls'' .proposals = ls .proposals :=
    ((StakeCtrler.writes_endBlock (S := fun l => l ≠ .proposals) (by decide) (by decide)
      _ _ _ _).frame (not_not.mpr rfl) refunded).trans
      ((AcctCtrler.writes_endBlock (S := fun l => l ≠ .proposals) (by decide) _ _).frame
        (not_not.mpr rfl) paid)
  have after : Everywhere .proposals P ls :=
    holds.of_exec (files_endBlock _ _ _ _ _) governed
  rw [Everywhere, ← same] at after
  exact after

end

/-- No voter of a stored proposal has chosen something that is not an option. -/
theorem Run.chosen {phase : Phase} {steps : List (Step X.evm)} {s : App X.evm}
    (ran : Run X mayRestart genesis phase steps s) :
    Everywhere .proposals Chosen (App.node s).ledgers := by
  refine Run.node_induction (I := fun _ _ s => Everywhere .proposals Chosen s.ledgers)
    ?_ ?_ ?_ ?_ ?_ ?_ ?_ ran
  · intro s t first started
    have same : t.ledgers .proposals = s.ledgers .proposals := initChain_frame started (by decide)
    rw [Everywhere, same]
    exact everywhere_firstNode (l := .proposals) first
  · intro steps s t info holds began
    exact beginBlock_proposals (files_beginBlock _ _) holds began
  · intro steps s t txbz answer holds delivered
    refine deliverTx_proposals (fun _ holds valid => ?_) holds delivered
    refine everywhere_executeTrx holds fun type => ?_
    simp only [GovCtrler.validateTrx, type] at valid
    exact ⟨_, valid⟩
  · intro steps s t valUpdates holds ended
    exact endBlock_proposals holds ended
  · intro steps s t appHash holds committed
    exact commit_everywhere holds committed
  · intro phase steps s limiter holds
    exact holds
  · intro steps s t u appHash _ holds committed restarted
    rw [restartNode_ledgers committed restarted]
    exact commit_everywhere holds committed

end RigoApp

end Rigo
