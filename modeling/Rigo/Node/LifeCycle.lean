import Rigo.Node.Heights
import Rigo.Node.Proposals

/-!
# The life of a proposal

An accepted proposal goes through stages: it is accepted in a block, voted on, decided or
rejected at the end of a block, frozen, applied at the end of a block, and gone.  `Stage.after`
is that machine; it is driven by the ends of blocks and the commits.

The ledgers follow the machine: `InStage` says what is found under the key of a proposal in a
stage, among the proposals and the frozen proposals, committed and not.  `Run.lives` is the
simulation over whole runs, and `Run.lifeCycle` reads the life of a proposal off it.
-/

namespace Rigo

open Foundation
open GovCtrler

namespace RigoApp

/-! ## Stages -/

/-- The stages of a proposal.  A proposal that was decided, rejected or applied at the end of a
block stays in that stage until the commit. -/
inductive Stage where
  | accepted
  | voting
  | decided
  | rejected
  | frozen
  | applied
  | absent
  deriving DecidableEq, Repr

namespace Stage

/-- The stage after the end of a block, depending on whether an option has the majority. -/
def endBlock (table : Timetable) (height : Int) (majority : Bool) : Stage → Stage
  | voting =>
    if table.last < height then
      if majority then decided else rejected
    else voting
  | frozen => if table.applying ≤ height then applied else frozen
  | stage => stage

/-- The stage after a commit. -/
def commit : Stage → Stage
  | accepted => voting
  | decided => frozen
  | rejected => absent
  | applied => absent
  | stage => stage

/-- The proposal is found among the proposals. -/
def inProposals : Stage → Bool
  | accepted | voting => true
  | _ => false

/-- The proposal was among the proposals at the last commit. -/
def wasInProposals : Stage → Bool
  | voting | decided | rejected => true
  | _ => false

/-- The proposal is found among the frozen proposals. -/
def inFrozen : Stage → Bool
  | decided | frozen => true
  | _ => false

/-- The proposal was among the frozen proposals at the last commit. -/
def wasInFrozen : Stage → Bool
  | frozen | applied => true
  | _ => false

/-- The end of the block has changed the stage. -/
def pending : Stage → Bool
  | decided | rejected | applied => true
  | _ => false

theorem wasInProposals_commit (stage : Stage) : stage.commit.wasInProposals = stage.inProposals := by
  cases stage <;> rfl

theorem inProposals_commit (stage : Stage) : stage.commit.inProposals = stage.inProposals := by
  cases stage <;> rfl

theorem wasInFrozen_commit (stage : Stage) : stage.commit.wasInFrozen = stage.inFrozen := by
  cases stage <;> rfl

theorem inFrozen_commit (stage : Stage) : stage.commit.inFrozen = stage.inFrozen := by
  cases stage <;> rfl

theorem pending_commit (stage : Stage) : stage.commit.pending = false := by
  cases stage <;> rfl

theorem commit_ne_accepted (stage : Stage) : stage.commit ≠ accepted := by
  cases stage <;> decide

/-- A proposal is never in both ledgers. -/
theorem not_both (stage : Stage) : ¬ (stage.inProposals = true ∧ stage.inFrozen = true) := by
  cases stage <;> decide

/-- A proposal stays among the proposals until the end of a block after the voting period. -/
theorem inProposals_endBlock (table : Timetable) (height : Int) (majority : Bool) (stage : Stage) :
    (stage.endBlock table height majority).inProposals = true ↔
      stage.inProposals = true ∧ (stage = accepted ∨ ¬ table.last < height) := by
  cases stage with
  | voting =>
    by_cases closed : table.last < height
    · cases majority <;> simp [endBlock, closed, inProposals]
    · simp [endBlock, closed, inProposals]
  | frozen =>
    simp only [endBlock]
    split <;> simp [inProposals]
  | accepted | decided | rejected | applied | absent => simp [endBlock, inProposals]

theorem endBlock_eq_accepted {table : Timetable} {height : Int} {majority : Bool} {stage : Stage}
    (same : stage.endBlock table height majority = accepted) : stage = accepted := by
  cases stage with
  | voting =>
    simp only [endBlock] at same
    split at same
    · cases majority <;> cases same
    · cases same
  | frozen =>
    simp only [endBlock] at same
    split at same <;> cases same
  | accepted => rfl
  | decided | rejected | applied | absent => cases same

/-- How far a proposal has come. -/
def rank : Stage → Nat
  | accepted => 0
  | voting => 1
  | decided => 2
  | frozen => 3
  | rejected => 4
  | applied => 4
  | absent => 5

/-- A proposal that was rejected or applied is not frozen. -/
theorem rank_of_inFrozen {stage : Stage} (frozen : stage.inFrozen = true) : stage.rank < 4 := by
  cases stage with
  | decided | frozen => decide
  | accepted | voting | rejected | applied | absent => cases frozen

theorem rank_commit (stage : Stage) : stage.rank ≤ stage.commit.rank := by
  cases stage <;> decide

theorem rank_endBlock (table : Timetable) (height : Int) (majority : Bool) (stage : Stage) :
    stage.rank ≤ (stage.endBlock table height majority).rank := by
  cases stage with
  | voting =>
    simp only [endBlock]
    split
    · cases majority <;> decide
    · exact le_rfl
  | frozen =>
    simp only [endBlock]
    split
    · decide
    · exact le_rfl
  | accepted | decided | rejected | applied | absent => exact le_rfl

end Stage

/-! ## What is said of steps -/

section

variable {E : EvmLib}

/-- The height of the block that a step is in. -/
def heightOf (step : Step E) : Int := (openHeight step.before).getD 0

/-- There is an item under a key. -/
def Has (l : LedgerId) (k : LedgerKey) (s : Node E) : Prop :=
  ((s.ledgers l).lookup k).isSome = true

/-- An option of the committed proposal under a key has the majority. -/
def MajorityAt (k : LedgerKey) (s : Node E) : Prop :=
  ∃ prop ∈ (s.ledgers .proposals).tree.contents.find? k, prop.HasMajority

instance (k : LedgerKey) (s : Node E) : Decidable (MajorityAt k s) :=
  inferInstanceAs (Decidable
    (∃ prop ∈ (s.ledgers .proposals).tree.contents.find? k, GovProposal.HasMajority prop))

/-- The end of a block after the voting period. -/
def Closes (table : Timetable) (step : Step E) : Prop :=
  step.call = .endBlock ∧ table.last < heightOf step

/-- The end of a block in which `applyProposals` applies the option of the committed frozen
proposal under a key. -/
def Applies (k : LedgerKey) (step : Step E) : Prop :=
  step.call = .endBlock ∧ ∃ prop opt,
    (step.before.ledgers .frozenProposals).tree.contents.find? k = some prop ∧
    prop.applyingHeight ≤ heightOf step ∧ prop.majorOption = some opt

/-- The stage after a step. -/
def Stage.after (k : LedgerKey) (table : Timetable) (stage : Stage) (step : Step E) :
    Stage :=
  match step.call with
  | .endBlock => stage.endBlock table (heightOf step) (decide (MajorityAt k step.before))
  | .commit => stage.commit
  | _ => stage

/-- The stage of a proposal after the steps since it was accepted. -/
def stageAfter (k : LedgerKey) (table : Timetable) (later : List (Step E)) : Stage :=
  later.foldl (Stage.after k table) .accepted

theorem stageAfter_append (k : LedgerKey) (table : Timetable) (later : List (Step E))
    (step : Step E) :
    stageAfter k table (later ++ [step]) = (stageAfter k table later).after k table step := by
  rw [stageAfter, List.foldl_append]
  rfl

end

/-- The keys of the delivered transactions. -/
def deliveredKeys (X : External) (steps : List (Step X.evm)) : List LedgerKey :=
  steps.filterMap fun step =>
    match step.call with
    | .deliverTx txbz => some (toLedgerKey (X.trx.txHash txbz))
    | _ => none

/-- The proposal that a step has accepted: its key and its timetable. -/
def acceptedProposal (X : External) (step : Step X.evm) : Option (LedgerKey × Timetable) :=
  match step.call, executedTrx X step with
  | .deliverTx txbz, some tx =>
    match tx.type, tx.payload with
    | .proposal, .proposal payload =>
      some (toLedgerKey (X.trx.txHash txbz), ⟨payload.startVotingHeight,
        i64 (payload.startVotingHeight + payload.votingPeriodBlocks), payload.applyingHeight⟩)
    | _, _ => none
  | _, _ => none

theorem acceptedProposal_eq_some {X : External} {step : Step X.evm} {k : LedgerKey}
    {table : Timetable} (accepted : acceptedProposal X step = some (k, table)) :
    ∃ txbz answer tx payload, step.call = .deliverTx txbz ∧ step.response = .deliverTx answer ∧
      answer.code = 0 ∧ Trx.decode X.trx txbz = .ok tx ∧ tx.type = .proposal ∧
      tx.payload = .proposal payload ∧ k = toLedgerKey (X.trx.txHash txbz) ∧
      table = ⟨payload.startVotingHeight,
        i64 (payload.startVotingHeight + payload.votingPeriodBlocks), payload.applyingHeight⟩ := by
  unfold acceptedProposal at accepted
  split at accepted
  · next txbz tx call executed =>
    obtain ⟨txbz', answer, call', response, code, decoded⟩ := executedTrx_eq_some executed
    obtain ⟨⟩ := call.symm.trans call'
    split at accepted
    · next payload type proposed =>
      cases accepted
      exact ⟨txbz, answer, tx, payload, call, response, code, decoded, type, proposed, rfl, rfl⟩
    · cases accepted
  · cases accepted

/-- A vote for the proposal under a key was accepted. -/
def VotesOn (X : External) (k : LedgerKey) (step : Step X.evm) : Prop :=
  ∃ tx payload, executedTrx X step = some tx ∧ tx.type = .voting ∧
    tx.payload = .voting payload ∧ toLedgerKey payload.txHash = k

/-! ## The ledgers follow the stages -/

/-- What is found under the key of a proposal in a stage. -/
structure InStage (k : LedgerKey) (table : Timetable) (stage : Stage) (ls : Stores) : Prop where
  proposals : planOf ls k = if stage.inProposals then some (table, none) else none
  proposalsTree : ((ls .proposals).tree.contents.find? k).map GovProposal.schedule =
    if stage.wasInProposals then some (table, none) else none
  frozen : ((ls .frozenProposals).lookup k).map GovProposal.timetable =
    if stage.inFrozen then some table else none
  frozenTree : ((ls .frozenProposals).tree.contents.find? k).map GovProposal.timetable =
    if stage.wasInFrozen then some table else none

section

variable {X : External} {k : LedgerKey} {table : Timetable} {stage : Stage} {s t : Node X.evm}

/-- A call that keeps the schedule, the frozen proposals and the trees. -/
theorem InStage.keep {ls ls' : Stores} (inStage : InStage k table stage ls)
    (plan : planOf ls' k = planOf ls k) (frozen : ls' .frozenProposals = ls .frozenProposals)
    (tree : (ls' .proposals).tree = (ls .proposals).tree) : InStage k table stage ls' := by
  refine ⟨plan.trans inStage.proposals, ?_, ?_, ?_⟩
  · rw [tree]
    exact inStage.proposalsTree
  · rw [frozen]
    exact inStage.frozen
  · rw [frozen]
    exact inStage.frozenTree

theorem find?_commit {T : Type} [LedgerItem T] {store : Store T} (clean : store.Clean)
    (k : LedgerKey) :
    store.commit.lookup k = store.lookup k ∧ store.commit.tree.contents.find? k = store.lookup k := by
  have viewed : store.commit.lookup k = store.lookup k := by
    rw [← Store.find?_view, Store.view_commit clean, Store.find?_view]
  exact ⟨viewed, viewed⟩

/-- After a commit the trees have what was found before it. -/
theorem InStage.commit (inStage : InStage k table stage s.ledgers)
    (committable : Committable s.ledgers) :
    InStage k table stage.commit fun l => (s.ledgers l).commit := by
  obtain ⟨proposals, proposalsTree⟩ := find?_commit committable.1 k
  obtain ⟨frozen, frozenTree⟩ := find?_commit committable.2 k
  refine ⟨?_, ?_, ?_, ?_⟩
  · rw [planOf, proposals, stage.inProposals_commit]
    exact inStage.proposals
  · rw [proposalsTree, stage.wasInProposals_commit]
    exact inStage.proposals
  · rw [frozen, stage.inFrozen_commit]
    exact inStage.frozen
  · rw [frozenTree, stage.wasInFrozen_commit]
    exact inStage.frozen

/-- The end of a block moves the proposal as the machine says. -/
theorem InStage.endBlock (inStage : InStage k table stage s.ledgers)
    (settled : stage.pending = false) (freezable : Freezable s.ledgers)
    {valUpdates : List ValidatorUpdate}
    (ran : EndsBlock X s valUpdates t) :
    InStage k table
      (stage.endBlock table ((openHeight s).getD 0) (decide (MajorityAt k s))) t.ledgers := by
  have trees := endBlock_tree ran
  obtain ⟨bctx, inBlock, -, effect⟩ := RigoApp.endBlock_found freezable ran
  have height : (openHeight s).getD 0 = bctx.blockInfo.height := by
    rw [openHeight, inBlock]
    rfl
  rw [height]
  have effect := effect k
  have unmoved (same : GovCtrler.found t.ledgers k = GovCtrler.found s.ledgers k) :
      InStage k table stage t.ledgers := by
    obtain ⟨proposals, frozen⟩ := Prod.mk.inj same
    refine ⟨?_, ?_, ?_, ?_⟩
    · rw [planOf, proposals]
      exact inStage.proposals
    · rw [trees]
      exact inStage.proposalsTree
    · rw [frozen]
      exact inStage.frozen
    · rw [trees]
      exact inStage.frozenTree
  obtain ⟨proposals, proposalsTree, frozen, frozenTree⟩ := inStage
  cases stage with
  | decided | rejected | applied => cases settled
  | accepted | absent =>
    -- nothing was committed under the key
    rw [Option.map_eq_none_iff.mp proposalsTree, Option.map_eq_none_iff.mp frozenTree] at effect
    exact unmoved effect
  | voting =>
    obtain ⟨prop, committed, schedule⟩ := Option.map_eq_some_iff.mp proposalsTree
    obtain ⟨rfl, undecided⟩ := Prod.mk.inj schedule
    rw [committed, Option.map_eq_none_iff.mp frozenTree] at effect
    have majority : MajorityAt k s ↔ prop.HasMajority := by
      simp [MajorityAt, committed]
    simp only [Stage.endBlock, GovCtrler.afterApplying, afterFreezing] at effect ⊢
    by_cases closed : prop.endVotingHeight < bctx.blockInfo.height
    · rw [if_pos closed, GovCtrler.found, GovCtrler.found, Option.map_eq_none_iff.mp frozen,
        Option.or_none] at effect
      obtain ⟨left, entered⟩ := Prod.mk.inj effect
      rw [if_pos (show prop.timetable.last < _ from closed)]
      by_cases most : prop.HasMajority
      · obtain ⟨prop', decided⟩ := Option.isSome_iff_exists.mp
          ((GovProposal.isSome_decided X.sort undecided).mpr most)
        rw [decided] at entered
        rw [if_pos (decide_eq_true (majority.mpr most))]
        refine ⟨?_, ?_, ?_, ?_⟩
        · rw [planOf, left]
          rfl
        · rw [trees]
          exact proposalsTree
        · rw [entered, Option.map_some, (GovProposal.decided_timetable decided).1]
          rfl
        · rw [trees]
          exact frozenTree
      · have rejected : prop.decided X.sort = none :=
          Option.not_isSome_iff_eq_none.mp fun decided =>
            most ((GovProposal.isSome_decided X.sort undecided).mp decided)
        rw [rejected] at entered
        rw [if_neg (by simpa [majority] using most)]
        refine ⟨?_, ?_, ?_, ?_⟩
        · rw [planOf, left]
          rfl
        · rw [trees]
          exact proposalsTree
        · rw [entered]
          rfl
        · rw [trees]
          exact frozenTree
    · rw [if_neg closed] at effect
      rw [if_neg (show ¬ prop.timetable.last < _ from closed)]
      exact unmoved effect
  | frozen =>
    obtain ⟨prop, committed, rfl⟩ := Option.map_eq_some_iff.mp frozenTree
    rw [committed, Option.map_eq_none_iff.mp proposalsTree] at effect
    simp only [Stage.endBlock, GovCtrler.afterApplying, afterFreezing] at effect ⊢
    by_cases due : prop.applyingHeight ≤ bctx.blockInfo.height
    · rw [if_pos due] at effect
      obtain ⟨kept, left⟩ := Prod.mk.inj effect
      rw [if_pos (show prop.timetable.applying ≤ _ from due)]
      refine ⟨?_, ?_, ?_, ?_⟩
      · rw [planOf, kept]
        exact proposals
      · rw [trees]
        exact proposalsTree
      · rw [left]
        rfl
      · rw [trees]
        exact frozenTree
    · rw [if_neg due] at effect
      rw [if_neg (show ¬ prop.timetable.applying ≤ _ from due)]
      exact unmoved effect

end

/-! ## Runs -/

/-- The life of an accepted proposal after some later steps. -/
structure Tracks {E : EvmLib} (phase : Phase) (k : LedgerKey) (table : Timetable)
    (later : List (Step E)) (s : Node E) : Prop where
  inStage : InStage k table (stageAfter k table later) s.ledgers
  pending : (stageAfter k table later).pending = true → phase = .ended
  early : stageAfter k table later = .accepted →
    phase ≠ .idle ∧ ∀ height ∈ openHeight s, height ≤ table.last
  opened : (stageAfter k table later).inProposals = true ↔ ∀ step ∈ later, ¬ Closes table step
  ordered : -2 ^ 63 < table.start ∧ table.start ≤ table.last ∧ table.last ≤ table.applying

/-- The lives of all proposals. -/
structure Lives (X : External) (phase : Phase) (steps : List (Step X.evm)) (s : Node X.evm) :
    Prop where
  freezable : phase ≠ .ended → (s.ledgers .proposals).removed = [] ∧
    (s.ledgers .frozenProposals).removed = []
  committable : GovCtrler.Committable s.ledgers
  unknown : ∀ k table, k ∉ deliveredKeys X steps → InStage k table .absent s.ledgers
  known : ∀ earlier step later k table, steps = earlier ++ step :: later →
    acceptedProposal X step = some (k, table) → Tracks phase k table later s

section

variable {X : External} {phase phase' : Phase} {steps later : List (Step X.evm)}
  {k : LedgerKey} {table : Timetable} {s t : Node X.evm}

theorem committable_of_removed {ls : Stores} (proposals : (ls .proposals).removed = [])
    (frozen : (ls .frozenProposals).removed = []) : Committable ls := by
  constructor <;> intro k member
  · rw [proposals] at member
    cases member
  · rw [frozen] at member
    cases member

/-- The steps that neither end nor commit a block. -/
theorem Tracks.keep (tracks : Tracks phase k table later s) {step : Step X.evm}
    (ended : step.call ≠ .endBlock) (committed : step.call ≠ .commit)
    (phases : phase ≠ .ended) (inBlock : phase' ≠ .idle)
    (height : phase ≠ .idle → openHeight t = openHeight s)
    (inStage : InStage k table (stageAfter k table later) t.ledgers) :
    Tracks phase' k table (later ++ [step]) t := by
  have same : stageAfter k table (later ++ [step]) = stageAfter k table later := by
    rw [stageAfter_append, Stage.after]
    split
    · next call => exact absurd call ended
    · next call => exact absurd call committed
    · rfl
  refine ⟨?_, ?_, ?_, ?_, tracks.ordered⟩ <;> rw [same]
  · exact inStage
  · exact fun pending => absurd (tracks.pending pending) phases
  · intro accepted
    obtain ⟨busy, early⟩ := tracks.early accepted
    rw [height busy]
    exact ⟨inBlock, early⟩
  · rw [tracks.opened]
    simp only [List.mem_append, List.mem_singleton]
    constructor
    · rintro before u (old | rfl)
      · exact before u old
      · exact fun closes => ended closes.1
    · exact fun all u old => all u (.inl old)

/-- The end of a block. -/
theorem Tracks.endBlock (tracks : Tracks .delivering k table later s)
    (freezable : Freezable s.ledgers) {valUpdates : List ValidatorUpdate}
    (ran : EndsBlock X s valUpdates t) :
    Tracks .ended k table (later ++ [⟨s, .endBlock, .endBlock valUpdates, t⟩]) t := by
  have next : stageAfter k table (later ++ [⟨s, .endBlock, .endBlock valUpdates, t⟩]) =
      (stageAfter k table later).endBlock table ((openHeight s).getD 0)
        (decide (MajorityAt k s)) := stageAfter_append ..
  have settled : (stageAfter k table later).pending = false := by
    rw [← Bool.not_eq_true]
    exact fun pending => by cases tracks.pending pending
  obtain ⟨bctx, _, _, _, _, _, inBlock, -, -, -, left⟩ := endBlock_ok ran
  have height : openHeight t = openHeight s := by
    rw [left, openHeight, openHeight, inBlock]
    rfl
  refine ⟨?_, fun _ => rfl, ?_, ?_, tracks.ordered⟩ <;> rw [next]
  · exact tracks.inStage.endBlock settled freezable ran
  · intro accepted
    obtain ⟨-, early⟩ := tracks.early (Stage.endBlock_eq_accepted accepted)
    rw [height]
    exact ⟨by decide, early⟩
  · rw [Stage.inProposals_endBlock, tracks.opened]
    simp only [List.mem_append, List.mem_singleton]
    constructor
    · rintro ⟨before, now⟩ u (old | rfl)
      · exact before u old
      · rintro ⟨-, closed⟩
        rcases now with accepted | running
        · -- the block in which a proposal is accepted is before its voting period
          have early := (tracks.early accepted).2 bctx.blockInfo.height
            (by rw [openHeight, inBlock]; rfl)
          rw [heightOf, openHeight, inBlock] at closed
          exact absurd closed (not_lt.mpr early)
        · exact running closed
    · intro all
      exact ⟨fun u old => all u (.inl old), .inr fun closed => all _ (.inr rfl) ⟨rfl, closed⟩⟩

/-- A commit. -/
theorem Tracks.commit (tracks : Tracks .ended k table later s)
    (committable : Committable s.ledgers) {appHash : HexBytes}
    (ran : Commits X s appHash t) :
    Tracks .idle k table (later ++ [⟨s, .commit, .commit appHash, t⟩]) t := by
  have next : stageAfter k table (later ++ [⟨s, .commit, .commit appHash, t⟩]) =
      (stageAfter k table later).commit := stageAfter_append ..
  obtain ⟨bctx, state, -, -, -, rfl, -, -⟩ := commit_ok ran
  refine ⟨?_, ?_, ?_, ?_, tracks.ordered⟩ <;> rw [next]
  · exact tracks.inStage.commit committable
  · rw [Stage.pending_commit]
    exact fun pending => by cases pending
  · exact fun accepted => absurd accepted (Stage.commit_ne_accepted _)
  · rw [Stage.inProposals_commit, tracks.opened]
    simp only [List.mem_append, List.mem_singleton]
    constructor
    · rintro before u (old | rfl)
      · exact before u old
      · exact fun closes => by cases closes.1
    · exact fun all u old => all u (.inl old)

/-- An accepted proposal was delivered. -/
theorem mem_deliveredKeys {step : Step X.evm}
    (accepted : acceptedProposal X step = some (k, table)) (member : step ∈ steps) :
    k ∈ deliveredKeys X steps := by
  obtain ⟨txbz, _, _, _, call, -, -, -, -, -, rfl, -⟩ := acceptedProposal_eq_some accepted
  exact List.mem_filterMap.mpr ⟨step, member, by rw [call]⟩

/-- One more step. -/
theorem Lives.extend (lives : Lives X phase steps s) {new : Step X.evm}
    (freezable : phase' ≠ .ended → (t.ledgers .proposals).removed = [] ∧
      (t.ledgers .frozenProposals).removed = [])
    (committable : Committable t.ledgers)
    (unknown : ∀ k table, k ∉ deliveredKeys X (steps ++ [new]) → InStage k table .absent s.ledgers →
      InStage k table .absent t.ledgers)
    (known : ∀ later k table, k ∈ deliveredKeys X steps → Tracks phase k table later s →
      Tracks phase' k table (later ++ [new]) t)
    (accepted : ∀ k table, acceptedProposal X new = some (k, table) → Tracks phase' k table [] t) :
    Lives X phase' (steps ++ [new]) t := by
  refine ⟨freezable, committable, fun k table fresh => ?_, ?_⟩
  · refine unknown k table fresh (lives.unknown k table fun old => fresh ?_)
    rw [deliveredKeys, List.filterMap_append]
    exact List.mem_append_left _ old
  · intro earlier step later k table same accept
    rcases List.eq_nil_or_concat later with rfl | ⟨init, last, rfl⟩
    · obtain ⟨rfl, ⟨⟩⟩ := List.append_inj' same rfl
      exact accepted k table accept
    · rw [List.concat_eq_append, ← List.cons_append, ← List.append_assoc] at same
      obtain ⟨before, ⟨⟩⟩ := List.append_inj' same rfl
      rw [List.concat_eq_append]
      refine known init k table ?_ (lives.known earlier step init k table before accept)
      exact mem_deliveredKeys accept (by rw [before]; simp)

/-- A delivered transaction may be a new proposal; the others live on. -/
theorem Lives.deliverTx (lives : Lives X .delivering steps s) {txbz : HexBytes}
    {answer : TxResponse} (heights : Heights .delivering steps s)
    (fresh : toLedgerKey (X.trx.txHash txbz) ∉ deliveredKeys X steps)
    (ran : DeliversTx X txbz s answer t) :
    Lives X .delivering (steps ++ [⟨s, .deliverTx txbz, .deliverTx answer, t⟩]) t := by
  obtain ⟨proposalsRemoved, frozenRemoved⟩ := lives.freezable (by decide)
  obtain ⟨removed, plan, frozen⟩ := deliverTx_plan proposalsRemoved ran
  have tree := deliverTx_tree ran .proposals
  have frozenRemoved' : (t.ledgers .frozenProposals).removed = [] := by
    rw [frozen]
    exact frozenRemoved
  have height : openHeight t = openHeight s :=
    ((heights.deliverTx ran).opened).trans (by rw [heights.opened, blocks_append]; rfl)
  refine lives.extend (fun _ => ⟨removed, frozenRemoved'⟩)
    (committable_of_removed removed frozenRemoved') ?_ ?_ ?_
  · intro k table absent inStage
    refine inStage.keep (plan k ?_) frozen tree
    rintro rfl
    exact absent (by simp [deliveredKeys])
  · intro later k table old tracks
    refine tracks.keep (by simp) (by simp) (by decide) (by decide) (fun _ => height) ?_
    refine tracks.inStage.keep (plan k ?_) frozen tree
    rintro rfl
    exact fresh old
  · intro k table accepted
    obtain ⟨_, _, tx, payload, ⟨⟩, ⟨⟩, code, decoded, type, proposed, rfl, rfl⟩ :=
      acceptedProposal_eq_some accepted
    obtain ⟨bctx, tx', sender, inBlock, -, -, -⟩ := deliverTx_ok ran
    obtain ⟨stored, future, ordered, late⟩ :=
      deliverTx_proposed proposalsRemoved ran code decoded type proposed inBlock
    obtain ⟨-, absentTree, absentFrozen, absentFrozenTree⟩ := lives.unknown _
      ⟨payload.startVotingHeight, i64 (payload.startVotingHeight + payload.votingPeriodBlocks),
        payload.applyingHeight⟩ fresh
    have opened : openHeight s = some bctx.blockInfo.height := by
      rw [openHeight, inBlock]
      rfl
    have bound := heights.opened
    rw [opened, if_neg (by decide), Option.some.injEq] at bound
    have range := i64_range ((blocks steps : Int) + 1)
    refine ⟨⟨stored, ?_, ?_, ?_⟩, fun pending => (by cases pending), fun _ => ⟨by decide, ?_⟩, ?_, ?_⟩
    · rw [tree]
      exact absentTree
    · rw [frozen]
      exact absentFrozen
    · rw [frozen]
      exact absentFrozenTree
    · rw [height, opened]
      rintro _ ⟨⟩
      exact (future.trans_le ordered).le
    · exact ⟨fun _ _ member => (by cases member), fun _ => rfl⟩
    · exact ⟨by simp only; omega, ordered, late⟩

/-- A chain starts without proposals. -/
theorem initChain_proposals {genesis : Genesis} (first : firstNode X = .ok s)
    (ran : InitsChain X genesis s t) {l : LedgerId}
    (governance : l = .proposals ∨ l = .frozenProposals) : t.ledgers l = Store.new Tree.empty := by
  have other : ¬ WrittenAtGenesis l := by
    rcases governance with rfl | rfl <;> decide
  rw [initChain_frame ran other]
  cases first
  rfl

/-- In every run in which the delivered transactions have different hashes, every proposal goes
through its stages. -/
theorem Run.lives {mayRestart : Bool} {genesis : Genesis} {s : App X.evm}
    (ran : Run X mayRestart genesis phase steps s) (distinct : (deliveredKeys X steps).Nodup) :
    Lives X phase steps (App.node s) := by
  have committed {steps : List (Step X.evm)} {s t : Node X.evm} {appHash : HexBytes}
      (lives : Lives X .ended steps s)
      (ran : Commits X s appHash t) :
      Lives X .idle (steps ++ [⟨s, .commit, .commit appHash, t⟩]) t := by
    have ran' := ran
    obtain ⟨bctx, state, -, -, -, rfl, -, -⟩ := commit_ok ran'
    refine lives.extend (fun _ => ⟨rfl, rfl⟩) (committable_of_removed rfl rfl)
      (fun k table _ absent => absent.commit lives.committable)
      (fun later k table _ tracks => tracks.commit lives.committable ran) ?_
    intro k table accepted
    obtain ⟨_, _, _, _, ⟨⟩, -⟩ := acceptedProposal_eq_some accepted
  refine (ran.node_induction (I := fun phase steps s =>
    Heights phase steps s ∧ ((deliveredKeys X steps).Nodup → Lives X phase steps s))
    ?_ ?_ ?_ ?_ ?_ ?_ ?_).2 distinct
  · intro s t first ran
    refine ⟨Heights.initChain first ran, fun _ => ?_⟩
    have empty {l : LedgerId} (governance : l = .proposals ∨ l = .frozenProposals) :
        t.ledgers l = Store.new Tree.empty := initChain_proposals first ran governance
    refine ⟨fun _ => ?_, ?_, fun k table _ => ?_, ?_⟩
    · simp only [empty (.inl rfl), empty (.inr rfl)]
      exact ⟨rfl, rfl⟩
    · refine committable_of_removed ?_ ?_
      · rw [empty (.inl rfl)]
        rfl
      · rw [empty (.inr rfl)]
        rfl
    · refine ⟨?_, ?_, ?_, ?_⟩
      · rw [planOf, empty (.inl rfl)]
        rfl
      · rw [empty (.inl rfl)]
        rfl
      · rw [empty (.inr rfl)]
        rfl
      · rw [empty (.inr rfl)]
        rfl
    · intro earlier step later k table same
      simp at same
  · rintro steps s t info ⟨heights, lives⟩ ran
    refine ⟨heights.beginBlock ran, fun distinct => ?_⟩
    have lives := lives (by simpa [deliveredKeys] using distinct)
    obtain ⟨proposalsRemoved, frozenRemoved⟩ := lives.freezable (by decide)
    obtain ⟨removed, plan, frozen⟩ := beginBlock_plan proposalsRemoved ran
    have frozenRemoved' : (t.ledgers .frozenProposals).removed = [] := by
      rw [frozen]
      exact frozenRemoved
    have keep {k : LedgerKey} {table : Timetable} {stage : Stage}
        (inStage : InStage k table stage s.ledgers) : InStage k table stage t.ledgers :=
      inStage.keep (congrFun plan k) frozen (beginBlock_tree ran .proposals)
    refine lives.extend (fun _ => ⟨removed, frozenRemoved'⟩)
      (committable_of_removed removed frozenRemoved') (fun k table _ absent => keep absent) ?_ ?_
    · intro later k table _ tracks
      exact tracks.keep (by simp) (by simp) (by decide) (by decide)
        (fun busy => absurd rfl busy) (keep tracks.inStage)
    · intro k table accepted
      obtain ⟨_, _, _, _, ⟨⟩, -⟩ := acceptedProposal_eq_some accepted
  · rintro steps s t txbz answer ⟨heights, lives⟩ ran
    refine ⟨heights.deliverTx ran, fun distinct => ?_⟩
    rw [deliveredKeys, List.filterMap_append] at distinct
    obtain ⟨before, -, fresh⟩ := List.nodup_append.mp distinct
    refine (lives before).deliverTx heights (fun old => ?_) ran
    exact fresh _ old _ (by simp) rfl
  · rintro steps s t valUpdates ⟨heights, lives⟩ ran
    refine ⟨heights.endBlock ran, fun distinct => ?_⟩
    have lives := lives (by simpa [deliveredKeys] using distinct)
    have freezable : Freezable s.ledgers :=
      ⟨lives.committable.1, (lives.freezable (by decide)).2⟩
    obtain ⟨_, -, committable, -⟩ := RigoApp.endBlock_found freezable ran
    refine lives.extend (fun ended => absurd rfl ended) committable
      (fun k table _ absent => absent.endBlock rfl freezable ran)
      (fun later k table _ tracks => tracks.endBlock freezable ran) ?_
    intro k table accepted
    obtain ⟨_, _, _, _, ⟨⟩, -⟩ := acceptedProposal_eq_some accepted
  · rintro steps s t appHash ⟨heights, lives⟩ ran
    refine ⟨heights.commit ran, fun distinct => ?_⟩
    exact committed (lives (by simpa [deliveredKeys] using distinct)) ran
  · rintro phase steps s limiter ⟨heights, lives⟩
    refine ⟨⟨heights.small, heights.evm, heights.versions, heights.last, heights.opened,
      heights.evmStored, heights.stored⟩, fun distinct => ?_⟩
    have lives := lives distinct
    refine ⟨lives.freezable, lives.committable, lives.unknown, ?_⟩
    intro earlier step later k table same accepted
    have tracks := lives.known earlier step later k table same accepted
    exact ⟨tracks.inStage, tracks.pending, tracks.early, tracks.opened, tracks.ordered⟩
  · rintro steps s t u appHash - ⟨heights, lives⟩ ran restarted
    refine ⟨(heights.commit ran).restartNode ran restarted, fun distinct => ?_⟩
    have lives := committed (lives (by simpa [deliveredKeys] using distinct)) ran
    have ledgers := restartNode_ledgers ran restarted
    refine ⟨?_, ?_, ?_, ?_⟩
    · rw [ledgers]
      exact lives.freezable
    · rw [ledgers]
      exact lives.committable
    · rw [ledgers]
      exact lives.unknown
    · intro earlier step later k table same accepted
      have tracks := lives.known earlier step later k table same accepted
      exact ⟨by rw [ledgers]; exact tracks.inStage, tracks.pending,
        fun accepted => absurd rfl (tracks.early accepted).1, tracks.opened, tracks.ordered⟩

end

/-! ## The life cycle -/

section

variable {E : EvmLib} {k : LedgerKey} {table : Timetable}

theorem Stage.rank_after (stage : Stage) (step : Step E) :
    stage.rank ≤ (stage.after k table step).rank := by
  unfold Stage.after
  split
  · exact Stage.rank_endBlock ..
  · exact Stage.rank_commit stage
  · exact le_rfl

/-- A proposal does not go back. -/
theorem rank_stageAfter (k : LedgerKey) (table : Timetable) (middle rest : List (Step E)) :
    (stageAfter k table middle).rank ≤ (stageAfter k table (middle ++ rest)).rank := by
  induction rest using List.reverseRecOn with
  | nil => rw [List.append_nil]
  | append_singleton rest step ih =>
    rw [← List.append_assoc, stageAfter_append]
    exact ih.trans (Stage.rank_after _ step)

/-- A proposal is voted on after a commit. -/
theorem stageAfter_of_uncommitted {later : List (Step E)}
    (uncommitted : ∀ step ∈ later, step.call ≠ .commit) : stageAfter k table later = .accepted := by
  induction later using List.reverseRecOn with
  | nil => rfl
  | append_singleton later step ih =>
    rw [stageAfter_append, ih fun u member => uncommitted u (List.mem_append_left _ member)]
    unfold Stage.after
    split
    · rfl
    · next call => exact absurd call (uncommitted step (by simp))
    · rfl

/-- The end of the block that froze the proposal. -/
def Froze (k : LedgerKey) (table : Timetable) (later : List (Step E)) (step : Step E)
    (rest : List (Step E)) : Prop :=
  ∃ middle, later = middle ++ step :: rest ∧ step.call = .endBlock ∧
    stageAfter k table (middle ++ [step]) = .decided

/-- A proposal that is decided or frozen was frozen at the end of some block, and is committed
since then if it is frozen. -/
theorem exists_froze (later : List (Step E)) :
    (stageAfter k table later = .decided → ∃ step rest, Froze k table later step rest) ∧
      (stageAfter k table later = .frozen → ∃ step rest, Froze k table later step rest ∧
        ∃ u ∈ rest, u.call = .commit) := by
  induction later using List.reverseRecOn with
  | nil => exact ⟨fun decided => (by cases decided), fun frozen => by cases frozen⟩
  | append_singleton later last ih =>
    have extend {step : Step E} {rest : List (Step E)} (froze : Froze k table later step rest) :
        Froze k table (later ++ [last]) step (rest ++ [last]) := by
      obtain ⟨middle, rfl, call, decided⟩ := froze
      exact ⟨middle, by simp, call, decided⟩
    obtain ⟨ofDecided, ofFrozen⟩ := ih
    constructor
    · intro decided
      have decided' := decided
      rw [stageAfter_append] at decided'
      cases call : last.call with
      | endBlock =>
        by_cases before : stageAfter k table later = .decided
        · obtain ⟨step, rest, froze⟩ := ofDecided before
          exact ⟨step, _, extend froze⟩
        · exact ⟨last, [], later, rfl, call, decided⟩
      | commit =>
        simp only [Stage.after, call] at decided'
        cases stage : stageAfter k table later <;> rw [stage] at decided' <;> cases decided'
      | beginBlock info =>
        simp only [Stage.after, call] at decided'
        obtain ⟨step, rest, froze⟩ := ofDecided decided'
        exact ⟨step, _, extend froze⟩
      | deliverTx txbz =>
        simp only [Stage.after, call] at decided'
        obtain ⟨step, rest, froze⟩ := ofDecided decided'
        exact ⟨step, _, extend froze⟩
    · intro frozen
      rw [stageAfter_append] at frozen
      have still (before : stageAfter k table later = .frozen) :
          ∃ step rest, Froze k table (later ++ [last]) step rest ∧ ∃ u ∈ rest, u.call = .commit := by
        obtain ⟨step, rest, froze, u, member, committed⟩ := ofFrozen before
        exact ⟨step, _, extend froze, u, List.mem_append_left _ member, committed⟩
      cases call : last.call with
      | endBlock =>
        simp only [Stage.after, call] at frozen
        refine still ?_
        cases stage : stageAfter k table later with
        | frozen => rfl
        | voting =>
          rw [stage] at frozen
          simp only [Stage.endBlock] at frozen
          split at frozen
          · split at frozen <;> cases frozen
          · cases frozen
        | accepted | decided | rejected | applied | absent =>
          rw [stage] at frozen
          cases frozen
      | commit =>
        simp only [Stage.after, call] at frozen
        cases stage : stageAfter k table later with
        | decided =>
          obtain ⟨step, rest, froze⟩ := ofDecided stage
          exact ⟨step, _, extend froze, last, by simp, call⟩
        | frozen => exact still stage
        | accepted | voting | rejected | applied | absent =>
          rw [stage] at frozen
          cases frozen
      | beginBlock info =>
        simp only [Stage.after, call] at frozen
        exact still frozen
      | deliverTx txbz =>
        simp only [Stage.after, call] at frozen
        exact still frozen

end

/-- The life of an accepted proposal, from the steps after it was accepted. -/
structure LifeCycle (X : External) (k : LedgerKey) (table : Timetable)
    (later : List (Step X.evm)) : Prop where
  /-- At each commit the proposal is in at most one of the ledgers. -/
  exclusive : ∀ step ∈ later, step.call = .commit →
    ¬ (Has .proposals k step.after ∧ Has .frozenProposals k step.after)
  /-- Votes are accepted in the voting period only. -/
  votes : ∀ step ∈ later, VotesOn X k step →
    table.start ≤ heightOf step ∧ heightOf step ≤ table.last
  /-- The proposal is among the proposals until the first end of a block after its voting
  period, and never again. -/
  stays : ∀ middle step rest, later = middle ++ step :: rest →
    (Has .proposals k step.after ↔ ∀ u ∈ middle ++ [step], ¬ Closes table u)
  /-- At the first end of a block after its voting period, which is after its commit, the proposal
  is frozen exactly if a committed option has the majority; otherwise it is gone for good. -/
  leaves : ∀ middle step rest, later = middle ++ step :: rest → Closes table step →
    (∀ u ∈ middle, ¬ Closes table u) →
    (∃ u ∈ middle, u.call = .commit) ∧ Has .proposals k step.before ∧
      (Has .frozenProposals k step.after ↔ MajorityAt k step.before) ∧
      (¬ MajorityAt k step.before → ∀ u ∈ rest, ¬ Has .frozenProposals k u.after)
  /-- Its option is applied at most once, not before its applying height, and after the block
  that froze it. -/
  applied : ∀ middle step rest, later = middle ++ step :: rest → Applies k step →
    table.applying ≤ heightOf step ∧
      (∃ u ∈ middle, Closes table u ∧ ¬ Has .frozenProposals k u.before ∧
        Has .frozenProposals k u.after ∧ heightOf u < heightOf step) ∧
      ∀ u ∈ rest, ¬ Applies k u

section

variable {X : External} {mayRestart : Bool} {genesis : Genesis} {phase : Phase}
  {steps earlier later middle rest : List (Step X.evm)} {step u : Step X.evm} {s : App X.evm}
  {k : LedgerKey} {table : Timetable}

theorem InStage.has_proposals {stage : Stage} {t : Node X.evm}
    (inStage : InStage k table stage t.ledgers) : Has .proposals k t ↔ stage.inProposals = true := by
  have here := congrArg Option.isSome inStage.proposals
  rw [planOf, Option.isSome_map] at here
  unfold Has
  rw [here]
  cases stage.inProposals <;> simp

theorem InStage.has_frozen {stage : Stage} {t : Node X.evm}
    (inStage : InStage k table stage t.ledgers) :
    Has .frozenProposals k t ↔ stage.inFrozen = true := by
  have here := congrArg Option.isSome inStage.frozen
  rw [Option.isSome_map] at here
  unfold Has
  rw [here]
  cases stage.inFrozen <;> simp

theorem nodup_deliveredKeys {X : External} (middle rest : List (Step X.evm))
    (distinct : (deliveredKeys X (middle ++ rest)).Nodup) : (deliveredKeys X middle).Nodup := by
  rw [deliveredKeys, List.filterMap_append] at distinct
  exact (List.nodup_append.mp distinct).1

/-- The life of a proposal before a later step. -/
theorem Run.tracks_before (ran : Run X mayRestart genesis phase steps s)
    (distinct : (deliveredKeys X steps).Nodup)
    (same : steps = earlier ++ step :: (middle ++ u :: rest))
    (accepted : acceptedProposal X step = some (k, table)) :
    ∃ phase₁ phase₂ : Phase, phase₁.next u.call = some phase₂ ∧
      Tracks phase₁ k table middle u.before ∧
      Heights phase₁ (earlier ++ step :: middle) u.before := by
  have split : steps = (earlier ++ step :: middle) ++ u :: rest := by simp [same]
  obtain ⟨phase₁, s₁, phase₂, s₂, before, started, next, -, -⟩ := ran.split split
  refine ⟨phase₁, phase₂, next, ?_, ?_⟩
  · rw [started]
    exact (before.lives (nodup_deliveredKeys _ _ (split ▸ distinct))).known earlier step middle k
      table rfl accepted
  · rw [started]
    exact before.heights

/-- The life of a proposal after a later step. -/
theorem Run.tracks_after (ran : Run X mayRestart genesis phase steps s)
    (distinct : (deliveredKeys X steps).Nodup)
    (same : steps = earlier ++ step :: (middle ++ u :: rest))
    (accepted : acceptedProposal X step = some (k, table)) :
    ∃ phase', Tracks phase' k table (middle ++ [u]) u.after := by
  have split : steps = (earlier ++ step :: middle) ++ u :: rest := by simp [same]
  obtain ⟨phase', s', upTo, ended⟩ := ran.upTo split
  refine ⟨phase', ?_⟩
  rw [ended]
  refine (upTo.lives ?_).known earlier step (middle ++ [u]) k table (by simp) accepted
  refine nodup_deliveredKeys _ rest ?_
  rw [List.append_assoc, List.singleton_append, ← split]
  exact distinct

theorem Phase.of_endBlock {phase phase' : Phase} (next : phase.next .endBlock = some phase') :
    phase = .delivering := by
  cases phase <;> first | rfl | cases next

/-- The height of a block that is open. -/
theorem Heights.heightOf (heights : Heights .delivering steps u.before) :
    RigoApp.heightOf u = i64 (blocks steps + 1) := by
  rw [RigoApp.heightOf, heights.opened, if_neg (by decide), Option.getD_some]

/-- A vote that was accepted. -/
theorem Tracks.voted (tracks : Tracks phase k table middle u.before)
    (called : run (nodeHandler X storeImpl) (consensus X u.call) u.before = (.ok u.response, u.after))
    (voted : VotesOn X k u) : table.start ≤ heightOf u ∧ heightOf u ≤ table.last := by
  obtain ⟨tx, payload, executed, type, voting, rfl⟩ := voted
  obtain ⟨txbz, answer, call, response, code, decoded⟩ := executedTrx_eq_some executed
  rw [call, response] at called
  obtain ⟨_, ⟨⟩, delivered⟩ := consensus_deliverTx_ok called
  obtain ⟨bctx, _, _, inBlock, -, -, -⟩ := deliverTx_ok delivered
  obtain ⟨prop, found, started, running⟩ :=
    deliverTx_voted delivered code decoded type voting inBlock
  have height : heightOf u = bctx.blockInfo.height := by
    rw [heightOf, openHeight, inBlock]
    rfl
  have plan := tracks.inStage.proposals
  rw [planOf, found] at plan
  split at plan
  · have timetable : prop.timetable = table := (Prod.mk.inj (Option.some.inj plan)).1
    rw [height, ← timetable]
    exact ⟨started, running⟩
  · cases plan

/-- The option of a proposal is applied only if the proposal is frozen. -/
theorem Tracks.applies (tracks : Tracks .delivering k table middle u.before)
    (applies : Applies k u) :
    stageAfter k table middle = .frozen ∧ table.applying ≤ heightOf u := by
  obtain ⟨-, prop, opt, committed, due, -⟩ := applies
  have frozen := tracks.inStage.frozenTree
  rw [committed] at frozen
  split at frozen
  · next was =>
    have timetable : prop.timetable = table := Option.some.inj frozen
    refine ⟨?_, ?_⟩
    · cases stage : stageAfter k table middle with
      | frozen => rfl
      | applied =>
        have pending := tracks.pending
        rw [stage] at pending
        cases pending rfl
      | accepted | voting | decided | rejected | absent =>
        rw [stage] at was
        cases was
    · rw [← timetable]
      exact due
  · cases frozen

/-- The first end of a block after the voting period finds the proposal in its voting stage. -/
theorem Tracks.voting_of_closes (tracks : Tracks .delivering k table middle u.before)
    (heights : Heights .delivering steps u.before) (closes : Closes table u)
    (first : ∀ v ∈ middle, ¬ Closes table v) : stageAfter k table middle = .voting := by
  have opened := tracks.opened.mpr first
  cases stage : stageAfter k table middle with
  | voting => rfl
  | accepted =>
    have early := (tracks.early stage).2 _ heights.opened
    have late := closes.2
    rw [heights.heightOf] at late
    exact absurd late (not_lt.mpr early)
  | decided | frozen | rejected | applied | absent =>
    rw [stage] at opened
    cases opened

/-- The end of the block that froze a proposal. -/
theorem Tracks.froze (tracks : Tracks .delivering k table middle u.before)
    (call : u.call = .endBlock) (decided : stageAfter k table (middle ++ [u]) = .decided) :
    stageAfter k table middle = .voting ∧ Closes table u := by
  rw [stageAfter_append, Stage.after, call] at decided
  cases stage : stageAfter k table middle with
  | voting =>
    rw [stage] at decided
    simp only [Stage.endBlock] at decided
    split at decided
    · next closed => exact ⟨rfl, call, closed⟩
    · cases decided
  | decided =>
    have pending := tracks.pending
    rw [stage] at pending
    cases pending rfl
  | frozen =>
    rw [stage] at decided
    simp only [Stage.endBlock] at decided
    split at decided <;> cases decided
  | accepted | rejected | applied | absent =>
    rw [stage] at decided
    cases decided

theorem blocks_lt (earlier : List (Step X.evm)) (u : Step X.evm) {middle : List (Step X.evm)}
    {v : Step X.evm} (member : v ∈ middle) (committed : v.call = .commit) :
    blocks earlier < blocks (earlier ++ u :: middle) := by
  rw [blocks, blocks, List.countP_append]
  refine Nat.lt_add_of_pos_right (List.countP_pos_iff.mpr ⟨v, List.mem_cons_of_mem u member, ?_⟩)
  exact decide_eq_true committed

/-- Every accepted proposal has its life cycle, in every run in which the delivered transactions
have different hashes. -/
theorem Run.lifeCycle (ran : Run X mayRestart genesis phase steps s)
    (distinct : (deliveredKeys X steps).Nodup) (same : steps = earlier ++ step :: later)
    (accepted : acceptedProposal X step = some (k, table)) : LifeCycle X k table later := by
  have before (middle : List (Step X.evm)) (u : Step X.evm) (rest : List (Step X.evm))
      (split : later = middle ++ u :: rest) := ran.tracks_before distinct (split ▸ same) accepted
  have after (middle : List (Step X.evm)) (u : Step X.evm) (rest : List (Step X.evm))
      (split : later = middle ++ u :: rest) := ran.tracks_after distinct (split ▸ same) accepted
  -- the end of a block is in the phase in which no change is pending
  have ending (middle : List (Step X.evm)) (u : Step X.evm) (rest : List (Step X.evm))
      (split : later = middle ++ u :: rest) (call : u.call = .endBlock) :
      Tracks .delivering k table middle u.before ∧
        Heights .delivering (earlier ++ step :: middle) u.before := by
    obtain ⟨phase₁, phase₂, next, tracks, heights⟩ := before middle u rest split
    rw [call] at next
    obtain rfl := Phase.of_endBlock next
    exact ⟨tracks, heights⟩
  refine ⟨?_, ?_, ?_, ?_, ?_⟩
  · intro u member _ both
    obtain ⟨middle, rest, split⟩ := List.append_of_mem member
    obtain ⟨_, tracks⟩ := after middle u rest split
    rw [tracks.inStage.has_proposals, tracks.inStage.has_frozen] at both
    exact Stage.not_both _ both
  · intro u member voted
    obtain ⟨middle, rest, split⟩ := List.append_of_mem member
    obtain ⟨_, _, -, tracks, -⟩ := before middle u rest split
    have inRun : u ∈ steps := by simp [same, split]
    obtain ⟨_, _, -, called⟩ := ran.step inRun
    exact tracks.voted called voted
  · intro middle u rest split
    obtain ⟨_, tracks⟩ := after middle u rest split
    rw [tracks.inStage.has_proposals, tracks.opened]
  · intro middle u rest split closes first
    obtain ⟨tracks, heights⟩ := ending middle u rest split closes.1
    obtain ⟨_, tracks'⟩ := after middle u rest split
    have voting := tracks.voting_of_closes heights closes first
    have next : stageAfter k table (middle ++ [u]) =
        if MajorityAt k u.before then .decided else .rejected := by
      rw [stageAfter_append, voting, Stage.after, closes.1]
      simp only [Stage.endBlock, if_pos closes.2, decide_eq_true_eq]
    refine ⟨?_, ?_, ?_, ?_⟩
    · by_contra uncommitted
      push Not at uncommitted
      rw [stageAfter_of_uncommitted uncommitted] at voting
      cases voting
    · rw [tracks.inStage.has_proposals, voting]
      rfl
    · rw [tracks'.inStage.has_frozen, next]
      split <;> simp_all [Stage.inFrozen]
    · intro minority v member frozen
      obtain ⟨middle', rest', split'⟩ := List.append_of_mem member
      obtain ⟨_, tracks''⟩ := after (middle ++ u :: middle') v rest' (by rw [split, split']; simp)
      rw [if_neg minority] at next
      have rank := rank_stageAfter k table (middle ++ [u]) (middle' ++ [v])
      rw [next] at rank
      rw [tracks''.inStage.has_frozen] at frozen
      have small := Stage.rank_of_inFrozen frozen
      simp only [List.append_assoc, List.cons_append, List.nil_append] at rank small
      exact absurd (rank.trans_lt small) (by decide)
  · intro middle u rest split applies
    obtain ⟨tracks, heights⟩ := ending middle u rest split applies.1
    obtain ⟨frozen, due⟩ := tracks.applies applies
    refine ⟨due, ?_, ?_⟩
    · obtain ⟨v, rest', ⟨middle', rfl, call, decided⟩, w, member, committed⟩ :=
        (exists_froze middle).2 frozen
      have split' : later = middle' ++ v :: (rest' ++ u :: rest) := by rw [split]; simp
      obtain ⟨tracks', heights'⟩ := ending middle' v _ split' call
      obtain ⟨_, tracks''⟩ := after middle' v _ split'
      obtain ⟨voting, closes⟩ := tracks'.froze call decided
      refine ⟨v, by simp, closes, ?_, ?_, ?_⟩
      · rw [tracks'.inStage.has_frozen, voting]
        decide
      · rw [tracks''.inStage.has_frozen, decided]
        rfl
      · have more := blocks_lt (earlier ++ step :: middle') v member committed
        rw [List.append_assoc, List.cons_append] at more
        obtain ⟨start, last, applying⟩ := tracks.ordered
        rw [heights.heightOf] at due ⊢
        rw [heights'.heightOf]
        exact height_lt more heights.small
          (((start.trans_le last).trans_le applying).trans_le due)
    · intro v member again
      obtain ⟨middle', rest', split'⟩ := List.append_of_mem member
      obtain ⟨tracks', -⟩ := ending (middle ++ u :: middle') v rest' (by rw [split, split']; simp)
        again.1
      have still := (tracks'.applies again).1
      have next : stageAfter k table (middle ++ [u]) = .applied := by
        rw [stageAfter_append, frozen, Stage.after, applies.1]
        simp only [Stage.endBlock, if_pos due]
      have rank := rank_stageAfter k table (middle ++ [u]) middle'
      rw [next, List.append_assoc, List.singleton_append, still] at rank
      exact absurd rank (by decide)

end

/-! ### A proposal and a vote -/

/-- A proposal that is voted on in the blocks 4 and 5 and applied from block 5 on, and a vote. -/
def oneProposal : External :=
  Concrete.external ⟨[Concrete.trx .proposal 1 0 0 0 [0], Concrete.trx .voting 1 0 1 0 [0]],
    [⟨[], 4, 1, 5, 0, [[7]]⟩], [⟨List.replicate 31 1 ++ [0], 0⟩], []⟩

/-- A chain on which voting takes a block. -/
def shortPeriods : Genesis :=
  { Concrete.genesis [(1, 10000000)] with
    params := { GovParams.defaultGovParams with
      minVotingPeriodBlocks := 1
      lazyApplyingBlocks := 0 } }

def shortPeriodsStarted : App oneProposal.evm :=
  (start oneProposal shortPeriods).toOption.get (by decide +kernel)

/-- A block with some transactions. -/
def blockOf (height : Int) (txs : List HexBytes) : List ConsensusCall :=
  .beginBlock (Concrete.block height) :: txs.map .deliverTx ++ [.endBlock, .commit]

/-- The proposal is made in block 3, voted on in block 4, frozen in block 6 and applied in
block 7. -/
def sevenBlocks : List ConsensusCall :=
  blockOf 1 [] ++ blockOf 2 [] ++ blockOf 3 [[0]] ++ blockOf 4 [[1]] ++ blockOf 5 [] ++
    blockOf 6 [] ++ blockOf 7 []

/-- The proposal is accepted, and has its life cycle. -/
theorem Run.lifeCycle_oneProposal :
    ∃ earlier step later,
      stepsOf oneProposal sevenBlocks shortPeriodsStarted = earlier ++ step :: later ∧
      acceptedProposal oneProposal step =
        some (toLedgerKey (List.replicate 31 1 ++ [0]), ⟨4, 5, 5⟩) ∧
      LifeCycle oneProposal (toLedgerKey (List.replicate 31 1 ++ [0])) ⟨4, 5, 5⟩ later := by
  have length : (stepsOf oneProposal sevenBlocks shortPeriodsStarted).length =
      sevenBlocks.length := by decide +kernel
  have ran : Run oneProposal false shortPeriods .idle
      ([] ++ stepsOf oneProposal sevenBlocks shortPeriodsStarted) _ :=
    (Run.start (eq_ok_of_isSome _)).calls sevenBlocks rfl length
  have inside : 7 < (stepsOf oneProposal sevenBlocks shortPeriodsStarted).length := by
    rw [length]
    decide
  have split := (List.take_append_drop 7
    (stepsOf oneProposal sevenBlocks shortPeriodsStarted)).symm
  rw [List.drop_eq_getElem_cons inside] at split
  have accepted : (stepsOf oneProposal sevenBlocks shortPeriodsStarted)[7]?.bind
      (acceptedProposal oneProposal) =
        some (toLedgerKey (List.replicate 31 1 ++ [0]), ⟨4, 5, 5⟩) := by decide +kernel
  rw [List.getElem?_eq_getElem inside, Option.bind_some] at accepted
  exact ⟨_, _, _, split, accepted, Run.lifeCycle ran (by decide +kernel) split accepted⟩

end RigoApp

end Rigo
