import Rigo.Node.LifeCycle

/-!
# The parameters after a block

`applyProposals` goes through the frozen proposals whose time has come.  An option for new
parameters names some of them and has zero for the others; `MergeGovParams` takes these from the
parameters in force.  The parameters in force do not change before `Commit`, so every option of a
block is merged with the parameters of the block before, and the last one is what `Commit` puts
into force (`Run.params_committed`).

Merging one option after the other would keep what an earlier option of the same block sets and a
later one leaves.  Both agree exactly if there is nothing of this kind, or it is what was in force
already (`Run.params_merged_iff`).
-/

namespace Rigo

open Foundation

/-! ## Merging field by field -/

namespace GovParams

/-- The fields of the parameters. -/
inductive Field where
  | version
  | maxValidatorCnt
  | minValidatorStake
  | minDelegatorStake
  | rewardPerPower
  | lazyRewardBlocks
  | lazyApplyingBlocks
  | gasPrice
  | minTrxGas
  | maxTrxGas
  | maxBlockGas
  | minVotingPeriodBlocks
  | maxVotingPeriodBlocks
  | minSelfStakeRatio
  | maxUpdatableStakeRatio
  | maxIndividualStakeRatio
  | slashRatio
  | signedBlocksWindow
  | minSignedBlocks
  deriving DecidableEq

instance : Fintype Field where
  elems := {.version, .maxValidatorCnt, .minValidatorStake, .minDelegatorStake, .rewardPerPower,
    .lazyRewardBlocks, .lazyApplyingBlocks, .gasPrice, .minTrxGas, .maxTrxGas, .maxBlockGas,
    .minVotingPeriodBlocks, .maxVotingPeriodBlocks, .minSelfStakeRatio, .maxUpdatableStakeRatio,
    .maxIndividualStakeRatio, .slashRatio, .signedBlocksWindow, .minSignedBlocks}
  complete f := by cases f <;> decide

/-- What a field holds, as a number. -/
def field (params : GovParams) : Field → Int
  | .version => params.version
  | .maxValidatorCnt => params.maxValidatorCnt
  | .minValidatorStake => params.minValidatorStake.toNat
  | .minDelegatorStake => params.minDelegatorStake.toNat
  | .rewardPerPower => params.rewardPerPower.toNat
  | .lazyRewardBlocks => params.lazyRewardBlocks
  | .lazyApplyingBlocks => params.lazyApplyingBlocks
  | .gasPrice => params.gasPrice.toNat
  | .minTrxGas => params.minTrxGas
  | .maxTrxGas => params.maxTrxGas
  | .maxBlockGas => params.maxBlockGas
  | .minVotingPeriodBlocks => params.minVotingPeriodBlocks
  | .maxVotingPeriodBlocks => params.maxVotingPeriodBlocks
  | .minSelfStakeRatio => params.minSelfStakeRatio
  | .maxUpdatableStakeRatio => params.maxUpdatableStakeRatio
  | .maxIndividualStakeRatio => params.maxIndividualStakeRatio
  | .slashRatio => params.slashRatio
  | .signedBlocksWindow => params.signedBlocksWindow
  | .minSignedBlocks => params.minSignedBlocks

/-- Parameters are what their fields hold. -/
theorem field_inj {params params' : GovParams} (same : ∀ f, params.field f = params'.field f) :
    params = params' := by
  have amount {x y : Uint256} (same : (x.toNat : Int) = y.toNat) : x = y :=
    BitVec.eq_of_toNat_eq (Int.ofNat_inj.mp same)
  cases params
  cases params'
  simp only [mk.injEq]
  exact ⟨same .version, same .maxValidatorCnt, amount (same .minValidatorStake),
    amount (same .minDelegatorStake), amount (same .rewardPerPower), same .lazyRewardBlocks,
    same .lazyApplyingBlocks, amount (same .gasPrice), Int.ofNat_inj.mp (same .minTrxGas),
    Int.ofNat_inj.mp (same .maxTrxGas), Int.ofNat_inj.mp (same .maxBlockGas),
    same .minVotingPeriodBlocks, same .maxVotingPeriodBlocks, same .minSelfStakeRatio,
    same .maxUpdatableStakeRatio, same .maxIndividualStakeRatio, same .slashRatio,
    same .signedBlocksWindow, same .minSignedBlocks⟩

/-- Merging keeps a field that the new parameters leave zero. -/
theorem field_merge (old new : GovParams) (f : Field) :
    (mergeGovParams old new).field f = if new.field f = 0 then old.field f else new.field f := by
  have amount (x y : Uint256) :
      ((orOld x y).toNat : Int) = if (y.toNat : Int) = 0 then (x.toNat : Int) else y.toNat := by
    have zero : y = 0 ↔ (y.toNat : Int) = 0 :=
      ⟨fun same => same ▸ rfl, fun same => BitVec.eq_of_toNat_eq (Int.ofNat_inj.mp same)⟩
    unfold orOld
    by_cases unset : y = 0
    · rw [if_pos unset, if_pos (zero.mp unset)]
    · rw [if_neg unset, if_neg (unset ∘ zero.mpr)]
  have gas (x y : Nat) : ((orOld x y : Nat) : Int) = if (y : Int) = 0 then (x : Int) else y := by
    unfold orOld
    by_cases unset : y = 0
    · rw [if_pos unset, if_pos (by omega)]
    · rw [if_neg unset, if_neg (by omega)]
  cases f <;> first | rfl | exact amount _ _ | exact gas _ _

/-- The last option that sets a field, if there is one. -/
def lastSetting (options : List GovParams) (f : Field) : Option GovParams :=
  (options.filter fun option => option.field f ≠ 0).getLast?

theorem lastSetting_concat (options : List GovParams) (last : GovParams) (f : Field) :
    lastSetting (options ++ [last]) f =
      if last.field f = 0 then lastSetting options f else some last := by
  unfold lastSetting
  rw [List.filter_append]
  by_cases unset : last.field f = 0
  · rw [if_pos unset, List.filter_cons_of_neg (by simpa using unset), List.filter_nil,
      List.append_nil]
  · rw [if_neg unset, List.filter_cons_of_pos (by simpa using unset), List.filter_nil,
      List.getLast?_concat]

theorem field_foldl_merge (old : GovParams) (options : List GovParams) (f : Field) :
    (options.foldl mergeGovParams old).field f =
      ((lastSetting options f).map fun option => option.field f).getD (old.field f) := by
  induction options using List.reverseRecOn with
  | nil => rfl
  | append_singleton options last ih =>
    rw [List.foldl_append, List.foldl_cons, List.foldl_nil, field_merge, lastSetting_concat, ih]
    split <;> rfl

/-- A field that the last option leaves is left by the others too, or the last of those that set
it sets it to what it is already. -/
def Settled (old : GovParams) (options : List GovParams) : Prop :=
  ∀ last ∈ options.getLast?, ∀ f : Field, last.field f = 0 →
    ∀ earlier ∈ lastSetting options f, earlier.field f = old.field f

instance (old : GovParams) (options : List GovParams) : Decidable (Settled old options) :=
  inferInstanceAs (Decidable (∀ last ∈ options.getLast?, ∀ f : Field, last.field f = 0 →
    ∀ earlier ∈ lastSetting options f, earlier.field f = old.field f))

/-- Merging the last option only is merging one after the other exactly if the others are settled. -/
theorem merge_last_iff (old : GovParams) (options : List GovParams) :
    (options.getLast?.map (mergeGovParams old)).getD old = options.foldl mergeGovParams old ↔
      Settled old options := by
  rcases List.eq_nil_or_concat' options with rfl | ⟨others, last, rfl⟩
  · exact iff_of_true rfl fun last member => by cases member
  · rw [List.getLast?_concat, Option.map_some, Option.getD_some]
    constructor
    · intro same _ member f unset earlier setting
      cases List.getLast?_concat .. ▸ member
      have here := congrArg (fun params => params.field f) same
      rw [field_merge, if_pos unset, field_foldl_merge, Option.mem_def.mp setting] at here
      exact here.symm
    · intro settled
      refine field_inj fun f => ?_
      rw [field_merge, field_foldl_merge]
      by_cases unset : last.field f = 0
      · rw [if_pos unset]
        cases setting : lastSetting (others ++ [last]) f with
        | none => rfl
        | some earlier =>
          exact (settled last (List.getLast?_concat ..) f unset earlier setting).symm
      · rw [if_neg unset, lastSetting_concat, if_neg unset]
        rfl

end GovParams

/-! ## The end of a block -/

namespace GovCtrler

/-- The parameters that a frozen proposal asks for, where its time has come. -/
def paramsOf (json : ParamsJSON) (height : Int) (prop : GovProposal) : Option GovParams :=
  if prop.applyingHeight ≤ height ∧ prop.optType = proposalGovParams then
    prop.majorOption.bind fun opt => (decodeOption json opt.option).toOption
  else none

section

variable {json : ParamsJSON} {params : GovParams} {height : Int}
  {newParams newParams' : Option GovParams} {ls ls' : Stores}

/-- A round of `applyProposals` merges with the parameters in force. -/
theorem applyProposal_params {prop : GovProposal}
    (ran : exec (applyProposal json params height newParams prop) ls = (.ok newParams', ls')) :
    newParams' = ((paramsOf json height prop).map params.mergeGovParams).or newParams := by
  unfold applyProposal at ran
  unfold paramsOf
  split at ran
  · next due =>
    obtain ⟨_, -, ran⟩ := run_ofExcept_ok (LedgerProg.run_del_ok ran)
    split at ran
    · next none =>
      cases ran
      simp [none]
    · next opt major =>
      split at ran
      · next type =>
        split at ran
        · cases ran
        · next new decoded =>
          cases ran
          rw [if_pos ⟨due, type⟩, major, Option.bind_some, decoded]
          rfl
      · next type =>
        cases ran
        rw [if_neg fun asked => type asked.2]
        rfl
  · next early =>
    cases ran
    rw [if_neg fun asked => early asked.1]
    rfl

theorem foldlM_applyProposal_params {props : List GovProposal}
    (ran : exec (props.foldlM (applyProposal json params height) newParams) ls =
      (.ok newParams', ls')) :
    newParams' = ((props.filterMap (paramsOf json height)).getLast?.map
      params.mergeGovParams).or newParams := by
  induction props generalizing newParams ls with
  | nil =>
    cases ran
    rfl
  | cons prop rest ih =>
    rw [List.foldlM_cons] at ran
    obtain ⟨newParams₁, ls₁, round, ran⟩ := run_bind_ok ran
    rw [ih ran, applyProposal_params round, List.filterMap_cons]
    cases paramsOf json height prop with
    | none => rfl
    | some new =>
      rw [List.getLast?_cons]
      cases (rest.filterMap (paramsOf json height)).getLast? <;> rfl

/-- What `EndBlock` leaves for `Commit`. -/
theorem endBlock_params {sort : OptionSort}
    (ran : exec (endBlock json sort params newParams height) ls = (.ok newParams', ls')) :
    newParams' = (((ls .frozenProposals).tree.contents.items.filterMap
      (paramsOf json height)).getLast?.map params.mergeGovParams).or newParams := by
  obtain ⟨_, ls₁, froze, ran⟩ := run_bind_ok ran
  obtain ⟨props, same, ran⟩ := run_ofExcept_ok (LedgerProg.run_readAll_ok ran)
  rw [tree_of_exec froze] at same
  cases same
  exact foldlM_applyProposal_params ran

end

end GovCtrler

/-! ## Runs -/

namespace RigoApp

variable {X : External} {s : App X.evm} {mayRestart : Bool} {genesis : Genesis}
  {steps : List (Step X.evm)}

/-- The options for new parameters that `EndBlock` applies, in the order it applies them. -/
def appliedParams (X : External) (s : Node X.evm) : List GovParams :=
  match s.mem.nextBlockCtx with
  | none => []
  | some bctx => (s.ledgers .frozenProposals).tree.contents.items.filterMap
      (GovCtrler.paramsOf X.json bctx.blockInfo.height)

/-- What is left for `Commit`: nothing before the end of a block, and after it the last of the
options applied. -/
def Pending (X : External) (phase : Phase) (steps : List (Step X.evm)) (s : Node X.evm) : Prop :=
  if phase = .ended then
    ∃ earlier step, steps = earlier ++ [step] ∧ s.mem.govParams = step.before.mem.govParams ∧
      s.mem.newGovParams =
        (appliedParams X step.before).getLast?.map step.before.mem.govParams.mergeGovParams
  else s.mem.newGovParams = none

theorem pending_endBlock {s t : Node X.evm}
    {valUpdates : List ValidatorUpdate} (pending : Pending X .delivering steps s)
    (ran : EndsBlock X s valUpdates t) :
    Pending X .ended (steps ++ [⟨s, .endBlock, .endBlock valUpdates, t⟩]) t := by
  obtain ⟨bctx, newGovParams, lastValidators, ls, ls', ls'', inBlock, governed, -, -, rfl⟩ :=
    endBlock_ok ran
  have before : s.mem.newGovParams = none := pending
  refine ⟨steps, _, rfl, rfl, ?_⟩
  simp only
  rw [GovCtrler.endBlock_params governed, before, Option.or_none, appliedParams, inBlock]

theorem Run.pending  {phase : Phase}
     (ran : Run X mayRestart genesis phase steps s) :
    Pending X phase steps (App.node s) := by
  refine ran.node_induction (I := fun phase steps s => Pending X phase steps s) ?_ ?_ ?_
    (fun valUpdates pending ran => pending_endBlock pending ran) ?_ (fun limiter pending => pending)
    ?_
  · intro s t first ran
    obtain ⟨ls, ls', ls'', -, -, -, rfl⟩ := initChain_ok ran
    cases first
    rfl
  · intro steps s t info pending ran
    obtain ⟨last, ls, ls', allDelegatees, -, -, -, -, -, -, rfl⟩ := beginBlock_ok ran
    exact pending
  · intro steps s t txbz answer pending ran
    obtain ⟨-, -, -, -, next, mem, -⟩ := deliverTx_keeps ran
    change t.mem.newGovParams = none
    rw [mem]
    exact pending
  · intro steps s t appHash pending ran
    obtain ⟨bctx, state, -, -, -, rfl, -⟩ := commit_ok ran
    rfl
  · intro steps s t u appHash allowed pending ran restarted
    unfold restartNode boot at restarted
    simp only at restarted
    split at restarted
    · cases restarted
    · cases restarted
      rfl

/-- `Commit` puts the last of the options that `EndBlock` has applied into force, merged with the
parameters of the block. -/
theorem Run.params_committed {earlier : List (Step X.evm)} {step : Step X.evm} {s' : App X.evm}
    {appHash : HexBytes}
    (ran : Run X mayRestart genesis .ended (earlier ++ [step]) s)
    (committed : run (nodeHandler X finalityImpl) (commit X) s = (.ok appHash, s')) :
    s'.mem.govParams = ((appliedParams X step.before).getLast?.map
      step.before.mem.govParams.mergeGovParams).getD step.before.mem.govParams := by
  obtain ⟨earlier', step', same, params, new⟩ := ran.pending
  obtain ⟨-, ⟨⟩⟩ := List.append_inj' same rfl
  obtain ⟨bctx, state, -, -, -, after, -⟩ := commit_ok (run_node_ok committed)
  have inForce : s'.mem.govParams = (App.node s).mem.newGovParams.getD (App.node s).mem.govParams :=
    congrArg (fun s => s.mem.govParams) after
  rw [inForce, new, params]

/-- For every block of a run: the parameters in force after `Commit` are those of the block before
with the options that were applied merged one after the other, exactly if what an option sets and
the last one leaves was in force already. -/
theorem Run.params_merged_iff {mayRestart : Bool} {genesis : Genesis}
    {earlier : List (Step X.evm)} {step : Step X.evm} {s s' : App X.evm} {appHash : HexBytes}
    (ran : Run X mayRestart genesis .ended (earlier ++ [step]) s)
    (committed : run (nodeHandler X finalityImpl) (commit X) s = (.ok appHash, s')) :
    s'.mem.govParams =
        (appliedParams X step.before).foldl GovParams.mergeGovParams step.before.mem.govParams ↔
      GovParams.Settled step.before.mem.govParams (appliedParams X step.before) := by
  rw [ran.params_committed committed]
  exact GovParams.merge_last_iff ..

/-! ### Two proposals of one block -/

/-- The texts of an option that sets the slash ratio, and of one that sets the number of
validators. -/
def slashText : GovParamsText := ⟨0, 0, "", "", "", 0, 0, "", 0, 0, 0, 0, 0, 0, 0, 0, 40, 0, 0⟩

def validatorsText : GovParamsText := ⟨0, 7, "", "", "", 0, 0, "", 0, 0, 0, 0, 0, 0, 0, 0, 0, 0, 0⟩

/-- Two proposals with these options, voted on in the blocks 4 and 5 and applied from block 5 on,
and a vote for each. -/
def twoProposals : External :=
  Concrete.external ⟨[Concrete.trx .proposal 1 0 0 0 [0], Concrete.trx .proposal 1 0 1 0 [1],
      Concrete.trx .voting 1 0 2 0 [0], Concrete.trx .voting 1 0 3 0 [1]],
    [⟨[], 4, 1, 5, proposalGovParams, [[7]]⟩, ⟨[], 4, 1, 5, proposalGovParams, [[8]]⟩],
    [⟨List.replicate 31 1 ++ [0], 0⟩, ⟨List.replicate 31 1 ++ [1], 0⟩],
    [([7], slashText), ([8], validatorsText)]⟩

def twoProposalsStarted : App twoProposals.evm :=
  (start twoProposals shortPeriods).toOption.get (by decide +kernel)

/-- The blocks until the end of block 7, in which some proposals are applied. -/
def untilApplied (proposals votes : List HexBytes) : List ConsensusCall :=
  blockOf 1 [] ++ blockOf 2 [] ++ blockOf 3 proposals ++ blockOf 4 votes ++ blockOf 5 [] ++
    blockOf 6 [] ++ [.beginBlock (Concrete.block 7)]

/-- The node before block 7 ends. -/
def beforeApplying (proposals votes : List HexBytes) : App twoProposals.evm :=
  (runCalls twoProposals finalityImpl (untilApplied proposals votes) twoProposalsStarted).2

/-- The node after block 7 was committed. -/
def afterApplying (proposals votes : List HexBytes) : App twoProposals.evm :=
  (run (nodeHandler twoProposals finalityImpl) (commit twoProposals)
    (run (nodeHandler twoProposals finalityImpl) (consensus twoProposals .endBlock)
      (beforeApplying proposals votes)).2).2

theorem run_untilApplied (proposals votes : List HexBytes)
    (allowed : Phase.idle.after (untilApplied proposals votes) = some .delivering)
    (succeeded : (stepsOf twoProposals (untilApplied proposals votes) twoProposalsStarted).length =
        (untilApplied proposals votes).length ∧
      (run (nodeHandler twoProposals finalityImpl) (consensus twoProposals .endBlock)
        (beforeApplying proposals votes)).1.isOk = true ∧
      (run (nodeHandler twoProposals finalityImpl) (commit twoProposals)
        (run (nodeHandler twoProposals finalityImpl) (consensus twoProposals .endBlock)
          (beforeApplying proposals votes)).2).1.isOk = true) :
    ∃ earlier step s appHash, step.before = App.node (beforeApplying proposals votes) ∧
      Run twoProposals false shortPeriods .ended (earlier ++ [step]) s ∧
      run (nodeHandler twoProposals finalityImpl) (commit twoProposals) s =
        (.ok appHash, afterApplying proposals votes) := by
  obtain ⟨length, ended, committed⟩ := succeeded
  have ran : Run twoProposals false shortPeriods .delivering
      ([] ++ stepsOf twoProposals (untilApplied proposals votes) twoProposalsStarted)
      (beforeApplying proposals votes) :=
    (Run.start (eq_ok_of_isSome _)).calls (untilApplied proposals votes) allowed length
  obtain ⟨response, ended⟩ := exists_eq_ok ended
  obtain ⟨appHash, committed⟩ := exists_eq_ok committed
  exact ⟨_, ⟨_, .endBlock, response, _⟩, _, appHash, rfl, .call ran rfl ended, committed⟩

/-- The first proposal is voted for, the second is not, and the option of the first is applied. -/
theorem Run.params_merged_one : ∃ earlier step s s' appHash,
    Run twoProposals false shortPeriods .ended (earlier ++ [step]) s ∧
      run (nodeHandler twoProposals finalityImpl) (commit twoProposals) s = (.ok appHash, s') ∧
      step.before.mem.govParams.slashRatio = 50 ∧ s'.mem.govParams.slashRatio = 40 ∧
      s'.mem.govParams = (appliedParams twoProposals step.before).foldl GovParams.mergeGovParams
        step.before.mem.govParams := by
  obtain ⟨earlier, step, s, appHash, before, ran, committed⟩ :=
    run_untilApplied [[0], [1]] [[2]] rfl (by decide +kernel)
  have outcome : (beforeApplying [[0], [1]] [[2]]).mem.govParams.slashRatio = 50 ∧
      (afterApplying [[0], [1]] [[2]]).mem.govParams.slashRatio = 40 ∧
      GovParams.Settled (beforeApplying [[0], [1]] [[2]]).mem.govParams
        (appliedParams twoProposals (App.node (beforeApplying [[0], [1]] [[2]]))) := by
    decide +kernel
  refine ⟨earlier, step, s, _, appHash, ran, committed, ?_, outcome.2.1,
    (Run.params_merged_iff ran committed).mpr ?_⟩
  · rw [before]
    exact outcome.1
  · rw [before]
    exact outcome.2.2

/-- Both proposals are voted for and applied in the same block.  Each sets what the other leaves,
and what the first sets is lost. -/
theorem Run.params_lost : ∃ earlier step s s' appHash,
    Run twoProposals false shortPeriods .ended (earlier ++ [step]) s ∧
      run (nodeHandler twoProposals finalityImpl) (commit twoProposals) s = (.ok appHash, s') ∧
      (appliedParams twoProposals step.before).map
        (fun option => (option.slashRatio, option.maxValidatorCnt)) = [(40, 0), (0, 7)] ∧
      s'.mem.govParams.maxValidatorCnt = 7 ∧ s'.mem.govParams.slashRatio = 50 ∧
      s'.mem.govParams ≠ (appliedParams twoProposals step.before).foldl GovParams.mergeGovParams
        step.before.mem.govParams := by
  obtain ⟨earlier, step, s, appHash, before, ran, committed⟩ :=
    run_untilApplied [[0], [1]] [[2], [3]] rfl (by decide +kernel)
  have outcome : (appliedParams twoProposals (App.node (beforeApplying [[0], [1]] [[2], [3]]))).map
        (fun option => (option.slashRatio, option.maxValidatorCnt)) = [(40, 0), (0, 7)] ∧
      (afterApplying [[0], [1]] [[2], [3]]).mem.govParams.maxValidatorCnt = 7 ∧
      (afterApplying [[0], [1]] [[2], [3]]).mem.govParams.slashRatio = 50 ∧
      (afterApplying [[0], [1]] [[2], [3]]).mem.govParams ≠
        (appliedParams twoProposals (App.node (beforeApplying [[0], [1]] [[2], [3]]))).foldl
          GovParams.mergeGovParams (beforeApplying [[0], [1]] [[2], [3]]).mem.govParams := by
    decide +kernel
  refine ⟨earlier, step, s, _, appHash, ran, committed, ?_, outcome.2.1, outcome.2.2.1, ?_⟩
  · rw [before]
    exact outcome.1
  · rw [before]
    exact outcome.2.2.2

end RigoApp

end Rigo
