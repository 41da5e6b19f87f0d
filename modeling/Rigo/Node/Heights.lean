import Rigo.Node.Runs

/-!
# Heights

In a run the versions of all ledgers, the height of the last block and that of the EVM are
the number of commits; the block that is open has the next height.  Heights are `int64`, and
no run gets beyond the largest one, because the versions of the trees are not.
-/

namespace Rigo

open Foundation

namespace RigoApp

variable {X : External} {genesis : Genesis} {appHash txbz : HexBytes}
  {valUpdates : List ValidatorUpdate} {n : Nat} {answer : TxResponse}

/-- The number of blocks that were committed. -/
def blocks {E : EvmLib} (steps : List (Step E)) : Nat :=
  steps.countP fun step => step.call = .commit

theorem blocks_append {E : EvmLib} (steps : List (Step E)) (step : Step E) :
    blocks (steps ++ [step]) = blocks steps + if step.call = .commit then 1 else 0 := by
  simp [blocks, List.countP_append, List.countP_cons]

/-- More blocks are more height, as long as the `int64` does not overflow. -/
theorem height_lt {m : Nat} (fewer : n < m) (small : m < 2 ^ 63)
    (positive : -2 ^ 63 < i64 ((m : Int) + 1)) : i64 ((n : Int) + 1) < i64 ((m : Int) + 1) := by
  by_cases last : m + 1 = 2 ^ 63
  · have wrapped : i64 ((m : Int) + 1) = -2 ^ 63 := by
      rw [show (m : Int) + 1 = 2 ^ 63 by omega]
      decide
    exact absurd positive (by rw [wrapped]; exact lt_irrefl _)
  · rw [i64_of_range (by omega) (by omega), i64_of_range (by omega) (by omega)]
    omega

/-- A positive height is the number of its block. -/
theorem height_eq (small : n < 2 ^ 63) (positive : 0 < i64 ((n : Int) + 1)) :
    i64 ((n : Int) + 1) = n + 1 := by
  by_cases last : n + 1 = 2 ^ 63
  · have wrapped : i64 ((n : Int) + 1) = -2 ^ 63 := by
      rw [show (n : Int) + 1 = 2 ^ 63 by omega]
      decide
    omega
  · exact i64_of_range (by omega) (by omega)

/-- The height of the block that a node is in. -/
def openHeight {E : EvmLib} (s : Node E) : Option Int :=
  s.mem.nextBlockCtx.map fun bctx => bctx.blockInfo.height

theorem openHeight_deliverTx {s t : Node X.evm} (ran : DeliversTx X txbz s answer t) :
    openHeight t = openHeight s := by
  obtain ⟨-, -, -, -, next, mem, info⟩ := deliverTx_keeps ran
  have heights := congrArg (Option.map BlockInfo.height) info
  rw [openHeight, openHeight, mem]
  simpa [Function.comp_def] using heights

theorem openHeight_endBlock {s t : Node X.evm}
    (ran : EndsBlock X s valUpdates t) :
    openHeight t = openHeight s := by
  obtain ⟨bctx, _, _, _, _, _, inBlock, -, -, -, rfl⟩ := endBlock_ok ran
  rw [openHeight, openHeight, inBlock]
  rfl

/-- The heights after some steps. -/
structure Heights {E : EvmLib} (phase : Phase) (steps : List (Step E)) (s : Node E) : Prop where
  small : blocks steps < 2 ^ 63
  evm : s.evm.lastBlockHeight = blocks steps
  versions : ∀ l, (s.ledgers l).tree.version = blocks steps
  last : s.mem.lastBlockCtx.map (fun bctx => bctx.blockInfo.height) = some (blocks steps : Int)
  opened : openHeight s = if phase = .idle then none else some (i64 (blocks steps + 1))
  evmStored : s.disk.evmHeight = blocks steps
  stored : (lastBlockCtxOf s.disk).blockInfo.height = blocks steps

theorem Heights.initChain {s t : Node X.evm} (first : firstNode X = .ok s)
    (ran : InitsChain X genesis s t) :
    Heights .idle [] t := by
  obtain ⟨ls, ls', ls'', held, accounts, staked, rfl⟩ := initChain_ok ran
  cases first
  refine ⟨Nat.two_pow_pos 63, rfl, fun l => ?_, rfl, rfl, rfl, rfl⟩
  simp only
  rw [Tree.version, tree_of_exec staked, tree_of_exec accounts, tree_of_exec held]
  cases l <;> rfl

section

variable {steps : List (Step X.evm)} {s t u : Node X.evm}

/-- A call within a block stores nothing. -/
theorem Heights.within {phase phase' : Phase} (heights : Heights phase steps s) {step : Step X.evm}
    (same : blocks (steps ++ [step]) = blocks steps) (disk : t.disk = s.disk)
    (evm : t.evm.lastBlockHeight = s.evm.lastBlockHeight)
    (tree : ∀ l, (t.ledgers l).tree = (s.ledgers l).tree)
    (last : t.mem.lastBlockCtx = s.mem.lastBlockCtx)
    (opened : openHeight t = if phase' = .idle then none else some (i64 (blocks steps + 1))) :
    Heights phase' (steps ++ [step]) t := by
  refine ⟨?_, ?_, fun l => ?_, ?_, ?_, ?_, ?_⟩ <;> rw [same]
  · exact heights.small
  · rw [evm]
    exact heights.evm
  · rw [tree]
    exact heights.versions l
  · rw [last]
    exact heights.last
  · exact opened
  · rw [disk]
    exact heights.evmStored
  · rw [disk]
    exact heights.stored

theorem Heights.beginBlock (heights : Heights .idle steps s) {info : BlockInfo}
    (ran : BeginsBlock X info s t) :
    Heights .delivering (steps ++ [⟨s, .beginBlock info, .beginBlock, t⟩]) t := by
  have tree := beginBlock_tree ran
  obtain ⟨last, ls, ls', allDelegatees, found, height, -, -, -, -, rfl⟩ := beginBlock_ok ran
  have lastHeight := heights.last
  rw [found, Option.map_some, Option.some.injEq] at lastHeight
  refine heights.within (blocks_append steps _) rfl rfl tree rfl ?_
  rw [if_neg (by decide), ← lastHeight, ← height]
  rfl

theorem Heights.deliverTx (heights : Heights .delivering steps s)
    (ran : DeliversTx X txbz s answer t) :
    Heights .delivering (steps ++ [⟨s, .deliverTx txbz, .deliverTx answer, t⟩]) t := by
  obtain ⟨-, disk, -, height, next, mem, -⟩ := deliverTx_keeps ran
  exact heights.within (blocks_append steps _) disk height (deliverTx_tree ran) (by rw [mem])
    ((openHeight_deliverTx ran).trans heights.opened)

theorem Heights.endBlock (heights : Heights .delivering steps s)
    (ran : EndsBlock X s valUpdates t) :
    Heights .ended (steps ++ [⟨s, .endBlock, .endBlock valUpdates, t⟩]) t := by
  have tree := endBlock_tree ran
  have opened := openHeight_endBlock ran
  obtain ⟨bctx, newGovParams, lastValidators, ls, ls', ls'', -, -, -, -, rfl⟩ := endBlock_ok ran
  exact heights.within (blocks_append steps _) rfl rfl tree rfl (opened.trans heights.opened)

theorem Heights.commit (heights : Heights .ended steps s)
    (ran : Commits X s appHash t) :
    Heights .idle (steps ++ [⟨s, .commit, .commit appHash, t⟩]) t := by
  have next : blocks (steps ++ [⟨s, .commit, .commit appHash, t⟩]) = blocks steps + 1 :=
    blocks_append steps _
  obtain ⟨bctx, state, inBlock, -, -, rfl, -, version⟩ := commit_ok ran
  rw [heights.evm, versionOf, Store.version_commit, heights.versions] at version
  have bound := i64_range ((blocks steps : Int) + 1)
  rw [version] at bound
  have opened := heights.opened
  rw [openHeight, inBlock, if_neg (by decide), version] at opened
  simp only [Option.map_some, Option.some.injEq] at opened
  refine ⟨?_, ?_, fun l => ?_, ?_, rfl, ?_, ?_⟩ <;> rw [next]
  · omega
  · simp only [committed, heights.evm, version, Nat.cast_add, Nat.cast_one]
  · simp only [committed, Store.version_commit, heights.versions, Nat.cast_add, Nat.cast_one]
  · simp only [committed, Option.map_some, opened, Nat.cast_add, Nat.cast_one]
  · simp only [committed, heights.evm, version, Nat.cast_add, Nat.cast_one]
  · simp only [committed, lastBlockCtxOf, Option.getD_some, opened, Nat.cast_add, Nat.cast_one]

theorem Heights.restartNode (heights : Heights .idle steps t)
    (ran : Commits X s appHash t)
    (restarted : restartNode X t = .ok u) : Heights .idle steps u := by
  have ledgers := restartNode_ledgers ran restarted
  unfold RigoApp.restartNode boot at restarted
  simp only at restarted
  split at restarted
  · cases restarted
  · cases restarted
    refine ⟨heights.small, heights.evmStored, fun l => ?_, ?_, rfl, heights.evmStored,
      heights.stored⟩
    · rw [ledgers]
      exact heights.versions l
    · exact congrArg some heights.stored

/-- The heights in every run. -/
theorem Run.heights {mayRestart : Bool} {phase : Phase} {s : App X.evm}
    (ran : Run X mayRestart genesis phase steps s) : Heights phase steps (App.node s) := by
  refine ran.node_induction (I := fun phase steps s => Heights phase steps s)
    (fun first ran => Heights.initChain first ran) (fun info heights ran => heights.beginBlock ran)
    (fun txbz answer heights ran => heights.deliverTx ran)
    (fun valUpdates heights ran => heights.endBlock ran)
    (fun appHash heights ran => heights.commit ran) ?_
    (fun appHash allowed heights ran restarted => (heights.commit ran).restartNode ran restarted)
  intro phase steps s limiter heights
  exact ⟨heights.small, heights.evm, heights.versions, heights.last, heights.opened,
    heights.evmStored, heights.stored⟩

end

end RigoApp

end Rigo
