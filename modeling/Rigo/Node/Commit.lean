import Rigo.Node.Calls

/-!
# What a commit does

`committed` is the node that a successful `Commit` leaves, and `commit_ok` says so: every
ledger is committed, the parameters decided in the block come into force, and the
databases record the block.
-/

namespace Rigo

open Foundation

namespace RigoApp

variable {X : External} {s : Node X.evm}

/-- The root hash of a ledger after a commit. -/
def hashOf (X : External) (s : Node X.evm) (l : LedgerId) : HexBytes :=
  X.rootHash l (s.ledgers l).commit.tree.log

/-- The version of a ledger after a commit. -/
def versionOf {E : EvmLib} (s : Node E) (l : LedgerId) : Int := (s.ledgers l).commit.tree.version

/-- The hash of the rewards that counts after a commit. -/
def rewardHash (X : External) (s : Node X.evm) : HexBytes :=
  if (versionOf s .delegatees).tmod rwdLedgUpInterval = 0 then hashOf X s .rewards
  else s.mem.lastRwdHash

/-- The application hash of a commit. -/
def appHashOf (X : External) (s : Node X.evm) (state : X.evm.State) : HexBytes :=
  X.defaultHash [X.defaultHash [hashOf X s .params, hashOf X s .proposals,
      hashOf X s .frozenProposals], hashOf X s .accounts,
    X.defaultHash [hashOf X s .delegatees, hashOf X s .frozenStakes, rewardHash X s],
    X.evm.commit state]

/-- The node after a successful commit. -/
def committed (X : External) (s : Node X.evm) (bctx : BlockContext) (state : X.evm.State) :
    Node X.evm where
  ledgers l := (s.ledgers l).commit
  limiter := s.limiter
  evm := { s.evm with
    stateDB := some (X.evm.new (X.evm.commit state))
    lastRootHash := X.evm.commit state
    lastBlockHeight := i64 (s.evm.lastBlockHeight + 1) }
  mem := { s.mem with
    lastBlockCtx := some { bctx with appHash := appHashOf X s state }
    nextBlockCtx := none
    govParams := s.mem.newGovParams.getD s.mem.govParams
    newGovParams := none
    lastRwdHash := rewardHash X s }
  disk := { s.disk with
    rewardHash := if (versionOf s .delegatees).tmod rwdLedgUpInterval = 0 then hashOf X s .rewards
      else s.disk.rewardHash
    evmHeight := i64 (s.evm.lastBlockHeight + 1)
    evmRoot := Function.update s.disk.evmRoot (i64 (s.evm.lastBlockHeight + 1))
      (X.evm.commit state)
    lastBlockContext := some { bctx with appHash := appHashOf X s state, valUpdates := [] }
    lastBlockHeight := versionOf s .params }

/-- The node with some of its ledgers committed. -/
def withCommitted {E : EvmLib} (s : Node E) (done : List LedgerId) : Node E :=
  { s with ledgers := fun l => if l ∈ done then (s.ledgers l).commit else s.ledgers l }

theorem run_commitLedger {done : List LedgerId} {l : LedgerId}
    (fresh : l ∉ done) :
    run (nodeHandler X storeImpl) (app (.commitLedger l)) (withCommitted s done) =
      (.ok (hashOf X s l, versionOf s l), withCommitted s (l :: done)) := by
  have here : (withCommitted s done).ledgers l = s.ledgers l := if_neg fresh
  simp only [run_app, appStep, here]
  refine Prod.ext rfl ?_
  simp only [withCommitted]
  congr 2
  funext l'
  by_cases same : l' = l
  · subst same
    simp
    rfl
  · simp [same]

/-- The ledgers of the governance controller after their commit. -/
abbrev govLedgers : List LedgerId := [.frozenProposals, .proposals, .params]

/-- The memory after the commit of the governance controller. -/
def paramsInForce (m : Mem) : Mem :=
  { m with govParams := m.newGovParams.getD m.govParams, newGovParams := none }

theorem run_commitGov (s : Node X.evm) :
    run (nodeHandler X storeImpl) (commitGov X) s =
      if versionOf s .params ≠ versionOf s .proposals ∨
          versionOf s .proposals ≠ versionOf s .frozenProposals then
        (.error (.panic (notSameVersions [versionOf s .params, versionOf s .proposals,
          versionOf s .frozenProposals])), withCommitted s govLedgers)
      else
        (.ok (X.defaultHash [hashOf X s .params, hashOf X s .proposals, hashOf X s .frozenProposals],
            versionOf s .params),
          withCommitted { s with mem := paramsInForce s.mem } govLedgers) := by
  change run (nodeHandler X storeImpl) (commitGov X) (withCommitted s []) = _
  simp only [commitGov, Prog.bind_eq, run_bind]
  rw [run_commitLedger (by simp), andThen_ok]
  simp only
  rw [run_commitLedger (by simp), andThen_ok]
  simp only
  rw [run_commitLedger (by simp), andThen_ok]
  simp only
  split
  · rfl
  · rfl

/-- The ledgers after the commit of the account controller. -/
abbrev acctLedgers : List LedgerId := .accounts :: govLedgers

/-- The ledgers after the commit of the stake controller. -/
abbrev stakeLedgers : List LedgerId := .rewards :: .frozenStakes :: .delegatees :: acctLedgers

theorem run_saveRewardHash (version : Int) (hash : HexBytes) (s : Node X.evm) :
    run (nodeHandler X storeImpl) (saveRewardHash version hash) s =
      (.ok (), if version.tmod rwdLedgUpInterval = 0 then
          { s with
            mem := { s.mem with lastRwdHash := hash }
            disk := { s.disk with rewardHash := hash } }
        else s) := by
  unfold saveRewardHash
  split
  · rfl
  · rfl

theorem run_commitStake (s : Node X.evm) :
    run (nodeHandler X storeImpl) (commitStake X) (withCommitted s acctLedgers) =
      if versionOf s .delegatees ≠ versionOf s .frozenStakes ∨
          versionOf s .frozenStakes ≠ versionOf s .rewards then
        (.error (.panic (notSameVersions [versionOf s .delegatees, versionOf s .frozenStakes,
          versionOf s .rewards])), withCommitted s stakeLedgers)
      else
        (.ok (X.defaultHash [hashOf X s .delegatees, hashOf X s .frozenStakes, rewardHash X s],
            versionOf s .delegatees),
          withCommitted { s with
            mem := { s.mem with lastRwdHash := rewardHash X s }
            disk := { s.disk with rewardHash :=
              if (versionOf s .delegatees).tmod rwdLedgUpInterval = 0 then hashOf X s .rewards
              else s.disk.rewardHash } } stakeLedgers) := by
  simp only [commitStake, Prog.bind_eq, run_bind]
  rw [run_commitLedger (by simp), andThen_ok]
  simp only
  rw [run_commitLedger (by simp), andThen_ok]
  simp only
  rw [run_commitLedger (by simp), andThen_ok]
  simp only
  split
  · rfl
  · simp only [run_bind, run_saveRewardHash, andThen_ok, run_app, appStep,
      Prog.pure_eq, run_pure, rewardHash]
    split
    · rfl
    · rfl

theorem run_commitEvm {state : X.evm.State} (started : s.evm.stateDB = some state) :
    run (nodeHandler X storeImpl) (commitEvm X) s =
      (.ok (X.evm.commit state, i64 (s.evm.lastBlockHeight + 1)),
        { s with
          evm := { s.evm with
            stateDB := some (X.evm.new (X.evm.commit state))
            lastRootHash := X.evm.commit state
            lastBlockHeight := i64 (s.evm.lastBlockHeight + 1) }
          disk := { s.disk with
            evmHeight := i64 (s.evm.lastBlockHeight + 1)
            evmRoot := Function.update s.disk.evmRoot (i64 (s.evm.lastBlockHeight + 1))
              (X.evm.commit state) } }) := by
  simp only [commitEvm, Prog.bind_eq, run_bind, run_ctrler, Ctrler.getEvm,
    run_perform, trxHandler, trxStep, andThen_ok, started, run_app, appStep,
    Option.map_some, Option.getD_some, Ctrler.setEvm, Prog.pure_eq, run_pure]

theorem run_commitEvm_none (started : s.evm.stateDB = none) :
    run (nodeHandler X storeImpl) (commitEvm X) s = (.error (.panic .nilDereference), s) := by
  simp only [commitEvm, Prog.bind_eq, run_bind, run_ctrler, Ctrler.getEvm,
    run_perform, trxHandler, trxStep, andThen_ok, started, run_crash]

/-- A commit succeeds in an open block if all versions agree, and then leaves the node
described by `committed`. -/
theorem commit_ok {s' : Node X.evm} {appHash : HexBytes}
    (ran : run (nodeHandler X storeImpl) (commit X) s = (.ok appHash, s')) :
    ∃ bctx state, s.mem.nextBlockCtx = some bctx ∧ s.evm.stateDB = some state ∧
      appHash = appHashOf X s state ∧ s' = committed X s bctx state ∧
      (∀ l, versionOf s l = versionOf s .params) ∧
      i64 (s.evm.lastBlockHeight + 1) = versionOf s .params := by
  simp only [commit, Prog.bind_eq, run_bind, run_nextBlockCtx] at ran
  cases inBlock : s.mem.nextBlockCtx with
  | none => simp [inBlock] at ran
  | some bctx =>
    simp only [inBlock, Option.elim_some, andThen_ok, run_commitGov] at ran
    split at ran
    · simp at ran
    · next govVersions =>
      simp only [andThen_ok] at ran
      rw [run_commitLedger (by simp)] at ran
      simp only [andThen_ok, run_commitStake] at ran
      split at ran
      · simp at ran
      · next stakeVersions =>
        simp only [andThen_ok] at ran
        generalize stored : withCommitted _ stakeLedgers = s₃ at ran
        have sameEvm : s₃.evm = s.evm := by rw [← stored]; rfl
        cases started : s.evm.stateDB with
        | none =>
          rw [run_commitEvm_none (by rw [sameEvm, started])] at ran
          simp at ran
        | some state =>
          rw [run_commitEvm (by rw [sameEvm, started])] at ran
          simp only [andThen_ok] at ran
          split at ran
          · simp at ran
          · next versions =>
            cases ran
            simp only [not_or, not_not] at govVersions stakeVersions versions
            obtain ⟨ver₀, ver₁⟩ := govVersions
            obtain ⟨ver₂, ver₃⟩ := stakeVersions
            obtain ⟨ver₄, ver₅, ver₆⟩ := versions
            subst stored
            refine ⟨bctx, state, rfl, rfl, rfl, ?_, ?_, ?_⟩
            · have all : (withCommitted s stakeLedgers).ledgers =
                  fun l => (s.ledgers l).commit := by
                funext l
                cases l <;> rfl
              simp only [withCommitted] at all ⊢
              rw [all]
              rfl
            · intro l
              cases l with
              | params => rfl
              | proposals => exact ver₀.symm
              | frozenProposals => exact (ver₀.trans ver₁).symm
              | accounts => exact ver₄.symm
              | delegatees => exact (ver₄.trans ver₅).symm
              | frozenStakes => exact (ver₄.trans (ver₅.trans ver₂)).symm
              | rewards => exact (ver₄.trans (ver₅.trans (ver₂.trans ver₃))).symm
            · exact (ver₄.trans (ver₅.trans ver₆)).symm

end RigoApp

end Rigo
