import Rigo.Foundation.Interruption
import Rigo.Node.Heights
import Rigo.Node.Restart

/-!
# Crashes during a commit

A commit writes the seven ledgers, every tenth time the hash of the rewards, the trie and the
meta database of the EVM, and then the last block and its height in the meta database of the
application: eleven or twelve durable writes without a common transaction.  A process that stops
after some of them (`runUpTo`) is followed by a new one, which loads what was written and is given
the blocks above the height that `Info` reports (`resume`, `Recovers`).

After the write of the last block there is nothing to do again.  Before the first write the block is
executed again; all that may go wrong then is that the new process does not know the last
validators.  After any other number of writes the new process cannot execute the block: the ledger of
parameters, which is written first, is a version ahead, so that `BeginBlock` or `Commit` panics
(`crash_recovers`).
-/

namespace Rigo

open Foundation

variable {k : Nat} {ls ls' : Stores} {lastValidators : Validators}

namespace RigoApp

/-! ## Where a commit may stop -/

section Interrupted

variable {X : External} {s t : Node X.evm}

/-- `Commit` up to the writes about the last block. -/
def commitAll (X : External) : AppProg X.evm (BlockContext × HexBytes × Int) := do
  let bctx ← nextBlockCtx
  let (appHash0, ver0) ← commitGov X
  let (appHash1, ver1) ← app (.commitLedger .accounts)
  let (appHash2, ver2) ← commitStake X
  let (appHash3, ver3) ← commitEvm X
  if ver0 ≠ ver1 ∨ ver1 ≠ ver2 ∨ ver2 ≠ ver3 then
    crash (notSameVersions [ver0, ver1, ver2, ver3])
  else
    let appHash := X.defaultHash [appHash0, appHash1, appHash2, appHash3]
    return ({ bctx with appHash := appHash }, appHash, ver0)

/-- The end of a commit: the last block and its height, in this order. -/
def commitLast (X : External) (last : BlockContext × HexBytes × Int) : AppProg X.evm HexBytes := do
  app (.putLastBlockContext { last.1 with valUpdates := [] })
  app (.putLastBlockHeight last.2.2)
  modifyMem fun m => { m with lastBlockCtx := some last.1, nextBlockCtx := none }
  return last.2.1

theorem commit_eq (X : External) : commit X = (commitAll X).bind (commitLast X) := by
  unfold commit commitAll commitLast
  simp only [Prog.bind_eq, Prog.bind_assoc]
  congr 1
  funext bctx
  congr 1
  funext gov
  congr 1
  funext acct
  congr 1
  funext stake
  congr 1
  funext evm
  split
  · rfl
  · rfl

/-- Nothing is written about the last block. -/
def leavesLast (E : EvmLib) : Contract (NodeOp E) where
  asks op :=
    match op with
    | .inr (.putLastBlockContext _) => False
    | .inr (.putLastBlockHeight _) => False
    | _ => True
  grants _ _ := True

theorem leavesLast_commitGov : Obeys (leavesLast X.evm) (fun _ => True) (commitGov X) := by
  refine Obeys.seq ⟨trivial, fun _ _ => trivial⟩ fun params => ?_
  refine Obeys.seq ⟨trivial, fun _ _ => trivial⟩ fun proposals => ?_
  refine Obeys.seq ⟨trivial, fun _ _ => trivial⟩ fun frozen => ?_
  refine (obeys_ite ..).mpr ⟨fun _ => trivial, fun _ => ?_⟩
  exact ⟨trivial, fun _ _ => ⟨trivial, fun _ _ => trivial⟩⟩

theorem leavesLast_commitStake : Obeys (leavesLast X.evm) (fun _ => True) (commitStake X) := by
  refine Obeys.seq ⟨trivial, fun _ _ => trivial⟩ fun delegatees => ?_
  refine Obeys.seq ⟨trivial, fun _ _ => trivial⟩ fun frozen => ?_
  refine Obeys.seq ⟨trivial, fun _ _ => trivial⟩ fun rewards => ?_
  refine (obeys_ite ..).mpr ⟨fun _ => trivial, fun _ => ?_⟩
  refine Obeys.seq ?_ fun _ => ⟨trivial, fun _ _ => trivial⟩
  refine (obeys_ite ..).mpr ⟨fun _ => ?_, fun _ => trivial⟩
  exact ⟨trivial, fun _ _ => ⟨trivial, fun _ _ => ⟨trivial, fun _ _ => trivial⟩⟩⟩

theorem leavesLast_commitEvm : Obeys (leavesLast X.evm) (fun _ => True) (commitEvm X) := by
  refine ⟨trivial, fun m _ => ?_⟩
  obtain ⟨_ | state, _⟩ := m
  · trivial
  · exact ⟨trivial, fun _ _ => ⟨trivial, fun _ _ => ⟨trivial, fun _ _ => trivial⟩⟩⟩

theorem leavesLast_commitAll : Obeys (leavesLast X.evm) (fun _ => True) (commitAll X) := by
  refine Obeys.seq ?_ fun bctx => ?_
  · refine ⟨trivial, fun m _ => ?_⟩
    obtain ⟨_, _ | bctx, _⟩ := m
    · trivial
    · trivial
  · refine leavesLast_commitGov.seq fun gov => ?_
    refine Obeys.seq ⟨trivial, fun _ _ => trivial⟩ fun acct => ?_
    refine leavesLast_commitStake.seq fun stake => ?_
    refine leavesLast_commitEvm.seq fun evm => ?_
    exact (obeys_ite ..).mpr ⟨fun _ => trivial, fun _ => trivial⟩

theorem leavesLast_step {last : BlockContext} {γ : Type} (op : NodeOp X.evm γ) (s : Node X.evm)
    (kept : lastBlockCtxOf s.disk = last) (asks : (leavesLast X.evm).asks op) :
    (leavesLast X.evm).grants op ((nodeHandler X storeImpl).step op s).1 ∧
      lastBlockCtxOf ((nodeHandler X storeImpl).step op s).2.disk = last := by
  refine ⟨trivial, ?_⟩
  cases op with
  | inl op => exact kept
  | inr op =>
    cases op with
    | putLastBlockContext bctx => exact asks.elim
    | putLastBlockHeight height => exact asks.elim
    | _ => exact kept

theorem performed_commit {s₁ : Node X.evm} {last : BlockContext × HexBytes × Int}
    (all : run (nodeHandler X storeImpl) (commitAll X) s = (.ok last, s₁)) :
    performed (nodeHandler X storeImpl) durable ((commitAll X).bind (commitLast X)) s =
      performed (nodeHandler X storeImpl) durable (commitAll X) s + 2 :=
  performed_bind all

variable {appHash : HexBytes}

/-- As long as the last block is not written, the one before it is found. -/
theorem lastBlock_runUpTo (ran : run (nodeHandler X storeImpl) (commit X) s = (.ok appHash, t))
    (early : k + 1 < performed (nodeHandler X storeImpl) durable (commit X) s) :
    lastBlockCtxOf (runUpTo (nodeHandler X storeImpl) durable k (commit X) s).disk =
      lastBlockCtxOf s.disk := by
  rw [commit_eq] at ran early ⊢
  obtain ⟨last, s₁, all, ended⟩ := run_bind_ok ran
  rw [performed_commit all] at early
  by_cases inside : k < performed (nodeHandler X storeImpl) durable (commitAll X) s
  · rw [runUpTo_bind_of_lt inside]
    exact Obeys.runUpTo (I := fun t : Node X.evm => lastBlockCtxOf t.disk = lastBlockCtxOf s.disk)
      (fun op t => leavesLast_step op t) leavesLast_commitAll rfl k
  · obtain rfl : k = performed (nodeHandler X storeImpl) durable (commitAll X) s := by omega
    rw [runUpTo_bind_of_le all le_rfl, Nat.sub_self]
    have kept := (leavesLast_commitAll (X := X)).run (nodeHandler X storeImpl)
      (I := fun t => lastBlockCtxOf t.disk = lastBlockCtxOf s.disk)
      (fun op t => leavesLast_step op t) rfl
    rw [all] at kept
    exact kept.2

/-- Once the last block is written, its height is all that may be missing. -/
theorem databases_runUpTo_late (ran : run (nodeHandler X storeImpl) (commit X) s = (.ok appHash, t))
    (late : performed (nodeHandler X storeImpl) durable (commit X) s ≤ k + 1) :
    let c := runUpTo (nodeHandler X storeImpl) durable k (commit X) s
    (∀ l, (c.ledgers l).tree = (t.ledgers l).tree) ∧
      c.disk = { t.disk with lastBlockHeight := c.disk.lastBlockHeight } := by
  rw [commit_eq] at ran late ⊢
  obtain ⟨last, s₁, all, ended⟩ := run_bind_ok ran
  rw [performed_commit all] at late
  rw [runUpTo_bind_of_le all (by omega)]
  cases ended
  obtain ⟨more, count⟩ : ∃ more,
      k - performed (nodeHandler X storeImpl) durable (commitAll X) s = more + 1 :=
    ⟨k - performed (nodeHandler X storeImpl) durable (commitAll X) s - 1, by omega⟩
  rw [count]
  cases more with
  | zero => exact ⟨fun _ => rfl, rfl⟩
  | succ more => exact ⟨fun _ => rfl, rfl⟩

/-- No operation takes the version of a ledger back. -/
theorem version_step {l : LedgerId} {version : Int} {γ : Type} (op : NodeOp X.evm γ) (s : Node X.evm)
    (reached : version ≤ (s.ledgers l).tree.version) :
    version ≤ (((nodeHandler X storeImpl).step op s).2.ledgers l).tree.version := by
  cases op with
  | inl op =>
    cases op with
    | inl op =>
      have kept := ledgerStep_tree op s.ledgers l
      exact reached.trans (congrArg Tree.version kept).ge
    | inr op => cases op <;> exact reached
  | inr op =>
    cases op with
    | commitLedger l' =>
      by_cases same : l = l'
      · subst same
        have next := Store.version_commit (s.ledgers l)
        simp only [nodeHandler, appStep, Function.update_self]
        exact reached.trans (by change _ ≤ (s.ledgers l).commit.tree.version; omega)
      · simp only [nodeHandler, appStep]
        rw [Function.update_of_ne same]
        exact reached
    | _ => exact reached

/-- Once something is written, the parameters are a version ahead. -/
theorem version_runUpTo (ran : Commits X s appHash t) (some' : 0 < k) :
    (s.ledgers .params).tree.version + 1 ≤
      ((runUpTo (nodeHandler X storeImpl) durable k (commit X) s).ledgers .params).tree.version := by
  obtain ⟨bctx, state, inBlock, -, -, -, -, -⟩ := commit_ok ran
  obtain ⟨k, rfl⟩ : ∃ k', k = k' + 1 := ⟨k - 1, by omega⟩
  have opened : run (nodeHandler X storeImpl) nextBlockCtx s = (.ok bctx, s) := by
    rw [run_nextBlockCtx, inBlock]
    rfl
  have silent : performed (nodeHandler X storeImpl) durable nextBlockCtx s = 0 := by
    have read : run (nodeHandler X storeImpl) (app .getMem) s = (.ok s.mem, s) := rfl
    rw [nextBlockCtx, Prog.bind_eq, performed_bind read, inBlock]
    rfl
  -- the first durable write is that of the parameters
  obtain ⟨rest, first⟩ : ∃ rest : AppProg X.evm HexBytes,
      runUpTo (nodeHandler X storeImpl) durable (k + 1) (commit X) s =
        runUpTo (nodeHandler X storeImpl) durable k rest
          ((nodeHandler X storeImpl).step (.inr (.commitLedger .params)) s).2 := by
    unfold commit
    rw [Prog.bind_eq, runUpTo_bind_of_le opened (by omega), silent]
    exact ⟨_, runUpTo_call_succ rfl _ k s⟩
  have ahead : (s.ledgers .params).tree.version + 1 ≤
      (((nodeHandler X storeImpl).step (.inr (.commitLedger .params)) s).2.ledgers
        .params).tree.version := by
    simp only [nodeHandler, appStep, Function.update_self]
    exact (Store.version_commit (s.ledgers .params)).ge
  rw [first]
  exact Obeys.runUpTo (c := ⟨fun _ => True, fun _ _ => True⟩)
    (I := fun t : Node X.evm => (s.ledgers .params).tree.version + 1 ≤ (t.ledgers .params).tree.version)
    (fun op t reached _ => ⟨trivial, version_step op t reached⟩)
    (Obeys.of_asks (fun _ => trivial) rest) ahead k

/-- Before anything is written, trees and databases are as before. -/
theorem databases_runUpTo (p : AppProg X.evm HexBytes) (s : Node X.evm) :
    let c := runUpTo (nodeHandler X storeImpl) durable 0 p s
    (∀ l, (c.ledgers l).tree = (s.ledgers l).tree) ∧ c.disk = s.disk := by
  refine runUpTo_zero (I := fun c : Node X.evm =>
    (∀ l, (c.ledgers l).tree = (s.ledgers l).tree) ∧ c.disk = s.disk) ?_ p ⟨fun _ => rfl, rfl⟩
  intro γ op c other kept
  cases op with
  | inl op =>
    cases op with
    | inl op => exact ⟨fun l => (ledgerStep_tree op c.ledgers l).trans (kept.1 l), kept.2⟩
    | inr op => cases op <;> exact kept
  | inr op =>
    cases op with
    | getMem => exact kept
    | setMem m => exact kept
    | _ => cases other

end Interrupted

/-! ## Calls that all succeed -/

section Calls

variable {X : External} {L : LedgerId → Type} {impl : LedgerImpl L}

theorem runCalls_cons_ok {call : ConsensusCall} {rest : List ConsensusCall} {s r : State L X.evm}
    {responses : List Response} :
    runCalls X impl (call :: rest) s = (responses.map .ok, r) ↔
      ∃ response s₁ later, run (nodeHandler X impl) (consensus X call) s = (.ok response, s₁) ∧
        runCalls X impl rest s₁ = (later.map .ok, r) ∧ responses = response :: later := by
  simp only [runCalls]
  cases ran : run (nodeHandler X impl) (consensus X call) s with
  | mk outcome s₁ =>
    cases outcome with
    | error fault =>
      constructor
      · intro same
        cases responses <;> cases same
      · rintro ⟨response, s₁', later, ⟨⟩, -⟩
    | ok response =>
      constructor
      · intro same
        obtain ⟨answered, ended⟩ := Prod.mk.inj same
        cases responses with
        | nil => cases answered
        | cons response' later =>
          obtain ⟨head, tail⟩ := List.cons.inj answered
          obtain rfl := Except.ok.inj head
          exact ⟨response, s₁, later, rfl, Prod.ext tail ended, rfl⟩
      · rintro ⟨response', s₁', later, ⟨⟩, after, rfl⟩
        simp only [after]
        rfl

theorem runCalls_append_ok {calls calls' : List ConsensusCall} {s r : State L X.evm}
    {responses : List Response} :
    runCalls X impl (calls ++ calls') s = (responses.map .ok, r) ↔
      ∃ s₁ earlier later, runCalls X impl calls s = (earlier.map .ok, s₁) ∧
        runCalls X impl calls' s₁ = (later.map .ok, r) ∧ responses = earlier ++ later := by
  induction calls generalizing s responses with
  | nil =>
    constructor
    · intro ran
      exact ⟨s, [], responses, rfl, ran, rfl⟩
    · rintro ⟨s₁, earlier, later, start, ran, rfl⟩
      obtain ⟨none', rfl⟩ := Prod.mk.inj start
      obtain rfl : earlier = [] := List.map_eq_nil_iff.mp none'.symm
      exact ran
  | cons call rest ih =>
    rw [List.cons_append, runCalls_cons_ok]
    constructor
    · rintro ⟨response, s₁, after, ran, succeeded, rfl⟩
      obtain ⟨s₂, earlier, later, first, second, rfl⟩ := ih.mp succeeded
      exact ⟨s₂, response :: earlier, later,
        runCalls_cons_ok.mpr ⟨response, s₁, earlier, ran, first, rfl⟩, second, rfl⟩
    · rintro ⟨s₂, earlier, later, first, second, rfl⟩
      obtain ⟨response, s₁, after, ran, succeeded, rfl⟩ := runCalls_cons_ok.mp first
      exact ⟨response, s₁, after ++ later, ran, ih.mpr ⟨s₂, after, later, succeeded, second, rfl⟩,
        rfl⟩

/-- The calls of a block before its commit. -/
def blockCalls (info : BlockInfo) (txs : List HexBytes) : List ConsensusCall :=
  .beginBlock info :: (txs.map .deliverTx ++ [.endBlock])

end Calls

/-! ## What a block leaves to its commit -/

section Blocks

variable {X : External} {info : BlockInfo} {txs : List HexBytes} {n m r : Node X.evm}

/-- The calls of a block write nothing durable, and keep the parameters in force. -/
structure Undurable {E : EvmLib} (n m : Node E) : Prop where
  tree : ∀ l, (m.ledgers l).tree = (n.ledgers l).tree
  disk : m.disk = n.disk
  evmHeight : m.evm.lastBlockHeight = n.evm.lastBlockHeight
  govParams : m.mem.govParams = n.mem.govParams

theorem Undurable.trans {p : Node X.evm} (first : Undurable n m) (second : Undurable m p) :
    Undurable n p where
  tree l := (second.tree l).trans (first.tree l)
  disk := second.disk.trans first.disk
  evmHeight := second.evmHeight.trans first.evmHeight
  govParams := second.govParams.trans first.govParams

theorem undurable_beginBlock (ran : BeginsBlock X info n m) : Undurable n m := by
  have tree := beginBlock_tree ran
  obtain ⟨last, ls, ls', allDelegatees, -, -, -, -, -, -, rfl⟩ := beginBlock_ok ran
  exact ⟨tree, rfl, rfl, rfl⟩

theorem undurable_deliverTx {txbz : HexBytes} {answer : TxResponse}
    (ran : DeliversTx X txbz n answer m) :
    Undurable n m := by
  obtain ⟨-, disk, -, height, next, mem, -⟩ := deliverTx_keeps ran
  exact ⟨deliverTx_tree ran, disk, height, by rw [mem]⟩

theorem undurable_endBlock {valUpdates : List ValidatorUpdate}
    (ran : EndsBlock X n valUpdates m) : Undurable n m := by
  have tree := endBlock_tree ran
  obtain ⟨bctx, newGovParams, lastValidators, ls, ls', ls'', -, -, -, -, rfl⟩ := endBlock_ok ran
  exact ⟨tree, rfl, rfl, rfl⟩

/-- Transactions that are delivered one after the other. -/
inductive DeliversAll (X : External) : List HexBytes → Node X.evm → Node X.evm → Prop where
  | nil (s : Node X.evm) : DeliversAll X [] s s
  | cons {txbz : HexBytes} {rest : List HexBytes} {answer : TxResponse} {s t u : Node X.evm}
      (ran : run (nodeHandler X storeImpl) (deliverTx X txbz) s = (.ok answer, t))
      (later : DeliversAll X rest t u) : DeliversAll X (txbz :: rest) s u

theorem DeliversAll.undurable (delivered : DeliversAll X txs n m) : Undurable n m := by
  induction delivered with
  | nil s => exact ⟨fun _ => rfl, rfl, rfl, rfl⟩
  | cons ran later ih => exact (undurable_deliverTx ran).trans ih

theorem DeliversAll.openHeight (delivered : DeliversAll X txs n m) :
    openHeight m = openHeight n := by
  induction delivered with
  | nil s => rfl
  | cons ran later ih => exact ih.trans (openHeight_deliverTx ran)

theorem deliversAll_iff :
    (∃ responses : List Response,
      runCalls X storeImpl (txs.map .deliverTx) n = (responses.map .ok, m)) ↔
      DeliversAll X txs n m := by
  induction txs generalizing n with
  | nil =>
    constructor
    · rintro ⟨responses, ran⟩
      obtain ⟨-, rfl⟩ := Prod.mk.inj ran
      exact .nil _
    · rintro ⟨⟩
      exact ⟨[], rfl⟩
  | cons txbz rest ih =>
    constructor
    · rintro ⟨responses, ran⟩
      obtain ⟨response, n₁, later, first, after, rfl⟩ := runCalls_cons_ok.mp ran
      obtain ⟨answer, rfl, delivered⟩ := consensus_deliverTx_ok first
      exact .cons delivered (ih.mp ⟨later, after⟩)
    · intro delivered
      cases delivered with
      | @cons _ _ answer _ n₁ _ ran later =>
        obtain ⟨responses, after⟩ := ih.mpr later
        have first : run (nodeHandler X storeImpl) (consensus X (.deliverTx txbz)) n =
            (.ok (.deliverTx answer), n₁) := by
          simp only [consensus, Prog.bind_eq, run_bind, ran]
          rfl
        exact ⟨.deliverTx answer :: responses,
          runCalls_cons_ok.mpr ⟨_, n₁, responses, first, after, rfl⟩⟩

/-- The calls of a block succeed if it begins, its transactions are answered and it ends. -/
theorem block_iff :
    (∃ responses : List Response,
      runCalls X storeImpl (blockCalls info txs) n = (responses.map .ok, m)) ↔
      ∃ n₁ n₂ valUpdates, BeginsBlock X info n n₁ ∧
        DeliversAll X txs n₁ n₂ ∧
        EndsBlock X n₂ valUpdates m := by
  constructor
  · rintro ⟨responses, ran⟩
    obtain ⟨response, n₁, after, first, others, rfl⟩ := runCalls_cons_ok.mp ran
    obtain ⟨n₂, earlier, later, delivered, last, rfl⟩ := runCalls_append_ok.mp others
    obtain ⟨response', n₃, none', ended, done, rfl⟩ := runCalls_cons_ok.mp last
    obtain ⟨-, rfl⟩ := Prod.mk.inj done
    obtain ⟨valUpdates, -, ended⟩ := consensus_endBlock_ok ended
    exact ⟨n₁, n₂, valUpdates, (consensus_beginBlock_ok first).2, deliversAll_iff.mp ⟨earlier, delivered⟩,
      ended⟩
  · rintro ⟨n₁, n₂, valUpdates, began, delivered, ended⟩
    obtain ⟨responses, delivered⟩ := deliversAll_iff.mpr delivered
    have first : run (nodeHandler X storeImpl) (consensus X (.beginBlock info)) n =
        (.ok .beginBlock, n₁) := by
      simp only [consensus, Prog.bind_eq, run_bind, began]
      rfl
    have last : run (nodeHandler X storeImpl) (consensus X .endBlock) n₂ =
        (.ok (.endBlock valUpdates), m) := by
      simp only [consensus, Prog.bind_eq, run_bind, ended]
      rfl
    have done : runCalls X storeImpl [.endBlock] n₂ = ([Response.endBlock valUpdates].map .ok, m) :=
      runCalls_cons_ok.mpr ⟨_, m, [], last, rfl, rfl⟩
    exact ⟨.beginBlock :: (responses ++ [.endBlock valUpdates]), runCalls_cons_ok.mpr
      ⟨_, n₁, _, first, runCalls_append_ok.mpr ⟨n₂, responses, _, delivered, done, rfl⟩, rfl⟩⟩

end Blocks

/-! ## Commits and blocks that succeed again -/

section Again

variable {X : External} {info : BlockInfo} {txs : List HexBytes} {n m r : Node X.evm}

/-- A commit succeeds in an open block if all versions agree. -/
theorem run_commit_of_versions {s : Node X.evm} {bctx : BlockContext} {state : X.evm.State}
    (inBlock : s.mem.nextBlockCtx = some bctx) (started : s.evm.stateDB = some state)
    (versions : ∀ l, versionOf s l = versionOf s .params)
    (evm : i64 (s.evm.lastBlockHeight + 1) = versionOf s .params) :
    run (nodeHandler X storeImpl) (commit X) s =
      (.ok (appHashOf X s state), committed X s bctx state) := by
  have all : (withCommitted s stakeLedgers).ledgers = fun l => (s.ledgers l).commit := by
    funext l
    cases l <;> rfl
  have gov : ¬ (versionOf s .params ≠ versionOf s .proposals ∨
      versionOf s .proposals ≠ versionOf s .frozenProposals) := by
    simp [versions]
  -- the controllers of governance have put their parameters in force before
  have governed : ∀ l, versionOf { s with mem := paramsInForce s.mem } l = versionOf s .params :=
    versions
  have stake : ¬ (versionOf { s with mem := paramsInForce s.mem } .delegatees ≠
        versionOf { s with mem := paramsInForce s.mem } .frozenStakes ∨
      versionOf { s with mem := paramsInForce s.mem } .frozenStakes ≠
        versionOf { s with mem := paramsInForce s.mem } .rewards) := by
    simp [governed]
  have whole : ¬ (versionOf s .params ≠ versionOf { s with mem := paramsInForce s.mem } .accounts ∨
      versionOf { s with mem := paramsInForce s.mem } .accounts ≠
        versionOf { s with mem := paramsInForce s.mem } .delegatees ∨
      versionOf { s with mem := paramsInForce s.mem } .delegatees ≠
        i64 (s.evm.lastBlockHeight + 1)) := by
    simp [governed, evm]
  simp only [commit, Prog.bind_eq, run_bind, run_nextBlockCtx, inBlock, Option.elim_some,
    andThen_ok, run_commitGov]
  rw [if_neg gov, andThen_ok, run_commitLedger (by simp)]
  simp only [andThen_ok, run_commitStake]
  rw [if_neg stake, andThen_ok]
  generalize stored : withCommitted _ stakeLedgers = s₃
  have sameEvm : s₃.evm = s.evm := by
    rw [← stored]
    rfl
  rw [run_commitEvm (s := s₃) (sameEvm ▸ started)]
  simp only [andThen_ok, sameEvm]
  rw [if_neg whole]
  subst stored
  simp only [withCommitted] at all ⊢
  rw [all]
  rfl

variable {valUpdates : List ValidatorUpdate}

/-- A block ends if the controllers succeed. -/
theorem run_endBlock_of {s : Node X.evm} {bctx : BlockContext} {newGovParams : Option GovParams}
    {ls'' : Stores}
    (inBlock : s.mem.nextBlockCtx = some bctx)
    (governed : exec (GovCtrler.endBlock X.json X.sort s.mem.govParams s.mem.newGovParams
      bctx.blockInfo.height) s.ledgers = (.ok newGovParams, ls))
    (paid : exec (AcctCtrler.endBlock bctx.blockInfo.proposer bctx.feeSum) ls = (.ok (), ls'))
    (refunded : exec (StakeCtrler.endBlock s.mem.govParams s.mem.allDelegatees
      s.mem.lastValidators bctx.blockInfo.height) ls' = (.ok (valUpdates, lastValidators), ls'')) :
    run (nodeHandler X storeImpl) (endBlock X) s =
      (.ok valUpdates, { s with
        ledgers := ls''
        mem := { s.mem with
          newGovParams := newGovParams
          lastValidators := lastValidators
          nextBlockCtx := some { bctx with valUpdates := valUpdates } } }) := by
  unfold exec at governed paid refunded
  simp only [endBlock, Prog.bind_eq, run_bind, run_app, appStep, andThen_ok,
    run_nextBlockCtx, inBlock, Option.elim_some, run_ledgerOrPanic, governed, panicked, paid, refunded,
    Prog.pure_eq, run_pure]

/-- The validators of a block do not depend on the last ones. -/
theorem exec_stakeEndBlock {params : GovParams} {allDelegatees : List Delegatee}
    {newValidators : Validators} {height : Int}

    (ran : exec (StakeCtrler.endBlock params allDelegatees lastValidators height) ls =
      (.ok (valUpdates, newValidators), ls')) (lastValidators' : Validators) :
    ∃ valUpdates', exec (StakeCtrler.endBlock params allDelegatees lastValidators' height) ls =
      (.ok (valUpdates', newValidators), ls') := by
  obtain ⟨_, ls₁, unfrozen, updated⟩ := run_bind_ok ran
  obtain ⟨selected, ls₂, chosen, ended⟩ := run_bind_ok updated
  cases ended
  refine ⟨StakeCtrler.validatorUpdates (sortBy Delegatee.addrLess lastValidators')
    (sortBy Delegatee.addrLess selected), ?_⟩
  unfold exec StakeCtrler.endBlock StakeCtrler.updateValidators
  simp only [Prog.bind_eq, run_bind, unfrozen, andThen_ok, chosen]
  rfl

/-- An `EndBlock` that succeeds does so with any last validators, and leaves the same to the
commit. -/
theorem endBlock_again {t : Node X.evm}
    (ran : EndsBlock X n valUpdates m)
    (agrees : Agrees False True (fun _ validators => validators = []) n t) :
    ∃ valUpdates' u bctx, EndsBlock X t valUpdates' u ∧
      u.ledgers = m.ledgers ∧ u.evm = m.evm ∧ u.mem.lastRwdHash = m.mem.lastRwdHash ∧
      u.mem.nextBlockCtx = some bctx := by
  obtain ⟨bctx, newGovParams, lastValidators, ls, ls', ls'', inBlock, governed, paid, refunded, rfl⟩ :=
    endBlock_ok ran
  obtain ⟨evm, delegatees⟩ := agrees.sameBlock trivial
  rw [agrees.nextBlockCtx] at inBlock
  rw [agrees.govParams, agrees.newGovParams, agrees.ledgers] at governed
  rw [agrees.govParams, delegatees] at refunded
  obtain ⟨valUpdates', refunded'⟩ :=
    exec_stakeEndBlock refunded t.mem.lastValidators
  exact ⟨valUpdates', _, _, run_endBlock_of inBlock governed paid refunded', rfl, evm.symm,
    agrees.lastRwdHash.symm, rfl⟩

/-- The delivered transactions do not depend on the last validators. -/
def UnreadInBlock (X : External) : List HexBytes → Node X.evm → Prop
  | [], _ => True
  | txbz :: rest, s => Unread X s (.deliverTx txbz) ∧
      match run (nodeHandler X storeImpl) (deliverTx X txbz) s with
      | (.error _, _) => True
      | (.ok _, s') => UnreadInBlock X rest s'

theorem DeliversAll.again (delivers : DeliversAll X txs n m) {t : Node X.evm}
    (agrees : Agrees False True (fun _ validators => validators = []) n t)
    (unread : UnreadInBlock X txs n) :
    ∃ u, DeliversAll X txs t u ∧ Agrees False True (fun _ validators => validators = []) m u := by
  induction delivers generalizing t with
  | nil s => exact ⟨t, .nil t, agrees⟩
  | @cons txbz rest answer s s' final ran later ih =>
    obtain ⟨here, after⟩ := unread
    rw [ran] at after
    obtain ⟨t', ran', agrees'⟩ := (Agrees.deliverUnread agrees agrees.validators here).ok ran
    obtain ⟨u, later', agrees''⟩ := ih agrees' after
    exact ⟨u, .cons ran' later', agrees''⟩

end Again

/-! ## The process after a crash -/

section Resume

variable (X : External)

/-- The consensus engine calls `InitChain` if a new process reports no block. -/
def afterInfo {L : LedgerId → Type} (impl : LedgerImpl L) (genesis : Genesis) (t : State L X.evm) :
    Except Fault (State L X.evm) :=
  if (lastBlockCtxOf t.disk).blockInfo.height = 0 then
    match run (nodeHandler X impl) (initChain X genesis) t with
    | (.error fault, _) => .error fault
    | (.ok (), t') => .ok t'
  else .ok t

/-- A new process on the databases of another, up to the blocks it is given. -/
def resume (genesis : Genesis) (s : App X.evm) : Except Fault (App X.evm) :=
  (restart X s).bind (afterInfo X finalityImpl genesis)

def resumeNode (genesis : Genesis) (s : Node X.evm) : Except Fault (Node X.evm) :=
  (restartNode X s).bind (afterInfo X storeImpl genesis)

/-- The calls for a block, if it is above the height that `Info` reports. -/
def callsAbove (info : BlockInfo) (txs : List HexBytes) (disk : Disk) : List ConsensusCall :=
  if (lastBlockCtxOf disk).blockInfo.height < info.height then blockCalls info txs ++ [.commit]
  else []

/-- The same app hash and the same versions. -/
structure SameCommit {E : EvmLib} (s t : Node E) : Prop where
  appHash : s.mem.lastBlockCtx.map BlockContext.appHash = t.mem.lastBlockCtx.map BlockContext.appHash
  versions : ∀ l, (s.ledgers l).tree.version = (t.ledgers l).tree.version
  evmHeight : s.evm.lastBlockHeight = t.evm.lastBlockHeight

/-- A new process on the databases of `crashed` executes the block again, if it is above the height
that `Info` reports, without a panic, and then has the app hash and the versions of `done`. -/
def Recovers (genesis : Genesis) (info : BlockInfo) (txs : List HexBytes) (crashed done : App X.evm) :
    Prop :=
  ∃ t responses r, resume X genesis crashed = .ok t ∧
    runCalls X finalityImpl (callsAbove info txs t.disk) t = (List.map .ok responses, r) ∧
    SameCommit (App.node r) (App.node done)

def RecoversNode (genesis : Genesis) (info : BlockInfo) (txs : List HexBytes)
    (crashed done : Node X.evm) : Prop :=
  ∃ t responses r, resumeNode X genesis crashed = .ok t ∧
    runCalls X storeImpl (callsAbove info txs t.disk) t = (List.map .ok responses, r) ∧
    SameCommit r done

variable {X} {genesis : Genesis}

theorem afterInfo_node (t : App X.evm) :
    (afterInfo X finalityImpl genesis t).map App.node =
      afterInfo X storeImpl genesis (App.node t) := by
  have same : (App.node t).disk = t.disk := rfl
  unfold afterInfo
  rw [same]
  split
  · obtain ⟨outcome, after⟩ := run_node X (initChain X genesis) t
    generalize run (nodeHandler X finalityImpl) (initChain X genesis) t = concrete at outcome after
    generalize run (nodeHandler X storeImpl) (initChain X genesis) (App.node t) = abstract
      at outcome after ⊢
    obtain ⟨result, t'⟩ := concrete
    obtain ⟨result', u⟩ := abstract
    cases outcome
    cases after
    cases result with
    | error fault => rfl
    | ok _ => rfl
  · rfl

theorem resume_node (s : App X.evm) :
    (resume X genesis s).map App.node = resumeNode X genesis (App.node s) := by
  unfold resume resumeNode
  rw [← restart_node]
  cases restart X s with
  | error fault => rfl
  | ok t => exact afterInfo_node t

theorem recovers_iff {info : BlockInfo} {txs : List HexBytes} {crashed done : App X.evm} :
    Recovers X genesis info txs crashed done ↔
      RecoversNode X genesis info txs (App.node crashed) (App.node done) := by
  unfold Recovers RecoversNode
  rw [← resume_node]
  cases resume X genesis crashed with
  | error fault =>
    constructor
    · rintro ⟨t, responses, r, ⟨⟩, -⟩
    · rintro ⟨t, responses, r, ⟨⟩, -⟩
  | ok t =>
    obtain ⟨answers, after⟩ := runCalls_node X (callsAbove info txs t.disk) t
    constructor
    · rintro ⟨t', responses, r, ⟨⟩, ran, same⟩
      rw [ran] at answers after
      exact ⟨App.node t, responses, App.node r, rfl, Prod.ext answers.symm after.symm, same⟩
    · rintro ⟨t', responses, r, ⟨⟩, ran, same⟩
      have ran' : runCalls X storeImpl (callsAbove info txs t.disk) (App.node t) =
          (responses.map .ok, r) := ran
      rw [ran'] at answers after
      exact ⟨t, responses, _, rfl, Prod.ext answers rfl, after ▸ same⟩

/-- What a new process loads. -/
theorem restartNode_loads {s t : Node X.evm} (started : restartNode X s = .ok t) :
    (∀ l, (t.ledgers l).tree.version = (s.ledgers l).tree.version) ∧ t.disk = s.disk ∧
      t.mem.lastBlockCtx = some (lastBlockCtxOf s.disk) ∧
      t.evm.lastBlockHeight = s.disk.evmHeight := by
  unfold restartNode boot at started
  simp only at started
  split at started
  · cases started
  · cases started
    exact ⟨fun _ => rfl, rfl, rfl, rfl⟩

/-- `InitChain` changes no version and no last block. -/
theorem afterInfo_keeps {t u : Node X.evm} (ran : afterInfo X storeImpl genesis t = .ok u) :
    (∀ l, (u.ledgers l).tree.version = (t.ledgers l).tree.version) ∧
      lastBlockCtxOf u.disk = lastBlockCtxOf t.disk := by
  unfold afterInfo at ran
  split at ran
  · split at ran
    · cases ran
    · next initialised =>
      cases ran
      obtain ⟨ls, ls', ls'', held, accounts, staked, rfl⟩ := initChain_ok initialised
      refine ⟨fun l => ?_, rfl⟩
      simp only
      rw [Tree.version, tree_of_exec staked, tree_of_exec accounts, tree_of_exec held]
      cases l <;> rfl
  · cases ran
    exact ⟨fun _ => rfl, rfl⟩

theorem resumeNode_keeps {s u : Node X.evm} (resumed : resumeNode X genesis s = .ok u) :
    (∀ l, (u.ledgers l).tree.version = (s.ledgers l).tree.version) ∧
      lastBlockCtxOf u.disk = lastBlockCtxOf s.disk := by
  unfold resumeNode at resumed
  cases started : restartNode X s with
  | error fault =>
    rw [started] at resumed
    cases resumed
  | ok t =>
    rw [started] at resumed
    obtain ⟨versions, disk, -, -⟩ := restartNode_loads started
    obtain ⟨versions', last⟩ := afterInfo_keeps resumed
    exact ⟨fun l => (versions' l).trans (versions l), last.trans (congrArg lastBlockCtxOf disk)⟩

/-- A new process reads the trees and the databases. -/
theorem restartNode_congr {s t : Node X.evm}
    (trees : ∀ l, (s.ledgers l).tree = (t.ledgers l).tree) (disk : s.disk = t.disk) :
    restartNode X s = restartNode X t := by
  unfold restartNode
  simp only [trees, disk]

end Resume

/-! ## Between two blocks -/

section AtRest

variable {X : External} {genesis : Genesis}

/-- A node between two blocks: it is flushed, or `InitChain` was called last. -/
inductive AtRest (X : External) (genesis : Genesis) (steps : List (Step X.evm)) (s : Node X.evm) :
    Prop where
  | flushed (some' : 0 < blocks steps) (flushed : Flushed s)
  | initialised {first t : Node X.evm} {limiter : StakeLimiter} (started : firstNode X = .ok first)
      (ran : run (nodeHandler X storeImpl) (initChain X genesis) first = (.ok (), t))
      (same : s = { t with limiter := limiter })

theorem Run.atRest {mayRestart : Bool} {phase : Phase} {steps : List (Step X.evm)} {s : App X.evm}
    (ran : Run X mayRestart genesis phase steps s) (idle : phase = .idle) :
    AtRest X genesis steps (App.node s) := by
  induction ran with
  | start started =>
    obtain ⟨first, began, ran⟩ := start_node started
    exact .initialised began ran rfl
  | @call phase phase' steps s s' call response before next ran ih =>
    -- only a commit ends in this phase
    subst idle
    cases call with
    | commit =>
      obtain ⟨appHash, -, committed⟩ := consensus_commit_ok (run_node_ok ran)
      refine .flushed ?_ (before.reachable.consistent.flushed committed)
      rw [blocks_append]
      exact Nat.succ_pos _
    | beginBlock info => cases phase <;> cases next
    | deliverTx txbz => cases phase <;> cases next
    | endBlock => cases phase <;> cases next
  | checkTx before recheck txbz ih =>
    rw [node_checkTx]
    cases ih idle with
    | flushed some' flushed => exact .flushed some' (flushed.withLimiter _)
    | initialised started ran same => exact .initialised started ran (by rw [same])
  | @restart steps s s' s'' appHash allowed before ran restarted ih =>
    have flushed := before.reachable.consistent.flushed (run_node_ok ran)
    have restarted' : restartNode X (App.node s') = .ok (App.node s'') :=
      restart_eq_ok.mpr ⟨s'', restarted, rfl⟩
    have loaded := flushed.restartNode
    split at loaded
    · rw [loaded] at restarted'
      cases restarted'
    · obtain ⟨u, found, -, agrees⟩ := loaded
      obtain rfl : u = App.node s'' := Except.ok.inj (found.symm.trans restarted')
      refine .flushed ?_ (flushed.of_agrees agrees)
      rw [blocks_append]
      exact Nat.succ_pos _

/-- `InitChain` overwrites the chain id. -/
theorem run_initChain_chainID (named : genesis.chainID ≠ "") (s : Node X.evm) (chainID : String) :
    run (nodeHandler X storeImpl) (initChain X genesis)
        { s with mem := { s.mem with chainID := chainID }, disk := { s.disk with chainID := chainID } } =
      run (nodeHandler X storeImpl) (initChain X genesis) s := by
  unfold initChain
  rw [if_neg named]
  rfl

/-- `InitChain` on the databases of a process that stopped in the first block. -/
theorem initChain_again {first t : Node X.evm} (started : firstNode X = .ok first)
    (ran : run (nodeHandler X storeImpl) (initChain X genesis) first = (.ok (), t)) :
    resumeNode X genesis t = .ok t := by
  have named : genesis.chainID ≠ "" := by
    intro empty
    unfold initChain at ran
    rw [if_pos empty] at ran
    cases ran
  have again := run_initChain_chainID named first genesis.chainID
  rw [ran] at again
  obtain ⟨ls, ls', ls'', held, accounts, staked, rfl⟩ := initChain_ok ran
  have trees (l : LedgerId) : (ls'' l).tree = (first.ledgers l).tree := by
    rw [tree_of_exec staked, tree_of_exec accounts, tree_of_exec held]
    cases l <;> rfl
  -- nothing was committed, so that no parameters are found
  have loaded : restartNode X { first with
        ledgers := ls''
        mem := { first.mem with chainID := genesis.chainID, govParams := genesis.params }
        disk := { first.disk with chainID := genesis.chainID } } =
      .ok { first with
        mem := { first.mem with chainID := genesis.chainID }
        disk := { first.disk with chainID := genesis.chainID } } := by
    unfold restartNode
    simp only [trees]
    cases started
    rfl
  have reported : (lastBlockCtxOf { first.disk with chainID := genesis.chainID }).blockInfo.height =
      0 := by
    cases started
    rfl
  unfold resumeNode
  rw [loaded]
  change afterInfo X storeImpl genesis _ = _
  unfold afterInfo
  rw [if_pos reported, again]

/-- A process that starts where another is between two blocks, has everything but the last
validators. -/
theorem AtRest.resume {steps : List (Step X.evm)} {s : Node X.evm} (rest : AtRest X genesis steps s)
    (heights : Heights .idle steps s) (range : 0 ≤ s.mem.govParams.maxValidatorCnt) :
    ∃ t, resumeNode X genesis s = .ok t ∧
      Agrees False False (fun _ validators => validators = []) s t := by
  cases rest with
  | flushed some' flushed =>
    have loaded := flushed.restartNode
    rw [if_neg (not_lt.mpr range)] at loaded
    obtain ⟨t, found, -, agrees⟩ := loaded
    refine ⟨t, ?_, agrees⟩
    unfold resumeNode afterInfo
    rw [found]
    refine if_neg ?_
    rw [← agrees.disk, heights.stored]
    omega
  | @initialised first t limiter started ran same =>
    subst same
    refine ⟨t, ?_, ?_⟩
    · rw [← initChain_again started ran]
      exact congrArg (Except.bind · _) (restartNode_congr (fun _ => rfl) rfl)
    · have unset : t.mem.lastValidators = [] := by
        obtain ⟨ls, ls', ls'', -, -, -, rfl⟩ := initChain_ok ran
        cases started
        rfl
      have same : Agrees False False Eq t t := Agrees.refl t
      exact { same with
        sameLimiter := False.elim
        sameBlock := False.elim
        validators := unset }

end AtRest

/-! ## Crashes in a commit -/

section Crash

variable {X : External} {genesis : Genesis} {steps : List (Step X.evm)} {info : BlockInfo}
  {txs : List HexBytes} {n m r c : Node X.evm} {appHash : HexBytes}

variable {responses : List Response}

/-- A block that is executed and committed is the next one. -/
theorem block_height (ran : runCalls X storeImpl (blockCalls info txs) n = (responses.map .ok, m))
    (committed : Commits X m appHash r) :
    info.height = (n.ledgers .params).tree.version + 1 ∧ Undurable n m := by
  obtain ⟨n₁, n₂, valUpdates, began, delivered, ended⟩ := block_iff.mp ⟨responses, ran⟩
  have undurable := ((undurable_beginBlock began).trans delivered.undurable).trans
    (undurable_endBlock ended)
  obtain ⟨-, -, -, -, -, -, height, -⟩ := beginBlock_ok began
  obtain ⟨-, -, -, -, -, -, -, evm⟩ := commit_ok committed
  rw [undurable.evmHeight, ← height, versionOf, Store.version_commit, undurable.tree] at evm
  exact ⟨evm, undurable⟩

/-- The block that a commit leaves is the one that began. -/
theorem block_last (ran : runCalls X storeImpl (blockCalls info txs) n = (responses.map .ok, m))
    (committed : Commits X m appHash r) :
    (lastBlockCtxOf r.disk).blockInfo.height = info.height := by
  obtain ⟨n₁, n₂, valUpdates, began, delivered, ended⟩ := block_iff.mp ⟨responses, ran⟩
  have opened : openHeight m = openHeight n₁ :=
    (openHeight_endBlock ended).trans delivered.openHeight
  obtain ⟨last, ls, ls', allDelegatees, -, -, -, -, -, -, rfl⟩ := beginBlock_ok began
  obtain ⟨bctx, state, inBlock, -, -, rfl, -, -⟩ := commit_ok committed
  rw [openHeight, inBlock] at opened
  exact Option.some.inj opened

theorem runCalls_block_ok
    (ran : runCalls X storeImpl (blockCalls info txs ++ [.commit]) n = (responses.map .ok, r)) :
    ∃ responses' m appHash, runCalls X storeImpl (blockCalls info txs) n =
        (List.map .ok responses', m) ∧
      Commits X m appHash r := by
  obtain ⟨m, earlier, later, executed, last, -⟩ := runCalls_append_ok.mp ran
  obtain ⟨response, r', none', committed, done, -⟩ := runCalls_cons_ok.mp last
  obtain ⟨-, rfl⟩ := Prod.mk.inj done
  obtain ⟨appHash, -, committed⟩ := consensus_commit_ok committed
  exact ⟨earlier, m, appHash, executed, committed⟩

/-- A new process that finds the parameters ahead of the last block does not recover. -/
theorem not_recovers {done : Node X.evm}
    (below : (lastBlockCtxOf c.disk).blockInfo.height < info.height)
    (ahead : info.height ≤ (c.ledgers .params).tree.version) :
    ¬ RecoversNode X genesis info txs c done := by
  rintro ⟨t, responses, r, resumed, ran, -⟩
  obtain ⟨versions, last⟩ := resumeNode_keeps resumed
  unfold callsAbove at ran
  rw [last, if_pos below] at ran
  obtain ⟨responses', m, appHash, executed, committed⟩ := runCalls_block_ok ran
  have height := (block_height executed committed).1
  rw [versions] at height
  omega

/-- After the last block is written, there is nothing to execute again. -/
theorem recovers_late (consistent : Consistent m)
    (committed : Commits X m appHash r)
    (reported : (lastBlockCtxOf r.disk).blockInfo.height = info.height) (positive : 0 < info.height)
    (late : performed (nodeHandler X storeImpl) durable (commit X) m ≤ k + 1) :
    RecoversNode X genesis info txs (runUpTo (nodeHandler X storeImpl) durable k (commit X) m) r ↔
      0 ≤ r.mem.govParams.maxValidatorCnt := by
  have loads := (consistent.flushed committed).restartNode
  obtain ⟨trees, disk⟩ := databases_runUpTo_late committed late
  generalize runUpTo (nodeHandler X storeImpl) durable k (commit X) m = c at trees disk ⊢
  have stored : lastBlockCtxOf c.disk = lastBlockCtxOf r.disk ∧
      r.mem.lastBlockCtx.map BlockContext.appHash = some (lastBlockCtxOf r.disk).appHash ∧
      r.evm.lastBlockHeight = r.disk.evmHeight := by
    rw [disk]
    obtain ⟨bctx, state, -, -, -, rfl, -, -⟩ := commit_ok committed
    exact ⟨rfl, rfl, rfl⟩
  obtain ⟨last, appHash, evmHeight⟩ := stored
  have same : restartNode X c = (restartNode X r).map fun u => { u with disk := c.disk } := by
    unfold restartNode boot
    simp only [trees, last]
    rw [disk]
    split
    · rfl
    · rfl
  constructor
  · rintro ⟨t, responses, r', resumed, -⟩
    by_contra negative
    rw [if_pos (not_le.mp negative)] at loads
    unfold resumeNode at resumed
    rw [same, loads] at resumed
    cases resumed
  · intro range
    rw [if_neg (not_lt.mpr range)] at loads
    obtain ⟨u, found, -, -⟩ := loads
    obtain ⟨versions, -, lastBlockCtx, height⟩ := restartNode_loads found
    refine ⟨{ u with disk := c.disk }, [], { u with disk := c.disk }, ?_, ?_, ?_⟩
    · unfold resumeNode afterInfo
      rw [same, found]
      exact if_neg (by rw [last, reported]; exact positive.ne')
    · unfold callsAbove
      rw [last, reported, if_neg (lt_irrefl _)]
      rfl
    · exact ⟨(congrArg (Option.map BlockContext.appHash) lastBlockCtx).trans appHash.symm, versions,
        height.trans evmHeight.symm⟩

theorem maxValidatorCnt_of_endBlock {params : GovParams} {allDelegatees : List Delegatee}
    {height : Int} {updated : List ValidatorUpdate × Validators}

    (ran : exec (StakeCtrler.endBlock params allDelegatees lastValidators height) ls =
      (.ok updated, ls')) : 0 ≤ params.maxValidatorCnt := by
  obtain ⟨_, ls₁, -, ran⟩ := run_bind_ok ran
  obtain ⟨selected, ls₂, chosen, -⟩ := run_bind_ok ran
  unfold StakeCtrler.selectValidators at chosen
  split at chosen
  · cases chosen
  · omega

/-- Before anything is written, the block is executed again. -/
theorem recovers_unwritten (rest : AtRest X genesis steps n) (heights : Heights .idle steps n)
    (ran : runCalls X storeImpl (blockCalls info txs) n = (responses.map .ok, m))
    (committed : Commits X m appHash r)
    (unread : ∀ n₁, BeginsBlock X info n n₁ →
      UnreadInBlock X txs n₁)
    (trees : ∀ l, (c.ledgers l).tree = (n.ledgers l).tree) (disk : c.disk = n.disk) :
    RecoversNode X genesis info txs c r := by
  obtain ⟨height, undurable⟩ := block_height ran committed
  rw [heights.versions] at height
  obtain ⟨n₁, n₂, valUpdates, began, delivered, ended⟩ := block_iff.mp ⟨responses, ran⟩
  have range : 0 ≤ n.mem.govParams.maxValidatorCnt := by
    obtain ⟨_, _, _, _, _, _, -, -, -, refunded, -⟩ := endBlock_ok ended
    rw [← ((undurable_beginBlock began).trans delivered.undurable).govParams]
    exact maxValidatorCnt_of_endBlock refunded
  obtain ⟨t, resumed, agrees⟩ := rest.resume heights range
  -- the block is executed from a state without last validators
  obtain ⟨t₁, began', agrees₁⟩ := (agrees.beginBlock info).ok began
  obtain ⟨t₂, delivered', agrees₂⟩ :=
    delivered.again (agrees₁.weakenLimiter False.elim) (unread n₁ began)
  obtain ⟨valUpdates', u, bctx', ended', ledgers, evm, rwdHash, inBlock'⟩ :=
    endBlock_again ended agrees₂
  obtain ⟨responses', executed⟩ := block_iff.mpr ⟨t₁, t₂, valUpdates', began', delivered', ended'⟩
  obtain ⟨bctx, state, inBlock, opened, -, rfl, versions, evmVersion⟩ := commit_ok committed
  have sameVersion (l : LedgerId) : versionOf u l = versionOf m l := by
    unfold versionOf
    rw [ledgers]
  have committed' := run_commit_of_versions (s := u) inBlock' (evm ▸ opened)
    (fun l => by rw [sameVersion, sameVersion, versions])
    (by rw [evm, sameVersion, evmVersion])
  have sameHash : appHashOf X u state = appHashOf X m state := by
    unfold appHashOf rewardHash hashOf
    rw [sameVersion, ledgers, rwdHash]
  refine ⟨t, responses' ++ [.commit (appHashOf X u state)], RigoApp.committed X u bctx' state, ?_, ?_,
    ?_⟩
  · rw [← resumed]
    exact congrArg (Except.bind · _) (restartNode_congr trees disk)
  · have below : (lastBlockCtxOf t.disk).blockInfo.height < info.height := by
      rw [← agrees.disk, heights.stored, height]
      omega
    unfold callsAbove
    rw [if_pos below]
    have last : run (nodeHandler X storeImpl) (consensus X .commit) u =
        (.ok (.commit (appHashOf X u state)), RigoApp.committed X u bctx' state) := by
      simp only [consensus, Prog.bind_eq, run_bind, committed']
      rfl
    exact runCalls_append_ok.mpr ⟨u, responses', [.commit (appHashOf X u state)], executed,
      runCalls_cons_ok.mpr ⟨_, _, [], last, rfl, rfl⟩, rfl⟩
  · refine ⟨congrArg some sameHash, fun l => ?_, ?_⟩
    · exact sameVersion l
    · exact congrArg (fun m => i64 (m.lastBlockHeight + 1)) evm

/-- A process that stops in the commit of a block, and is replaced by a new one.  The commit is
the one after a block that follows any run. -/
theorem crash_recovers {mayRestart : Bool} {s₀ s s' : App X.evm} {responses : List Response}
    (ran : Run X mayRestart genesis .idle steps s₀)
    (executed : runCalls X finalityImpl (blockCalls info txs) s₀ = (responses.map .ok, s))
    (committed : run (nodeHandler X finalityImpl) (commit X) s = (.ok appHash, s')) {k : Nat}
    (unread : k = 0 → ∀ n₁, run (nodeHandler X storeImpl) (beginBlock X info) (App.node s₀) =
      (.ok (), n₁) → UnreadInBlock X txs n₁) :
    Recovers X genesis info txs (runUpTo (nodeHandler X finalityImpl) durable k (commit X) s) s' ↔
      k = 0 ∨
        (performed (nodeHandler X finalityImpl) durable (commit X) s ≤ k + 1 ∧
          0 ≤ (s.mem.newGovParams.getD s.mem.govParams).maxValidatorCnt) := by
  rw [recovers_iff, (node_simulates X).runUpTo (commit X) rfl k,
    (node_simulates X).performed (commit X) rfl]
  have heights := ran.heights
  have committed' := run_node_ok committed
  obtain ⟨answers, after⟩ := runCalls_node X (blockCalls info txs) s₀
  rw [executed] at answers after
  have executed' : runCalls X storeImpl (blockCalls info txs) (App.node s₀) =
      (responses.map .ok, App.node s) := Prod.ext answers.symm after.symm
  obtain ⟨height, undurable⟩ := block_height executed' committed'
  rw [heights.versions] at height
  by_cases unwritten : k = 0
  · subst unwritten
    obtain ⟨trees, disk⟩ := databases_runUpTo (commit X) (App.node s)
    refine iff_of_true ?_ (.inl rfl)
    exact recovers_unwritten (Run.atRest ran rfl) heights executed' committed' (unread rfl)
      (fun l => (trees l).trans (undurable.tree l)) (disk.trans undurable.disk)
  · by_cases late : performed (nodeHandler X storeImpl) durable (commit X) (App.node s) ≤ k + 1
    · have reachable : Reachable X s := by
        have reached := ran.reachable.runCalls (blockCalls info txs)
        rw [executed] at reached
        exact reached fun response answered => by
          obtain ⟨answer, -, rfl⟩ := List.mem_map.mp answered
          rfl
      have params : (App.node s').mem.govParams = s.mem.newGovParams.getD s.mem.govParams := by
        obtain ⟨bctx, state, -, -, -, done, -, -⟩ := commit_ok committed'
        rw [done]
        rfl
      rw [recovers_late reachable.consistent committed' (block_last executed' committed')
        (by omega) late, params]
      simp [unwritten, late]
    · have last := lastBlock_runUpTo committed' (not_le.mp late)
      have ahead := version_runUpTo committed' (Nat.pos_of_ne_zero unwritten)
      rw [undurable.tree, heights.versions] at ahead
      refine iff_of_false (not_recovers ?_ (height ▸ ahead)) ?_
      · rw [last, undurable.disk, heights.stored]
        omega
      · rintro (zero | ⟨written, -⟩)
        · exact unwritten zero
        · exact late written

end Crash

/-! ## A crash in the second block -/

open Concrete

/-- The process that stops in the commit of the second block, after some of the eleven writes. -/
def stoppedAfter (k : Nat) : App twoUnstakings.evm :=
  runUpTo (nodeHandler twoUnstakings finalityImpl) durable k (commit twoUnstakings) inSecondBlock

def genesisOfFour : Genesis :=
  Concrete.genesis [(1, 10000000), (2, 10000000), (3, 10000000), (4, 10000000)]

theorem run_firstBlock : Run twoUnstakings false genesisOfFour .idle
    (stepsOf twoUnstakings [.beginBlock (block 1), .endBlock, .commit] fourValidators)
    (runCalls twoUnstakings finalityImpl [.beginBlock (block 1), .endBlock, .commit]
      fourValidators).2 := by
  have started : Run twoUnstakings false genesisOfFour .idle [] fourValidators :=
    Run.start (eq_ok_of_isSome _)
  exact started.calls [.beginBlock (block 1), .endBlock, .commit] rfl (by decide +kernel)

theorem secondBlock_executed : runCalls twoUnstakings finalityImpl (blockCalls (block 2) [])
    (runCalls twoUnstakings finalityImpl [.beginBlock (block 1), .endBlock, .commit]
      fourValidators).2 =
      ([Response.beginBlock, .endBlock [⟨addr 1, 10000000⟩, ⟨addr 2, 10000000⟩, ⟨addr 3, 10000000⟩,
        ⟨addr 4, 10000000⟩]].map .ok, inSecondBlock) :=
  Prod.ext (by decide +kernel) rfl

theorem secondBlock_committed :
    run (nodeHandler twoUnstakings finalityImpl) (commit twoUnstakings) inSecondBlock =
      (.ok [3, 2, 2, 6, 6, 2], afterCommit inSecondBlock) :=
  Prod.ext (by decide +kernel) rfl

/-- Before the first and after the last but one of the writes the new process recovers, in between
it does not. -/
theorem crash_recovers_secondBlock :
    Recovers twoUnstakings genesisOfFour (block 2) [] (stoppedAfter 0) (afterCommit inSecondBlock) ∧
      ¬ Recovers twoUnstakings genesisOfFour (block 2) [] (stoppedAfter 5)
        (afterCommit inSecondBlock) ∧
      Recovers twoUnstakings genesisOfFour (block 2) [] (stoppedAfter 10)
        (afterCommit inSecondBlock) := by
  refine ⟨?_, ?_, ?_⟩
  · exact (crash_recovers run_firstBlock secondBlock_executed secondBlock_committed
      fun _ _ _ => trivial).mpr (.inl rfl)
  · intro recovers
    have possible := (crash_recovers run_firstBlock secondBlock_executed secondBlock_committed
      fun _ _ _ => trivial).mp recovers
    revert possible
    decide +kernel
  · exact (crash_recovers run_firstBlock secondBlock_executed secondBlock_committed
      fun _ _ _ => trivial).mpr (.inr ⟨by decide +kernel, by decide +kernel⟩)

/-- The process that follows a crash between the ledgers of governance and the other ones. -/
def resumedAfterGovernance : App twoUnstakings.evm :=
  (resume twoUnstakings genesisOfFour (stoppedAfter 3)).toOption.get (by decide +kernel)

/-- It panics in the commit of the block that it executes again: the ledgers of governance would
get their third version there, the others their second. -/
theorem crash_after_governance :
    ∃ steps s₀ s s' appHash responses t, Run twoUnstakings false genesisOfFour .idle steps s₀ ∧
      runCalls twoUnstakings finalityImpl (blockCalls (block 2) []) s₀ = (List.map .ok responses, s) ∧
      run (nodeHandler twoUnstakings finalityImpl) (commit twoUnstakings) s = (.ok appHash, s') ∧
      resume twoUnstakings genesisOfFour
        (runUpTo (nodeHandler twoUnstakings finalityImpl) durable 3 (commit twoUnstakings) s) = .ok t ∧
      callsAbove (block 2) [] t.disk = blockCalls (block 2) [] ++ [.commit] ∧
      (runCalls twoUnstakings finalityImpl (callsAbove (block 2) [] t.disk) t).1 =
        [.ok .beginBlock,
          .ok (.endBlock [⟨addr 1, 10000000⟩, ⟨addr 2, 10000000⟩, ⟨addr 3, 10000000⟩,
            ⟨addr 4, 10000000⟩]),
          .error (.panic (notSameVersions [3, 2, 2, 2]))] := by
  exact ⟨_, _, _, _, _, _, resumedAfterGovernance, run_firstBlock, secondBlock_executed,
    secondBlock_committed, eq_ok_of_isSome _, by decide +kernel, by decide +kernel⟩

end RigoApp

end Rigo
