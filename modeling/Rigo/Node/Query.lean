import Rigo.Node.Addresses
import Rigo.Node.CrashSafety
import Rigo.Node.Validators

/-!
# Queries

`node/query.go` and the `query.go` of the controllers.  A query names a height and is answered from
the versions of the ledgers that were saved at it: `ImmutableLedgerAt` opens one of them, and what
`vm_call` writes goes to a ledger of its own.  Answers are modelled before they are marshalled.

A query changes nothing, so the question is what its answer means.  In every run, the answer for the
height of a block that was committed is the one given right after the commit, whatever has happened
since (`Run.query_committed`); so an open block is not seen, and a height above the last block is
refused.  `stakes/voting_power` is the exception: it selects from the delegatees of the height under
the parameters of now.
-/

namespace Rigo

open Foundation
open Concrete Store
open StakeCtrler
open LedgerProg

/-! ## The answers of the controllers -/

def XError.errQuery : XError := .coded 1000 "query failed"
def XError.errInvalidQueryPath : XError := .coded 1001 "invalid query path"

/-- A result whose error is wrapped in `ErrQuery`. -/
def queried {α : Type} (result : Except XError α) : Except XError α :=
  result.mapError XError.errQuery.wrap

/-- A ledger as `ImmutableLedgerAt` opens it: the contents of a version, with nothing cached.  The
other ledgers are not used. -/
def immutableStores (l : LedgerId) (contents : ItemMap l.Item) : Stores :=
  Function.update (fun _ => Store.new Tree.empty) l ⟨⟨contents, [], []⟩, KeyedMap.empty, []⟩

/-- `AcctCtrler.Query`: an account that cannot be read is a new one. -/
def AcctCtrler.query (immu : Except XError (ItemMap Account)) (data : HexBytes) :
    Except XError Account := do
  match ItemMap.read (← queried immu) (toLedgerKey data) with
  | .ok acct => return acct
  | .error _ => return Account.newAccount data

namespace StakeCtrler

/-- `StakeCtrler.Query` for `reward`. -/
def queryReward (immu : Except XError (ItemMap Reward)) (data : HexBytes) : Except XError Reward := do
  queried (ItemMap.read (← queried immu) (toLedgerKey data))

/-- `StakeCtrler.Query` for `stakes`: those of an owner. -/
def queryStakes (immu : Except XError (ItemMap Delegatee)) (data : HexBytes) :
    Except XError (List Stake) := do
  let delegatees ← queried (ItemMap.readAll (← queried immu))
  return delegatees.flatMap fun d => d.stakes.filter fun s0 => s0.fromAddr = data

/-- `StakeCtrler.Query` for `delegatee`. -/
def queryDelegatee (immu : Except XError (ItemMap Delegatee)) (data : HexBytes) :
    Except XError Delegatee := do
  match ItemMap.read (← queried immu) (toLedgerKey data) with
  | .ok delegatee => return delegatee
  | .error e =>
    if e = .errNotFoundResult then throw (XError.errQuery.wrap .errNotFoundDelegatee)
    else throw (XError.errQuery.wrap e)

/-- The loops that add up total powers. -/
def addPowers (delegatees : List Delegatee) : Int :=
  delegatees.foldl (fun power d => i64 (power + d.totalPower)) 0

/-- `StakeCtrler.Query` for `stakes/total_power`. -/
def queryTotalPower (immu : Except XError (ItemMap Delegatee)) : Except XError Int := do
  return addPowers (← queried (ItemMap.readAll (← queried immu)))

/-- `StakeCtrler.Query` for `stakes/voting_power`, on the ledger that was opened. -/
def queryVotingPower (params : GovParams) : LedgerProg Int := do
  let delegatees ← ofExcept (queried (← readAll .delegatees))
  let delegatees ← candidates params.minValidatorStake delegatees
  let validators ← selectValidators (sortBy Delegatee.powerLess delegatees) params.maxValidatorCnt
  return addPowers validators

end StakeCtrler

namespace GovCtrler

inductive ProposalStatus where
  | voting
  | frozen
  deriving DecidableEq

/-- `GovCtrler.Query` for `proposal` without a hash: first those voted on. -/
def queryProposals (voting frozen : Except XError (ItemMap GovProposal)) :
    Except XError (List (ProposalStatus × GovProposal)) := do
  let voting ← queried voting
  let frozen ← queried frozen
  let props ← queried (ItemMap.readAll voting)
  let frozenProps ← queried (ItemMap.readAll frozen)
  return props.map (.voting, ·) ++ frozenProps.map (.frozen, ·)

/-- `GovCtrler.Query` for `proposal` with a hash. -/
def queryProposal (voting frozen : Except XError (ItemMap GovProposal)) (txhash : HexBytes) :
    Except XError (ProposalStatus × GovProposal) := do
  let voting ← queried voting
  let frozen ← queried frozen
  match ItemMap.read voting (toLedgerKey txhash) with
  | .ok prop => return (.voting, prop)
  | .error e =>
    if e.code = XError.errNotFoundResult.code then
      return (.frozen, ← queried (ItemMap.read frozen (toLedgerKey txhash)))
    else throw (XError.errQuery.wrap e)

/-- `GovCtrler.Query` for `gov_params`. -/
def queryGovParams (immu : Except XError (ItemMap GovParams)) : Except XError GovParams := do
  queried (ItemMap.read (← queried immu) GovParams.paramsKey)

end GovCtrler

/-- What a query needs of Tendermint and geth: the time of a block, and the execution of a message
whose nonce is not checked. -/
structure QueryLib (E : EvmLib) where
  blockTime : Int → Except String Int
  applyFake : E.State → EvmMessage → Nat → EvmRun E.State

/-- `EVMCtrler.callVM` on the state with a root hash and an `ImmuAcctCtrler`, which reads and writes
the account ledger that was opened. -/
def EvmCtrler.callVM {E : EvmLib} (Q : QueryLib E) (root : HexBytes) (sender receiver : Address)
    (data : HexBytes) (height time : Int) : LedgerProg ExecutionResult := do
  let (state, accessed) ← prepare (E.new root) 0 sender receiver
  let message : EvmMessage := {
    fromAddr := array20 sender
    toAddr := if isZeroAddress receiver then none else some (array20 receiver)
    nonce := 0
    gas := gasLimit
    gasPrice := 0
    amount := 0
    data
    coinbase := array20 sender
    blockNumber := height
    time }
  let applied ← runEvm (Q.applyFake state message gasLimit) accessed 0
  ofExcept (applied.result.mapError .fromErr)

namespace RigoApp

/-! ## Query -/

/-- The paths of a query. -/
inductive QueryPath where
  | account
  | stakes
  | totalPower
  | votingPower
  | delegatee
  | reward
  | proposal
  | govParams
  | vmCall
  | unknown
  deriving DecidableEq

structure RequestQuery where
  path : QueryPath
  data : HexBytes
  height : Int

/-- What is marshalled into a response. -/
inductive Answer where
  | account (acct : Account)
  | stakes (stakes : List Stake)
  | power (power : Int)
  | delegatee (delegatee : Delegatee)
  | reward (rwd : Reward)
  | proposals (props : List (GovCtrler.ProposalStatus × GovProposal))
  | proposal (prop : GovCtrler.ProposalStatus × GovProposal)
  | govParams (params : GovParams)
  | vmCall (result : ExecutionResult)

structure ResponseQuery where
  code : Nat
  log : String
  key : HexBytes
  height : Int
  value : Option Answer

/-- What a query reads of a node. -/
structure Archive where
  immutableAt : (l : LedgerId) → Int → Except XError (ItemMap l.Item)
  evmRoot : Int → HexBytes
  lastBlockHeight : Int
  govParams : GovParams

/-- The ledgers, the databases and the memory that queries read. -/
def archive {L : LedgerId → Type} {E : EvmLib} (impl : LedgerImpl L) (s : State L E) : Archive where
  immutableAt l := (impl.tree l (s.ledgers l)).lazyLoadVersion
  evmRoot := s.disk.evmRoot
  lastBlockHeight := s.evm.lastBlockHeight
  govParams := s.mem.govParams

/-- `EVMCtrler.Query`. -/
def queryVM {E : EvmLib} (Q : QueryLib E) (A : Archive) (data : HexBytes) (height : Int) :
    Except Fault ExecutionResult :=
  if data.length < 2 * addrSize then .error (.panic .outOfRange)
  else
    let height := if height ≤ 0 then A.lastBlockHeight else height
    match Q.blockTime height, A.immutableAt .accounts height with
    | .error err, _ => .error (.xerr (.fromErr err))
    | .ok _, .error e => .error (.xerr e)
    | .ok time, .ok immu =>
      (exec (EvmCtrler.callVM Q (A.evmRoot height) (data.take addrSize)
        ((data.drop addrSize).take addrSize) (data.drop (2 * addrSize)) height time)
        (immutableStores .accounts immu)).1

/-- The part of `RigoApp.Query` that depends on the path. -/
def answer {E : EvmLib} (Q : QueryLib E) (A : Archive) (path : QueryPath) (data : HexBytes)
    (height : Int) : Except Fault Answer :=
  let delegatees := A.immutableAt .delegatees height
  let voting := A.immutableAt .proposals height
  let frozen := A.immutableAt .frozenProposals height
  match path with
  | .account =>
    ((AcctCtrler.query (A.immutableAt .accounts height) data).map .account).mapError .xerr
  | .stakes => ((StakeCtrler.queryStakes delegatees data).map .stakes).mapError .xerr
  | .totalPower => ((StakeCtrler.queryTotalPower delegatees).map .power).mapError .xerr
  | .votingPower =>
    match queried delegatees with
    | .error e => .error (.xerr e)
    | .ok immu =>
      (exec (StakeCtrler.queryVotingPower A.govParams) (immutableStores .delegatees immu)).1.map .power
  | .delegatee => ((StakeCtrler.queryDelegatee delegatees data).map .delegatee).mapError .xerr
  | .reward =>
    ((StakeCtrler.queryReward (A.immutableAt .rewards height) data).map .reward).mapError .xerr
  | .proposal =>
    if data = [] then ((GovCtrler.queryProposals voting frozen).map .proposals).mapError .xerr
    else ((GovCtrler.queryProposal voting frozen data).map .proposal).mapError .xerr
  | .govParams =>
    ((GovCtrler.queryGovParams (A.immutableAt .params height)).map .govParams).mapError .xerr
  | .vmCall => (queryVM Q A data height).map .vmCall
  | .unknown => .error (.xerr .errInvalidQueryPath)

/-- The response of `RigoApp.Query`. -/
def respondQuery (key : HexBytes) (height : Int) : Except Fault Answer → Except Fault ResponseQuery
  | .ok value => .ok ⟨0, "", key, height, some value⟩
  | .error (.xerr e) => .ok ⟨e.code, e.error, key, height, none⟩
  | .error (.panic p) => .error (.panic p)

/-- `RigoApp.Query`: height 0 is that of the last block. -/
def query {L : LedgerId → Type} {E : EvmLib} (impl : LedgerImpl L) (Q : QueryLib E)
    (req : RequestQuery) (s : State L E) : Except Fault ResponseQuery :=
  let at' (height : Int) :=
    respondQuery req.data height (answer Q (archive impl s) req.path req.data height)
  if req.height = 0 then
    match s.mem.lastBlockCtx with
    | none => .error (.panic .nilDereference)
    | some last => at' last.blockInfo.height
  else at' req.height

/-! ## Saved versions stay -/

/-- A version that is saved is loaded from every tree with more versions. -/
theorem lazyLoadVersion_of_isPrefix {T : Type} [LedgerItem T] {t t' : Tree T}
    (more : t.versions <+: t'.versions) {n : Int} (positive : 0 < n) (saved : n ≤ t.version) :
    t'.lazyLoadVersion n = t.lazyLoadVersion n := by
  have longer : t.version ≤ t'.version := Int.ofNat_le.mpr more.length_le
  obtain ⟨later, same⟩ := more
  unfold Tree.lazyLoadVersion
  rw [if_neg (by omega), if_neg (by omega), if_neg (by omega), if_neg (by omega), ← same,
    List.getD_append _ _ _ _ (by unfold Tree.version at saved; omega)]

/-- What was saved in the databases of a node is still there. -/
structure Extends {E : EvmLib} (s t : Node E) : Prop where
  versions : ∀ l, (s.ledgers l).tree.versions <+: (t.ledgers l).tree.versions
  roots : ∀ n ≤ (s.ledgers .params).tree.version, t.disk.evmRoot n = s.disk.evmRoot n

section

variable {E : EvmLib} {s t u : Node E}

theorem Extends.refl (s : Node E) : Extends s s := ⟨fun _ => List.prefix_rfl, fun _ _ => rfl⟩

theorem Extends.trans (first : Extends s t) (second : Extends t u) : Extends s u := by
  refine ⟨fun l => (first.versions l).trans (second.versions l), fun n saved => ?_⟩
  have longer : (s.ledgers .params).tree.version ≤ (t.ledgers .params).tree.version :=
    Int.ofNat_le.mpr (first.versions .params).length_le
  rw [second.roots n (saved.trans longer), first.roots n saved]

/-- Most calls save nothing. -/
theorem Extends.of_trees (trees : ∀ l, (t.ledgers l).tree = (s.ledgers l).tree)
    (disk : t.disk.evmRoot = s.disk.evmRoot) : Extends s t := by
  refine ⟨fun l => ?_, fun n _ => by rw [disk]⟩
  rw [trees l]

end

variable {X : External} {mayRestart : Bool} {genesis : Genesis} {phase : Phase} {A : Archive}
  {height : Int} {path : QueryPath}

/-- A commit adds a version to every ledger, and a root hash under the next height. -/
theorem extends_commit {s t : Node X.evm} {appHash : HexBytes} (ran : Commits X s appHash t) :
    Extends s t := by
  obtain ⟨bctx, state, -, -, -, rfl, -, height⟩ := commit_ok ran
  refine ⟨fun l => ?_, fun n saved => ?_⟩
  · change _ <+: (s.ledgers l).commit.tree.versions
    rw [versions_commit]
    exact List.prefix_append _ _
  · rw [versionOf, version_commit] at height
    exact Function.update_of_ne (by omega) _ _

section

variable {steps : List (Step X.evm)} {s : App X.evm}

/-- Nothing that was saved by an earlier step is lost. -/
theorem Run.extends (ran : Run X mayRestart genesis phase steps s) :
    ∀ step ∈ steps, Extends step.after (App.node s) := by
  have grows {steps : List (Step X.evm)} {s t : Node X.evm} {call : ConsensusCall}
      {response : Response} (ih : ∀ step ∈ steps, Extends step.after s) (more : Extends s t) :
      ∀ step ∈ steps ++ [⟨s, call, response, t⟩], Extends step.after t := by
    intro step member
    rcases List.mem_append.mp member with old | new
    · exact (ih step old).trans more
    · rw [List.mem_singleton.mp new]
      exact Extends.refl t
  refine ran.node_induction (I := fun _ steps s => ∀ step ∈ steps, Extends step.after s)
    ?_ ?_ ?_ ?_ ?_ ?_ ?_
  · intro s t first ran step member
    cases member
  · intro steps s t info ih ran
    have trees := beginBlock_tree ran
    obtain ⟨last, ls, ls', allDelegatees, -, -, -, -, -, -, rfl⟩ := beginBlock_ok ran
    exact grows ih (.of_trees trees rfl)
  · intro steps s t txbz answer ih ran
    obtain ⟨-, disk, -, -, -, -, -⟩ := deliverTx_keeps ran
    exact grows ih (.of_trees (deliverTx_tree ran) (by rw [disk]))
  · intro steps s t valUpdates ih ran
    have trees := endBlock_tree ran
    obtain ⟨bctx, newGovParams, lastValidators, ls, ls', ls'', -, -, -, -, rfl⟩ := endBlock_ok ran
    exact grows ih (.of_trees trees rfl)
  · intro steps s t appHash ih ran
    exact grows ih (extends_commit ran)
  · intro phase steps s limiter ih step member
    exact (ih step member).trans (.of_trees (fun _ => rfl) rfl)
  · intro steps s t u appHash _ ih ran restarted step member
    have ledgers := restartNode_ledgers ran restarted
    have kept : u.disk = t.disk := by
      unfold restartNode boot at restarted
      simp only at restarted
      split at restarted
      · cases restarted
      · cases restarted
        rfl
    refine (grows ih (extends_commit ran) step member).trans (.of_trees (fun l => ?_) (by rw [kept]))
    rw [ledgers]

/-! ## Heights in the past -/

/-- The answer for a height depends on what was saved at it, and for the voting power on the
parameters. -/
theorem answer_congr {E : EvmLib} {Q : QueryLib E} {B : Archive}
    (positive : 0 < height)
    (ledgers : ∀ l, A.immutableAt l height = B.immutableAt l height)
    (root : A.evmRoot height = B.evmRoot height)
    (params : path = .votingPower → A.govParams = B.govParams) (data : HexBytes) :
    answer Q A path data height = answer Q B path data height := by
  cases path with
  | votingPower => simp only [answer, ledgers, params rfl]
  | vmCall => simp only [answer, queryVM, if_neg (not_le.mpr positive), ledgers, root]
  | _ => simp only [answer, ledgers]

/-- What a run has saved at the height of a block it has committed. -/
theorem Run.saved_at (ran : Run X mayRestart genesis phase steps s)
    {earlier later : List (Step X.evm)} {step : Step X.evm} (same : steps = earlier ++ step :: later)
    (commit : step.call = .commit) :
    Heights .idle (earlier ++ [step]) step.after ∧ blocks (earlier ++ [step]) = blocks earlier + 1 ∧
      (∀ l, ((App.node s).ledgers l).tree.lazyLoadVersion (blocks earlier + 1) =
        (step.after.ledgers l).tree.lazyLoadVersion (blocks earlier + 1)) ∧
      s.disk.evmRoot (blocks earlier + 1) = step.after.disk.evmRoot (blocks earlier + 1) := by
  obtain ⟨phase₁, s₁, phase₂, s₂, before, started, next, called, ended⟩ := ran.split same
  obtain ⟨node, call, response, node'⟩ := step
  obtain rfl : node = App.node s₁ := started
  obtain rfl : node' = App.node s₂ := ended
  obtain rfl : call = .commit := commit
  obtain ⟨appHash, rfl, committed⟩ := consensus_commit_ok (run_node_ok called)
  have heights := before.heights
  cases phase₁ <;> cases next
  have count : blocks (earlier ++ [⟨App.node s₁, .commit, .commit appHash, App.node s₂⟩]) =
      blocks earlier + 1 := blocks_append earlier _
  have heights' := heights.commit committed
  have version (l : LedgerId) : ((App.node s₂).ledgers l).tree.version = blocks earlier + 1 := by
    rw [heights'.versions l, count, Nat.cast_add, Nat.cast_one]
  have kept : Extends (App.node s₂) (App.node s) := by
    refine ran.extends ⟨App.node s₁, .commit, .commit appHash, App.node s₂⟩ ?_
    rw [same]
    exact List.mem_append_right _ List.mem_cons_self
  refine ⟨heights', count, fun l => ?_, kept.roots _ (version .params).ge⟩
  exact lazyLoadVersion_of_isPrefix (kept.versions l) (by omega) (version l).ge

/-- In every run, the answer for the height of a block that was committed is the answer that was
given for the last height right after its commit; for the voting power, if the parameters are the
same. -/
theorem Run.query_committed (ran : Run X mayRestart genesis phase steps s)
    {earlier later : List (Step X.evm)} {step : Step X.evm} (same : steps = earlier ++ step :: later)
    (commit : step.call = .commit) (Q : QueryLib X.evm) {req : RequestQuery}
    (height : req.height = blocks earlier + 1)
    (params : req.path = .votingPower → s.mem.govParams = step.after.mem.govParams) :
    query finalityImpl Q req s = query storeImpl Q { req with height := 0 } step.after := by
  obtain ⟨heights, count, ledgers, root⟩ := ran.saved_at same commit
  have last := heights.last
  rw [count, Option.map_eq_some_iff] at last
  obtain ⟨bctx, found, number⟩ := last
  rw [Nat.cast_add, Nat.cast_one] at number
  unfold query
  rw [if_neg (by omega), if_pos rfl, found]
  simp only
  rw [number, height]
  congr 1
  exact answer_congr (by omega) ledgers root params req.data

/-- No path has an answer for a height at which nothing was saved. -/
theorem answer_unsaved {E : EvmLib} {Q : QueryLib E} {data : HexBytes} (positive : 0 < height)
    (missing : ∀ l, ∃ text, A.immutableAt l height = .error (.fromErr text))
    (addressed : path = .vmCall → 2 * addrSize ≤ data.length) :
    ∃ e, answer Q A path data height = .error (.xerr e) ∧ e.code ≠ 0 := by
  choose text failing using missing
  have refused {result : Except Fault Answer} (l : LedgerId)
      (failed : result = .error (.xerr (XError.errQuery.wrap (.fromErr (text l))))) :
      ∃ e, result = .error (.xerr e) ∧ e.code ≠ 0 := ⟨_, failed, Nat.succ_ne_zero 999⟩
  cases path with
  | account => exact refused .accounts (by simp only [answer, failing]; rfl)
  | stakes | totalPower | votingPower | delegatee =>
    exact refused .delegatees (by simp only [answer, failing]; rfl)
  | reward => exact refused .rewards (by simp only [answer, failing]; rfl)
  | govParams => exact refused .params (by simp only [answer, failing]; rfl)
  | proposal =>
    refine refused .proposals ?_
    simp only [answer, failing]
    split <;> rfl
  | unknown => exact ⟨_, rfl, by decide⟩
  | vmCall =>
    simp only [answer, queryVM, if_neg (not_lt.mpr (addressed rfl)), if_neg (not_le.mpr positive),
      failing]
    cases Q.blockTime height with
    | error err => exact ⟨.fromErr err, rfl, Nat.succ_ne_zero 0⟩
    | ok time => exact ⟨.fromErr (text .accounts), rfl, Nat.succ_ne_zero 0⟩

/-- A height above that of the last block is refused. -/
theorem Run.query_refused (ran : Run X mayRestart genesis phase steps s) (Q : QueryLib X.evm)
    {req : RequestQuery} (above : (blocks steps : Int) < req.height)
    (addressed : req.path = .vmCall → 2 * addrSize ≤ req.data.length) :
    ∃ response, query finalityImpl Q req s = .ok response ∧ response.code ≠ 0 ∧
      response.value = none := by
  have positive : 0 < req.height := (Int.natCast_nonneg _).trans_lt above
  have missing (l : LedgerId) : ∃ text,
      (archive finalityImpl s).immutableAt l req.height = .error (.fromErr text) := by
    have version : (finalityImpl.tree l (s.ledgers l)).version = blocks steps :=
      ran.heights.versions l
    exact ⟨_, if_pos (version.trans_lt above)⟩
  obtain ⟨e, failed, known⟩ := answer_unsaved positive missing addressed (Q := Q)
  refine ⟨⟨e.code, e.error, req.data, req.height, none⟩, ?_, known, rfl⟩
  unfold query
  simp only [if_neg positive.ne', failed, respondQuery]

/-! ## What the answers say -/

/-- A commit saves what the store holds. -/
theorem lazyLoadVersion_commit {T : Type} [LedgerItem T] (stored : Store T) :
    stored.commit.tree.lazyLoadVersion (stored.tree.version + 1) = .ok stored.commit.tree.contents := by
  have natural : (0 : Int) ≤ stored.tree.version := Int.natCast_nonneg _
  unfold Tree.lazyLoadVersion
  rw [version_commit, if_neg (lt_irrefl _), if_neg (by omega), versions_commit]
  simp [Tree.version]

/-- The account that is reported for the height of a block is the one that the block left in the
ledger, or a new one. -/
theorem Run.account_reported (ran : Run X mayRestart genesis phase steps s)
    {earlier later : List (Step X.evm)} {step : Step X.evm} (same : steps = earlier ++ step :: later)
    (commit : step.call = .commit) (Q : QueryLib X.evm) (data : HexBytes) :
    query finalityImpl Q ⟨.account, data, blocks earlier + 1⟩ s =
      .ok ⟨0, "", data, blocks earlier + 1, some (.account
        ((Stores.account step.before.ledgers data).getD (Account.newAccount data)))⟩ := by
  obtain ⟨-, -, ledgers, -⟩ := ran.saved_at same commit
  obtain ⟨phase₁, s₁, phase₂, s₂, before, started, -, called, ended⟩ := ran.split same
  have ran' := run_node_ok called
  rw [← started, ← ended, commit] at ran'
  obtain ⟨appHash, -, committed⟩ := consensus_commit_ok ran'
  obtain ⟨bctx, state, -, -, -, after, -, -⟩ := commit_ok committed
  have version : (step.before.ledgers .accounts).tree.version = blocks earlier := by
    rw [started]
    exact before.heights.versions .accounts
  have removed : (step.before.ledgers .accounts).removed = [] := by
    rw [started]
    exact before.accounts_removed
  have loaded : (archive finalityImpl s).immutableAt .accounts (blocks earlier + 1) =
      .ok (step.before.ledgers .accounts).commit.tree.contents := by
    refine (ledgers .accounts).trans ?_
    rw [after, ← version]
    exact lazyLoadVersion_commit _
  have read : (step.before.ledgers .accounts).commit.tree.contents.find? (toLedgerKey data) =
      Stores.account step.before.ledgers data := by
    have kept := lookup_commit (step.before.ledgers .accounts) (toLedgerKey data)
    rw [Stores.account, lookup_eq, removed, if_neg List.not_mem_nil]
    rw [removed, if_neg List.not_mem_nil] at kept
    exact kept
  unfold query
  rw [if_neg (by simp only; omega)]
  simp only [answer, AcctCtrler.query, loaded, queried, Except.mapError, bind, Except.bind,
    ItemMap.read_eq, read]
  cases Stores.account step.before.ledgers data <;> rfl

end

/-! ## A chain with a committed block -/

/-- A library for queries on the calm chain. -/
def calmLib : QueryLib calm.evm := ⟨fun _ => .ok 0, calm.evm.applyMessage⟩

/-- The calm chain after the end of its second block. -/
def secondEnd : App calm.evm := (runCalls calm finalityImpl toSecondEnd selectedStart).2

def secondEndSteps : List (Step calm.evm) := [] ++ stepsOf calm toSecondEnd selectedStart

theorem run_secondEnd : Run calm false oneSelected .ended secondEndSteps secondEnd :=
  (Run.start (eq_ok_of_isSome _)).calls toSecondEnd rfl (by decide +kernel)

theorem exists_commit : ∃ earlier step later, secondEndSteps = earlier ++ step :: later ∧
    step.call = .commit := by
  have positive : 0 < blocks secondEndSteps := by decide +kernel
  obtain ⟨step, member, call⟩ := List.countP_pos_iff.mp positive
  obtain ⟨earlier, later, same⟩ := List.append_of_mem member
  exact ⟨earlier, step, later, same, of_decide_eq_true call⟩

theorem Run.query_committed_first : ∃ earlier step later,
    secondEndSteps = earlier ++ step :: later ∧ step.call = .commit ∧
    query finalityImpl calmLib ⟨.stakes, addr 1, blocks earlier + 1⟩ secondEnd =
      query storeImpl calmLib ⟨.stakes, addr 1, 0⟩ step.after := by
  obtain ⟨earlier, step, later, same, commit⟩ := exists_commit
  exact ⟨earlier, step, later, same, commit, Run.query_committed run_secondEnd same commit calmLib
    rfl fun path => by cases path⟩

theorem Run.query_refused_second : ∃ response, query finalityImpl calmLib
    ⟨.vmCall, addr 1 ++ addr 2, 2⟩ secondEnd = .ok response ∧
    response.code ≠ 0 ∧ response.value = none :=
  Run.query_refused run_secondEnd calmLib (by decide +kernel) (by decide)

theorem Run.account_reported_first : ∃ earlier step later,
    secondEndSteps = earlier ++ step :: later ∧ step.call = .commit ∧
    query finalityImpl calmLib ⟨.account, addr 1, blocks earlier + 1⟩ secondEnd =
      .ok ⟨0, "", addr 1, blocks earlier + 1, some (.account ((Stores.account
        step.before.ledgers (addr 1)).getD (Account.newAccount (addr 1))))⟩ := by
  obtain ⟨earlier, step, later, same, commit⟩ := exists_commit
  exact ⟨earlier, step, later, same, commit, Run.account_reported run_secondEnd same commit calmLib _⟩

end RigoApp

end Rigo
