import Rigo.Node.Footprint

/-!
# The state of a node

A node holds the seven ledgers, the stake limiter, the EVM controller, the fields
of the application and of the controllers that live in memory only (`Mem`), and the
small databases beside the ledgers (`Disk`).

The state is generic in how a ledger is implemented.  `App` has the ledgers of the
source, with their caches and their simulation mode; `Node` has a `Store` for each.
`trxHandler` and `nodeHandler` run programs on either.
-/

namespace Rigo

open Foundation

variable {pubKey : HexBytes} {ls : Stores} {ctx : TrxContext} {lib : TrxLib}

/-! ## Third-party code -/

/-- The libraries the application calls. -/
structure External where
  trx : TrxLib
  json : ParamsJSON
  sort : OptionSort
  evm : EvmLib
  /-- The root hash of an IAVL tree, from the operations that built it. -/
  rootHash : (l : LedgerId) → List (TreeOp (LedgerItem.Encoded l.Item)) → HexBytes

/-- `crypto.DefaultHash`. -/
abbrev External.defaultHash (X : External) : List HexBytes → HexBytes := X.trx.defaultHash

/-- `crypto.PubBytes2Addr`. -/
abbrev External.pubBytes2Addr (X : External) : HexBytes → Address := X.trx.pubBytes2Addr

/-! ## Memory and databases -/

/-- `BlockContext`. -/
structure BlockContext where
  blockInfo : BlockInfo
  feeSum : Uint256
  appHash : HexBytes
  valUpdates : List ValidatorUpdate
  deriving DecidableEq

/-- The fields of `RigoApp`, `GovCtrler` and `StakeCtrler` that are not databases. -/
structure Mem where
  lastBlockCtx : Option BlockContext
  nextBlockCtx : Option BlockContext
  chainID : String
  govParams : GovParams
  newGovParams : Option GovParams
  allDelegatees : List Delegatee
  lastValidators : Validators
  lastRwdHash : HexBytes
  deriving DecidableEq

/-- The meta databases of the application, of the stake controller (`rewardHash`)
and of the EVM controller. -/
structure Disk where
  chainID : String
  lastBlockContext : Option BlockContext
  lastBlockHeight : Int
  rewardHash : HexBytes
  evmHeight : Int
  evmRoot : Int → HexBytes

/-- `GovParams{}`. -/
def emptyGovParams : GovParams :=
  ⟨0, 0, 0, 0, 0, 0, 0, 0, 0, 0, 0, 0, 0, 0, 0, 0, 0, 0, 0⟩

/-- Databases in which nothing was written. -/
def Disk.empty : Disk where
  chainID := ""
  lastBlockContext := none
  lastBlockHeight := 0
  rewardHash := []
  evmHeight := 0
  evmRoot _ := []

/-- What the controllers work on, with ledgers implemented by `L`. -/
structure Resources (L : LedgerId → Type) (E : EvmLib) where
  ledgers : (l : LedgerId) → L l
  limiter : StakeLimiter
  evm : EvmMem E

/-- What the controllers work on, with a store for every ledger. -/
abbrev Workspace (E : EvmLib) := Resources (fun l => Store l.Item) E

/-- The state of a node. -/
structure State (L : LedgerId → Type) (E : EvmLib) extends Resources L E where
  mem : Mem
  disk : Disk

/-- The state of the program: every ledger with its caches and both modes. -/
abbrev App (E : EvmLib) := State (fun l => FinalityLedger l.Item) E

/-- The state that matters to consensus: every ledger is a store. -/
abbrev Node (E : EvmLib) := State (fun l => Store l.Item) E

/-! ## Running programs -/

section

variable {L : LedgerId → Type} {E : EvmLib}

/-- One operation of a controller. -/
def trxStep (impl : LedgerImpl L) {β : Type} :
    TrxOp E β → Resources L E → β × Resources L E
  | .inl op, s =>
    ((ledgerStep impl op s.ledgers).1, { s with ledgers := (ledgerStep impl op s.ledgers).2 })
  | .inr .getLimiter, s => (s.limiter, s)
  | .inr (.setLimiter sl), s => ((), { s with limiter := sl })
  | .inr .getEvm, s => (s.evm, s)
  | .inr (.setEvm m), s => ((), { s with evm := m })

/-- Run the code of the controllers. -/
def trxHandler (impl : LedgerImpl L) : Handler (TrxOp E) (Resources L E) where
  step op s := trxStep impl op s

/-- Code that works on the ledgers only leaves everything else as it is. -/
@[simp] theorem run_ledger (impl : LedgerImpl L) {α : Type} (p : LedgerProg α)
    (s : Resources L E) :
    run (trxHandler impl) (Ctrler.ledger p) s =
      ((run (ledgerHandler impl) p s.ledgers).1,
        { s with ledgers := (run (ledgerHandler impl) p s.ledgers).2 }) := by
  unfold Ctrler.ledger
  induction p generalizing s with
  | pure value => rfl
  | fail fault => rfl
  | call op next ih => exact ih _ _

/-- Code on the ledgers that a controller has run. -/
theorem run_ledger_ok {α : Type} {p : LedgerProg α} {r r' : Workspace E} {value : α}
    (ran : run (trxHandler storeImpl) (Ctrler.ledger p) r = (.ok value, r')) :
    ∃ ls, exec p r.ledgers = (.ok value, ls) ∧ r' = { r with ledgers := ls } := by
  rw [run_ledger] at ran
  obtain ⟨outcome, rfl⟩ := Prod.mk.inj ran
  exact ⟨_, Prod.ext outcome rfl, rfl⟩

theorem run_ledger_of_exec {α : Type} {p : LedgerProg α} {r : Workspace E}
    {outcome : Except Fault α} (ran : exec p r.ledgers = (outcome, ls)) :
    run (trxHandler storeImpl) (Ctrler.ledger p) r = (outcome, { r with ledgers := ls }) := by
  rw [run_ledger, show run (ledgerHandler storeImpl) p r.ledgers = (outcome, ls) from ran]

/-- What code within a contract keeps of the limiter and the EVM. -/
theorem run_within (impl : LedgerImpl L) {α : Type} {S : LedgerId → Prop} {limiter : Prop}
    {exec : Bool} {p : Ctrler E α} {r : Resources L E}
    (obeys : Obeys (within S limiter exec r.evm.lastRootHash r.evm.lastBlockHeight)
      (fun _ => True) p) :
    (¬ limiter → (run (trxHandler impl) p r).2.limiter = r.limiter) ∧
      (exec = false → (run (trxHandler impl) p r).2.evm = r.evm) ∧
      (run (trxHandler impl) p r).2.evm.lastRootHash = r.evm.lastRootHash ∧
      (run (trxHandler impl) p r).2.evm.lastBlockHeight = r.evm.lastBlockHeight := by
  refine (Obeys.run (trxHandler impl) (I := fun r' => (¬ limiter → r'.limiter = r.limiter) ∧
    (exec = false → r'.evm = r.evm) ∧ r'.evm.lastRootHash = r.evm.lastRootHash ∧
      r'.evm.lastBlockHeight = r.evm.lastBlockHeight) ?_ obeys
    ⟨fun _ => rfl, fun _ => rfl, rfl, rfl⟩).2
  intro β op r' kept asks
  cases op with
  | inl op => exact ⟨trivial, kept⟩
  | inr op =>
    cases op with
    | getLimiter => exact ⟨trivial, kept⟩
    | setLimiter sl => exact ⟨trivial, fun unused => absurd asks unused, kept.2⟩
    | getEvm => exact ⟨kept.2.2, kept⟩
    | setEvm m =>
      obtain ⟨inBlock, root, height⟩ := asks
      refine ⟨trivial, kept.1, fun outside => ?_, root, height⟩
      simp [outside] at inBlock

/-- A store that the code does not write is left as it is. -/
theorem run_frame {α : Type} {S : LedgerId → Prop} {limiter : Prop} {exec : Bool}
    {root : HexBytes} {height : Int} {p : Ctrler E α} {r : Workspace E}
    (obeys : Obeys (within S limiter exec root height) (fun _ => True) p)
    (kept : r.evm.lastRootHash = root ∧ r.evm.lastBlockHeight = height) {l : LedgerId}
    (other : ¬ S l) : (run (trxHandler storeImpl) p r).2.ledgers l = r.ledgers l := by
  refine (Obeys.run (trxHandler storeImpl) (I := fun r' => r'.ledgers l = r.ledgers l ∧
    r'.evm.lastRootHash = root ∧ r'.evm.lastBlockHeight = height) ?_ obeys ⟨rfl, kept⟩).2.1
  intro β op r' ⟨same, kept⟩ asks
  cases op with
  | inl op => exact ⟨trivial, (ledgerStep_frame asks other r'.ledgers).trans same, kept⟩
  | inr op =>
    cases op with
    | getLimiter => exact ⟨trivial, same, kept⟩
    | setLimiter sl => exact ⟨trivial, same, kept⟩
    | getEvm => exact ⟨kept, same, kept⟩
    | setEvm m => exact ⟨trivial, same, asks.2⟩

/-- Code of the controllers does not change the committed trees. -/
theorem run_tree {α : Type} (p : Ctrler E α) (r : Workspace E) (l : LedgerId) :
    ((run (trxHandler storeImpl) p r).2.ledgers l).tree = (r.ledgers l).tree := by
  refine run_preserves (trxHandler storeImpl)
    (fun r' => (r'.ledgers l).tree = (r.ledgers l).tree) ?_ p rfl
  intro β op r' same
  cases op with
  | inl op => exact (ledgerStep_tree op r'.ledgers l).trans same
  | inr op => cases op <;> exact same

/-! ## Validated transactions -/

namespace TrxExecutor

/-- The part of `validateTrx` that depends on the type of the transaction. -/
def validateByType (json : ParamsJSON) (ctx : TrxContext) : Ctrler E Unit :=
  match ctx.tx.type with
  | .proposal | .voting => Ctrler.ledger (GovCtrler.validateTrx json ctx)
  | .transfer | .setDoc => Ctrler.ledger (AcctCtrler.validateTrx ctx)
  | .staking | .unstaking | .withdraw => StakeCtrler.validateTrx ctx
  | .contract => Ctrler.ledger (EvmCtrler.validateTrx E ctx)

/-- The common checks come first. -/
theorem validateTrx_eq (lib : TrxLib) (json : ParamsJSON) (ctx : TrxContext) :
    (validateTrx lib json ctx : Ctrler E HexBytes) =
      (Ctrler.ledger (commonValidation0 lib ctx)).bind fun pubKey =>
        (Ctrler.ledger (commonValidation1 ctx)).bind fun _ =>
          (validateByType json ctx).bind fun _ => .pure pubKey := by
  unfold validateTrx validateByType
  cases ctx.tx.type <;> rfl

/-- What `commonValidation0` has checked. -/
structure CommonlyValid (lib : TrxLib) (ctx : TrxContext) (pubKey : HexBytes) : Prop where
  sender : ctx.tx.fromAddr.length = addrSize
  receiver : ctx.tx.toAddr.length = addrSize
  amount : ctx.tx.amount.isNegative = false
  gas : ctx.tx.gas < 2 ^ 63
  gasPrice : ctx.tx.gasPrice.isNegative = false ∧ ctx.tx.gasPrice = ctx.params.gasPrice
  fee : ¬ gasToFee ctx.tx.gas ctx.tx.gasPrice < ctx.params.minTrxFee
  signed : ctx.exec = true →
    Trx.verifyTrxRLP lib ctx.tx ctx.chainID = .ok (ctx.tx.fromAddr, pubKey)

theorem verifyTrxRLP_ok {tx : Trx} {chainID : String} {addr : Address}
    (verified : Trx.verifyTrxRLP lib tx chainID = .ok (addr, pubKey)) :
    addr = tx.fromAddr ∧
      lib.sig2Addr (Trx.preImageToSignTrxRLP tx chainID) tx.sig = .ok (addr, pubKey) := by
  unfold Trx.verifyTrxRLP at verified
  split at verified
  · cases verified
  · next recovered =>
    split at verified
    · cases verified
    · next same =>
      cases verified
      exact ⟨not_not.mp same, recovered⟩

theorem commonValidation0_ok  {ls' : Stores}
    (ran : Rigo.exec (commonValidation0 lib ctx) ls = (.ok pubKey, ls')) :
    CommonlyValid lib ctx pubKey ∧ ls = ls' := by
  obtain ⟨sender, ran⟩ := run_ensure_ok ran
  obtain ⟨receiver, ran⟩ := run_ensure_ok ran
  obtain ⟨amount, ran⟩ := run_ensure_ok ran
  obtain ⟨gas, ran⟩ := run_ensure_ok ran
  obtain ⟨gasPrice, ran⟩ := run_ensure_ok ran
  obtain ⟨fee, ran⟩ := run_ensure_ok ran
  have valid (signed : ctx.exec = true →
      Trx.verifyTrxRLP lib ctx.tx ctx.chainID = .ok (ctx.tx.fromAddr, pubKey)) :
      CommonlyValid lib ctx pubKey :=
    ⟨eq_of_beq sender, eq_of_beq receiver, by simpa using amount, of_decide_eq_true gas,
      of_decide_eq_true gasPrice, of_decide_eq_true fee, signed⟩
  split at ran
  · obtain ⟨⟨addr, key⟩, verified, ran⟩ := run_ofExcept_ok ran
    cases ran
    obtain ⟨rfl, -⟩ := verifyTrxRLP_ok verified
    exact ⟨valid fun _ => verified, rfl⟩
  · next unchecked =>
    cases ran
    exact ⟨valid fun checked => absurd checked unchecked, rfl⟩

theorem commonValidation1_ok {ls' : Stores}
    (ran : Rigo.exec (commonValidation1 ctx) ls = (.ok (), ls')) :
    ls = ls' ∧ ∃ sender, ls.account ctx.tx.fromAddr = some sender ∧
      sender.checkBalance (gasToFee ctx.tx.gas ctx.tx.gasPrice + ctx.tx.amount) = .ok () ∧
      sender.nonce = ctx.tx.nonce := by
  unfold commonValidation1 at ran
  rw [exec_bind, AcctCtrler.exec_accountAt] at ran
  cases found : ls.account ctx.tx.fromAddr with
  | none =>
    rw [found] at ran
    cases ran
  | some sender =>
    rw [found] at ran
    obtain ⟨_, balance, ran⟩ := run_ofExcept_ok ran
    cases checked : sender.checkNonce ctx.tx.nonce with
    | error e =>
      rw [checked] at ran
      cases ran
    | ok _ =>
      rw [checked] at ran
      cases ran
      refine ⟨rfl, sender, rfl, balance, ?_⟩
      unfold Account.checkNonce at checked
      split at checked
      · cases checked
      · next same => exact not_not.mp same

/-- A transaction that is valid passed the common checks and those for its type; the ledgers
stay as they are. -/
theorem validateTrx_ok {json : ParamsJSON} {r r' : Workspace E}
    (ran : run (trxHandler storeImpl) (validateTrx lib json ctx) r = (.ok pubKey, r')) :
    CommonlyValid lib ctx pubKey ∧
      Rigo.exec (commonValidation1 ctx) r.ledgers = (.ok (), r.ledgers) ∧
      run (trxHandler storeImpl) (validateByType json ctx) r = (.ok (), r') := by
  rw [validateTrx_eq] at ran
  obtain ⟨pubKey', r₁, first, ran⟩ := run_bind_ok ran
  obtain ⟨_, r₂, second, ran⟩ := run_bind_ok ran
  obtain ⟨ls₁, checked₀, rfl⟩ := run_ledger_ok first
  obtain ⟨valid, rfl⟩ := commonValidation0_ok checked₀
  obtain ⟨ls₂, checked₁, rfl⟩ := run_ledger_ok second
  obtain ⟨rfl, -⟩ := commonValidation1_ok checked₁
  obtain ⟨_, r₃, checked, ended⟩ := run_bind_ok ran
  cases ended
  exact ⟨valid, checked₁, checked⟩

/-- Validation does not change the ledgers. -/
theorem ledgers_validateTrx (lib : TrxLib) (json : ParamsJSON) (ctx : TrxContext)
    (r : Workspace E) :
    (run (trxHandler storeImpl) (validateTrx lib json ctx) r).2.ledgers = r.ledgers := by
  funext l
  have obeys : Obeys (within (fun _ => False) True true r.evm.lastRootHash r.evm.lastBlockHeight)
      (fun _ => True) (validateTrx lib json ctx : Ctrler E HexBytes) :=
    obeys_validateTrx lib json ctx fun _ => trivial
  exact run_frame obeys ⟨rfl, rfl⟩ id

/-- A transaction fails its validation and leaves the ledgers, or it is run on them. -/
theorem executeSync_cases (lib : TrxLib) (json : ParamsJSON) (ctx : TrxContext)
    (r : Workspace E) :
    (∃ fault r', run (trxHandler storeImpl) (executeSync lib json ctx) r = (.error fault, r') ∧
      r'.ledgers = r.ledgers) ∨
    ∃ pubKey r', run (trxHandler storeImpl) (validateTrx lib json ctx) r = (.ok pubKey, r') ∧
      r'.ledgers = r.ledgers ∧ run (trxHandler storeImpl) (executeSync lib json ctx) r =
        run (trxHandler storeImpl) (runTrx ctx pubKey) r' := by
  have kept := ledgers_validateTrx lib json ctx r
  have sequence : run (trxHandler storeImpl) (executeSync lib json ctx) r = andThen
      (fun pubKey => run (trxHandler storeImpl) (runTrx ctx pubKey))
      (run (trxHandler storeImpl) (validateTrx lib json ctx) r) := run_bind ..
  generalize run (trxHandler storeImpl) (validateTrx lib json ctx) r = validated at kept sequence ⊢
  obtain ⟨outcome, r'⟩ := validated
  cases outcome with
  | error fault => exact .inl ⟨fault, r', sequence, kept⟩
  | ok pubKey => exact .inr ⟨pubKey, r', rfl, kept, sequence⟩

end TrxExecutor

/-- What the application does besides: it reads and writes the memory and the
databases, and it commits ledgers. -/
inductive AppOp : Type → Type where
  | getMem : AppOp Mem
  | setMem (m : Mem) : AppOp Unit
  | commitLedger (l : LedgerId) : AppOp (HexBytes × Int)
  | putRewardHash (hash : HexBytes) : AppOp Unit
  | commitTrie : AppOp HexBytes
  | putEvmMeta (height : Int) (root : HexBytes) : AppOp Unit
  | putLastBlockContext (bctx : BlockContext) : AppOp Unit
  | putLastBlockHeight (height : Int) : AppOp Unit
  | putChainID (chainID : String) : AppOp Unit

/-- The operations of the application. -/
abbrev NodeOp (E : EvmLib) (β : Type) := TrxOp E β ⊕ AppOp β

/-- The operations that change what a new process finds on disk. -/
def AppOp.durable {β : Type} : AppOp β → Bool
  | getMem => false
  | setMem _ => false
  | commitLedger _ => true
  | putRewardHash _ => true
  | commitTrie => true
  | putEvmMeta _ _ => true
  | putLastBlockContext _ => true
  | putLastBlockHeight _ => true
  | putChainID _ => true

/-- The operations that change what a new process finds on disk. -/
def durable {β : Type} : NodeOp E β → Bool
  | .inl _ => false
  | .inr op => op.durable

end

/-- One operation of the application on a state. -/
def appStep {L : LedgerId → Type} (X : External) (impl : LedgerImpl L) {β : Type} :
    AppOp β → State L X.evm → β × State L X.evm
  | .getMem, s => (s.mem, s)
  | .setMem m, s => ((), { s with mem := m })
  | .commitLedger l, s =>
    let saved := impl.commit l (s.ledgers l)
    ((X.rootHash l (impl.tree l saved).log, (impl.tree l saved).version),
      { s with ledgers := Function.update s.ledgers l saved })
  | .putRewardHash hash, s => ((), { s with disk := { s.disk with rewardHash := hash } })
  | .commitTrie, s =>
    -- the nodes of the trie are stored under their hashes
    ((s.evm.stateDB.map X.evm.commit).getD [], s)
  | .putEvmMeta height root, s =>
    ((), { s with disk := { s.disk with
      evmHeight := height
      evmRoot := Function.update s.disk.evmRoot height root } })
  | .putLastBlockContext bctx, s =>
    ((), { s with disk := { s.disk with lastBlockContext := some bctx } })
  | .putLastBlockHeight height, s =>
    ((), { s with disk := { s.disk with lastBlockHeight := height } })
  | .putChainID chainID, s => ((), { s with disk := { s.disk with chainID := chainID } })

/-- Run the code of the application on a state. -/
def nodeHandler {L : LedgerId → Type} (X : External) (impl : LedgerImpl L) :
    Handler (NodeOp X.evm) (State L X.evm) where
  step op s :=
    match op with
    | .inl op =>
      ((trxStep impl op s.toResources).1, { s with toResources := (trxStep impl op s.toResources).2 })
    | .inr op => appStep X impl op s

end Rigo
