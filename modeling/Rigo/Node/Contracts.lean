import Rigo.Node.Accounts
import Rigo.Node.Runs

/-!
# Contracts

Whether an address has code is kept twice: in the state of geth, and in the account, whose `Code`
is the hash of the transaction that created the contract.  A plain transfer goes to the EVM if the
account of its receiver has code.

Only a creation by a transaction is recorded in the account.  If code comes and goes in no other
way, and every creation leaves code, then both copies agree in every run (`Run.contracts_recognised`).
A contract that is created by another one is not recognised (`Run.childContract`).
-/

namespace Rigo

open Foundation
open AcctCtrler Ctrler EvmCtrler

/-! ## geth -/

/-- Which addresses have code in a state of geth, and what is assumed of it: code is not changed by
loading an account, it is found again under the root hash of the state, and there is none at the
beginning; addresses have 20 bytes and hashes are not empty. -/
structure Codes (X : External) where
  hasCode : X.evm.State → Address → Prop
  setAccount : ∀ state addr nonce balance a,
    hasCode (X.evm.setAccount state addr nonce balance) a ↔ hasCode state a
  reopened : ∀ state a, hasCode (X.evm.new (X.evm.commit state)) a ↔ hasCode state a
  empty : ∀ a, ¬ hasCode (X.evm.new []) a
  created : ∀ sender nonce, (X.evm.createAddress sender nonce).length = addrSize
  hash : ∀ txbz, X.trx.txHash txbz ≠ []

namespace EvmCtrler

/-- The state of geth, which is opened when the first block begins. -/
def stateOf {E : EvmLib} (m : EvmMem E) : E.State := m.stateDB.getD (E.new m.lastRootHash)

/-- What geth does with a transaction. -/
def apply {E : EvmLib} (ctx : TrxContext) (m : EvmMem E) (state : E.State) :
    LedgerProg (Applied E.State) := do
  let (prepared, accessed) ← prepare state (E.snapshot state) ctx.tx.fromAddr ctx.tx.toAddr
  runEvm (E.applyMessage prepared (evmMessage ctx m) m.blockGasPool) accessed (E.snapshot state)

/-- The contract that a transaction creates. -/
def createdBy (E : EvmLib) (tx : Trx) : Option Address :=
  if isZeroAddress tx.toAddr then some (E.createAddress (array20 tx.fromAddr) tx.nonce) else none

/-- If geth succeeds with a transaction then there is code where there was some before, and where
the transaction has created a contract. -/
def DeploysOnly {X : External} (codes : Codes X) (ctx : TrxContext) (m : EvmMem X.evm)
    (state : X.evm.State) (ls : Stores) : Prop :=
  ∀ applied executed, (exec (apply ctx m state) ls).1 = .ok applied → applied.result = .ok executed →
    executed.err = none → ∀ addr : Address, addr.length = addrSize →
      (codes.hasCode (X.evm.finalise applied.state) addr ↔
        codes.hasCode state addr ∨ createdBy X.evm ctx.tx = some addr)

end EvmCtrler

/-! ## Codes that are kept -/

/-- The codes of the accounts are `c`. -/
abbrev HasCode (c : LedgerKey → HexBytes) : LedgerKey → Option Account → Prop :=
  OnAccount fun k _ code => code = c k

/-- The code keeps the codes of the accounts. -/
abbrev KeepsCodes {α : Type} (p : LedgerProg α) : Prop :=
  ∀ c : LedgerKey → HexBytes, Keeps .accounts (HasCode c) p

instance {c : LedgerKey → HexBytes} : Unnumbered (HasCode c) where
  kept _ code holds := by
    unfold HasCode OnAccount codeIn at holds ⊢
    rw [Option.map_some, code]
    exact holds

theorem EvmCtrler.keepsCodes_finish {E : EvmLib} (state : E.State) (accessed : Accessed) :
    KeepsCodes (finish state accessed) :=
  fun _ => keeps_finish (Q := fun _ => True) (fun _ => id) state fun _ _ => trivial

/-! ## Transactions -/

/-- The codes in some stores. -/
def codesOf (ls : Stores) (k : LedgerKey) : HexBytes := codeIn ((ls .accounts).lookup k)

theorem codesOf_account {ls : Stores} {addr : Address} {acct : Account}
    (found : ls.account addr = some acct) : codesOf ls (toLedgerKey addr) = acct.code := by
  rw [codesOf, show (ls .accounts).lookup _ = some acct from found]
  rfl

/-- The accounts with a code are those of the addresses that have code in geth. -/
structure Recognised {X : External} (codes : Codes X) (r : Workspace X.evm) : Prop where
  removed : (r.ledgers .accounts).removed = []
  agree : ∀ addr : Address, addr.length = addrSize →
    (codesOf r.ledgers (toLedgerKey addr) ≠ [] ↔ codes.hasCode (EvmCtrler.stateOf r.evm) addr)

/-- The outcome of code that did not panic, with accounts that are recognised. -/
def Ends {X : External} {α : Type} (codes : Codes X) : Except Fault α × Workspace X.evm → Prop
  | (.error (.panic _), _) => True
  | (.error (.xerr _), r) => Recognised codes r
  | (.ok _, r) => Recognised codes r

section

variable {X : External} {codes : Codes X} {α β : Type} {r : Workspace X.evm}

theorem Recognised.keeps (recognised : Recognised codes r) {c : LedgerKey → HexBytes}
    {ls : Stores} (same : codesOf r.ledgers = c) (holds : Holds .accounts (HasCode c) ls) :
    Recognised codes { r with ledgers := ls } := by
  refine ⟨holds.1, fun addr size => ?_⟩
  rw [show codesOf ls (toLedgerKey addr) = c (toLedgerKey addr) from holds.2 _, ← same]
  exact recognised.agree addr size

theorem Recognised.exec (recognised : Recognised codes r) {p : LedgerProg β}
    (keeps : KeepsCodes p) : Recognised codes { r with ledgers := (exec p r.ledgers).2 } := by
  have holds : Holds .accounts (HasCode (codesOf r.ledgers)) r.ledgers :=
    ⟨recognised.removed, fun _ => rfl⟩
  exact recognised.keeps rfl (holds.exec (keeps _)).2

theorem Recognised.ends (recognised : Recognised codes r) (outcome : Except Fault α) :
    Ends codes (outcome, r) := by
  rcases outcome with (_ | _) | _
  · exact recognised
  · trivial
  · exact recognised

theorem Ends.bind {p : Ctrler X.evm β} {f : β → Ctrler X.evm α}
    (first : Ends codes (run (trxHandler storeImpl) p r))
    (next : ∀ v r', Recognised codes r' → Ends codes (run (trxHandler storeImpl) (f v) r')) :
    Ends codes (run (trxHandler storeImpl) (p >>= f) r) := by
  rw [Prog.bind_eq, run_bind]
  generalize run (trxHandler storeImpl) p r = ended at first ⊢
  obtain ⟨(_ | _) | v, r'⟩ := ended
  · exact first
  · trivial
  · exact next v r' first

/-- Code that keeps the codes, and what follows it. -/
theorem Recognised.bind (recognised : Recognised codes r) {p : LedgerProg β}
    {f : β → Ctrler X.evm α} (keeps : KeepsCodes p)
    (next : ∀ v ls, Rigo.exec p r.ledgers = (.ok v, ls) →
      Recognised codes { r with ledgers := ls } →
      Ends codes (run (trxHandler storeImpl) (f v) { r with ledgers := ls })) :
    Ends codes (run (trxHandler storeImpl) (ledger p >>= f) r) := by
  have kept := recognised.exec keeps
  rw [Prog.bind_eq, run_bind, run_ledger]
  change Ends codes (andThen _ ((Rigo.exec p r.ledgers).1,
    { r with ledgers := (Rigo.exec p r.ledgers).2 }))
  generalize ran : Rigo.exec p r.ledgers = ended at kept ⊢
  obtain ⟨(_ | _) | v, ls⟩ := ended
  · exact kept
  · trivial
  · exact next v ls ran kept

theorem Recognised.ledger (recognised : Recognised codes r) {p : LedgerProg α}
    (keeps : KeepsCodes p) : Ends codes (run (trxHandler storeImpl) (ledger p) r) := by
  rw [run_ledger]
  exact (recognised.exec keeps).ends _

theorem Recognised.withAccount (recognised : Recognised codes r)
    (addr : Address) :
    Recognised codes { r with ledgers := Stores.withAccount r.ledgers addr } := by
  have kept := recognised.exec (p := findOrNewAccount addr) fun c =>
    (returns_findOrNewAccount addr id).mono fun _ _ => trivial
  rwa [exec_findOrNewAccount] at kept

/-- A contract was created, and its account gets a code. -/
theorem Recognised.created (recognised : Recognised codes r) {created : Address} {acct : Account}
    {m : EvmMem X.evm} (size : created.length = addrSize) {txHash : HexBytes} (hash : txHash ≠ [])
    (found : Stores.account r.ledgers created = some acct)
    (deployed : ∀ addr : Address, addr.length = addrSize →
      (codes.hasCode (stateOf m) addr ↔ codes.hasCode (stateOf r.evm) addr ∨ created = addr)) :
    Recognised codes { r with
      ledgers := Stores.put r.ledgers .accounts { acct with code := txHash }
      evm := m } := by
  have filed : LedgerItem.key acct = toLedgerKey created := Store.key_of_lookup found
  have key : LedgerItem.key ({ acct with code := txHash } : Account) = toLedgerKey created := filed
  refine ⟨?_, fun addr size' => ?_⟩
  · simp only [Stores.put_self]
    exact recognised.removed
  simp only
  rw [deployed addr size', codesOf, Stores.put_self,
    Store.lookup_set_of_removed recognised.removed, key]
  by_cases here : created = addr
  · subst here
    simp [codeIn, hash]
  · have others : toLedgerKey created ≠ toLedgerKey addr := fun same =>
      here (toLedgerKey_injOn (size.le.trans (by decide)) (size.trans size'.symm) same)
    rw [if_neg others, or_iff_left here]
    exact recognised.agree addr size'

namespace EvmCtrler

variable {ctx : TrxContext} {state : X.evm.State}

/-- An execution that was not successful leaves the state as it was. -/
theorem ends_undo (recognised : Recognised codes r) (opened : r.evm.stateDB = some state)
    (snap : Nat) (applied : Applied X.evm.State) :
    Ends codes (run (trxHandler storeImpl) (undo r.evm state snap applied) r) := by
  refine recognised.bind (keepsCodes_finish _ _) fun _ ls _ kept => ?_
  refine ⟨kept.removed, fun addr size => ?_⟩
  have same : stateOf r.evm = state := by rw [stateOf, opened]; rfl
  change codesOf ls (toLedgerKey addr) ≠ [] ↔ codes.hasCode state addr
  rw [← same]
  exact kept.agree addr size

theorem ends_execute (recognised : Recognised codes r) (opened : r.evm.stateDB = some state)
    (hash : ctx.txHash ≠ []) (deploys : DeploysOnly codes ctx r.evm state r.ledgers) :
    Ends codes (run (trxHandler storeImpl) (execute ctx r.evm state) r) := by
  have prepares (c : LedgerKey → HexBytes) := returns_prepared (P := HasCode c)
    (Q := fun _ => True) (fun _ => id) (fun _ => trivial) state (X.evm.snapshot state)
  have runs (c : LedgerKey → HexBytes) (tree : EvmRun X.evm.State) {accessed : Accessed}
      (all : AllIn (fun _ => True) accessed) :=
    returns_visits (P := HasCode c) (fun _ => id) (tree.visits_of_all fun _ => trivial) all
  refine recognised.bind (fun c => (prepares c _ _).mono fun _ _ => trivial)
    fun loaded ls₁ prepared recognised₁ =>
      recognised₁.bind (fun c => (runs c _ (fun _ _ => trivial) _).mono fun _ _ => trivial)
        fun applied ls₂ ran recognised₂ => ?_
  have whole : (exec (apply ctx r.evm state) r.ledgers).1 = .ok applied := by
    unfold apply
    rw [exec_bind, prepared, andThen_ok]
    exact congrArg Prod.fst ran
  have same : stateOf r.evm = state := by rw [stateOf, opened]; rfl
  split
  · exact (ends_undo (r := { r with ledgers := ls₂ }) recognised₂ opened _ _).bind
      fun _ r' kept => kept.ends _
  · next executed ok =>
    split
    · exact (ends_undo (r := { r with ledgers := ls₂ }) recognised₂ opened _ _).bind
        fun _ r' kept => kept.ends _
    · next successful =>
      have deployed := deploys applied executed whole ok successful
      rw [← same] at deployed
      refine recognised₂.bind (keepsCodes_finish _ _) fun _ ls₃ _ recognised₃ => ?_
      rw [Prog.bind_eq, run_bind, setEvm, run_perform,
        andThen_ok]
      split
      · next creation =>
        rw [createdBy, if_pos creation] at deployed
        rw [Prog.bind_eq, run_bind, run_ledger]
        have recorded : run (ledgerHandler storeImpl) (recordCreation X.evm ctx) ls₃ = _ :=
          exec_recordCreation X.evm ctx ls₃
        simp only [trxHandler, trxStep, recorded]
        cases found : ls₃.account
          (X.evm.createAddress (array20 ctx.tx.fromAddr) ctx.tx.nonce) with
        | none => trivial
        | some acct =>
          exact recognised₃.created (codes.created _ _) hash found
            fun addr size => (deployed addr size).trans (by simp)
      · next call =>
        rw [createdBy, if_neg call] at deployed
        refine ⟨recognised₃.removed, fun addr size => ?_⟩
        refine (recognised₃.agree addr size).trans ((deployed addr size).trans ?_).symm
        simp

end EvmCtrler

namespace TrxExecutor

variable {ctx : TrxContext}

/-- The transaction goes to the EVM. -/
def GoesToEvm (ctx : TrxContext) (ls : Stores) : Prop :=
  ctx.tx.type = .contract ∨ ctx.tx.type = .transfer ∧ codesOf ls (toLedgerKey ctx.tx.toAddr) ≠ []

/-- If geth is run with the transaction then it only deploys. -/
def DeploysOnly (codes : Codes X) (ctx : TrxContext) (r : Workspace X.evm) : Prop :=
  GoesToEvm ctx r.ledgers → ∀ state, r.evm.stateDB = some state →
    EvmCtrler.DeploysOnly codes ctx r.evm state r.ledgers

theorem ends_runEvmTrx (recognised : Recognised codes r) (hash : ctx.txHash ≠ [])
    (goes : GoesToEvm ctx r.ledgers) (deploys : DeploysOnly codes ctx r) :
    Ends codes (run (trxHandler storeImpl) (runEvmTrx ctx) r) := by
  have executed : Ends codes (run (trxHandler storeImpl) (EvmCtrler.executeTrx ctx) r) := by
    unfold EvmCtrler.executeTrx
    split
    · exact recognised.ends _
    · rw [Prog.bind_eq, run_bind, run_ledger,
        show run (ledgerHandler storeImpl) _ r.ledgers = _ from exec_accountAt _ _]
      cases Stores.account r.ledgers ctx.tx.toAddr with
      | none => trivial
      | some receiver =>
        simp only [Option.elim_some, andThen_ok]
        split
        · exact recognised.ends _
        · rw [Prog.bind_eq, run_bind, getEvm, run_perform,
            andThen_ok]
          simp only [trxHandler, trxStep]
          split
          · trivial
          · next state opened =>
            exact ends_execute recognised opened hash (deploys goes state opened)
  refine executed.bind fun result r' recognised' => ?_
  split
  · exact recognised'.ledger fun _ => keeps_postRunTrx _ _
  · split
    · exact recognised'.ledger fun _ => keeps_postRunTrx _ _
    · exact recognised'.ends _

/-- Which code runs a transfer. -/
theorem run_transfer {E : EvmLib} {r : Workspace E} (transfer : ctx.tx.type = .transfer)
    (pubKey : HexBytes) {receiver : Account} (found : Stores.account r.ledgers ctx.tx.toAddr = some receiver) :
    run (trxHandler storeImpl) (runTrx ctx pubKey) r =
      if codesOf r.ledgers (toLedgerKey ctx.tx.toAddr) ≠ [] then
        run (trxHandler storeImpl) (runEvmTrx ctx) r
      else run (trxHandler storeImpl)
        (ledger (runNative ctx (AcctCtrler.executeTrx ctx))) r := by
  unfold runTrx
  simp only [transfer]
  rw [Prog.bind_eq, run_bind, run_ledger,
    show run (ledgerHandler storeImpl) _ r.ledgers = _ from exec_accountAt _ _, found,
    codesOf_account found, Option.elim_some, andThen_ok]
  split <;> rfl

theorem ends_runTrx (recognised : Recognised codes r) (hash : ctx.txHash ≠ []) (pubKey : HexBytes)
    (deploys : DeploysOnly codes ctx r) :
    Ends codes (run (trxHandler storeImpl) (runTrx ctx pubKey) r) := by
  have native {execute : LedgerProg Unit} (keeps : KeepsCodes execute) :
      Ends codes (run (trxHandler storeImpl) (ledger (runNative ctx execute)) r) :=
    recognised.ledger fun c => (keeps c).seq fun _ => keeps_postRunTrx ctx _
  cases type : ctx.tx.type with
  | transfer =>
    cases found : Stores.account r.ledgers ctx.tx.toAddr with
    | none =>
      unfold runTrx
      simp only [type]
      rw [Prog.bind_eq, run_bind, run_ledger,
        show run (ledgerHandler storeImpl) _ r.ledgers = _ from exec_accountAt _ _,
        found]
      trivial
    | some receiver =>
      rw [run_transfer type pubKey found]
      split
      · next coded => exact ends_runEvmTrx recognised hash (.inr ⟨type, coded⟩) deploys
      · exact native fun _ => keeps_executeTrx ctx
  | contract =>
    unfold runTrx
    simp only [type]
    exact ends_runEvmTrx recognised hash (.inl type) deploys
  | proposal | voting =>
    unfold runTrx
    simp only [type]
    exact native fun _ => Calm.onAccount (GovCtrler.writes_executeTrx (by decide) ctx)
  | setDoc =>
    unfold runTrx
    simp only [type]
    exact native fun _ => keeps_executeTrx ctx
  | staking | unstaking | withdraw =>
    unfold runTrx
    simp only [type]
    exact native fun _ => StakeCtrler.keeps_executeTrx ctx pubKey

/-- A transaction that is not valid is not run; a valid one meets the condition on geth. -/
theorem ends_executeSync (recognised : Recognised codes r) (hash : ctx.txHash ≠ [])
    (deploys : (run (trxHandler storeImpl) (validateTrx X.trx X.json ctx) r).1.isOk = true →
      DeploysOnly codes ctx r) :
    Ends codes (run (trxHandler storeImpl) (executeSync X.trx X.json ctx) r) := by
  have obeys : Obeys (within (fun _ => False) True false r.evm.lastRootHash r.evm.lastBlockHeight)
      (fun _ => True) (validateTrx X.trx X.json ctx : Ctrler X.evm HexBytes) :=
    obeys_validateTrx X.trx X.json ctx fun _ => trivial
  have evm := (run_within storeImpl obeys).2.1 rfl
  have ledgers := ledgers_validateTrx X.trx X.json ctx r
  unfold executeSync
  rw [Prog.bind_eq, run_bind]
  generalize run (trxHandler storeImpl) (validateTrx X.trx X.json ctx) r = validated
    at evm ledgers deploys ⊢
  obtain ⟨outcome, ⟨_, limiter, _⟩⟩ := validated
  obtain rfl : _ = r.ledgers := ledgers
  obtain rfl : _ = r.evm := evm
  -- validation may have changed the limiter
  have kept : Recognised codes { r with limiter := limiter } := ⟨recognised.removed, recognised.agree⟩
  cases outcome with
  | error fault => exact kept.ends _
  | ok pubKey => exact ends_runTrx kept hash pubKey (deploys rfl)

end TrxExecutor

end

/-! ## Runs -/

namespace RigoApp

variable {X : External} {codes : Codes X}

/-- A delivered transaction that is valid and goes to the EVM only deploys. -/
def DeploysOnly (codes : Codes X) (step : Step X.evm) : Prop :=
  match step.call with
  | .deliverTx txbz => ∀ bctx tx, step.before.mem.nextBlockCtx = some bctx →
      Trx.decode X.trx txbz = .ok tx →
      (run (trxHandler storeImpl) (TrxExecutor.validateTrx X.trx X.json
        (TrxExecutor.contextOf X.trx (deliverSetting step.before.mem bctx) txbz tx))
        { step.before.toResources with
          ledgers := Stores.withAccount step.before.ledgers tx.toAddr }).1.isOk = true →
      TrxExecutor.DeploysOnly codes
        (TrxExecutor.contextOf X.trx (deliverSetting step.before.mem bctx) txbz tx)
        { step.before.toResources with
          ledgers := Stores.withAccount step.before.ledgers tx.toAddr }
  | _ => True

/-- The contracts are recognised, and between blocks the EVM is in the committed state. -/
structure Knows (codes : Codes X) (phase : Phase) (s : Node X.evm) : Prop where
  recognised : Recognised codes s.toResources
  committed : phase = .idle → EvmCtrler.stateOf s.evm = X.evm.new s.evm.lastRootHash

section

variable {s t : Node X.evm} {phase : Phase}

theorem knows_initChain {genesis : Genesis} (first : firstNode X = .ok s)
    (ran : InitsChain X genesis s t) :
    Knows codes .idle t := by
  have holds : Holds .accounts (HasCode fun _ => []) t.ledgers :=
    initChain_onAccount (fun _ => rfl) first ran
  cases first
  obtain ⟨ls, ls', ls'', -, -, -, rfl⟩ := initChain_ok ran
  refine ⟨⟨holds.1, fun addr _ => ?_⟩, fun _ => rfl⟩
  rw [show codesOf _ (toLedgerKey addr) = [] from holds.2 _]
  exact iff_of_false (fun differs => differs rfl) (codes.empty addr)

theorem Knows.beginBlock {info : BlockInfo} (knows : Knows codes .idle s)
    (ran : BeginsBlock X info s t) :
    Knows codes .delivering t := by
  have accounts := beginBlock_accounts ran
  obtain ⟨last, ls, ls', allDelegatees, -, -, -, -, -, -, rfl⟩ := beginBlock_ok ran
  refine ⟨⟨?_, fun addr size => ?_⟩, fun idle => by cases idle⟩
  · rw [accounts]
    exact knows.recognised.removed
  · have opened : stateOf (openEvm X.evm s.evm info) = stateOf s.evm :=
      (knows.committed rfl).symm
    rw [codesOf, accounts]
    exact (knows.recognised.agree addr size).trans (by rw [opened])

theorem Knows.deliverTx {txbz : HexBytes} {answer : TxResponse} (knows : Knows codes .delivering s)
    (deploys : DeploysOnly codes ⟨s, .deliverTx txbz, .deliverTx answer, t⟩)
    (ran : DeliversTx X txbz s answer t) :
    Knows codes .delivering t := by
  obtain ⟨bctx, tx, sender, inBlock, decoded, -, answered⟩ := deliverTx_ok ran
  have ends := TrxExecutor.ends_executeSync (knows.recognised.withAccount tx.toAddr)
    (codes.hash txbz) (deploys bctx tx inBlock decoded)
  obtain ⟨resources, -, -⟩ := respond_ok answered
  refine ⟨?_, fun idle => by cases idle⟩
  rw [resources]
  generalize run (trxHandler storeImpl) _ _ = ended at ends answered ⊢
  obtain ⟨(_ | _) | _, r⟩ := ended
  · exact ends
  · cases answered
  · exact ends

theorem Knows.endBlock {valUpdates : List ValidatorUpdate} (knows : Knows codes .delivering s)
    (ran : EndsBlock X s valUpdates t) :
    Knows codes .ended t := by
  have holds : Holds .accounts (HasCode (codesOf s.ledgers)) s.ledgers :=
    ⟨knows.recognised.removed, fun _ => rfl⟩
  have kept := knows.recognised.keeps rfl (endBlock_onAccount holds ran)
  obtain ⟨bctx, newGovParams, lastValidators, ls, ls', ls'', -, -, -, -, rfl⟩ := endBlock_ok ran
  exact ⟨kept, fun idle => by cases idle⟩

theorem Knows.commit {appHash : HexBytes} (knows : Knows codes .ended s)
    (ran : Commits X s appHash t) :
    Knows codes .idle t := by
  have holds : Holds .accounts (HasCode (codesOf s.ledgers)) s.ledgers :=
    ⟨knows.recognised.removed, fun _ => rfl⟩
  obtain ⟨bctx, state, -, opened, -, rfl, -, -⟩ := commit_ok ran
  refine ⟨⟨rfl, fun addr size => ?_⟩, fun _ => rfl⟩
  have same : stateOf s.evm = state := by rw [stateOf, opened]; rfl
  have kept : codesOf (RigoApp.committed X s bctx state).ledgers (toLedgerKey addr) =
      codesOf s.ledgers (toLedgerKey addr) := holds.commit.2 _
  rw [kept]
  refine (knows.recognised.agree addr size).trans ?_
  rw [same]
  exact (codes.reopened state addr).symm

theorem Knows.restart {u : Node X.evm} {appHash : HexBytes} (knows : Knows codes .ended s)
    (ran : Commits X s appHash t)
    (restarted : restartNode X t = .ok u) : Knows codes .idle u := by
  have kept := knows.commit ran
  have ledgers := restartNode_ledgers ran restarted
  obtain ⟨bctx, state, -, -, -, rfl, -, -⟩ := commit_ok ran
  have evm : stateOf u.evm = X.evm.new (X.evm.commit state) ∧
      u.evm.lastRootHash = X.evm.commit state := by
    unfold restartNode boot at restarted
    simp only at restarted
    split at restarted
    · cases restarted
    · cases restarted
      simp [stateOf, RigoApp.committed]
  refine ⟨⟨?_, fun addr size => ?_⟩, fun _ => ?_⟩
  · rw [ledgers]
    exact kept.recognised.removed
  · rw [ledgers, evm.1]
    exact kept.recognised.agree addr size
  · rw [evm.1, evm.2]

end

section

variable {mayRestart : Bool} {genesis : Genesis} {phase : Phase} {steps : List (Step X.evm)}
  {s : App X.evm}

theorem Run.knows (codes : Codes X) (ran : Run X mayRestart genesis phase steps s) :
    (∀ step ∈ steps, DeploysOnly codes step) → Knows codes phase (App.node s) := by
  have earlier {steps : List (Step X.evm)} {step : Step X.evm}
      (all : ∀ step' ∈ steps ++ [step], DeploysOnly codes step') :
      ∀ step' ∈ steps, DeploysOnly codes step' :=
    fun step' member => all step' (List.mem_append_left _ member)
  refine ran.node_induction (I := fun phase steps s =>
    (∀ step ∈ steps, DeploysOnly codes step) → Knows codes phase s) ?_ ?_ ?_ ?_ ?_ ?_ ?_
  · intro s t first ran _
    exact knows_initChain first ran
  · intro steps s t info ih ran all
    exact (ih (earlier all)).beginBlock ran
  · intro steps s t txbz answer ih ran all
    exact (ih (earlier all)).deliverTx (all _ (List.mem_append_right _ List.mem_cons_self)) ran
  · intro steps s t valUpdates ih ran all
    exact (ih (earlier all)).endBlock ran
  · intro steps s t appHash ih ran all
    exact (ih (earlier all)).commit ran
  · intro phase steps s limiter ih all
    obtain ⟨⟨removed, agree⟩, committed⟩ := ih all
    exact ⟨⟨removed, agree⟩, committed⟩
  · intro steps s t u appHash _ ih ran restarted all
    exact (ih (earlier all)).restart ran restarted

/-- A node in which the account of a receiver exists. -/
def receiving {E : EvmLib} (s : Node E) (receiver : Address) : Workspace E :=
  { s.toResources with ledgers := Stores.withAccount s.ledgers receiver }

/-- In every run whose transactions only deploy, an account has a code if and only if its address
has code in the EVM; a transfer to an address with code is run by the EVM, and a transfer to an
address without code is not. -/
theorem Run.contracts_recognised (codes : Codes X) (ran : Run X mayRestart genesis phase steps s)
    (deploys : ∀ step ∈ steps, DeploysOnly codes step) :
    (∀ addr : Address, addr.length = addrSize →
      (codeIn (Stores.account (App.node s).ledgers addr) ≠ [] ↔
        codes.hasCode (EvmCtrler.stateOf (App.node s).evm) addr)) ∧
      ∀ (ctx : TrxContext) (pubKey : HexBytes), ctx.tx.type = .transfer →
        ctx.tx.toAddr.length = addrSize →
        (codes.hasCode (EvmCtrler.stateOf (App.node s).evm) ctx.tx.toAddr →
          run (trxHandler storeImpl) (TrxExecutor.runTrx ctx pubKey)
              (receiving (App.node s) ctx.tx.toAddr) =
            run (trxHandler storeImpl) (TrxExecutor.runEvmTrx ctx)
              (receiving (App.node s) ctx.tx.toAddr)) ∧
        (¬ codes.hasCode (EvmCtrler.stateOf (App.node s).evm) ctx.tx.toAddr →
          run (trxHandler storeImpl) (TrxExecutor.runTrx ctx pubKey)
              (receiving (App.node s) ctx.tx.toAddr) =
            run (trxHandler storeImpl) (Ctrler.ledger
                (TrxExecutor.runNative ctx (AcctCtrler.executeTrx ctx)))
              (receiving (App.node s) ctx.tx.toAddr)) := by
  have recognised := (ran.knows codes deploys).recognised
  refine ⟨recognised.agree, fun ctx pubKey transfer size => ?_⟩
  have received := (recognised.withAccount ctx.tx.toAddr).agree ctx.tx.toAddr size
  obtain ⟨receiver, found⟩ : ∃ receiver, Stores.account
      (receiving (App.node s) ctx.tx.toAddr).ledgers ctx.tx.toAddr = some receiver :=
    Stores.account_withAccount_self recognised.removed _
  rw [TrxExecutor.run_transfer transfer pubKey found]
  exact ⟨fun coded => if_pos (received.mpr coded),
    fun plain => if_neg fun coded => plain (received.mp coded)⟩

end

/-! ### A contract that creates another one -/

/-- The init code of a contract that creates another one when it is called. -/
def factoryInit : HexBytes :=
  -- copies the rest to the memory and returns it
  [0x60, 0x17, 0x80, 0x60, 0x0b, 0x60, 0x00, 0x39, 0x60, 0x00, 0xf3,
    -- pushes the init code of the other contract, which returns one byte
    0x69, 0x60, 0x01, 0x60, 0x00, 0x53, 0x60, 0x01, 0x60, 0x00, 0xf3,
    -- stores it and creates the contract
    0x60, 0x00, 0x52, 0x60, 0x0a, 0x60, 0x16, 0x60, 0x00, 0xf0, 0x50, 0x00]

/-- An EVM with accounts and the last bytes of the addresses that have code.  Address 50 gets the
contract above, and a call of it gives address 60 code; what this takes beyond the intrinsic gas is
the gas of the instructions and 200 for each byte of code. -/
def factoryEvm : EvmLib where
  State := Concrete.Balances × HexBytes
  new root := (fun _ => (0, 0), root)
  snapshot _ := 0
  setAccount state addr nonce balance := (Function.update state.1 addr (nonce, balance), state.2)
  account state addr := state.1 addr
  applyMessage state msg gasPool :=
    let ends (gas : Nat) (counted : List Address) (codes : HexBytes) :=
      let used := Concrete.intrinsicGas msg.data msg.toAddr.isNone + gas
      .done (if msg.gas < used then .error "out of gas" else .ok ⟨used, none, []⟩)
        (counted.foldl Concrete.Balances.count (state.1.settle msg used), codes) (gasPool - used)
    match msg.toAddr with
    | none =>
      if msg.data = factoryInit then
        .access (Concrete.addr 50) fun _ => ends 4624 [Concrete.addr 50] (50 :: state.2)
      else ends 0 [] state.2
    | some receiver =>
      if receiver ∈ state.2.map Concrete.addr then
        .access (Concrete.addr 60) fun _ => ends 32241 [receiver, Concrete.addr 60] (60 :: state.2)
      else ends 0 [] state.2
  finalise state := state
  commit state := state.2
  intrinsicGas data creation := .ok (Concrete.intrinsicGas data creation)
  createAddress _ _ := Concrete.addr 50

/-- A creation, and a call of the contract. -/
def factory : External :=
  { Concrete.external ⟨[{ Concrete.trx .contract 1 0 0 0 factoryInit with
        toAddr := zeroBytes 20, gas := 100000 },
      { Concrete.trx .contract 1 50 1 0 [] with gas := 100000 }], [], [], []⟩ with
    evm := factoryEvm }

def factoryCodes : Codes factory where
  hasCode state addr := addr ∈ state.2.map Concrete.addr
  setAccount _ _ _ _ _ := Iff.rfl
  reopened _ _ := Iff.rfl
  empty _ := List.not_mem_nil
  created _ _ := rfl
  hash txbz := List.append_ne_nil_of_left_ne_nil (by decide) txbz

def building : App factory.evm :=
  (start factory (Concrete.genesis [(1, 10000000)])).toOption.get (by decide +kernel)

/-- A block with some transactions. -/
def buildingBlock (txs : List HexBytes) : List ConsensusCall :=
  .beginBlock (Concrete.block 1) :: txs.map .deliverTx ++ [.endBlock, .commit]

theorem applyMessage_creation {msg : EvmMessage} (creation : msg.toAddr = none)
    (data : msg.data = factoryInit) (state : factory.evm.State) (gasPool : Nat) :
    ∃ result accounts left, factory.evm.applyMessage state msg gasPool =
      .access (Concrete.addr 50) fun _ => .done result (accounts, 50 :: state.2) left :=
  ⟨_, _, _, by simp only [factory, factoryEvm, creation, data, if_true]; rfl⟩

theorem apply_creation {ctx : TrxContext} (creation : isZeroAddress ctx.tx.toAddr = true)
    (data : inputData ctx.tx = factoryInit)
    {m : EvmMem factory.evm} {state : factory.evm.State} {ls : Stores}
    {applied : Applied factory.evm.State}
    (ran : (exec (apply ctx m state) ls).1 = .ok applied) :
    applied.state.2 = 50 :: state.2 := by
  unfold apply prepare load addAccessedObjAddr at ran
  simp only [exec_bind, creation, List.any_nil, Bool.false_eq_true, if_false, if_true,
    exec_findOrNewAccount, andThen_ok, Prog.pure_eq, run_pure] at ran
  generalize loaded : factory.evm.setAccount state _ _ _ = state' at ran
  have codes : state'.2 = state.2 := loaded ▸ rfl
  have none : (evmMessage ctx m).toAddr = none := if_pos creation
  obtain ⟨result, accounts, left, message⟩ := applyMessage_creation none data state' m.blockGasPool
  rw [message] at ran
  change (exec (addAccessedObjAddr _ _ _ >>= _) _).1 = _ at ran
  rw [exec_bind] at ran
  generalize exec (addAccessedObjAddr _ _ _) _ = accessed at ran
  obtain ⟨_ | found, ls'⟩ := accessed
  · cases ran
  · cases ran
    rw [codes]

/-- A step of the factory that delivers no other transaction than the creation. -/
theorem deploysOnly_creation (step : Step factory.evm)
    (calls : ∀ txbz, step.call = .deliverTx txbz → txbz = [0]) : DeploysOnly factoryCodes step := by
  unfold DeploysOnly
  split
  · next txbz call =>
    obtain rfl := calls txbz call
    intro bctx tx _ decoded _ _ state _ applied executed ran _ _ addr _
    have first : ∀ tx ∈ (Trx.decode factory.trx [0]).toOption,
        isZeroAddress tx.toAddr = true ∧ inputData tx = factoryInit := by
      decide +kernel
    obtain ⟨creation, data⟩ := first tx (by rw [decoded]; rfl)
    have coded := apply_creation creation data ran
    have created : createdBy factory.evm tx = some (Concrete.addr 50) := if_pos creation
    change addr ∈ applied.state.2.map Concrete.addr ↔ addr ∈ state.2.map Concrete.addr ∨
      createdBy factory.evm tx = some addr
    rw [coded, created, List.map_cons, List.mem_cons, or_comm, Option.some_inj, eq_comm]
  · trivial

theorem run_buildingBlock (txs : List HexBytes)
    (length : (stepsOf factory (buildingBlock txs) building).length = (buildingBlock txs).length)
    (phases : Phase.idle.after (buildingBlock txs) = some .idle) :
    Run factory false (Concrete.genesis [(1, 10000000)]) .idle
      ([] ++ stepsOf factory (buildingBlock txs) building)
      (runCalls factory finalityImpl (buildingBlock txs) building).2 :=
  (Run.start (eq_ok_of_isSome _)).calls (buildingBlock txs) phases length

/-- The node after a block. -/
def built (txs : List HexBytes) : Node factory.evm :=
  App.node (runCalls factory finalityImpl (buildingBlock txs) building).2

/-- A contract that was created by another contract has code in the EVM, and its account has
none. -/
theorem Run.childContract : ∃ steps s,
    Run factory false (Concrete.genesis [(1, 10000000)]) .idle steps s ∧
      factoryCodes.hasCode (EvmCtrler.stateOf (App.node s).evm) (Concrete.addr 60) ∧
      codeIn (Stores.account (App.node s).ledgers (Concrete.addr 60)) = [] := by
  have coded : Concrete.addr 60 ∈
      (EvmCtrler.stateOf (built [[0], [1]]).evm).2.map Concrete.addr := by
    decide +kernel
  have plain : codeIn (Stores.account (built [[0], [1]]).ledgers (Concrete.addr 60)) = [] := by
    decide +kernel
  exact ⟨_, _, run_buildingBlock [[0], [1]] (by decide +kernel) rfl, coded, plain⟩

/-- The contract that a transaction has created is recognised. -/
theorem Run.contracts_recognised_creation :
    codeIn (Stores.account (built [[0]]).ledgers (Concrete.addr 50)) ≠ [] ∧
      factoryCodes.hasCode (EvmCtrler.stateOf (built [[0]]).evm) (Concrete.addr 50) := by
  have ran := run_buildingBlock [[0]] (by decide +kernel) rfl
  have calls : (stepsOf factory (buildingBlock [[0]]) building).map Step.call = buildingBlock [[0]] := by
    decide +kernel
  have deploys : ∀ step ∈ [] ++ stepsOf factory (buildingBlock [[0]]) building,
      DeploysOnly factoryCodes step := by
    intro step member
    have call : step.call ∈ buildingBlock [[0]] := calls ▸ List.mem_map_of_mem member
    refine deploysOnly_creation step fun txbz same => ?_
    rw [same] at call
    simpa [buildingBlock] using call
  have coded : Concrete.addr 50 ∈ (EvmCtrler.stateOf (built [[0]]).evm).2.map Concrete.addr := by
    decide +kernel
  exact ⟨((Run.contracts_recognised factoryCodes ran deploys).1 _ rfl).mpr coded, coded⟩

end RigoApp

end Rigo
