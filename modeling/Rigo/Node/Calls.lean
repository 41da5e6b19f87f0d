import Rigo.Foundation.Relational
import Rigo.Node.Refinement

/-!
# The calls of the consensus engine, side by side

What a call of the consensus engine does depends on few fields of a node.  `Agrees`
relates two nodes that agree on those which survive between blocks; the limiter, the
fields set when a block begins and the last validators are related separately, since
some calls set them and others read them.

There is one lemma for each call: two nodes that agree on what the call reads answer
alike, and agree afterwards on what the call has set.
-/

namespace Rigo

open Foundation
open TrxExecutor

/-! ## Running the code of the application -/

section

variable {L : LedgerId → Type} (X : External) (impl : LedgerImpl L) {α : Type}

open RigoApp

@[simp] theorem run_ctrler (p : Ctrler X.evm α) (s : State L X.evm) :
    run (nodeHandler X impl) (ctrler p) s =
      ((run (trxHandler impl) p s.toResources).1,
        { s with toResources := (run (trxHandler impl) p s.toResources).2 }) := by
  unfold ctrler
  induction p generalizing s with
  | pure value => rfl
  | fail fault => rfl
  | call op next ih => exact ih _ _

@[simp] theorem run_app (op : AppOp α) (s : State L X.evm) :
    run (nodeHandler X impl) (app op) s = (.ok (appStep X impl op s).1, (appStep X impl op s).2) :=
  rfl

@[simp] theorem run_modifyMem (f : Mem → Mem) (s : State L X.evm) :
    run (nodeHandler X impl) (modifyMem f) s = (.ok (), { s with mem := f s.mem }) := rfl

@[simp] theorem run_nextBlockCtx (s : State L X.evm) :
    run (nodeHandler X impl) nextBlockCtx s =
      (s.mem.nextBlockCtx.elim (.error (.panic .nilDereference)) .ok, s) := by
  simp only [nextBlockCtx, Prog.bind_eq, run_bind, run_app, appStep,
    andThen_ok]
  cases s.mem.nextBlockCtx <;> rfl

/-- An error returned to the application becomes a panic. -/
def panicked : Except Fault α → Except Fault α
  | .ok value => .ok value
  | .error (.xerr e) => .error (.panic (.explicit e.error))
  | .error (.panic p) => .error (.panic p)

@[simp] theorem run_orPanic (p : Ctrler X.evm α) (s : State L X.evm) :
    run (nodeHandler X impl) (orPanic p) s =
      (panicked (run (trxHandler impl) p s.toResources).1,
        { s with toResources := (run (trxHandler impl) p s.toResources).2 }) := by
  simp only [orPanic, Prog.bind_eq, run_bind, run_ctrler, run_tryXError]
  obtain ⟨outcome, after⟩ := run (trxHandler impl) p s.toResources
  cases outcome with
  | ok value => rfl
  | error fault => cases fault <;> rfl

@[simp] theorem run_ledgerOrPanic (p : LedgerProg α) (s : State L X.evm) :
    run (nodeHandler X impl) (ledgerOrPanic p) s =
      (panicked (run (ledgerHandler impl) p s.ledgers).1,
        { s with ledgers := (run (ledgerHandler impl) p s.ledgers).2 }) := by
  simp only [ledgerOrPanic, Prog.bind_eq, run_bind, run_ctrler, run_ledger,
    run_tryXError]
  obtain ⟨outcome, after⟩ := run (ledgerHandler impl) p s.ledgers
  cases outcome with
  | ok value => rfl
  | error fault => cases fault <;> rfl

end

/-! ## The effect of DeliverTx -/

namespace RigoApp

/-- What `DeliverTx` makes of the execution of a transaction. -/
def respond {E : EvmLib} (s : Node E) (bctx : BlockContext) (ctx : TrxContext) :
    Except Fault TrxResult × Workspace E →
      Except Fault TxResponse × Node E
  | (.error (.panic p), r) => (.error (.panic p), { s with toResources := r })
  | (.error (.xerr e), r) =>
    (.ok (.failure (XError.errDeliverTx.wrap e) []), { s with toResources := r })
  | (.ok result, r) =>
    match result.failed with
    | some e =>
      (.ok (.failure (XError.errDeliverTx.wrap e) result.retData), { s with toResources := r })
    | none =>
      (.ok (.success ctx result),
        { s with
          toResources := r
          mem := { s.mem with nextBlockCtx := some { bctx with
            feeSum := bctx.feeSum + gasToFee result.gasUsed s.mem.govParams.gasPrice } } })

/-- `DeliverTx` on stores: without a context it panics, and otherwise it executes the
transaction after the account of the receiver was created. -/
theorem run_deliverTx (X : External) (txbz : HexBytes) (s : Node X.evm) :
    run (nodeHandler X storeImpl) (deliverTx X txbz) s =
      match s.mem.nextBlockCtx with
      | none => (.error (.panic .nilDereference), s)
      | some bctx =>
        match Trx.decode X.trx txbz with
        | .error _ => (.error (.panic .nilDereference), s)
        | .ok tx =>
          match Stores.account s.ledgers tx.fromAddr with
          | none => (.error (.panic .nilDereference), s)
          | some _ =>
            let ctx := contextOf X.trx (deliverSetting s.mem bctx) txbz tx
            respond s bctx ctx (run (trxHandler storeImpl)
              (executeSync X.trx X.json ctx)
              { s.toResources with ledgers := Stores.withAccount s.ledgers tx.toAddr }) := by
  unfold deliverTx
  simp only [Prog.bind_eq, run_bind, run_app, appStep, andThen_ok,
    run_nextBlockCtx]
  cases s.mem.nextBlockCtx with
  | none => rfl
  | some bctx =>
    simp only [Option.elim_some, andThen_ok, run_ctrler, run_ledger, run_tryXError,
      exec_newTrxContext]
    cases Trx.decode X.trx txbz with
    | error e => rfl
    | ok tx =>
      simp only
      cases Stores.account s.ledgers tx.fromAddr with
      | none => rfl
      | some sender =>
        simp only [attempted, andThen_ok, run_bind,
          run_ctrler, run_tryXError]
        generalize run (trxHandler storeImpl) _ _ = executed
        obtain ⟨outcome, r⟩ := executed
        cases outcome with
        | error fault => cases fault <;> rfl
        | ok result =>
          simp only [andThen_ok, respond]
          cases result.failed <;> rfl

end RigoApp

/-! ## Nodes that agree -/

/-- The nodes agree on what survives between blocks.  If `limiter` holds they also
have the same limiter, and if `block` holds, the same fields that are set when a
block begins; `V` relates their last validators. -/
structure Agrees {E : EvmLib} (limiter block : Prop) (V : Validators → Validators → Prop)
    (s t : Node E) : Prop where
  ledgers : s.ledgers = t.ledgers
  disk : s.disk = t.disk
  rootHash : s.evm.lastRootHash = t.evm.lastRootHash
  evmHeight : s.evm.lastBlockHeight = t.evm.lastBlockHeight
  lastHeight : s.mem.lastBlockCtx.map (fun bctx => bctx.blockInfo.height) =
    t.mem.lastBlockCtx.map fun bctx => bctx.blockInfo.height
  nextBlockCtx : s.mem.nextBlockCtx = t.mem.nextBlockCtx
  chainID : s.mem.chainID = t.mem.chainID
  govParams : s.mem.govParams = t.mem.govParams
  newGovParams : s.mem.newGovParams = t.mem.newGovParams
  lastRwdHash : s.mem.lastRwdHash = t.mem.lastRwdHash
  sameLimiter : limiter → s.limiter = t.limiter
  sameBlock : block → s.evm = t.evm ∧ s.mem.allDelegatees = t.mem.allDelegatees
  validators : V s.mem.lastValidators t.mem.lastValidators

section

variable {X : External} {α : Type} {limiter block : Prop}
  {V : Validators → Validators → Prop} {s t : Node X.evm}

open RigoApp

/-- Two runs on stores, of programs that may differ in what they read of the memory. -/
abbrev NodesAlike (R : Node X.evm → Node X.evm → Prop) (p q : AppProg X.evm α)
    (s t : Node X.evm) : Prop :=
  RunsAlike (nodeHandler X storeImpl) (nodeHandler X storeImpl) R p q s t

variable {R : Node X.evm → Node X.evm → Prop}

theorem NodesAlike.getMem {f g : Mem → AppProg X.evm α}
    (alike : NodesAlike R (f s.mem) (g t.mem) s t) :
    NodesAlike R ((app .getMem).bind f) ((app .getMem).bind g) s t := alike

theorem NodesAlike.modifyMem {f g : Mem → Mem}
    (related : R { s with mem := f s.mem } { t with mem := g t.mem }) :
    NodesAlike R (modifyMem f) (modifyMem g) s t := ⟨rfl, related⟩

theorem NodesAlike.setMem {m m' : Mem}
    (related : R { s with mem := m } { t with mem := m' }) :
    NodesAlike R (app (.setMem m)) (app (.setMem m')) s t := ⟨rfl, related⟩

theorem NodesAlike.nextBlockCtx {f g : BlockContext → AppProg X.evm α}
    (same : s.mem.nextBlockCtx = t.mem.nextBlockCtx)
    (alike : ∀ bctx, s.mem.nextBlockCtx = some bctx → NodesAlike R (f bctx) (g bctx) s t) :
    NodesAlike R (nextBlockCtx.bind f) (nextBlockCtx.bind g) s t := by
  unfold NodesAlike RunsAlike at *
  simp only [run_bind, run_nextBlockCtx, ← same]
  cases here : s.mem.nextBlockCtx with
  | none => rfl
  | some bctx => exact alike bctx here

/-- Code on the ledgers does the same to both. -/
theorem Agrees.ledgerOrPanic (agrees : Agrees limiter block V s t) (p : LedgerProg α) :
    NodesAlike (fun s' t' => Agrees limiter block V s' t' ∧ s'.mem = s.mem ∧ t'.mem = t.mem)
      (ledgerOrPanic p) (ledgerOrPanic p) s t := by
  unfold NodesAlike RunsAlike
  rw [run_ledgerOrPanic, run_ledgerOrPanic, agrees.ledgers]
  exact Alike.of_eq rfl ⟨{ agrees with ledgers := rfl }, rfl, rfl⟩

/-- Code of a controller, lifted to the application. -/
theorem NodesAlike.orPanic {M : Workspace X.evm → Workspace X.evm → Prop} {p q : Ctrler X.evm α}
    (alike : RunsAlike (trxHandler storeImpl) (trxHandler storeImpl) M p q s.toResources
      t.toResources) :
    NodesAlike (fun s' t' => ∃ r r', M r r' ∧ s' = { s with toResources := r } ∧
        t' = { t with toResources := r' })
      (orPanic p) (orPanic q) s t := by
  unfold NodesAlike RunsAlike at *
  rw [run_orPanic, run_orPanic]
  generalize run (trxHandler storeImpl) p s.toResources = r at alike ⊢
  generalize run (trxHandler storeImpl) q t.toResources = r' at alike ⊢
  obtain ⟨outcome, after⟩ := r
  obtain ⟨outcome', after'⟩ := r'
  cases outcome with
  | error fault =>
    cases outcome' with
    | error fault' =>
      obtain rfl : fault = fault' := alike
      cases fault <;> rfl
    | ok value' => exact alike.elim
  | ok value =>
    cases outcome' with
    | error fault' => exact alike.elim
    | ok value' => exact ⟨alike.1, after, after', alike.2, rfl, rfl⟩

/-- Programs that run alike on the nodes of two applications run alike on them. -/
theorem NodesAlike.app {p q : AppProg X.evm α}
    {s t : App X.evm} (alike : NodesAlike R p q (App.node s) (App.node t)) :
    RunsAlike (nodeHandler X finalityImpl) (nodeHandler X finalityImpl)
      (fun s' t' => R (App.node s') (App.node t')) p q s t := by
  obtain ⟨here, hereAfter⟩ := run_node X p s
  obtain ⟨there, thereAfter⟩ := run_node X q t
  unfold NodesAlike RunsAlike at *
  rw [← Prod.mk.eta (p := run (nodeHandler X storeImpl) p (App.node s)),
    ← Prod.mk.eta (p := run (nodeHandler X storeImpl) q (App.node t)),
    ← here, ← hereAfter, ← there, ← thereAfter] at alike
  generalize run (nodeHandler X finalityImpl) p s = r at alike ⊢
  generalize run (nodeHandler X finalityImpl) q t = r' at alike ⊢
  obtain ⟨outcome, s'⟩ := r
  obtain ⟨outcome', t'⟩ := r'
  cases outcome <;> cases outcome' <;> exact alike

theorem Agrees.refl (s : Node X.evm) : Agrees limiter block Eq s s where
  ledgers := rfl
  disk := rfl
  rootHash := rfl
  evmHeight := rfl
  lastHeight := rfl
  nextBlockCtx := rfl
  chainID := rfl
  govParams := rfl
  newGovParams := rfl
  lastRwdHash := rfl
  sameLimiter _ := rfl
  sameBlock _ := ⟨rfl, rfl⟩
  validators := rfl

/-- A limiter that nobody will ask need not agree. -/
theorem Agrees.weakenLimiter {limiter' : Prop} (agrees : Agrees limiter block V s t)
    (weaker : limiter' → limiter) : Agrees limiter' block V s t :=
  { agrees with sameLimiter := fun live => agrees.sameLimiter (weaker live) }

variable {r r' : Workspace X.evm}

/-- Resources replaced by others that agree. -/
theorem Agrees.withResources {limiter' block' : Prop} (agrees : Agrees limiter block V s t)
    (ledgers : r.ledgers = r'.ledgers)
    (rootHash : r.evm.lastRootHash = r'.evm.lastRootHash)
    (evmHeight : r.evm.lastBlockHeight = r'.evm.lastBlockHeight)
    (sameLimiter : limiter' → r.limiter = r'.limiter)
    (sameBlock : block' → r.evm = r'.evm ∧ s.mem.allDelegatees = t.mem.allDelegatees) :
    Agrees limiter' block' V { s with toResources := r } { t with toResources := r' } where
  ledgers := ledgers
  disk := agrees.disk
  rootHash := rootHash
  evmHeight := evmHeight
  lastHeight := agrees.lastHeight
  nextBlockCtx := agrees.nextBlockCtx
  chainID := agrees.chainID
  govParams := agrees.govParams
  newGovParams := agrees.newGovParams
  lastRwdHash := agrees.lastRwdHash
  sameLimiter := sameLimiter
  sameBlock := sameBlock
  validators := agrees.validators

/-! ## BeginBlock -/

theorem stakeBeginBlock_alike (params : GovParams) (info : BlockInfo)
    (same : r.ledgers = r'.ledgers) :
    RunsAlike (trxHandler storeImpl) (trxHandler storeImpl)
      (fun a b => a.ledgers = b.ledgers ∧ a.limiter = b.limiter ∧ a.evm = r.evm ∧ b.evm = r'.evm)
      (StakeCtrler.beginBlock params info) (StakeCtrler.beginBlock params info) r r' := by
  unfold StakeCtrler.beginBlock
  refine RunsAlike.bind (M := fun a b => a.ledgers = b.ledgers ∧ a.evm = r.evm ∧ b.evm = r'.evm)
    ?_ fun allDelegatees a b ⟨ledgers, evm, evm'⟩ => ?_
  · unfold RunsAlike
    rw [run_ledger, run_ledger, same]
    exact Alike.of_eq rfl ⟨rfl, rfl, rfl⟩
  refine RunsAlike.bind (M := fun a b => a.ledgers = b.ledgers ∧ a.limiter = b.limiter ∧
    a.evm = r.evm ∧ b.evm = r'.evm) ⟨rfl, ledgers, rfl, evm, evm'⟩
    fun _ a b ⟨ledgers, limiter, evm, evm'⟩ => ?_
  refine RunsAlike.bind (M := fun a b => a.ledgers = b.ledgers ∧ a.limiter = b.limiter ∧
    a.evm = r.evm ∧ b.evm = r'.evm) ?_ fun _ a b related => .pure allDelegatees related
  unfold RunsAlike
  rw [run_ledger, run_ledger, ledgers]
  exact Alike.of_eq rfl ⟨rfl, limiter, evm, evm'⟩

theorem evmBeginBlock_alike (info : BlockInfo)
    (rootHash : r.evm.lastRootHash = r'.evm.lastRootHash)
    (height : r.evm.lastBlockHeight = r'.evm.lastBlockHeight) :
    RunsAlike (trxHandler storeImpl) (trxHandler storeImpl)
      (fun a b => a.ledgers = r.ledgers ∧ b.ledgers = r'.ledgers ∧ a.limiter = r.limiter ∧
        b.limiter = r'.limiter ∧ a.evm = b.evm)
      (EvmCtrler.beginBlock info) (EvmCtrler.beginBlock info) r r' := by
  unfold EvmCtrler.beginBlock RunsAlike
  simp only [Prog.bind_eq, run_bind, Ctrler.getEvm, run_perform,
    andThen_ok, trxHandler, trxStep, height]
  split
  · rfl
  · refine ⟨rfl, rfl, rfl, rfl, rfl, ?_⟩
    simp only [rootHash]

/-- A block begins alike on nodes that agree on what survives between blocks. -/
theorem Agrees.beginBlock (agrees : Agrees limiter block V s t) (info : BlockInfo) :
    NodesAlike (Agrees True True V) (beginBlock X info) (beginBlock X info) s t := by
  unfold RigoApp.beginBlock
  refine NodesAlike.getMem ?_
  have lastHeight := agrees.lastHeight
  cases here : s.mem.lastBlockCtx with
  | none =>
    cases there : t.mem.lastBlockCtx with
    | none => exact .fail _
    | some last' => simp [here, there] at lastHeight
  | some last =>
    cases there : t.mem.lastBlockCtx with
    | none => simp [here, there] at lastHeight
    | some last' =>
      have same : last.blockInfo.height = last'.blockInfo.height := by
        simpa [here, there] using lastHeight
      simp only [same, agrees.govParams]
      split
      · exact .fail _
      · refine RunsAlike.bind (M := Agrees limiter block V)
          (NodesAlike.modifyMem { agrees with nextBlockCtx := rfl }) ?_
        intro _ s₁ t₁ agrees₁
        refine RunsAlike.bind (agrees₁.ledgerOrPanic _) ?_
        rintro _ s₂ t₂ ⟨agrees₂, -, -⟩
        refine RunsAlike.bind
          (NodesAlike.orPanic (stakeBeginBlock_alike _ info agrees₂.ledgers)) ?_
        rintro allDelegatees _ _ ⟨r, r', ⟨ledgers, limiter₃, evm, evm'⟩, rfl, rfl⟩
        have agrees₃ : Agrees True False V { s₂ with toResources := r }
            { t₂ with toResources := r' } :=
          agrees₂.withResources ledgers (by rw [evm, evm', agrees₂.rootHash])
            (by rw [evm, evm', agrees₂.evmHeight]) (fun _ => limiter₃) False.elim
        refine RunsAlike.bind (M := fun a b => Agrees True False V a b ∧
          a.mem.allDelegatees = b.mem.allDelegatees)
          (NodesAlike.modifyMem ⟨{ agrees₃ with sameBlock := False.elim }, rfl⟩) ?_
        rintro _ s₄ t₄ ⟨agrees₄, delegatees⟩
        refine RunsAlike.mono (NodesAlike.orPanic
          (evmBeginBlock_alike info agrees₄.rootHash agrees₄.evmHeight)) ?_
        rintro _ _ ⟨r, r', ⟨ledgers, ledgers', limiter, limiter', evm⟩, rfl, rfl⟩
        refine agrees₄.withResources ?_ (by rw [evm]) (by rw [evm]) ?_ fun _ => ⟨evm, delegatees⟩
        · rw [ledgers, ledgers', agrees₄.ledgers]
        · intro _
          rw [limiter, limiter', agrees₄.sameLimiter trivial]

/-! ## DeliverTx -/

theorem Agrees.resources (agrees : Agrees True True V s t) : s.toResources = t.toResources := by
  obtain ⟨evm, -⟩ := agrees.sameBlock trivial
  have limiter := agrees.sameLimiter trivial
  have ledgers := agrees.ledgers
  generalize s.toResources = r at *
  generalize t.toResources = r' at *
  obtain ⟨ls, sl, m⟩ := r
  obtain ⟨ls', sl', m'⟩ := r'
  simp only at ledgers limiter evm
  rw [ledgers, limiter, evm]

theorem Agrees.respond (agrees : Agrees limiter True V s t) (bctx : BlockContext)
    {ctx ctx' : TrxContext} (sameTx : ctx.tx = ctx'.tx)
    {executed executed' : Except Fault TrxResult × Workspace X.evm}
    (same : executed.1 = executed'.1) (ledgers : executed.2.ledgers = executed'.2.ledgers)
    (evm : executed.2.evm = executed'.2.evm)
    (sameLimiter : limiter → executed.2.limiter = executed'.2.limiter) :
    Alike (fun s' t' => Agrees limiter True V s' t' ∧
        s'.mem.lastValidators = s.mem.lastValidators ∧
        t'.mem.lastValidators = t.mem.lastValidators)
      (RigoApp.respond s bctx ctx executed) (RigoApp.respond t bctx ctx' executed') := by
  obtain ⟨-, delegatees⟩ := agrees.sameBlock trivial
  obtain ⟨outcome, r⟩ := executed
  obtain ⟨outcome', r'⟩ := executed'
  obtain rfl : outcome = outcome' := same
  have agrees' : Agrees limiter True V { s with toResources := r } { t with toResources := r' } :=
    agrees.withResources ledgers (by rw [evm]) (by rw [evm]) sameLimiter fun _ => ⟨evm, delegatees⟩
  cases outcome with
  | error fault =>
    cases fault with
    | panic p => rfl
    | xerr e => exact ⟨rfl, agrees', rfl, rfl⟩
  | ok result =>
    simp only [RigoApp.respond]
    cases result.failed with
    | some e => exact ⟨rfl, agrees', rfl, rfl⟩
    | none =>
      rw [agrees.govParams]
      refine ⟨?_, { agrees' with nextBlockCtx := rfl, govParams := rfl }, rfl, rfl⟩
      simp only [TxResponse.success, sameTx]

/-- Nodes that agree deliver a transaction alike, if they have the same last
validators or the transaction does not look at them. -/
theorem Agrees.deliverTx (agrees : Agrees True True V s t) (txbz : HexBytes)
    (ignored : s.mem.lastValidators = t.mem.lastValidators ∨
      ∀ tx, Trx.decode X.trx txbz = .ok tx →
        IgnoresValidators tx.type s.mem.lastValidators ∧
          IgnoresValidators tx.type t.mem.lastValidators) :
    NodesAlike (fun s' t' => Agrees True True V s' t' ∧
        s'.mem.lastValidators = s.mem.lastValidators ∧
        t'.mem.lastValidators = t.mem.lastValidators)
      (deliverTx X txbz) (deliverTx X txbz) s t := by
  unfold NodesAlike RunsAlike
  rw [run_deliverTx, run_deliverTx, ← agrees.nextBlockCtx, ← agrees.resources]
  cases s.mem.nextBlockCtx with
  | none => rfl
  | some bctx =>
    cases decoded : Trx.decode X.trx txbz with
    | error e => rfl
    | ok tx =>
      simp only
      cases Stores.account s.ledgers tx.fromAddr with
      | none => rfl
      | some sender =>
        have settings : deliverSetting t.mem bctx =
            { deliverSetting s.mem bctx with validators := t.mem.lastValidators } := by
          simp only [deliverSetting, agrees.chainID, agrees.govParams]
        have sameCode : (executeSync X.trx X.json (contextOf X.trx
              (deliverSetting t.mem bctx) txbz tx) : Ctrler X.evm TrxResult) =
            executeSync X.trx X.json (contextOf X.trx
              (deliverSetting s.mem bctx) txbz tx) := by
          rw [settings]
          rcases ignored with same | ignored
          · rw [← same]
            rfl
          · obtain ⟨here, there⟩ := ignored tx decoded
            exact executeSync_validators X.trx X.json
              (contextOf X.trx (deliverSetting s.mem bctx) txbz tx) _ here there
        simp only
        rw [sameCode]
        exact agrees.respond bctx rfl rfl rfl rfl fun _ => rfl

/-! ## EndBlock -/

/-- Nodes that agree end a block alike, if the updates of the block are the same
against the last validators of both.  Afterwards they have the same ones. -/
theorem Agrees.endBlock (agrees : Agrees limiter True V s t)
    (same : StakeCtrler.SameUpdates s.mem.govParams s.mem.allDelegatees s.mem.lastValidators
      t.mem.lastValidators) :
    NodesAlike (Agrees limiter True Eq) (endBlock X) (endBlock X) s t := by
  unfold RigoApp.endBlock
  refine NodesAlike.getMem (NodesAlike.nextBlockCtx agrees.nextBlockCtx ?_)
  intro bctx open'
  simp only [← agrees.govParams, ← agrees.newGovParams, ← (agrees.sameBlock trivial).2,
    ← StakeCtrler.endBlock_validators same]
  refine RunsAlike.bind (agrees.ledgerOrPanic _) ?_
  rintro newGovParams s₁ t₁ ⟨agrees₁, -, -⟩
  refine RunsAlike.bind (agrees₁.ledgerOrPanic _) ?_
  rintro _ s₂ t₂ ⟨agrees₂, -, -⟩
  refine RunsAlike.bind (agrees₂.ledgerOrPanic _) ?_
  rintro ⟨valUpdates, lastValidators⟩ s₃ t₃ ⟨agrees₃, -, -⟩
  refine RunsAlike.bind (NodesAlike.setMem ?_) fun _ a b related => .pure valUpdates related
  exact { agrees₃ with
    lastHeight := agrees.lastHeight
    nextBlockCtx := rfl
    chainID := agrees.chainID
    govParams := rfl
    newGovParams := rfl
    lastRwdHash := agrees.lastRwdHash
    sameBlock := fun _ => ⟨(agrees₃.sameBlock trivial).1, rfl⟩
    validators := rfl }

/-! ## Commit -/

/-- A write to a database. -/
theorem Agrees.write (agrees : Agrees limiter block V s t) {op : AppOp Unit} {f : Disk → Disk}
    (effect : ∀ u, appStep X storeImpl op u = ((), { u with disk := f u.disk })) :
    NodesAlike (Agrees limiter block V) (app op) (app op) s t := by
  unfold NodesAlike RunsAlike
  rw [run_app, run_app, effect, effect]
  exact ⟨rfl, { agrees with disk := congrArg f agrees.disk }⟩

theorem Agrees.commitLedger (agrees : Agrees limiter block V s t) (l : LedgerId) :
    NodesAlike (Agrees limiter block V) (app (.commitLedger l)) (app (.commitLedger l)) s t := by
  unfold NodesAlike RunsAlike
  simp only [run_app, appStep, agrees.ledgers]
  exact ⟨rfl, { agrees with ledgers := rfl }⟩

theorem Agrees.commitGov (agrees : Agrees limiter block V s t) :
    NodesAlike (Agrees limiter block V) (commitGov X) (commitGov X) s t := by
  unfold RigoApp.commitGov
  refine RunsAlike.bind (agrees.commitLedger .params) ?_
  rintro ⟨h0, v0⟩ s₁ t₁ agrees₁
  refine RunsAlike.bind (agrees₁.commitLedger .proposals) ?_
  rintro ⟨h1, v1⟩ s₂ t₂ agrees₂
  refine RunsAlike.bind (agrees₂.commitLedger .frozenProposals) ?_
  rintro ⟨h2, v2⟩ s₃ t₃ agrees₃
  simp only
  split
  · exact .fail _
  · refine RunsAlike.bind (NodesAlike.modifyMem ?_) fun _ _ _ related => .pure _ related
    exact { agrees₃ with
      govParams := by simp only [agrees₃.newGovParams, agrees₃.govParams]
      newGovParams := rfl }

theorem Agrees.saveRewardHash (agrees : Agrees limiter block V s t) (version : Int)
    (hash : HexBytes) :
    NodesAlike (Agrees limiter block V) (saveRewardHash version hash) (saveRewardHash version hash)
      s t := by
  unfold RigoApp.saveRewardHash
  split
  · refine RunsAlike.bind (agrees.write (f := fun d => { d with rewardHash := hash }) fun _ => rfl) ?_
    intro _ s₁ t₁ agrees₁
    exact NodesAlike.modifyMem { agrees₁ with lastRwdHash := rfl }
  · exact .pure () agrees

theorem Agrees.commitStake (agrees : Agrees limiter block V s t) :
    NodesAlike (Agrees limiter block V) (commitStake X) (commitStake X) s t := by
  unfold RigoApp.commitStake
  refine RunsAlike.bind (agrees.commitLedger .delegatees) ?_
  rintro ⟨h0, v0⟩ s₁ t₁ agrees₁
  refine RunsAlike.bind (agrees₁.commitLedger .frozenStakes) ?_
  rintro ⟨h1, v1⟩ s₂ t₂ agrees₂
  refine RunsAlike.bind (agrees₂.commitLedger .rewards) ?_
  rintro ⟨h2, v2⟩ s₃ t₃ agrees₃
  simp only
  split
  · exact .fail _
  · refine RunsAlike.bind (agrees₃.saveRewardHash v0 h2) ?_
    intro _ s₄ t₄ agrees₄
    refine NodesAlike.getMem ?_
    rw [agrees₄.lastRwdHash]
    exact .pure _ agrees₄

theorem Agrees.commitEvm (agrees : Agrees limiter True V s t) :
    NodesAlike (Agrees limiter True V) (commitEvm X) (commitEvm X) s t := by
  obtain ⟨evm, delegatees⟩ := agrees.sameBlock trivial
  unfold NodesAlike RunsAlike RigoApp.commitEvm
  simp only [Prog.bind_eq, run_bind, run_ctrler, Ctrler.getEvm, run_perform,
    trxHandler, trxStep, andThen_ok, ← evm]
  cases s.evm.stateDB with
  | none => rfl
  | some state =>
    simp only [run_bind, run_app, appStep, andThen_ok, run_ctrler, ← evm,
      Ctrler.setEvm, run_perform, Prog.pure_eq, run_pure]
    refine ⟨rfl, ?_⟩
    exact { agrees with
      disk := by simp only [agrees.disk]
      rootHash := rfl
      evmHeight := rfl
      sameBlock := fun _ => ⟨rfl, delegatees⟩ }

/-- Nodes that agree commit a block alike. -/
theorem Agrees.commit (agrees : Agrees limiter True V s t) :
    NodesAlike (Agrees limiter True V) (commit X) (commit X) s t := by
  unfold RigoApp.commit
  refine NodesAlike.nextBlockCtx agrees.nextBlockCtx fun bctx _ => ?_
  refine RunsAlike.bind agrees.commitGov ?_
  rintro ⟨appHash0, ver0⟩ s₁ t₁ agrees₁
  refine RunsAlike.bind (agrees₁.commitLedger .accounts) ?_
  rintro ⟨appHash1, ver1⟩ s₂ t₂ agrees₂
  refine RunsAlike.bind agrees₂.commitStake ?_
  rintro ⟨appHash2, ver2⟩ s₃ t₃ agrees₃
  refine RunsAlike.bind agrees₃.commitEvm ?_
  rintro ⟨appHash3, ver3⟩ s₄ t₄ agrees₄
  simp only
  split
  · exact .fail _
  · let saved : BlockContext :=
      { bctx with
        appHash := X.defaultHash [appHash0, appHash1, appHash2, appHash3]
        valUpdates := [] }
    refine RunsAlike.bind
      (agrees₄.write (f := fun d => { d with lastBlockContext := some saved }) fun _ => rfl) ?_
    intro _ s₅ t₅ agrees₅
    refine RunsAlike.bind
      (agrees₅.write (f := fun d => { d with lastBlockHeight := ver0 }) fun _ => rfl) ?_
    intro _ s₆ t₆ agrees₆
    refine RunsAlike.bind (NodesAlike.modifyMem ?_) fun _ _ _ related => .pure _ related
    exact { agrees₆ with lastHeight := rfl, nextBlockCtx := rfl }

end

end Rigo
