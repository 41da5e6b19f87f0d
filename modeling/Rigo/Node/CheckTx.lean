import Rigo.Node.Calls
import Rigo.Node.Concrete

/-!
# CheckTx and the consensus calls

`CheckTx` runs the code of a transaction on the simulation mode of the ledgers, and
does not execute contracts; but the stake limiter is one object for both modes, and
`CheckLimit` changes it.  `node_checkTx` says that nothing else of the node changes,
and gives the limiter that is left.

The limiter is set when a block begins and asked by the stakings and unstakings in
the block.  So a `CheckTx` that changes it goes unnoticed if none of these is
delivered after it in the same block, and `runMixed_withoutChecks` proves that the
responses to the consensus engine are then the same as without the `CheckTx` calls.
Otherwise the result of a `DeliverTx` may depend on the mempool of the node
(`checkTx_changes_deliverTx`).
-/

namespace Rigo

open Foundation
open StakeCtrler TrxExecutor
open Ctrler (ledger)

/-! ## Transactions that do not use the limiter -/

section

variable {X : External} {limiter : Prop} {s t : Node X.evm}

open RigoApp

theorem run_related_within {E : EvmLib} {α : Type} {S : LedgerId → Prop} {exec : Bool}
    {p : Ctrler E α} (r r' : Workspace E)
    (obeys : Obeys (within S False exec r.evm.lastRootHash r.evm.lastBlockHeight)
      (fun _ => True) p)
    (ledgers : r.ledgers = r'.ledgers) (evm : r.evm = r'.evm) :
    (run (trxHandler storeImpl) p r).1 = (run (trxHandler storeImpl) p r').1 ∧
      (run (trxHandler storeImpl) p r).2.ledgers = (run (trxHandler storeImpl) p r').2.ledgers ∧
      (run (trxHandler storeImpl) p r).2.evm = (run (trxHandler storeImpl) p r').2.evm := by
  obtain ⟨outcome, ledgers', evm', -⟩ := obeys.run_related (h := trxHandler storeImpl)
    (g := trxHandler storeImpl) (R := fun (a b : Workspace E) => a.ledgers = b.ledgers ∧
      a.evm = b.evm ∧ a.evm.lastRootHash = r.evm.lastRootHash ∧
        a.evm.lastBlockHeight = r.evm.lastBlockHeight)
    (s := r) (t := r') (fun op a b ⟨ledgers, evm, kept⟩ asks => by
      cases op with
      | inl op =>
        refine ⟨?_, trivial, ?_, evm, kept⟩
        · simp only [trxHandler, trxStep, ledgers]
        · simp only [trxHandler, trxStep, ledgers]
      | inr op =>
        cases op with
        | getLimiter => exact asks.elim
        | setLimiter sl => exact asks.elim
        | getEvm => exact ⟨evm, kept, ledgers, evm, kept⟩
        | setEvm m => exact ⟨rfl, trivial, ledgers, rfl, asks.2⟩) ⟨ledgers, evm, rfl, rfl⟩
  exact ⟨outcome, ledgers', evm'⟩

/-- A transaction that neither stakes nor unstakes is delivered alike whatever the
limiters are. -/
theorem Agrees.deliverOther (agrees : Agrees limiter True Eq s t) {txbz : HexBytes}
    (other : ∀ tx, Trx.decode X.trx txbz = .ok tx → tx.type ≠ .staking ∧ tx.type ≠ .unstaking) :
    NodesAlike (Agrees limiter True Eq) (RigoApp.deliverTx X txbz) (RigoApp.deliverTx X txbz)
      s t := by
  obtain ⟨evm, delegatees⟩ := agrees.sameBlock trivial
  unfold NodesAlike RunsAlike
  rw [run_deliverTx, run_deliverTx, ← agrees.nextBlockCtx, ← agrees.ledgers]
  cases s.mem.nextBlockCtx with
  | none => rfl
  | some bctx =>
    cases decoded : Trx.decode X.trx txbz with
    | error e => rfl
    | ok tx =>
      simp only
      cases Stores.account s.ledgers tx.fromAddr with
      | none => rfl
      | some sender =>
        have settings : deliverSetting t.mem bctx = deliverSetting s.mem bctx := by
          simp only [deliverSetting, agrees.chainID, agrees.govParams, agrees.validators]
        let r : Workspace X.evm :=
          { s.toResources with ledgers := Stores.withAccount s.ledgers tx.toAddr }
        let r' : Workspace X.evm :=
          { t.toResources with ledgers := Stores.withAccount s.ledgers tx.toAddr }
        let ctx := TrxExecutor.contextOf X.trx (deliverSetting s.mem bctx) txbz tx
        have obeys (root : HexBytes) (height : Int) :
            Obeys (within WrittenByTrx False true root height) (fun _ => True)
              (TrxExecutor.executeSync X.trx X.json ctx : Ctrler X.evm TrxResult) :=
          TrxExecutor.obeys_executeSync X.trx X.json ctx (not_or.mpr (other tx decoded))
        obtain ⟨outcome, ledgers, evm'⟩ := run_related_within r r' (obeys _ _) rfl evm
        have kept := (run_within storeImpl (r := r) (obeys _ _)).1 id
        have kept' := (run_within storeImpl (r := r') (obeys _ _)).1 id
        simp only [settings]
        refine (agrees.respond bctx rfl outcome ledgers evm' fun live => ?_).mono
          fun _ _ related => related.1
        rw [kept, kept']
        exact agrees.sameLimiter live

end

/-! ## What CheckTx does to the limiter -/

namespace TrxExecutor

/-- What the validation of a transaction asks the limiter: the delegatee and the change
of its power, if it gets that far. -/
def asked (lib : TrxLib) (ctx : TrxContext) : LedgerProg (Option (Delegatee × Int)) := do
  let _ ← commonValidation0 lib ctx
  commonValidation1 ctx
  match ctx.tx.type with
  | .staking => return some (← StakeCtrler.validateStaking ctx)
  | .unstaking => return some (← StakeCtrler.validateUnstaking ctx)
  | _ => return none

/-- The limiter after it was asked, which it is if there are at least three validators. -/
def limiterAfter (sl : StakeLimiter) (validators : Validators) :
    Except Fault (Option (Delegatee × Int)) → StakeLimiter
  | .ok (some (delegatee, changePower)) =>
    if validators.length ≥ 3 then (sl.checkLimit delegatee changePower).2 else sl
  | .ok none => sl
  | .error _ => sl

section

variable {L : LedgerId → Type} (impl : LedgerImpl L) {E : EvmLib}

theorem limiter_checkLimit (validators : Validators) (delegatee : Delegatee) (changePower : Int)
    (r : Resources L E) :
    (run (trxHandler impl) (checkLimit validators delegatee changePower) r).2.limiter =
        limiterAfter r.limiter validators (.ok (some (delegatee, changePower))) ∧
      (run (trxHandler impl) (checkLimit validators delegatee changePower) r).2.evm =
        r.evm := by
  unfold checkLimit limiterAfter
  split
  · simp only [Prog.bind_eq, run_bind, Ctrler.getLimiter, run_perform,
      andThen_ok, trxHandler, trxStep, Ctrler.setLimiter]
    split
    · exact ⟨rfl, rfl⟩
    · exact ⟨rfl, rfl⟩
    · exact ⟨rfl, rfl⟩
  · exact ⟨rfl, rfl⟩

/-- The limiter and the EVM after a request was worked out and put to the limiter. -/
theorem limiter_ask (request : LedgerProg (Delegatee × Int)) (validators : Validators)
    (pubKey : HexBytes) (r : Resources L E) :
    let ask : Ctrler E HexBytes := ((ledger request).bind fun change =>
      checkLimit validators change.1 change.2).bind fun _ => .pure pubKey
    (run (trxHandler impl) ask r).2.limiter = limiterAfter r.limiter validators
        (run (ledgerHandler impl) (request.bind fun change => .pure (some change)) r.ledgers).1 ∧
      (run (trxHandler impl) ask r).2.evm = r.evm := by
  simp only [run_bind, run_ledger]
  generalize run (ledgerHandler impl) request r.ledgers = worked
  obtain ⟨outcome, ls⟩ := worked
  cases outcome with
  | error fault => exact ⟨rfl, rfl⟩
  | ok change =>
    have limit := limiter_checkLimit impl validators change.1 change.2 { r with ledgers := ls }
    simp only [andThen_ok, run_pure]
    generalize run (trxHandler impl) (checkLimit validators change.1 change.2)
      { r with ledgers := ls } = checked at limit ⊢
    obtain ⟨outcome, after⟩ := checked
    cases outcome <;> exact limit

/-- The limiter and the EVM after the validation of a transaction. -/
theorem limiter_validateTrx (lib : TrxLib) (json : ParamsJSON) (ctx : TrxContext)
    (r : Resources L E) :
    (run (trxHandler impl) (validateTrx lib json ctx) r).2.limiter =
        limiterAfter r.limiter ctx.validators (run (ledgerHandler impl) (asked lib ctx) r.ledgers).1 ∧
      (run (trxHandler impl) (validateTrx lib json ctx) r).2.evm = r.evm := by
  have other (p : LedgerProg Unit) (pubKey : HexBytes) (ls : (l : LedgerId) → L l) :
      (run (trxHandler impl) ((ledger p).bind fun _ => .pure pubKey)
          { r with ledgers := ls }).2.limiter = r.limiter ∧
        (run (trxHandler impl) ((ledger p).bind fun _ => .pure pubKey)
          { r with ledgers := ls }).2.evm = r.evm := by
    simp only [run_bind, run_ledger]
    generalize run (ledgerHandler impl) p ls = ran
    obtain ⟨outcome, ls'⟩ := ran
    cases outcome <;> exact ⟨rfl, rfl⟩
  unfold validateTrx asked
  simp only [Prog.bind_eq, run_bind, run_ledger]
  generalize run (ledgerHandler impl) (commonValidation0 lib ctx) r.ledgers = first
  obtain ⟨outcome, ls⟩ := first
  cases outcome with
  | error fault => exact ⟨rfl, rfl⟩
  | ok pubKey =>
    simp only [andThen_ok]
    generalize run (ledgerHandler impl) (commonValidation1 ctx) ls = second
    obtain ⟨outcome, ls⟩ := second
    cases outcome with
    | error fault => exact ⟨rfl, rfl⟩
    | ok _ =>
      simp only [andThen_ok, StakeCtrler.validateTrx]
      cases ctx.tx.type with
      | staking =>
        exact limiter_ask impl (validateStaking ctx) ctx.validators pubKey
          { r with ledgers := ls }
      | unstaking =>
        exact limiter_ask impl (validateUnstaking ctx) ctx.validators pubKey
          { r with ledgers := ls }
      | transfer | proposal | voting | setDoc | withdraw | contract => exact other _ pubKey ls

/-- The limiter and the EVM after a transaction was executed for `CheckTx`. -/
theorem limiter_executeSync (lib : TrxLib) (json : ParamsJSON) (ctx : TrxContext)
    (outside : ctx.exec = false) (r : Resources L E) :
    (run (trxHandler impl) (executeSync lib json ctx) r).2.limiter =
        limiterAfter r.limiter ctx.validators (run (ledgerHandler impl) (asked lib ctx) r.ledgers).1 ∧
      (run (trxHandler impl) (executeSync lib json ctx) r).2.evm = r.evm := by
  obtain ⟨limiter, evm⟩ := limiter_validateTrx impl lib json ctx r
  unfold executeSync
  simp only [Prog.bind_eq, run_bind]
  generalize run (trxHandler impl) (validateTrx lib json ctx) r = validated at limiter evm ⊢
  obtain ⟨outcome, r'⟩ := validated
  cases outcome with
  | error fault => exact ⟨limiter, evm⟩
  | ok pubKey =>
    have obeys : Obeys (within WrittenByTrx False ctx.exec r'.evm.lastRootHash
        r'.evm.lastBlockHeight) (fun _ => True) (runTrx ctx pubKey : Ctrler E TrxResult) :=
      obeys_runTrx ctx pubKey
    obtain ⟨limiter', evm', -⟩ := run_within impl obeys
    exact ⟨(limiter' id).trans limiter, (evm' outside).trans evm⟩

end

end TrxExecutor

namespace RigoApp

variable (X : External)

/-- What the validation of a transaction in `CheckTx` asks the limiter. -/
def limiterRequest (setting : TrxExecutor.Setting) (txbz : HexBytes) :
    LedgerProg (Option (Delegatee × Int)) := do
  let tx ← TrxExecutor.loadTrx X.trx txbz
  TrxExecutor.asked X.trx (TrxExecutor.contextOf X.trx setting txbz tx)

/-- The limiter after a `CheckTx`, from what the simulation mode of the ledgers holds
before it. -/
def limiterAfterCheck (recheck : Bool) (txbz : HexBytes) (s : App X.evm) : StakeLimiter :=
  if recheck then s.limiter
  else
    match s.mem.lastBlockCtx with
    | none => s.limiter
    | some last =>
      TrxExecutor.limiterAfter s.limiter s.mem.lastValidators
        (run (ledgerHandler simulationImpl) (limiterRequest X (checkSetting s.mem last) txbz)
          s.ledgers).1

theorem limiter_checkNewTx {L : LedgerId → Type} (impl : LedgerImpl L)
    (setting : Setting) (outside : setting.exec = false) (txbz : HexBytes)
    (r : Resources L X.evm) :
    (run (trxHandler impl) (checkNewTx X setting txbz) r).2.limiter =
        limiterAfter r.limiter setting.validators
          (run (ledgerHandler impl) (limiterRequest X setting txbz) r.ledgers).1 ∧
      (run (trxHandler impl) (checkNewTx X setting txbz) r).2.evm = r.evm := by
  unfold checkNewTx limiterRequest newTrxContext
  simp only [Prog.bind_eq, run_bind, run_ledger, run_tryXError]
  generalize run (ledgerHandler impl) (loadTrx X.trx txbz) r.ledgers = loaded
  obtain ⟨outcome, ls⟩ := loaded
  cases outcome with
  | error fault => cases fault <;> exact ⟨rfl, rfl⟩
  | ok tx =>
    have executed := limiter_executeSync impl X.trx X.json
      (contextOf X.trx setting txbz tx) outside { r with ledgers := ls }
    simp only [andThen_ok, Prog.pure_eq, run_pure, attempted,
      run_bind, run_tryXError]
    generalize run (trxHandler impl) (executeSync X.trx X.json
      (contextOf X.trx setting txbz tx)) { r with ledgers := ls } = ran at executed ⊢
    obtain ⟨outcome, r'⟩ := ran
    cases outcome with
    | error fault => cases fault <;> exact executed
    | ok result =>
      simp only [andThen_ok]
      cases result.failed <;> exact executed

/-- `CheckTx` changes nothing of the node but the limiter. -/
theorem node_checkTx (recheck : Bool) (txbz : HexBytes) (s : App X.evm) :
    App.node (checkTx X recheck txbz s).2 =
      { App.node s with limiter := limiterAfterCheck X recheck txbz s } := by
  unfold checkTx limiterAfterCheck
  split
  · rfl
  · cases s.mem.lastBlockCtx with
    | none => rfl
    | some last =>
      obtain ⟨limiter, evm⟩ := limiter_checkNewTx X simulationImpl
        (checkSetting s.mem last) rfl txbz s.toResources
      have stores := simulation_stores (checkNewTx X (checkSetting s.mem last) txbz) s.toResources
      simp only [App.node, Resources.stores, stores, limiter, evm]
      rfl

/-! ## Runs with CheckTx in between -/

/-- A call from the consensus engine or from the mempool. -/
inductive Call where
  | consensus (call : ConsensusCall)
  | checkTx (recheck : Bool) (txbz : HexBytes)
  deriving DecidableEq

/-- The responses to the calls of the consensus engine in a run, up to and with the
first fault.  A panic of `CheckTx` ends that call only. -/
def runMixed : List Call → App X.evm → List (Except Fault Response)
  | [], _ => []
  | .checkTx recheck txbz :: rest, s => runMixed rest (checkTx X recheck txbz s).2
  | .consensus call :: rest, s =>
    match run (nodeHandler X finalityImpl) (consensus X call) s with
    | (.error fault, _) => [.error fault]
    | (.ok response, s') => .ok response :: runMixed rest s'

/-- The calls of the consensus engine alone. -/
def withoutChecks : List Call → List Call
  | [] => []
  | .checkTx _ _ :: rest => withoutChecks rest
  | .consensus call :: rest => .consensus call :: withoutChecks rest

/-- The bytes are a transaction that stakes or unstakes. -/
def Stakes (txbz : HexBytes) : Prop :=
  match Trx.decode X.trx txbz with
  | .ok tx => tx.type = .staking ∨ tx.type = .unstaking
  | .error _ => False

instance (txbz : HexBytes) : Decidable (Stakes X txbz) :=
  match decoded : Trx.decode X.trx txbz with
  | .ok tx =>
    decidable_of_iff (tx.type = .staking ∨ tx.type = .unstaking) (by rw [Stakes, decoded])
  | .error _ => isFalse (by rw [Stakes, decoded]; exact id)

/-- A transaction that stakes or unstakes is delivered before the next block begins. -/
def StakesInBlock : List Call → Prop
  | [] => False
  | .checkTx _ _ :: rest => StakesInBlock rest
  | .consensus (.beginBlock _) :: _ => False
  | .consensus (.deliverTx txbz) :: rest => Stakes X txbz ∨ StakesInBlock rest
  | .consensus .endBlock :: rest => StakesInBlock rest
  | .consensus .commit :: rest => StakesInBlock rest

instance decidableStakesInBlock : (calls : List Call) → Decidable (StakesInBlock X calls)
  | [] => isFalse id
  | .checkTx _ _ :: rest => decidableStakesInBlock rest
  | .consensus (.beginBlock _) :: _ => isFalse id
  | .consensus (.deliverTx txbz) :: rest =>
    haveI := decidableStakesInBlock rest
    inferInstanceAs (Decidable (Stakes X txbz ∨ StakesInBlock X rest))
  | .consensus .endBlock :: rest => decidableStakesInBlock rest
  | .consensus .commit :: rest => decidableStakesInBlock rest

/-- Each `CheckTx` of a run leaves the limiter as it is, or no transaction that stakes
or unstakes is delivered after it in the block. -/
def Unnoticed : List Call → App X.evm → Prop
  | [], _ => True
  | .checkTx recheck txbz :: rest, s =>
    (limiterAfterCheck X recheck txbz s = s.limiter ∨ ¬ StakesInBlock X rest) ∧
      Unnoticed rest (checkTx X recheck txbz s).2
  | .consensus call :: rest, s =>
    match run (nodeHandler X finalityImpl) (consensus X call) s with
    | (.error _, _) => True
    | (.ok _, s') => Unnoticed rest s'

instance decidableUnnoticed : (calls : List Call) → (s : App X.evm) → Decidable (Unnoticed X calls s)
  | [], _ => isTrue trivial
  | .checkTx recheck txbz :: rest, s =>
    haveI := decidableUnnoticed rest (checkTx X recheck txbz s).2
    inferInstanceAs (Decidable
      ((limiterAfterCheck X recheck txbz s = s.limiter ∨ ¬ StakesInBlock X rest) ∧
        Unnoticed X rest (checkTx X recheck txbz s).2))
  | .consensus call :: rest, s =>
    match ran : run (nodeHandler X finalityImpl) (consensus X call) s with
    | (.error _, _) => isTrue (by rw [Unnoticed, ran]; trivial)
    | (.ok _, s') =>
      haveI := decidableUnnoticed rest s'
      decidable_of_iff (Unnoticed X rest s') (by rw [Unnoticed, ran])

/-- Nodes that agree answer a call alike, and agree on the limiter as long as it
matters to the rest of the run. -/
theorem consensus_alike {X : External} {s t : Node X.evm} (call : ConsensusCall)
    (rest : List Call)
    (agrees : Agrees (StakesInBlock X (.consensus call :: rest)) True Eq s t) :
    NodesAlike (Agrees (StakesInBlock X rest) True Eq) (consensus X call) (consensus X call)
      s t := by
  have validators := agrees.validators
  cases call with
  | beginBlock info =>
    refine RunsAlike.bind (agrees.beginBlock info) fun _ s' t' agrees' => ?_
    exact .pure _ (agrees'.weakenLimiter fun _ => trivial)
  | deliverTx txbz =>
    by_cases stakes : Stakes X txbz
    · have live : Agrees True True Eq s t := agrees.weakenLimiter fun _ => .inl stakes
      refine RunsAlike.bind (live.deliverTx txbz (.inl validators)) fun response s' t' agrees' => ?_
      exact .pure _ (agrees'.1.weakenLimiter fun _ => trivial)
    · have other : ∀ tx, Trx.decode X.trx txbz = .ok tx →
          tx.type ≠ .staking ∧ tx.type ≠ .unstaking := by
        intro tx decoded
        rw [Stakes, decoded] at stakes
        exact not_or.mp stakes
      refine RunsAlike.bind (agrees.deliverOther other) fun response s' t' agrees' => ?_
      exact .pure _ (agrees'.weakenLimiter .inr)
  | endBlock =>
    have same : SameUpdates s.mem.govParams s.mem.allDelegatees
        s.mem.lastValidators t.mem.lastValidators := by
      rw [validators]
      rfl
    exact RunsAlike.bind (agrees.endBlock same) fun _ s' t' agrees' => .pure _ agrees'
  | commit => exact RunsAlike.bind agrees.commit fun _ s' t' agrees' => .pure _ agrees'

theorem runMixed_alike {X : External} (calls : List Call) {s t : App X.evm}
    (agrees : Agrees (StakesInBlock X calls) True Eq (App.node s) (App.node t))
    (unnoticed : Unnoticed X calls s) :
    runMixed X calls s = runMixed X (withoutChecks calls) t := by
  induction calls generalizing s t with
  | nil => rfl
  | cons call rest ih =>
    cases call with
    | checkTx recheck txbz =>
      obtain ⟨harmless, unnoticed⟩ := unnoticed
      refine ih ?_ unnoticed
      rw [node_checkTx]
      refine { agrees with sameLimiter := fun live => ?_, sameBlock := agrees.sameBlock }
      rcases harmless with kept | dead
      · exact kept.trans (agrees.sameLimiter live)
      · exact absurd live dead
    | consensus call =>
      have alike := (consensus_alike call rest agrees).app
      unfold RunsAlike at alike
      simp only [runMixed, withoutChecks, Unnoticed] at unnoticed ⊢
      generalize run (nodeHandler X finalityImpl) (consensus X call) s = r
        at alike unnoticed ⊢
      generalize run (nodeHandler X finalityImpl) (consensus X call) t = r' at alike ⊢
      obtain ⟨outcome, s'⟩ := r
      obtain ⟨outcome', t'⟩ := r'
      cases outcome with
      | error fault =>
        cases outcome' with
        | error fault' =>
          obtain rfl : fault = fault' := alike
          rfl
        | ok response' => exact alike.elim
      | ok response =>
        cases outcome' with
        | error fault' => exact alike.elim
        | ok response' =>
          obtain ⟨rfl, agrees'⟩ := alike
          exact congrArg (.ok response :: ·) (ih agrees' unnoticed)

/-- The responses to the consensus engine are those of the run without the `CheckTx`
calls, if each of these leaves the limiter as it is or is not followed by a staking or
an unstaking in the block. -/
theorem runMixed_withoutChecks (X : External) (calls : List Call) (s : App X.evm)
    (unnoticed : Unnoticed X calls s) :
    runMixed X calls s = runMixed X (withoutChecks calls) s :=
  runMixed_alike calls (Agrees.refl _) unnoticed

/-! ## A chain with four validators -/

open Concrete

/-- Two of the validators withdraw their stakes. -/
def twoUnstakings : External :=
  external ⟨[trx .unstaking 1 1 0 0 (zeroBytes 32), trx .unstaking 2 2 0 0 (zeroBytes 32)],
    [], [], []⟩

def fourValidators : App twoUnstakings.evm :=
  (start twoUnstakings (Concrete.genesis
    [(1, 10000000), (2, 10000000), (3, 10000000), (4, 10000000)])).toOption.get
      (by decide +kernel)

/-- The calls up to the start of the third block, in which there are four validators. -/
def twoBlocks : List Call :=
  [.consensus (.beginBlock (block 1)), .consensus .endBlock, .consensus .commit,
    .consensus (.beginBlock (block 2)), .consensus .endBlock, .consensus .commit,
    .consensus (.beginBlock (block 3))]

/-- A `CheckTx` at the end of a block changes no response. -/
theorem runMixed_withoutChecks_fourValidators :
    let calls := twoBlocks ++
      [.consensus (.deliverTx [1]), .checkTx false [0], .consensus .endBlock, .consensus .commit]
    Unnoticed twoUnstakings calls fourValidators ∧
      runMixed twoUnstakings calls fourValidators =
        runMixed twoUnstakings (withoutChecks calls) fourValidators := by
  have unnoticed : Unnoticed twoUnstakings (twoBlocks ++ [.consensus (.deliverTx [1]),
      .checkTx false [0], .consensus .endBlock, .consensus .commit]) fourValidators := by
    decide +kernel
  exact ⟨unnoticed, runMixed_withoutChecks twoUnstakings _ fourValidators unnoticed⟩

/-- The codes of the delivered transactions. -/
def deliverCodes (responses : List (Except Fault Response)) : List Nat :=
  responses.filterMap fun response =>
    match response with
    | .ok (.deliverTx response) => some response.code
    | _ => none

/-- The second unstaking is executed, but not after a `CheckTx` of the first: that has
used up the power that may change in the block. -/
theorem checkTx_changes_deliverTx :
    let calls := twoBlocks ++ [.checkTx false [0], .consensus (.deliverTx [1])]
    deliverCodes (runMixed twoUnstakings (withoutChecks calls) fourValidators) = [0] ∧
      deliverCodes (runMixed twoUnstakings calls fourValidators) = [XError.errDeliverTx.code] ∧
      XError.errDeliverTx.code ≠ 0 := by
  decide +kernel

end RigoApp

end Rigo
