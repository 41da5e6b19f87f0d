import Rigo.Ctrlers.Stake.Selection
import Rigo.Node.Consistent

/-!
# Restarting after a commit

A new process does not know the last validators.  They are read by `EndBlock`, by proposals,
and by stakings and unstakings, until the first `EndBlock` of the new process sets them
again.  `restart_responses` says that the new process answers every sequence of calls as the
old one would have, if none of these depends on them before;
`restart_changes_validatorUpdates` shows that the updates of the next block do.
-/

namespace Rigo

open Foundation
open GovCtrler StakeCtrler TrxExecutor
open Ctrler (ledger)

/-! ## Transactions of a new process -/

namespace TrxExecutor

/-- The limiter accepts what it is asked, if it is asked at all. -/
def Accepted (sl : StakeLimiter) (validators : Validators) :
    Except Fault (Option (Delegatee × Int)) → Prop
  | .ok (some (delegatee, changePower)) =>
    validators.length ≥ 3 → (sl.checkLimit delegatee changePower).1 = .ok ()
  | .ok none => True
  | .error _ => True

instance (sl : StakeLimiter) (validators : Validators) :
    (request : Except Fault (Option (Delegatee × Int))) → Decidable (Accepted sl validators request)
  | .ok (some (delegatee, changePower)) =>
    inferInstanceAs (Decidable (validators.length ≥ 3 →
      (sl.checkLimit delegatee changePower).1 = .ok ()))
  | .ok none => isTrue trivial
  | .error _ => isTrue trivial

section

variable {E : EvmLib}

/-- The workspaces differ in their limiters only. -/
def SameButLimiter (r r' : Workspace E) : Prop := r.ledgers = r'.ledgers ∧ r.evm = r'.evm

variable {r r' : Workspace E}

theorem SameButLimiter.ledger {α : Type} (same : SameButLimiter r r')
    (p : LedgerProg α) :
    InStep SameButLimiter (fun _ => True) (run (trxHandler storeImpl) (ledger p) r)
      (run (trxHandler storeImpl) (ledger p) r') := by
  rw [run_ledger, run_ledger, same.1]
  exact ⟨rfl, ⟨rfl, same.2⟩, fun _ _ => trivial⟩

/-- A request that the limiter accepts is answered as without any validators, when the
limiter is not asked. -/
theorem ask_inStep (request : LedgerProg (Delegatee × Int)) (validators : Validators)
    (same : SameButLimiter r r')
    (accepted : Accepted r.limiter validators
      (exec (request.bind fun change => .pure (some change)) r.ledgers).1) :
    InStep SameButLimiter (fun _ => True)
      (run (trxHandler storeImpl) ((ledger request).bind fun change =>
        checkLimit validators change.1 change.2) r)
      (run (trxHandler storeImpl) ((ledger request).bind fun change =>
        checkLimit [] change.1 change.2) r') := by
  unfold exec at accepted
  simp only [run_bind, run_ledger, ← same.1] at accepted ⊢
  generalize run (ledgerHandler storeImpl) request r.ledgers = worked at accepted ⊢
  obtain ⟨outcome, ls⟩ := worked
  cases outcome with
  | error fault => exact ⟨rfl, ⟨rfl, same.2⟩, fun _ _ => trivial⟩
  | ok change =>
    have unasked : (checkLimit [] change.1 change.2 : Ctrler E Unit) = .pure () := rfl
    simp only [andThen_ok, unasked, run_pure]
    unfold checkLimit
    split
    · next many =>
      have ok : (r.limiter.checkLimit change.1 change.2).1 = .ok () := accepted many
      simp only [Prog.bind_eq, run_bind, Ctrler.getLimiter, run_perform,
        andThen_ok, trxHandler, trxStep, Ctrler.setLimiter, ok]
      exact ⟨rfl, ⟨rfl, same.2⟩, fun _ _ => trivial⟩
    · exact ⟨rfl, ⟨rfl, same.2⟩, fun _ _ => trivial⟩

/-- A transaction that is not a proposal by a validator, and is accepted by the limiter if
it is asked, is validated as without any validators. -/
theorem validateTrx_inStep (lib : TrxLib) (json : ParamsJSON) (ctx : TrxContext)
    (same : SameButLimiter r r')
    (accepted : Accepted r.limiter ctx.validators (exec (asked lib ctx) r.ledgers).1)
    (outsider : ctx.tx.type = .proposal →
      isValidator ctx.validators ctx.tx.fromAddr = false) :
    InStep SameButLimiter (fun _ => ctx.tx.type ≠ .proposal)
      (run (trxHandler storeImpl) (validateTrx lib json ctx) r)
      (run (trxHandler storeImpl) (validateTrx lib json { ctx with validators := [] }) r') := by
  have moved (ls : Stores) : SameButLimiter { r with ledgers := ls } { r' with ledgers := ls } :=
    ⟨rfl, same.2⟩
  have failed (fault : Fault) (ls : Stores) :
      InStep SameButLimiter (fun _ : HexBytes => ctx.tx.type ≠ .proposal)
        (.error fault, { r with ledgers := ls }) (.error fault, { r' with ledgers := ls }) :=
    ⟨rfl, moved ls, fun _ returned => by cases returned⟩
  have passed (pubKey : HexBytes) {p q : Ctrler E Unit} {ls : Stores}
      (inStep : InStep SameButLimiter (fun _ => True)
        (run (trxHandler storeImpl) p { r with ledgers := ls })
        (run (trxHandler storeImpl) q { r' with ledgers := ls }))
      (notProposal : ctx.tx.type ≠ .proposal) :
      InStep SameButLimiter (fun _ => ctx.tx.type ≠ .proposal)
        (run (trxHandler storeImpl) (p.bind fun _ => .pure pubKey) { r with ledgers := ls })
        (run (trxHandler storeImpl) (q.bind fun _ => .pure pubKey) { r' with ledgers := ls }) :=
    inStep.bind fun _ _ _ _ same' => ⟨rfl, same', fun _ _ => notProposal⟩
  have common0 : commonValidation0 lib { ctx with validators := [] } = commonValidation0 lib ctx :=
    rfl
  have common1 : commonValidation1 { ctx with validators := [] } = commonValidation1 ctx := rfl
  unfold validateTrx asked exec at *
  simp only [Prog.bind_eq, run_bind, run_ledger, ← same.1, common0, common1]
    at accepted ⊢
  generalize run (ledgerHandler storeImpl) (commonValidation0 lib ctx) r.ledgers = ran
    at accepted ⊢
  obtain ⟨outcome, ls⟩ := ran
  cases outcome with
  | error fault => exact failed fault ls
  | ok pubKey =>
    simp only [andThen_ok] at accepted ⊢
    generalize run (ledgerHandler storeImpl) (commonValidation1 ctx) ls = ran at accepted ⊢
    obtain ⟨outcome, ls⟩ := ran
    cases outcome with
    | error fault => exact failed fault ls
    | ok _ =>
      simp only [andThen_ok, StakeCtrler.validateTrx] at accepted ⊢
      cases type : ctx.tx.type with
      | staking =>
        rw [type] at accepted passed
        exact passed pubKey (ask_inStep (validateStaking ctx) ctx.validators
          (moved ls) accepted) (by simp)
      | unstaking =>
        rw [type] at accepted passed
        exact passed pubKey (ask_inStep (validateUnstaking ctx) ctx.validators
          (moved ls) accepted) (by simp)
      | proposal =>
        have rejected := outsider type
        have nobody : isValidator [] ctx.tx.fromAddr = false := rfl
        rw [type] at failed
        simp only [GovCtrler.validateTrx, type, validateProposal, rejected, nobody,
          Prog.bind_eq, run_bind, run_ledger, run_ensure]
        cases ctx.tx.toAddr == zeroAddress with
        | false => exact failed _ ls
        | true => exact failed _ ls
      | voting =>
        rw [type] at passed
        simp only [GovCtrler.validateTrx, type]
        exact passed pubKey ((moved ls).ledger (validateVoting ctx)) (by simp)
      | transfer | setDoc | withdraw | contract =>
        rw [type] at passed
        exact passed pubKey ((moved ls).ledger _) (by simp)

theorem runTrx_validators (ctx : TrxContext) (validators : Validators) (pubKey : HexBytes)
    (notProposal : ctx.tx.type ≠ .proposal) :
    (runTrx { ctx with validators := validators } pubKey : Ctrler E TrxResult) =
      runTrx ctx pubKey := by
  unfold runTrx
  cases type : ctx.tx.type with
  | proposal => exact absurd type notProposal
  | voting =>
    simp only [GovCtrler.executeTrx, type]
    rfl
  | transfer | setDoc | contract => rfl
  | staking | unstaking | withdraw =>
    simp only [StakeCtrler.executeTrx, type]
    rfl

/-- So it is executed as without any validators. -/
theorem executeSync_inStep (lib : TrxLib) (json : ParamsJSON) (ctx : TrxContext)
    (same : SameButLimiter r r')
    (accepted : Accepted r.limiter ctx.validators (exec (asked lib ctx) r.ledgers).1)
    (outsider : ctx.tx.type = .proposal →
      isValidator ctx.validators ctx.tx.fromAddr = false) :
    InStep SameButLimiter (fun _ => True)
      (run (trxHandler storeImpl) (executeSync lib json ctx) r)
      (run (trxHandler storeImpl) (executeSync lib json { ctx with validators := [] }) r') := by
  refine (validateTrx_inStep lib json ctx same accepted outsider).bind ?_
  intro pubKey a b notProposal ⟨ledgers, evm⟩
  rw [runTrx_validators ctx [] pubKey notProposal]
  obtain ⟨outcome, related⟩ := run_related_within a b (obeys_runTrx ctx pubKey) ledgers evm
  exact ⟨outcome, related, fun _ _ => trivial⟩

end

end TrxExecutor

/-! ## Calls of a new process -/

namespace RigoApp

variable (X : External)

/-- A call does not depend on the last validators: all of them are selected again with other
powers, no validator makes a proposal, and the limiter refuses nothing. -/
def Unread (s : Node X.evm) : ConsensusCall → Prop
  | .beginBlock _ => True
  | .deliverTx txbz =>
    match s.mem.nextBlockCtx, Trx.decode X.trx txbz with
    | some bctx, .ok tx =>
      (tx.type = .proposal → GovCtrler.isValidator s.mem.lastValidators tx.fromAddr = false) ∧
        TrxExecutor.Accepted s.limiter s.mem.lastValidators
          (exec (TrxExecutor.asked X.trx
            (TrxExecutor.contextOf X.trx (deliverSetting s.mem bctx) txbz tx))
            (Stores.withAccount s.ledgers tx.toAddr)).1
    | _, _ => True
  | .endBlock => StakeCtrler.Repowered s.mem.lastValidators
      (s.mem.allDelegatees.take s.mem.govParams.maxValidatorCnt.toNat)
  | .commit => True

/-- In a run of the old process no call depends on the last validators up to the first
`EndBlock`.  After it no staking or unstaking is delivered before the next block begins. -/
def UnreadUntilEndBlock : List ConsensusCall → Node X.evm → Prop
  | [], _ => True
  | call :: rest, s => Unread X s call ∧
      if call = .endBlock then ¬ StakesInBlock X (rest.map .consensus)
      else
        match run (nodeHandler X storeImpl) (consensus X call) s with
        | (.error _, _) => True
        | (.ok _, s') => UnreadUntilEndBlock rest s'

instance decidableUnread (s : Node X.evm) : (call : ConsensusCall) → Decidable (Unread X s call)
  | .beginBlock _ => isTrue trivial
  | .deliverTx txbz =>
    match inBlock : s.mem.nextBlockCtx, decoded : Trx.decode X.trx txbz with
    | none, _ => isTrue (by rw [Unread, inBlock]; trivial)
    | some _, .error _ => isTrue (by rw [Unread, inBlock, decoded]; trivial)
    | some bctx, .ok tx =>
      decidable_of_iff
        ((tx.type = .proposal → GovCtrler.isValidator s.mem.lastValidators tx.fromAddr = false) ∧
          TrxExecutor.Accepted s.limiter s.mem.lastValidators
            (exec (TrxExecutor.asked X.trx
              (TrxExecutor.contextOf X.trx (deliverSetting s.mem bctx) txbz tx))
              (Stores.withAccount s.ledgers tx.toAddr)).1)
        (by rw [Unread, inBlock, decoded])
  | .endBlock => inferInstanceAs (Decidable (∀ e ∈ _, ∃ n ∈ _, _ ∧ _))
  | .commit => isTrue trivial

instance decidableUnreadUntilEndBlock : (calls : List ConsensusCall) → (s : Node X.evm) →
    Decidable (UnreadUntilEndBlock X calls s)
  | [], _ => isTrue trivial
  | call :: rest, s =>
    if ends : call = .endBlock then
      decidable_of_iff (Unread X s call ∧ ¬ StakesInBlock X (rest.map .consensus))
        (by rw [UnreadUntilEndBlock, if_pos ends])
    else
      match ran : run (nodeHandler X storeImpl) (consensus X call) s with
      | (.error _, _) =>
        decidable_of_iff (Unread X s call)
          (by rw [UnreadUntilEndBlock, if_neg ends, ran]; simp)
      | (.ok _, s') =>
        haveI := decidableUnreadUntilEndBlock rest s'
        decidable_of_iff (Unread X s call ∧ UnreadUntilEndBlock X rest s')
          (by rw [UnreadUntilEndBlock, if_neg ends, ran])

section

variable {X} {s t : Node X.evm} {V : Validators → Validators → Prop}

/-- The last validators have distinct addresses, and the delegatees they are selected from. -/
structure DistinctAddresses {E : EvmLib} (s : Node E) : Prop where
  delegatees : (s.mem.allDelegatees.map Delegatee.addr).Nodup
  validators : (s.mem.lastValidators.map Delegatee.addr).Nodup

theorem DistinctAddresses.consensus {call : ConsensusCall} {response : Response}
    (distinct : DistinctAddresses s)
    (ran : run (nodeHandler X storeImpl) (consensus X call) s = (.ok response, t)) :
    DistinctAddresses t := by
  cases call with
  | beginBlock info =>
    obtain ⟨-, began⟩ := consensus_beginBlock_ok ran
    obtain ⟨last, ls, ls', allDelegatees, -, -, -, -, collected, -, rfl⟩ := beginBlock_ok began
    refine ⟨?_, distinct.validators⟩
    simp only [collectDelegatees_ok collected]
    exact nodup_eligible (nodup_items _)
  | deliverTx txbz =>
    obtain ⟨answer, -, delivered⟩ := consensus_deliverTx_ok ran
    obtain ⟨-, -, -, -, next, mem, -⟩ := deliverTx_keeps delivered
    exact ⟨mem ▸ distinct.delegatees, mem ▸ distinct.validators⟩
  | endBlock =>
    obtain ⟨valUpdates, -, ended⟩ := consensus_endBlock_ok ran
    obtain ⟨bctx, newGovParams, lastValidators, ls, ls', ls'', -, -, -, refunded, rfl⟩ :=
      endBlock_ok ended
    obtain ⟨-, rfl⟩ := endBlock_selects refunded
    refine ⟨distinct.delegatees, ((sortBy_perm _ _).map _).nodup_iff.mpr ?_⟩
    exact distinct.delegatees.sublist ((List.take_sublist _ _).map _)
  | commit =>
    obtain ⟨appHash, -, committed⟩ := consensus_commit_ok ran
    obtain ⟨bctx, state, -, -, -, rfl, -⟩ := commit_ok committed
    exact ⟨distinct.delegatees, distinct.validators⟩

theorem Reachable.distinctAddresses {s : App X.evm} (reachable : Reachable X s) :
    DistinctAddresses (App.node s) := by
  refine reachable.node_induction ?_ DistinctAddresses.consensus ?_ ?_
  · intro genesis s t first ran
    obtain ⟨ls, ls', ls'', -, -, -, rfl⟩ := initChain_ok ran
    cases first
    exact ⟨List.nodup_nil, List.nodup_nil⟩
  · exact fun limiter distinct => ⟨distinct.delegatees, distinct.validators⟩
  · intro s t appHash u _ _ restarted
    unfold restartNode boot at restarted
    simp only at restarted
    split at restarted
    · cases restarted
    · cases restarted
      exact ⟨List.nodup_nil, List.nodup_nil⟩

theorem Agrees.deliverUnread (agrees : Agrees False True V s t)
    (noValidators : t.mem.lastValidators = []) {txbz : HexBytes}
    (unread : Unread X s (.deliverTx txbz)) :
    NodesAlike (Agrees False True V) (deliverTx X txbz) (deliverTx X txbz) s t := by
  obtain ⟨evm, delegatees⟩ := agrees.sameBlock trivial
  unfold NodesAlike RunsAlike
  rw [run_deliverTx, run_deliverTx, ← agrees.nextBlockCtx, ← agrees.ledgers]
  unfold Unread at unread
  cases inBlock : s.mem.nextBlockCtx with
  | none => rfl
  | some bctx =>
    cases decoded : Trx.decode X.trx txbz with
    | error e => rfl
    | ok tx =>
      simp only [inBlock, decoded] at unread ⊢
      cases Stores.account s.ledgers tx.fromAddr with
      | none => rfl
      | some sender =>
        obtain ⟨outsider, accepted⟩ := unread
        let ctx := ctxOf X s bctx txbz tx
        have contexts : contextOf X.trx (deliverSetting t.mem bctx) txbz tx =
            { ctx with validators := [] } := by
          simp only [ctx, contextOf, deliverSetting, agrees.chainID,
            agrees.govParams, noValidators]
        have same : SameButLimiter
            { s.toResources with ledgers := Stores.withAccount s.ledgers tx.toAddr }
            { t.toResources with ledgers := Stores.withAccount s.ledgers tx.toAddr } :=
          ⟨rfl, evm⟩
        obtain ⟨outcome, ⟨ledgers, evm'⟩, -⟩ :=
          executeSync_inStep X.trx X.json ctx same accepted outsider
        rw [contexts]
        exact (agrees.respond bctx rfl outcome ledgers evm' False.elim).mono
          fun _ _ related => related.1

variable {call : ConsensusCall} {R : Node X.evm → Node X.evm → Prop}

/-- The responses to some calls are the same if the first response is, and the others are
from related states. -/
theorem runCalls_cons_alike {rest : List ConsensusCall}
    (alike : NodesAlike R (consensus X call) (consensus X call) s t)
    (next : ∀ response s' t', run (nodeHandler X storeImpl) (consensus X call) s =
        (.ok response, s') → R s' t' →
      (runCalls X storeImpl rest s').1 = (runCalls X storeImpl rest t').1) :
    (runCalls X storeImpl (call :: rest) s).1 = (runCalls X storeImpl (call :: rest) t).1 := by
  unfold NodesAlike RunsAlike at alike
  simp only [runCalls]
  generalize run (nodeHandler X storeImpl) (consensus X call) s = r at alike next ⊢
  generalize run (nodeHandler X storeImpl) (consensus X call) t = r' at alike ⊢
  obtain ⟨outcome, s'⟩ := r
  obtain ⟨outcome', t'⟩ := r'
  cases outcome with
  | error fault =>
    cases outcome' with
    | error fault' => exact congrArg (fun fault => [Except.error fault]) alike
    | ok response' => exact alike.elim
  | ok response =>
    cases outcome' with
    | error fault' => exact alike.elim
    | ok response' =>
      obtain ⟨rfl, related⟩ := alike
      exact congrArg (Except.ok response :: ·) (next response s' t' rfl related)

/-- After an `EndBlock` the new process has the same last validators. -/
theorem runCalls_alike (calls : List ConsensusCall)
    (agrees : Agrees (StakesInBlock X (calls.map .consensus)) True Eq s t) :
    (runCalls X storeImpl calls s).1 = (runCalls X storeImpl calls t).1 := by
  induction calls generalizing s t with
  | nil => rfl
  | cons call rest ih =>
    refine runCalls_cons_alike (consensus_alike call (rest.map .consensus) agrees) ?_
    intro response s' t' ran agrees'
    exact ih agrees'

/-- Calls that fail outside of a block. -/
theorem consensus_closed (closed : s.mem.nextBlockCtx = none)
    (inBlock : ∀ info, call ≠ .beginBlock info) :
    run (nodeHandler X storeImpl) (consensus X call) s = (.error (.panic .nilDereference), s) := by
  cases call with
  | beginBlock info => exact absurd rfl (inBlock info)
  | deliverTx txbz =>
    simp only [consensus, Prog.bind_eq, run_bind, run_deliverTx, closed]
    rfl
  | endBlock =>
    simp only [consensus, endBlock, Prog.bind_eq, run_bind, run_app, appStep,
      andThen_ok, run_nextBlockCtx, closed]
    rfl
  | commit =>
    simp only [consensus, commit, Prog.bind_eq, run_bind, run_nextBlockCtx, closed]
    rfl

theorem closed_alike (closed : s.mem.nextBlockCtx = none)
    (closed' : t.mem.nextBlockCtx = none)
    (inBlock : ∀ info, call ≠ .beginBlock info) :
    NodesAlike R (consensus X call) (consensus X call) s t := by
  unfold NodesAlike RunsAlike
  rw [consensus_closed closed inBlock, consensus_closed closed' inBlock]
  rfl

/-- A process without last validators that agrees with another one on everything else; what
is set when a block begins matters in a block only. -/
abbrev AgreesWithoutValidators (s t : Node X.evm) : Prop :=
  Agrees False (s.mem.nextBlockCtx ≠ none) (fun _ validators => validators = []) s t

theorem agrees_openBlock {limiter : Prop}
    (agrees : Agrees limiter True (fun _ validators => validators = []) s t) :
    AgreesWithoutValidators s t :=
  { agrees with
    sameLimiter := False.elim
    sameBlock := fun _ => agrees.sameBlock trivial }

/-- A call that does not depend on the last validators is answered alike. -/
theorem consensus_unread (agrees : AgreesWithoutValidators s t)
    (notEnd : call ≠ .endBlock) (unread : Unread X s call) :
    NodesAlike AgreesWithoutValidators (consensus X call) (consensus X call) s t := by
  by_cases closed : s.mem.nextBlockCtx = none
  · cases call with
    | beginBlock info =>
      exact RunsAlike.bind (agrees.beginBlock info) fun _ _ _ agrees' =>
        .pure _ (agrees_openBlock agrees')
    | deliverTx txbz => exact closed_alike closed (agrees.nextBlockCtx ▸ closed) (by simp)
    | endBlock => exact absurd rfl notEnd
    | commit => exact closed_alike closed (agrees.nextBlockCtx ▸ closed) (by simp)
  · have opened : Agrees False True (fun _ validators => validators = []) s t :=
      { agrees with sameBlock := fun _ => agrees.sameBlock closed }
    cases call with
    | beginBlock info =>
      exact RunsAlike.bind (agrees.beginBlock info) fun _ _ _ agrees' =>
        .pure _ (agrees_openBlock agrees')
    | deliverTx txbz =>
      exact RunsAlike.bind (Agrees.deliverUnread opened agrees.validators unread)
        fun _ _ _ agrees' => .pure _ (agrees_openBlock agrees')
    | endBlock => exact absurd rfl notEnd
    | commit =>
      exact RunsAlike.bind opened.commit fun _ _ _ agrees' => .pure _ (agrees_openBlock agrees')

/-- So is an `EndBlock` that selects all of them with other powers, and then the last validators
are the same. -/
theorem endBlock_unread (agrees : AgreesWithoutValidators s t) (distinct : DistinctAddresses s)
    (unread : Unread X s .endBlock) :
    NodesAlike (Agrees False True Eq) (consensus X .endBlock) (consensus X .endBlock) s t := by
  by_cases closed : s.mem.nextBlockCtx = none
  · exact closed_alike closed (agrees.nextBlockCtx ▸ closed) (by simp)
  · have opened : Agrees False True (fun _ validators => validators = []) s t :=
      { agrees with sameBlock := fun _ => agrees.sameBlock closed }
    have same : SameUpdates s.mem.govParams s.mem.allDelegatees
        s.mem.lastValidators t.mem.lastValidators := by
      have chosen : ((s.mem.allDelegatees.take s.mem.govParams.maxValidatorCnt.toNat).map
          Delegatee.addr).Nodup := distinct.delegatees.sublist ((List.take_sublist _ _).map _)
      rw [agrees.validators]
      refine validatorUpdates_repowered _ _ (ascending_sortBy distinct.validators)
        (ascending_sortBy chosen) fun v member => ?_
      obtain ⟨d, selected, anew⟩ := unread v ((sortBy_perm _ _).mem_iff.mp member)
      exact ⟨d, (sortBy_perm _ _).mem_iff.mpr selected, anew⟩
    exact RunsAlike.bind (opened.endBlock same) fun _ _ _ agrees' => .pure _ agrees'

/-- A run in which no call depends on the last validators is answered alike. -/
theorem runCalls_unread (calls : List ConsensusCall) (agrees : AgreesWithoutValidators s t)
    (distinct : DistinctAddresses s) (unread : UnreadUntilEndBlock X calls s) :
    (runCalls X storeImpl calls s).1 = (runCalls X storeImpl calls t).1 := by
  induction calls generalizing s t with
  | nil => rfl
  | cons call rest ih =>
    obtain ⟨unread, after⟩ := unread
    by_cases ends : call = .endBlock
    · rw [if_pos ends] at after
      subst ends
      refine runCalls_cons_alike (endBlock_unread agrees distinct unread) ?_
      intro response s' t' ran agrees'
      exact runCalls_alike rest (agrees'.weakenLimiter after)
    · rw [if_neg ends] at after
      refine runCalls_cons_alike (consensus_unread agrees ends unread) ?_
      intro response s' t' ran agrees'
      rw [ran] at after
      exact ih agrees' (distinct.consensus ran) after

end

/-- A process that is started after a commit answers all further calls as the old one, if
none of them depends on the last validators up to the first `EndBlock`. -/
theorem restart_responses {s s' : App X.evm} {appHash : HexBytes} (reachable : Reachable X s)
    (ran : run (nodeHandler X finalityImpl) (commit X) s = (.ok appHash, s'))
    (range : 0 ≤ s'.mem.govParams.maxValidatorCnt) (calls : List ConsensusCall)
    (unread : UnreadUntilEndBlock X calls (App.node s')) :
    ∃ t, restart X s' = .ok t ∧
      (runCalls X finalityImpl calls t).1 = (runCalls X finalityImpl calls s').1 := by
  have flushed := (reachable.consistent.flushed (run_node_ok ran)).restartNode
  have started : ¬ (App.node s').mem.govParams.maxValidatorCnt < 0 := not_lt.mpr range
  rw [if_neg started] at flushed
  obtain ⟨u, booted, closed, agrees⟩ := flushed
  obtain ⟨t, restarted, rfl⟩ := restart_eq_ok.mp booted
  refine ⟨t, restarted, ?_⟩
  rw [(runCalls_node X calls t).1, (runCalls_node X calls s').1]
  have outside : (App.node s').mem.nextBlockCtx = none := agrees.nextBlockCtx.trans closed
  have distinct : DistinctAddresses (App.node s') := by
    obtain ⟨bctx, state, -, -, -, same, -⟩ := commit_ok (run_node_ok ran)
    rw [same]
    exact ⟨reachable.distinctAddresses.delegatees, reachable.distinctAddresses.validators⟩
  refine (runCalls_unread calls { agrees with sameBlock := ?_ } distinct unread).symm
  intro opened
  exact absurd outside opened

/-! ## Two chains -/

open Concrete

/-- The chain that grows, at the end of its second block. -/
def growingEnd : App growing.evm :=
  (runCalls growing finalityImpl growingCalls growingStart).2

/-- A process started after the second block, in which the three validators have got more power,
answers the next two blocks as the old one.  It is asked for more stake in the third block. -/
theorem restart_responses_growing :
    let calls := [.beginBlock (block 3), .deliverTx [4], .endBlock, .commit,
      .beginBlock (block 4), .endBlock, .commit]
    ∃ s t, run (nodeHandler growing finalityImpl) (commit growing) growingEnd =
        (.ok [3, 2, 2, 10, 9, 2], s) ∧
      s.mem.lastValidators.map Delegatee.addr = [addr 3, addr 2, addr 1] ∧
      restart growing s = .ok t ∧
      (runCalls growing finalityImpl calls t).1 = (runCalls growing finalityImpl calls s).1 := by
  have reachable : Reachable growing growingEnd :=
    (Reachable.of_isSome _).runCalls _ (by decide +kernel)
  have ran : run (nodeHandler growing finalityImpl) (commit growing) growingEnd =
      (.ok [3, 2, 2, 10, 9, 2], (run (nodeHandler growing finalityImpl) (commit growing)
        growingEnd).2) := Prod.ext (by decide +kernel) rfl
  obtain ⟨t, restarted, alike⟩ := restart_responses growing reachable ran (by decide +kernel)
    [.beginBlock (block 3), .deliverTx [4], .endBlock, .commit, .beginBlock (block 4), .endBlock,
      .commit] (by decide +kernel)
  exact ⟨_, t, ran, by decide +kernel, restarted, alike⟩

/-- The chain of four validators in its second block, at whose end they are known. -/
def inSecondBlock : App twoUnstakings.evm :=
  (runCalls twoUnstakings finalityImpl
    [.beginBlock (block 1), .endBlock, .commit, .beginBlock (block 2), .endBlock] fourValidators).2

theorem reachable_inSecondBlock : Reachable twoUnstakings inSecondBlock :=
  (Reachable.of_isSome _).runCalls _ (by decide +kernel)

/-- The state that a commit leaves. -/
def afterCommit (s : App twoUnstakings.evm) : App twoUnstakings.evm :=
  (run (nodeHandler twoUnstakings finalityImpl) (commit twoUnstakings) s).2

/-- The process that is started after the second block. -/
def restartedAfterSecondBlock : App twoUnstakings.evm :=
  (restart twoUnstakings (afterCommit inSecondBlock)).toOption.get (by decide +kernel)

/-- A process started after the second block reports the four validators again at the end
of the third, where the old process has no updates to report. -/
theorem restart_changes_validatorUpdates :
    ∃ s s' appHash t, Reachable twoUnstakings s ∧
      run (nodeHandler twoUnstakings finalityImpl) (commit twoUnstakings) s = (.ok appHash, s') ∧
      restart twoUnstakings s' = .ok t ∧
      (runCalls twoUnstakings finalityImpl [.beginBlock (block 3), .endBlock] s').1 =
        [.ok .beginBlock, .ok (.endBlock [])] ∧
      (runCalls twoUnstakings finalityImpl [.beginBlock (block 3), .endBlock] t).1 =
        [.ok .beginBlock, .ok (.endBlock [⟨addr 1, 10000000⟩, ⟨addr 2, 10000000⟩,
          ⟨addr 3, 10000000⟩, ⟨addr 4, 10000000⟩])] := by
  have ran : run (nodeHandler twoUnstakings finalityImpl) (commit twoUnstakings) inSecondBlock =
      (.ok [3, 2, 2, 6, 6, 2], afterCommit inSecondBlock) :=
    Prod.ext (by decide +kernel) rfl
  exact ⟨inSecondBlock, afterCommit inSecondBlock, _, restartedAfterSecondBlock,
    reachable_inSecondBlock, ran, eq_ok_of_isSome _, by decide +kernel, by decide +kernel⟩

end RigoApp

end Rigo
