import Rigo.Node.Choices
import Rigo.Node.LifeCycle
import Rigo.Node.Native

/-!
# Freezing and the history of a proposal

A proposal is changed by votes and, at the beginning of a block, by evidence against its voters;
when its voting period is over, the end of a block freezes or drops it.  `replay` computes from the
steps of a run what should be stored under a key: the accepted proposal, with the successful votes
and the punishments applied in their order.  The ledger has just this (`Run.replayed`).

`freezeProposals` does not look at what the ledger has, but at what was committed by the last block.
It misses the punishments of its own block.  Where these leave the proposal as it is, freezing
decides on the whole history (`Run.frozen_replayed`).
-/

namespace Rigo

open Foundation
open Store Stores
open GovCtrler GovProposal LedgerProg TrxExecutor

variable {info : BlockInfo} {prop : GovProposal} {tx : Trx}

/-! ## Punishments -/

namespace GovProposal

theorem isVoter_iff {addr : Address} :
    prop.isVoter addr = true ↔ addr ∈ prop.voters.map Voter.addr := by
  simp only [isVoter, findVoter, List.find?_isSome, beq_iff_eq, List.mem_map]

/-- What a punishment leaves of a proposal. -/
structure Punishes (prop prop' : GovProposal) : Prop where
  alike : prop.Alike prop'
  chosen : prop'.Chosen
  voters : ∀ addr, prop'.isVoter addr = true → prop.isVoter addr = true

theorem cast_punish (prop : GovProposal) (addr : Address) (ratio : Int) :
    prop.cast (.punish addr ratio) =
      prop.after ((prop.doPunish addr ratio).bind fun punished => .pure punished.2) := rfl

/-- A punishment is carried out, and has no effect on a proposal in which the punished cannot
vote. -/
theorem Chosen.punish (chosen : prop.Chosen) (addr : Address) (ratio : Int) :
    ∃ prop', prop.cast (.punish addr ratio) = .ok prop' ∧ prop.Punishes prop' ∧
      (prop.isVoter addr = false → prop' = prop) ∧
      ((∃ e, (prop.doPunish addr ratio : Prog LedgerOp Fault _) = throwX e) ∧ prop' = prop ∨
        ∃ slashed, (prop.doPunish addr ratio : Prog LedgerOp Fault _) =
          .pure (slashed, prop')) := by
  cases found : prop.findVoter addr with
  | none =>
    have failed : (prop.doPunish addr ratio : Prog LedgerOp Fault _) =
        throwX .errNotFoundVoter := by
      unfold GovProposal.doPunish
      simp only [found]
    refine ⟨prop, ?_, ⟨⟨rfl, rfl⟩, chosen, fun _ => id⟩, fun _ => rfl, .inl ⟨⟨_, failed⟩, rfl⟩⟩
    rw [cast_punish, failed]
    rfl
  | some voter =>
    have high := chosen voter (List.mem_of_find?_eq_some found)
    have punished : (prop.doPunish addr ratio : Prog LedgerOp Fault _) =
        .pure (slashingPower voter.power ratio, prop.punished voter ratio) :=
      doPunish_eq found high ratio
    have alike := returnsAlike_doPunish (c := writing (fun _ => True) fun _ => True) prop addr ratio
    have kept := chosen.doPunish (F := LedgerOp) addr ratio
    rw [punished] at alike kept
    refine ⟨prop.punished voter ratio, ?_, ⟨alike _ rfl, ?_, fun other member => ?_⟩,
      fun missing => ?_, .inr ⟨_, punished⟩⟩
    · rw [cast_punish, punished]
      rfl
    · obtain ⟨e, failed⟩ | ⟨slashed, prop', same, chosen'⟩ := kept
      · cases failed
      · rw [(Prod.mk.inj (Prog.pure.inj same)).2]
        exact chosen'
    · rw [isVoter_iff, punished_voters] at member
      rw [isVoter_iff]
      split at member
      · obtain ⟨v, inside, rfl⟩ := List.mem_map.mp member
        exact List.mem_map_of_mem (List.mem_filter.mp inside).1
      · rwa [map_key_replaceBy] at member
    · simp [isVoter, found] at missing

end GovProposal

namespace GovCtrler

/-- The proposals while a block punishes: a proposal that is found was committed, with the same
voters or more. -/
structure Punishing (ls : Stores) : Prop where
  removed : (ls .proposals).removed = []
  found : ∀ k prop, (ls .proposals).lookup k = some prop → prop.Chosen ∧
    ∃ prop₀, (ls .proposals).tree.contents.find? k = some prop₀ ∧
      ∀ addr, prop.isVoter addr = true → prop₀.isVoter addr = true

section

variable {ls ls' : Stores} {ratio : Int} {target : Address}

/-- One round of the loop of `doPunish`. -/
theorem punishProposal_ok {k : LedgerKey} {slashed : Int} (punishing : Punishing ls)
    (ran : exec (punishProposal ratio target k) ls = (.ok slashed, ls')) :
    Punishing ls' ∧ ∃ prop prop', (ls .proposals).lookup k = some prop ∧
      prop.cast (.punish target ratio) = .ok prop' ∧
      ∀ k', (ls' .proposals).lookup k' =
        if k' = k then some prop' else (ls .proposals).lookup k' := by
  have ran := LedgerProg.run_get_ok ran
  rw [Store.get] at ran
  cases here : (ls .proposals).lookup k with
  | none =>
    rw [here] at ran
    cases ran
  | some prop =>
    rw [here] at ran
    obtain ⟨chosen, prop₀, committed, more⟩ := punishing.found k prop here
    obtain ⟨prop', cast, punishes, -, outcome⟩ := chosen.punish target ratio
    have stored : ls' = ls.put .proposals prop' := by
      rcases outcome with ⟨⟨e, failed⟩, rfl⟩ | ⟨slashed', returned⟩
      · simp only [found_some, failed] at ran
        cases ran
        rfl
      · simp only [found_some, returned] at ran
        cases ran
        rfl
    have key : LedgerItem.key prop' = k :=
      (congrArg toLedgerKey punishes.alike.1).trans (Store.key_of_lookup here)
    have lookup (k' : LedgerKey) : (ls' .proposals).lookup k' =
        if k' = k then some prop' else (ls .proposals).lookup k' := by
      rw [stored, Stores.put_self, Store.lookup_set_of_removed punishing.removed, key]
      simp only [eq_comm]
    refine ⟨⟨?_, fun k' prop'' there => ?_⟩, prop, prop', rfl, cast, lookup⟩
    · rw [stored, Stores.put_self]
      exact punishing.removed
    · have tree : (ls' .proposals).tree = (ls .proposals).tree := by
        rw [stored, Stores.put_self]
        rfl
      rw [lookup] at there
      rw [tree]
      split at there
      · next same =>
        cases there
        subst same
        exact ⟨punishes.chosen, prop₀, committed, fun addr voter =>
          more addr (punishes.voters addr voter)⟩
      · exact punishing.found k' prop'' there

/-- The keys of the proposals to punish are different. -/
theorem nodup_targetPropsKeys {tree : Tree GovProposal} :
    (targetPropsKeys target tree.contents.items).Nodup :=
  (KeyedMap.nodup_map_key_items tree.contents).sublist
    (List.Sublist.map _ List.filter_sublist)

/-- `doPunish` punishes every proposal. -/
theorem doPunish_cast (punishing : Punishing ls)
    (ran : exec (doPunish ratio target) ls = (.ok (), ls')) :
    Punishing ls' ∧ ∀ k, (ls' .proposals).lookup k =
      ((ls .proposals).lookup k).bind fun prop => (prop.cast (.punish target ratio)).toOption := by
  have ran := run_readAll_ok ran
  obtain ⟨punishing', outside, inside⟩ := run_forM_at
    (V := fun ls k => (ls .proposals).lookup k) (I := Punishing)
    (fun k ls ls' punishing ran => by
      obtain ⟨slashed, ls₁, round, same⟩ := run_bind_ok ran
      cases same
      obtain ⟨punishing', prop, prop', -, -, lookup⟩ := punishProposal_ok punishing round
      refine ⟨punishing', fun k' other => ?_⟩
      rw [lookup, if_neg other])
    (by rw [List.map_id']; exact nodup_targetPropsKeys) punishing ran
  refine ⟨punishing', fun k => ?_⟩
  by_cases targeted : k ∈ targetPropsKeys target (ls .proposals).tree.contents.items
  · obtain ⟨ls₁, ls₂, punishing₁, before, round, after⟩ := inside k targeted
    obtain ⟨slashed, ls₃, round, same⟩ := run_bind_ok round
    cases same
    obtain ⟨-, prop, prop', there, cast, lookup⟩ := punishProposal_ok punishing₁ round
    have here : (ls .proposals).lookup k = some prop := before.symm.trans there
    rw [here, Option.bind_some, cast]
    refine after.trans ?_
    simp only [lookup, if_true]
    rfl
  · -- who may not vote in the committed proposal may not vote now
    rw [show (ls' .proposals).lookup k = _ from outside k (by rwa [List.map_id'])]
    cases here : (ls .proposals).lookup k with
    | none => rfl
    | some prop =>
      obtain ⟨chosen, prop₀, committed, more⟩ := punishing.found k prop here
      obtain ⟨prop', cast, -, untouched, -⟩ := chosen.punish target ratio
      have missing : prop.isVoter target = false := by
        by_contra voter
        refine targeted (List.mem_map.mpr ⟨prop₀, List.mem_filter.mpr ⟨?_, ?_⟩, ?_⟩)
        · exact KeyedMap.mem_items_of_find? committed
        · exact more target (by simpa using voter)
        · exact KeyedMap.key_of_find? committed
      rw [Option.bind_some, cast, untouched missing]
      rfl

/-- `BeginBlock` punishes every proposal for all evidence. -/
theorem beginBlock_cast {params : GovParams} (punishing : Punishing ls)
    (ran : exec (beginBlock params info) ls = (.ok (), ls')) (k : LedgerKey) :
    (ls' .proposals).lookup k = ((ls .proposals).lookup k).bind fun prop =>
      (prop.castAll (info.byzantines.map (.punish · params.slashRatio))).toOption := by
  unfold beginBlock at ran
  generalize info.byzantines = byzantines at ran
  induction byzantines generalizing ls with
  | nil =>
    cases ran
    cases (ls' .proposals).lookup k <;> rfl
  | cons target rest ih =>
    obtain ⟨_, ls₁, first, ran⟩ := run_bind_ok ran
    obtain ⟨punishing₁, lookup⟩ := doPunish_cast punishing first
    rw [ih punishing₁ ran, lookup]
    cases (ls .proposals).lookup k with
    | none => rfl
    | some prop =>
      rw [Option.bind_some, Option.bind_some, List.map_cons, castAll]
      cases prop.cast (.punish target params.slashRatio) <;> rfl

end

end GovCtrler

/-! ## Transactions of the governance -/

namespace GovCtrler

variable {ls ls' : Stores} {ctx : TrxContext}

/-- `ExecuteTrx` fails before it has written anything. -/
theorem executeTrx_error {fault : Fault} (ran : exec (executeTrx ctx) ls = (.error fault, ls')) :
    ls' = ls := by
  unfold executeTrx at ran
  split at ran
  · unfold execProposing at ran
    split at ran <;> cases ran
    rfl
  · unfold execVoting at ran
    split at ran
    · next payload _ =>
      rw [exec_bind, LedgerProg.exec_get, andThen_ok, Store.get] at ran
      cases here : (ls .proposals).lookup (toLedgerKey payload.txHash) with
      | none =>
        rw [here] at ran
        cases ran
        rfl
      | some prop =>
        rw [here, found_some] at ran
        have voted : exec (GovProposal.vote prop ctx.tx.fromAddr payload.choice >>=
            fun prop => LedgerProg.set .proposals prop) ls = (.error fault, ls') := ran
        have kept : (exec (GovProposal.vote prop ctx.tx.fromAddr payload.choice) ls).2 = ls :=
          funext fun l => exec_frame (S := fun _ => False) (writes_vote _ _ _) id ls
        rw [exec_bind] at voted
        generalize exec (GovProposal.vote prop ctx.tx.fromAddr payload.choice) ls = outcome
          at kept voted
        obtain ⟨_ | prop', ls₁⟩ := outcome
        · cases voted
          exact kept
        · cases voted
    · cases ran
      rfl
  · cases ran
    rfl

/-- A vote that is valid and is executed is cast on the proposal. -/
theorem execVoting_ok {json : ParamsJSON} {payload : TrxPayloadVoting} {ls₁ : Stores}
    (type : ctx.tx.type = .voting) (votes : ctx.tx.payload = .voting payload)
    (chosen : Everywhere .proposals GovProposal.Chosen ls)
    (valid : exec (validateTrx json ctx) ls = (.ok (), ls₁))
    (ran : exec (executeTrx ctx) ls = (.ok (), ls')) :
    ∃ prop prop', (ls .proposals).lookup (toLedgerKey payload.txHash) = some prop ∧
      ctx.height ≤ prop.endVotingHeight ∧
      prop.cast (.vote ctx.tx.fromAddr payload.choice) = .ok prop' ∧ prop.Alike prop' ∧
      ls' = ls.put .proposals prop' := by
  simp only [validateTrx, type, validateVoting, votes] at valid
  simp only [executeTrx, type, execVoting, votes] at ran
  obtain ⟨-, valid⟩ := run_ensure_ok valid
  obtain ⟨prop, here, valid⟩ := run_ofExcept_ok (LedgerProg.run_get_ok valid)
  obtain ⟨-, valid⟩ := run_ensure_ok valid
  obtain ⟨choice, valid⟩ := run_ensure_ok valid
  have period := of_decide_eq_true (ensure_ok valid)
  obtain ⟨prop', here', ran⟩ := run_ofExcept_ok (LedgerProg.run_get_ok ran)
  obtain rfl : prop = prop' := Except.ok.inj (here.symm.trans here')
  rw [Store.get, found_eq_ok] at here
  have high := (of_decide_eq_true choice).2
  have alike := GovProposal.returnsAlike_vote (c := writing (fun _ => True) fun _ => True) prop
    ctx.tx.fromAddr
    payload.choice
  rcases (Store.All.lookup chosen here).vote (F := LedgerOp) ctx.tx.fromAddr high with
    ⟨e, failed⟩ | ⟨prop', voted, -⟩
  · rw [failed] at ran
    cases ran
  · rw [voted] at ran alike
    cases ran
    refine ⟨prop, prop', here, period.1, ?_, alike _ rfl, rfl⟩
    unfold GovProposal.cast
    simp only [voted]
    rfl

/-- A proposal that is valid and is executed is stored where there was none. -/
theorem execProposing_ok {json : ParamsJSON} {ls₁ : Stores} (type : ctx.tx.type = .proposal)
    (valid : exec (validateTrx json ctx) ls = (.ok (), ls₁))
    (ran : exec (executeTrx ctx) ls = (.ok (), ls')) :
    ∃ payload, ctx.tx.payload = .proposal payload ∧
      (ls .proposals).lookup (toLedgerKey ctx.txHash) = none ∧
      Checked ctx payload ∧
      ls' = ls.put .proposals (GovProposal.proposed ctx.txHash payload ctx.validators) := by
  simp only [validateTrx, type, validateProposal] at valid
  simp only [executeTrx, type] at ran
  obtain ⟨-, valid⟩ := run_ensure_ok valid
  obtain ⟨-, valid⟩ := run_ensure_ok valid
  cases proposes : ctx.tx.payload with
  | proposal payload =>
    simp only [proposes] at valid
    have valid := LedgerProg.run_get_ok valid
    rw [Store.get] at valid
    cases here : (ls .proposals).lookup (toLedgerKey ctx.txHash) with
    | some prop =>
      rw [here] at valid
      cases valid
    | none =>
      rw [here] at valid
      obtain ⟨-, valid⟩ := run_ensure_ok valid
      rw [GovProposal.execProposing_eq proposes] at ran
      cases ran
      exact ⟨payload, rfl, rfl, checkProposal_ok (ofExcept_ok valid), rfl⟩
  | _ =>
    simp only [proposes] at valid
    cases valid

end GovCtrler

namespace RigoApp

variable {X : External} {s t : Node X.evm}

variable {answer : TxResponse} {txbz : HexBytes} {bctx : BlockContext}

/-- A proposal or a vote is valid and is executed, or it leaves the proposals as they are, if its fee
is not read as a negative amount. -/
theorem deliverTx_governed (removed : (s.ledgers .accounts).removed = [])
    (ran : run (nodeHandler X storeImpl) (deliverTx X txbz) s = (.ok answer, t))
    (decoded : Trx.decode X.trx txbz = .ok tx) (inBlock : s.mem.nextBlockCtx = some bctx)
    (type : tx.type = .proposal ∨ tx.type = .voting)
    (fee : (gasToFee tx.gas tx.gasPrice).isNegative = false) :
    answer.code ≠ 0 ∧ t.ledgers .proposals = s.ledgers .proposals ∨
      answer.code = 0 ∧ ∃ ls ls',
        exec (GovCtrler.validateTrx X.json
          (contextOf X.trx (deliverSetting s.mem bctx) txbz tx))
          (withAccount s.ledgers tx.toAddr) = (.ok (), ls) ∧
        exec (executeTrx
          (contextOf X.trx (deliverSetting s.mem bctx) txbz tx))
          (withAccount s.ledgers tx.toAddr) = (.ok (), ls') ∧
        t.ledgers .proposals = ls' .proposals := by
  have native : Native
      (contextOf X.trx (deliverSetting s.mem bctx) txbz tx)
      (withAccount s.ledgers tx.toAddr) := by
    refine ⟨fun contract => ?_, fun transfer => ?_⟩
    · have contract : tx.type = .contract := contract
      rcases type with type | type <;> cases type.symm.trans contract
    · have transfer : tx.type = .transfer := transfer
      rcases type with type | type <;> cases type.symm.trans transfer
  obtain ⟨receiver, there⟩ := account_withAccount_self removed tx.toAddr
  have created : (withAccount s.ledgers tx.toAddr) .proposals = s.ledgers .proposals :=
    withAccount_of_ne (by decide) _ _
  have failed (e : XError) : (TxResponse.failure (XError.errDeliverTx.wrap e) []).code ≠ 0 := by
    rw [code_failure]
    decide
  have delivered := deliverTx_native removed ran decoded inBlock native
  have tx_eq : (contextOf X.trx (deliverSetting s.mem bctx) txbz tx).tx = tx := rfl
  generalize contextOf X.trx (deliverSetting s.mem bctx) txbz tx = ctx
    at delivered native tx_eq ⊢
  subst tx_eq
  have execute (pubKey : HexBytes) :
      executeNative ctx pubKey = executeTrx ctx := by
    unfold executeNative
    rcases type with type | type <;> simp only [type]
  have kept {outcome : Except Fault HexBytes} {r : Workspace X.evm}
      (checked : run (trxHandler storeImpl) (TrxExecutor.validateTrx X.trx X.json ctx)
        (withReceiver s ctx.tx) = (outcome, r)) :
      r.ledgers = withAccount s.ledgers ctx.tx.toAddr := by
    have kept := ledgers_validateTrx X.trx X.json ctx (withReceiver s ctx.tx)
    rwa [checked] at kept
  cases delivered with
  | invalid checked =>
    exact .inl ⟨failed _, (congrFun (kept checked) .proposals).trans created⟩
  | unexecuted checked executed =>
    rw [execute, kept checked] at executed
    refine .inl ⟨failed _, ?_⟩
    exact (congrFun (executeTrx_error executed) .proposals).trans created
  | unpaid checked executed paid =>
    obtain ⟨acct, -, -, -, charged⟩ := postRunTrx_charged there native
      ((Uint256.isNegative_eq_false_iff _).mp fee)
      (fun _ _ withdraw => by rcases type with type | type <;> cases type.symm.trans withdraw)
      checked executed
    cases charged.symm.trans paid
  | paid checked executed paid =>
    obtain ⟨-, -, typed⟩ := validateTrx_ok checked
    have valid : validateByType X.json ctx =
        (Ctrler.ledger (GovCtrler.validateTrx X.json ctx) : Ctrler X.evm Unit) := by
      unfold validateByType
      rcases type with type | type <;> simp only [type]
    rw [valid] at typed
    obtain ⟨ls, validated, -⟩ := run_ledger_ok typed
    rw [execute, kept checked] at executed
    refine .inr ⟨rfl, ls, _, validated, executed, ?_⟩
    exact (writes_postRunTrx (S := fun l => l ≠ .proposals) (by decide)
      _ _).frame (not_not.mpr rfl) paid

/-! ## The history of a proposal -/

/-- The proposal that a step has accepted under a key. -/
def acceptedUnder (X : External) (k : LedgerKey) (step : Step X.evm) : Option GovProposal :=
  match step.call, executedTrx X step with
  | .deliverTx txbz, some tx =>
    match tx.type, tx.payload with
    | .proposal, .proposal payload =>
      if toLedgerKey (X.trx.txHash txbz) = k then
        some (GovProposal.proposed (X.trx.txHash txbz) payload step.before.mem.lastValidators)
      else none
    | _, _ => none
  | _, _ => none

/-- What a step does to the proposal under a key: a successful vote, or the evidence with which a
block begins. -/
def ballotsOn (X : External) (k : LedgerKey) (step : Step X.evm) : List GovProposal.Ballot :=
  match step.call, executedTrx X step with
  | .beginBlock info, _ =>
    info.byzantines.map (.punish · step.before.mem.govParams.slashRatio)
  | .deliverTx _, some tx =>
    match tx.type, tx.payload with
    | .voting, .voting payload =>
      if toLedgerKey payload.txHash = k then [.vote tx.fromAddr payload.choice] else []
    | _, _ => []
  | _, _ => []

/-- The voting period of a proposal is over at the end of a block. -/
def Expires {E : EvmLib} (step : Step E) (prop : GovProposal) : Bool :=
  match step.call with
  | .endBlock => decide (prop.endVotingHeight < heightOf step)
  | _ => false

/-- What is stored under a key after a step. -/
def replayStep (X : External) (k : LedgerKey) (found : Option GovProposal) (step : Step X.evm) :
    Option GovProposal :=
  ((acceptedUnder X k step).or
    (found.bind fun prop => (prop.castAll (ballotsOn X k step)).toOption)).filter
      fun prop => !Expires step prop

/-- What is stored under a key after some steps. -/
def replay (X : External) (k : LedgerKey) (steps : List (Step X.evm)) : Option GovProposal :=
  steps.foldl (replayStep X k) none

theorem replay_append (k : LedgerKey) (steps : List (Step X.evm)) (step : Step X.evm) :
    replay X k (steps ++ [step]) = replayStep X k (replay X k steps) step := by
  rw [replay, List.foldl_append]
  rfl

/-- The evidence with which a block begins leaves the proposals that the block freezes as they
are. -/
def SparesExpired {E : EvmLib} (step : Step E) : Prop :=
  match step.call with
  | .beginBlock info => ∀ prop ∈ (step.before.ledgers .proposals).view.items,
      prop.endVotingHeight < info.height →
        (prop.castAll (info.byzantines.map
          (.punish · step.before.mem.govParams.slashRatio))).toOption = some prop
  | _ => True

/-- The fee of a proposal or a vote is not read as a negative amount. -/
def FeeIsAmount (X : External) (step : Step X.evm) : Prop :=
  match step.call with
  | .deliverTx txbz => ∀ tx ∈ (Trx.decode X.trx txbz).toOption,
      tx.type = .proposal ∨ tx.type = .voting → (gasToFee tx.gas tx.gasPrice).isNegative = false
  | _ => True

/-- What freezing counts on. -/
def Orderly (X : External) (step : Step X.evm) : Prop := SparesExpired step ∧ FeeIsAmount X step

instance (X : External) (step : Step X.evm) : Decidable (Orderly X step) := by
  unfold Orderly SparesExpired FeeIsAmount
  cases step.call <;> infer_instance

variable {k : LedgerKey}

theorem Orderly.evidence {response : Response}
    (orderly : Orderly X ⟨s, .beginBlock info, response, t⟩)
    (here : (s.ledgers .proposals).lookup k = some prop) (expired : prop.endVotingHeight < info.height) :
    (prop.castAll (info.byzantines.map (.punish · s.mem.govParams.slashRatio))).toOption =
      some prop := by
  refine orderly.1 prop (KeyedMap.mem_items_of_find? (k := k) ?_) expired
  rw [find?_view]
  exact here

theorem Orderly.fee {response : Response}
    (orderly : Orderly X ⟨s, .deliverTx txbz, response, t⟩) (decoded : Trx.decode X.trx txbz = .ok tx)
    (type : tx.type = .proposal ∨ tx.type = .voting) :
    (gasToFee tx.gas tx.gasPrice).isNegative = false :=
  orderly.2 tx (by rw [decoded]; rfl) type

/-- What is found of a committed proposal while transactions are delivered: a proposal that the
block freezes is as it was committed, and one that was not committed is not frozen. -/
def Steady (height : Int) (committed found : Option GovProposal) : Prop :=
  match committed with
  | none => ∀ prop, found = some prop → height ≤ prop.endVotingHeight
  | some prop₀ => ∃ prop, found = some prop ∧ prop.endVotingHeight = prop₀.endVotingHeight ∧
      (prop₀.endVotingHeight < height → prop = prop₀)

/-- The proposals of a run, as its steps have left them. -/
structure Replayed (X : External) (phase : Phase) (steps : List (Step X.evm)) (s : Node X.evm) :
    Prop where
  lookup : ∀ k, (s.ledgers .proposals).lookup k = replay X k steps
  committable : GovCtrler.Committable s.ledgers
  freezable : phase ≠ .ended → (s.ledgers .proposals).removed = [] ∧
    (s.ledgers .frozenProposals).removed = []
  idle : phase = .idle → ∀ k,
    (s.ledgers .proposals).tree.contents.find? k = (s.ledgers .proposals).lookup k
  pending : phase = .delivering → ∀ height, openHeight s = some height → ∀ k,
    Steady height ((s.ledgers .proposals).tree.contents.find? k) ((s.ledgers .proposals).lookup k)

/-- A step that neither accepts a proposal nor ends a block. -/
theorem replayStep_eq {found : Option GovProposal} {step : Step X.evm}
    (accepted : acceptedUnder X k step = none) (open' : ∀ prop, Expires step prop = false) :
    replayStep X k found step =
      found.bind fun prop => (prop.castAll (ballotsOn X k step)).toOption := by
  unfold replayStep
  rw [accepted, Option.none_or]
  generalize (found.bind fun prop => (prop.castAll (ballotsOn X k step)).toOption) = cast
  cases cast with
  | none => rfl
  | some prop => simp [open']

/-- A step that does not touch the proposals. -/
theorem replayStep_idle {found : Option GovProposal} {step : Step X.evm}
    (accepted : acceptedUnder X k step = none) (ballots : ballotsOn X k step = [])
    (open' : ∀ prop, Expires step prop = false) : replayStep X k found step = found := by
  rw [replayStep_eq accepted open', ballots]
  cases found <;> rfl

/-- What is found has the voting period that was planned. -/
theorem endVotingHeight_of_plan {ls ls' : Stores}
    (plan : planOf ls' k = planOf ls k) (here : (ls .proposals).lookup k = some prop) :
    ∃ prop', (ls' .proposals).lookup k = some prop' ∧
      prop'.endVotingHeight = prop.endVotingHeight := by
  unfold planOf at plan
  rw [here, Option.map_some, Option.map_eq_some_iff] at plan
  obtain ⟨prop', here', schedule⟩ := plan
  exact ⟨prop', here', congrArg (fun schedule => schedule.1.last) schedule⟩

/-- The evidence of a block is applied to every proposal. -/
theorem beginBlock_punished (removed : (s.ledgers .proposals).removed = [])
    (committed : ∀ k, (s.ledgers .proposals).tree.contents.find? k = (s.ledgers .proposals).lookup k)
    (chosen : Everywhere .proposals Chosen s.ledgers)
    (ran : BeginsBlock X info s t) (k : LedgerKey) :
    (t.ledgers .proposals).lookup k = ((s.ledgers .proposals).lookup k).bind fun prop =>
      (prop.castAll (info.byzantines.map (.punish · s.mem.govParams.slashRatio))).toOption := by
  obtain ⟨last, ls, ls', allDelegatees, -, -, -, governed, -, rewarded, rfl⟩ := beginBlock_ok ran
  have stakes : ls' .proposals = ls .proposals :=
    StakeCtrler.punishAndReward_frame (by decide) rewarded
  have punishing : Punishing s.ledgers :=
    ⟨removed, fun k prop here => ⟨All.lookup chosen here, prop, (committed k).trans here,
      fun _ => id⟩⟩
  simp only [stakes]
  exact beginBlock_cast punishing governed k

variable {steps : List (Step X.evm)}

/-- The beginning of a block. -/
theorem Replayed.beginBlock (replayed : Replayed X .idle steps s)
    (chosen : Everywhere .proposals Chosen s.ledgers)
    (orderly : Orderly X ⟨s, .beginBlock info, .beginBlock, t⟩)
    (ran : BeginsBlock X info s t) :
    Replayed X .delivering (steps ++ [⟨s, .beginBlock info, .beginBlock, t⟩]) t := by
  obtain ⟨removed, frozenRemoved⟩ := replayed.freezable (by decide)
  obtain ⟨removed', plan, frozen⟩ := beginBlock_plan removed ran
  have committed := replayed.idle rfl
  have punished := beginBlock_punished removed committed chosen ran
  have tree := beginBlock_tree ran .proposals
  have frozenRemoved' : (t.ledgers .frozenProposals).removed = [] := by
    rw [frozen]
    exact frozenRemoved
  refine ⟨fun k => ?_, committable_of_removed removed' frozenRemoved',
    fun _ => ⟨removed', frozenRemoved'⟩, (fun idle => by cases idle), fun _ height inBlock k => ?_⟩
  · rw [replay_append, replayStep_eq, punished, replayed.lookup]
    · rfl
    · rfl
    · exact fun _ => rfl
  · rw [tree, committed]
    have same : height = info.height := by
      obtain ⟨last, ls, ls', allDelegatees, -, -, -, -, -, -, rfl⟩ := beginBlock_ok ran
      cases inBlock
      rfl
    rw [same]
    cases here : (s.ledgers .proposals).lookup k with
    | none =>
      intro prop there
      rw [punished, here] at there
      cases there
    | some prop =>
      obtain ⟨prop', there, same⟩ := endVotingHeight_of_plan (congrFun plan k) here
      refine ⟨prop', there, same, fun frozen => ?_⟩
      rw [punished, here, Option.bind_some] at there
      exact Option.some.inj (there.symm.trans (orderly.evidence here frozen))

/-- The delivery of a transaction, from what it does to the proposals. -/
theorem Replayed.extend (replayed : Replayed X .delivering steps s)
    (ran : DeliversTx X txbz s answer t)
    (lookup : ∀ k, (t.ledgers .proposals).lookup k =
      replayStep X k ((s.ledgers .proposals).lookup k) ⟨s, .deliverTx txbz, .deliverTx answer, t⟩)
    (steady : ∀ height committed k, openHeight s = some height →
      Steady height committed ((s.ledgers .proposals).lookup k) →
      Steady height committed ((t.ledgers .proposals).lookup k)) :
    Replayed X .delivering (steps ++ [⟨s, .deliverTx txbz, .deliverTx answer, t⟩]) t := by
  obtain ⟨removed, frozenRemoved⟩ := replayed.freezable (by decide)
  obtain ⟨removed', -, frozen⟩ := deliverTx_plan removed ran
  have frozenRemoved' : (t.ledgers .frozenProposals).removed = [] := by
    rw [frozen]
    exact frozenRemoved
  refine ⟨fun k => ?_, committable_of_removed removed' frozenRemoved',
    fun _ => ⟨removed', frozenRemoved'⟩, (fun idle => by cases idle), fun _ height inBlock k => ?_⟩
  · rw [lookup, replayed.lookup, replay_append]
  · rw [openHeight_deliverTx ran] at inBlock
    rw [deliverTx_tree ran]
    exact steady height _ k inBlock (replayed.pending rfl height inBlock k)

/-- A transaction that leaves the proposals, and is neither a proposal nor a vote that succeeds. -/
theorem Replayed.untouched (replayed : Replayed X .delivering steps s)
    (ran : DeliversTx X txbz s answer t)
    (same : t.ledgers .proposals = s.ledgers .proposals)
    (idle : ∀ tx, executedTrx X ⟨s, .deliverTx txbz, .deliverTx answer, t⟩ = some tx →
      tx.type ≠ .proposal ∧ tx.type ≠ .voting) :
    Replayed X .delivering (steps ++ [⟨s, .deliverTx txbz, .deliverTx answer, t⟩]) t := by
  refine replayed.extend ran (fun k => ?_) fun height committed k _ steady => ?_
  · rw [same]
    refine (replayStep_idle ?_ ?_ fun _ => rfl).symm
    · unfold acceptedUnder
      cases executed : executedTrx X ⟨s, .deliverTx txbz, .deliverTx answer, t⟩ with
      | none => rfl
      | some tx =>
        simp only
        split
        · next type _ => exact absurd type (idle tx executed).1
        · rfl
    · unfold ballotsOn
      cases executed : executedTrx X ⟨s, .deliverTx txbz, .deliverTx answer, t⟩ with
      | none => rfl
      | some tx =>
        simp only
        split
        · next type _ => exact absurd type (idle tx executed).2
        · rfl
  · rwa [same]

/-- A proposal that was accepted. -/
theorem Replayed.proposed {payload : TrxPayloadProposal}
    (replayed : Replayed X .delivering steps s)
    (ran : DeliversTx X txbz s answer t)
    (executed : executedTrx X ⟨s, .deliverTx txbz, .deliverTx answer, t⟩ = some tx)
    (type : tx.type = .proposal) (proposes : tx.payload = .proposal payload)
    (inBlock : s.mem.nextBlockCtx = some bctx)
    (missing : (s.ledgers .proposals).lookup (toLedgerKey (X.trx.txHash txbz)) = none)
    (future : bctx.blockInfo.height ≤
      i64 (payload.startVotingHeight + payload.votingPeriodBlocks))
    (stored : t.ledgers .proposals = (s.ledgers .proposals).set
      (GovProposal.proposed (X.trx.txHash txbz) payload s.mem.lastValidators)) :
    Replayed X .delivering (steps ++ [⟨s, .deliverTx txbz, .deliverTx answer, t⟩]) t := by
  have removed := (replayed.freezable (by decide)).1
  have lookup (k : LedgerKey) : (t.ledgers .proposals).lookup k =
      if toLedgerKey (X.trx.txHash txbz) = k then
        some (GovProposal.proposed (X.trx.txHash txbz) payload s.mem.lastValidators)
      else (s.ledgers .proposals).lookup k := by
    rw [stored]
    exact lookup_set_of_removed removed _ k
  refine replayed.extend ran (fun k => ?_) fun height committed k opened steady => ?_
  · have accepted : acceptedUnder X k ⟨s, .deliverTx txbz, .deliverTx answer, t⟩ =
        if toLedgerKey (X.trx.txHash txbz) = k then
          some (GovProposal.proposed (X.trx.txHash txbz) payload s.mem.lastValidators) else none := by
      unfold acceptedUnder
      simp only [executed, type, proposes]
    have ballots : ballotsOn X k ⟨s, .deliverTx txbz, .deliverTx answer, t⟩ = [] := by
      unfold ballotsOn
      simp only [executed, type]
    rw [lookup]
    split
    · next here =>
      unfold replayStep
      rw [accepted, if_pos here]
      rfl
    · next other =>
      rw [if_neg other] at accepted
      exact (replayStep_idle accepted ballots fun _ => rfl).symm
  · rw [lookup]
    split
    · next here =>
      -- nothing was committed under the key, since nothing was found
      subst here
      rw [missing] at steady
      have same : height = bctx.blockInfo.height := by
        rw [openHeight, inBlock] at opened
        exact (Option.some.inj opened).symm
      cases committed with
      | none =>
        intro prop there
        cases there
        rw [same]
        exact future
      | some prop₀ =>
        obtain ⟨prop, there, -⟩ := steady
        cases there
    · exact steady

/-- A vote that was accepted. -/
theorem Replayed.voted {payload : TrxPayloadVoting} {prop' : GovProposal}
    (replayed : Replayed X .delivering steps s)
    (ran : DeliversTx X txbz s answer t)
    (executed : executedTrx X ⟨s, .deliverTx txbz, .deliverTx answer, t⟩ = some tx)
    (type : tx.type = .voting) (votes : tx.payload = .voting payload)
    (inBlock : s.mem.nextBlockCtx = some bctx)
    (here : (s.ledgers .proposals).lookup (toLedgerKey payload.txHash) = some prop)
    (period : bctx.blockInfo.height ≤ prop.endVotingHeight)
    (cast : prop.cast (.vote tx.fromAddr payload.choice) = .ok prop') (alike : prop.Alike prop')
    (stored : t.ledgers .proposals = (s.ledgers .proposals).set prop') :
    Replayed X .delivering (steps ++ [⟨s, .deliverTx txbz, .deliverTx answer, t⟩]) t := by
  have removed := (replayed.freezable (by decide)).1
  have key : LedgerItem.key prop' = toLedgerKey payload.txHash :=
    (congrArg toLedgerKey alike.1).trans (key_of_lookup here)
  have ends : prop'.endVotingHeight = prop.endVotingHeight :=
    congrArg (fun schedule => schedule.1.last) alike.2
  have lookup (k : LedgerKey) : (t.ledgers .proposals).lookup k =
      if toLedgerKey payload.txHash = k then some prop' else (s.ledgers .proposals).lookup k := by
    rw [stored, lookup_set_of_removed removed, key]
  refine replayed.extend ran (fun k => ?_) fun height committed k opened steady => ?_
  · have accepted : acceptedUnder X k ⟨s, .deliverTx txbz, .deliverTx answer, t⟩ = none := by
      unfold acceptedUnder
      simp only [executed, type]
    have ballots : ballotsOn X k ⟨s, .deliverTx txbz, .deliverTx answer, t⟩ =
        if toLedgerKey payload.txHash = k then [.vote tx.fromAddr payload.choice] else [] := by
      unfold ballotsOn
      simp only [executed, type, votes]
    rw [lookup, replayStep_eq accepted fun _ => rfl, ballots]
    split
    · next same =>
      subst same
      rw [here, Option.bind_some, castAll, cast]
      rfl
    · cases (s.ledgers .proposals).lookup k <;> rfl
  · rw [lookup]
    split
    · next same =>
      subst same
      rw [here] at steady
      have same : height = bctx.blockInfo.height := by
        rw [openHeight, inBlock] at opened
        exact (Option.some.inj opened).symm
      cases committed with
      | none =>
        intro prop'' there
        cases there
        rw [ends]
        exact steady prop rfl
      | some prop₀ =>
        obtain ⟨prop'', there, same', -⟩ := steady
        cases there
        refine ⟨prop', rfl, ends.trans same', fun closed => ?_⟩
        omega
    · exact steady

/-- The delivery of a transaction. -/
theorem Replayed.deliverTx (replayed : Replayed X .delivering steps s)
    (chosen : Everywhere .proposals Chosen s.ledgers)
    (removed : (s.ledgers .accounts).removed = [])
    (orderly : Orderly X ⟨s, .deliverTx txbz, .deliverTx answer, t⟩)
    (ran : DeliversTx X txbz s answer t) :
    Replayed X .delivering (steps ++ [⟨s, .deliverTx txbz, .deliverTx answer, t⟩]) t := by
  obtain ⟨bctx, tx, -, inBlock, decoded, -, -⟩ := deliverTx_ok ran
  have created : (withAccount s.ledgers tx.toAddr) .proposals = s.ledgers .proposals :=
    withAccount_of_ne (by decide) _ _
  have executed : executedTrx X ⟨s, .deliverTx txbz, .deliverTx answer, t⟩ =
      if answer.code = 0 then some tx else none := by
    unfold executedTrx
    simp only [decoded]
    rfl
  by_cases governance : tx.type = .proposal ∨ tx.type = .voting
  · rcases deliverTx_governed removed ran decoded inBlock governance
        (orderly.fee decoded governance) with
      ⟨failed, same⟩ | ⟨code, ls, ls', valid, done, stored⟩
    · refine replayed.untouched ran same fun tx' executed' => ?_
      rw [executed, if_neg failed] at executed'
      cases executed'
    · rw [if_pos code] at executed
      have chosen' : Everywhere .proposals Chosen
          (withAccount s.ledgers tx.toAddr) := by
        unfold Everywhere
        rw [created]
        exact chosen
      rcases governance with type | type
      · obtain ⟨payload, proposes, missing, checked, rfl⟩ :=
          execProposing_ok type valid done
        rw [created] at missing
        rw [put_self, created] at stored
        refine replayed.proposed ran executed type proposes inBlock missing ?_ stored
        exact le_trans checked.future.le checked.ends
      · cases votes : tx.payload with
        | voting payload =>
          obtain ⟨prop, prop', here, period, cast, alike, rfl⟩ :=
            execVoting_ok type votes chosen' valid done
          rw [created] at here
          rw [put_self, created] at stored
          exact replayed.voted ran executed type votes inBlock here period cast alike stored
        | _ =>
          simp only [executeTrx, contextOf, type, execVoting,
            votes] at done
          cases done
  · have same : t.ledgers .proposals = s.ledgers .proposals := deliverTx_frame ran decoded governance
    refine replayed.untouched ran same fun tx' executed' => ?_
    rw [executed] at executed'
    split at executed'
    · cases executed'
      exact not_or.mp governance
    · cases executed'

/-- The end of a block. -/
theorem Replayed.endBlock {valUpdates : List ValidatorUpdate}
    (replayed : Replayed X .delivering steps s)
    (ran : EndsBlock X s valUpdates t) :
    Replayed X .ended (steps ++ [⟨s, .endBlock, .endBlock valUpdates, t⟩]) t := by
  have freezable : Freezable s.ledgers :=
    ⟨replayed.committable.1, (replayed.freezable (by decide)).2⟩
  obtain ⟨bctx, inBlock, committable, effect⟩ := RigoApp.endBlock_found freezable ran
  have opened : openHeight s = some bctx.blockInfo.height := by
    rw [openHeight, inBlock]
    rfl
  refine ⟨fun k => ?_, committable, fun ended => absurd rfl ended, (fun idle => by cases idle),
    fun delivering => by cases delivering⟩
  have lookup : (t.ledgers .proposals).lookup k =
      (afterFreezing X.sort bctx.blockInfo.height
        ((s.ledgers .proposals).tree.contents.find? k) (GovCtrler.found s.ledgers k)).1 := by
    have first := congrArg Prod.fst (effect k)
    refine Eq.trans first ?_
    unfold GovCtrler.afterApplying
    split
    · rfl
    · split <;> rfl
  have replays : replay X k (steps ++ [⟨s, .endBlock, .endBlock valUpdates, t⟩]) =
      ((s.ledgers .proposals).lookup k).filter
        fun prop => !decide (prop.endVotingHeight < bctx.blockInfo.height) := by
    rw [replay_append, ← replayed.lookup]
    unfold replayStep
    have height : heightOf (⟨s, .endBlock, .endBlock valUpdates, t⟩ : Step X.evm) =
        bctx.blockInfo.height := by
      rw [heightOf, opened]
      rfl
    simp only [Expires, height]
    cases (s.ledgers .proposals).lookup k <;> rfl
  have steady := replayed.pending rfl _ opened k
  rw [lookup, replays]
  unfold afterFreezing
  cases committed : (s.ledgers .proposals).tree.contents.find? k with
  | none =>
    rw [committed] at steady
    simp only [GovCtrler.found]
    cases here : (s.ledgers .proposals).lookup k with
    | none => rfl
    | some prop =>
      have later := steady prop here
      simp [Option.filter, not_lt.mpr later]
  | some prop₀ =>
    rw [committed] at steady
    obtain ⟨prop, here, ends, -⟩ := steady
    simp only [GovCtrler.found, here]
    by_cases closed : prop₀.endVotingHeight < bctx.blockInfo.height
    · simp [closed, ends, Option.filter]
    · simp [closed, ends, Option.filter]

/-- A commit. -/
theorem Replayed.commit {appHash : HexBytes}
    (replayed : Replayed X .ended steps s)
    (ran : Commits X s appHash t) :
    Replayed X .idle (steps ++ [⟨s, .commit, .commit appHash, t⟩]) t := by
  obtain ⟨bctx, state, -, -, -, rfl, -, -⟩ := commit_ok ran
  refine ⟨fun k => ?_, committable_of_removed rfl rfl, fun _ => ⟨rfl, rfl⟩, fun _ k => rfl,
    fun delivering => by cases delivering⟩
  rw [replay_append, replayStep_idle rfl rfl fun _ => rfl, ← replayed.lookup]
  exact (find?_commit replayed.committable.1 k).1

section

variable {mayRestart : Bool} {genesis : Genesis} {phase : Phase} {steps : List (Step X.evm)}
  {s : App X.evm}

/-- In every run whose steps are orderly, the proposals are what their history says. -/
theorem Run.replayed (ran : Run X mayRestart genesis phase steps s)
    (orderly : ∀ step ∈ steps, Orderly X step) : Replayed X phase steps (App.node s) := by
  have met (step : Step X.evm) (member : step ∈ steps) : Orderly X step ∧
      Everywhere .proposals Chosen step.before.ledgers ∧
      (step.before.ledgers .accounts).removed = [] := by
    obtain ⟨earlier, later, same⟩ := List.append_of_mem member
    obtain ⟨phase₁, s₁, phase₂, s₂, before, started, -, -, -⟩ := ran.split same
    rw [started]
    exact ⟨orderly step member, before.chosen, before.accounts_removed⟩
  refine ran.node_induction_of ?_ ?_ ?_ ?_ ?_ ?_ ?_ met
  · intro s t first started
    have empty {l : LedgerId} (governance : l = .proposals ∨ l = .frozenProposals) :
        t.ledgers l = new Tree.empty := initChain_proposals first started governance
    have removed : (t.ledgers .proposals).removed = [] := by
      rw [empty (.inl rfl)]
      rfl
    have frozenRemoved : (t.ledgers .frozenProposals).removed = [] := by
      rw [empty (.inr rfl)]
      rfl
    refine ⟨fun k => ?_, committable_of_removed removed frozenRemoved,
      fun _ => ⟨removed, frozenRemoved⟩, fun _ k => ?_, fun delivering => by cases delivering⟩
    · rw [empty (.inl rfl)]
      rfl
    · rw [empty (.inl rfl)]
      rfl
  · intro steps s t info replayed met began
    exact replayed.beginBlock met.2.1 met.1 began
  · intro steps s t txbz answer replayed met delivered
    exact replayed.deliverTx met.2.1 met.2.2 met.1 delivered
  · intro steps s t valUpdates replayed _ ended
    exact replayed.endBlock ended
  · intro steps s t appHash replayed _ committed
    exact replayed.commit committed
  · intro phase steps s limiter replayed
    exact ⟨replayed.lookup, replayed.committable, replayed.freezable, replayed.idle,
      replayed.pending⟩
  · intro steps t u replayed ledgers _
    refine ⟨?_, ?_, ?_, ?_, fun delivering => by cases delivering⟩
    · rw [ledgers]
      exact replayed.lookup
    · rw [ledgers]
      exact replayed.committable
    · rw [ledgers]
      exact replayed.freezable
    · rw [ledgers]
      exact replayed.idle

/-- In every run whose steps are orderly, `freezeProposals` decides on the whole history of a
proposal: of every proposal that it takes from the proposals, it freezes what its history has made
of it, or drops it if this has no majority. -/
theorem Run.frozen_replayed (ran : Run X mayRestart genesis .delivering steps s)
    (orderly : ∀ step ∈ steps, Orderly X step) {height : Int}
    (opened : openHeight (App.node s) = some height) {ls' : Stores}
    (froze : exec (GovCtrler.freezeProposals X.sort height) (App.node s).ledgers = (.ok (), ls'))
    {k : LedgerKey} (taken : ((App.node s).ledgers .proposals).lookup k ≠ (ls' .proposals).lookup k ∨
      ((App.node s).ledgers .frozenProposals).lookup k ≠ (ls' .frozenProposals).lookup k) :
    ∃ prop, replay X k steps = some prop ∧ (ls' .proposals).lookup k = none ∧
      (ls' .frozenProposals).lookup k =
        (prop.decided X.sort).or (((App.node s).ledgers .frozenProposals).lookup k) := by
  have replayed := ran.replayed orderly
  have freezable : GovCtrler.Freezable (App.node s).ledgers :=
    ⟨replayed.committable.1, (replayed.freezable (by decide)).2⟩
  have effect := (GovCtrler.freezeProposals_found freezable froze).2 k
  have steady := replayed.pending rfl height opened k
  rw [← replayed.lookup]
  unfold GovCtrler.afterFreezing at effect
  cases committed : ((App.node s).ledgers .proposals).tree.contents.find? k with
  | none =>
    rw [committed] at effect
    obtain ⟨proposals, frozen⟩ := Prod.mk.inj effect
    rcases taken with changed | changed
    · exact absurd proposals.symm changed
    · exact absurd frozen.symm changed
  | some prop₀ =>
    rw [committed] at effect steady
    obtain ⟨prop, here, -, unchanged⟩ := steady
    by_cases closed : prop₀.endVotingHeight < height
    · simp only [if_pos closed] at effect
      obtain ⟨proposals, frozen⟩ := Prod.mk.inj effect
      obtain rfl := unchanged closed
      exact ⟨prop, here, proposals, frozen⟩
    · simp only [if_neg closed] at effect
      obtain ⟨proposals, frozen⟩ := Prod.mk.inj effect
      rcases taken with changed | changed
      · exact absurd proposals.symm changed
      · exact absurd frozen.symm changed

end

/-! ### Evidence in the block that freezes, and in the block before -/

/-- A block that begins with evidence against the validator. -/
def accusing (height : Int) : BlockInfo :=
  { Concrete.block height with byzantines := [Concrete.addr 1] }

/-- The proposal is voted on in block 4, and the sixth block, which freezes it, has begun. -/
def untilFreezing (fifth sixth : BlockInfo) : List ConsensusCall :=
  blockOf 1 [] ++ blockOf 2 [] ++ blockOf 3 [[0]] ++ blockOf 4 [[1]] ++
    [.beginBlock fifth, .endBlock, .commit, .beginBlock sixth]

def freezingSteps (fifth sixth : BlockInfo) : List (Step oneProposal.evm) :=
  stepsOf oneProposal (untilFreezing fifth sixth) shortPeriodsStarted

def freezing (fifth sixth : BlockInfo) : App oneProposal.evm :=
  (runCalls oneProposal finalityImpl (untilFreezing fifth sixth) shortPeriodsStarted).2

/-- What `freezeProposals` leaves. -/
def frozenStores (fifth sixth : BlockInfo) : Stores :=
  (exec (GovCtrler.freezeProposals oneProposal.sort 6) (App.node (freezing fifth sixth)).ledgers).2

theorem run_untilFreezing {fifth sixth : BlockInfo}
    (length : (freezingSteps fifth sixth).length = (untilFreezing fifth sixth).length)
    (allowed : Phase.idle.after (untilFreezing fifth sixth) = some .delivering) :
    Run oneProposal false shortPeriods .delivering (freezingSteps fifth sixth)
      (freezing fifth sixth) := by
  have ran : Run oneProposal false shortPeriods .delivering
      ([] ++ stepsOf oneProposal (untilFreezing fifth sixth) shortPeriodsStarted)
      (runCalls oneProposal finalityImpl (untilFreezing fifth sixth) shortPeriodsStarted).2 :=
    (Run.start (eq_ok_of_isSome _)).calls (untilFreezing fifth sixth) allowed length
  rwa [List.nil_append] at ran

/-- The votes that are stored with a frozen proposal, and its total power. -/
def tallyOf (found : Option GovProposal) : Option (List Int × Int) :=
  found.map fun prop => (prop.options.map VoteOption.votes, prop.totalVotingPower)

/-- The evidence in the block before counts: half of the votes are left. -/
theorem Run.frozen_replayed_before :
    ∃ prop, replay oneProposal (toLedgerKey (List.replicate 31 1 ++ [0]))
        (freezingSteps (accusing 5) (Concrete.block 6)) = some prop ∧
      tallyOf (some prop) = some ([5000000], 5000000) ∧
      (frozenStores (accusing 5) (Concrete.block 6) .frozenProposals).lookup
        (toLedgerKey (List.replicate 31 1 ++ [0])) = (prop.decided oneProposal.sort).or none := by
  have ran := run_untilFreezing (by decide +kernel :
    (freezingSteps (accusing 5) (Concrete.block 6)).length = _) rfl
  have succeeds : (exec (GovCtrler.freezeProposals oneProposal.sort 6)
      (App.node (freezing (accusing 5) (Concrete.block 6))).ledgers).1.isOk = true := by
    decide +kernel
  obtain ⟨_, froze⟩ := Foundation.exists_eq_ok succeeds
  have before : ((App.node (freezing (accusing 5) (Concrete.block 6))).ledgers
      .frozenProposals).lookup (toLedgerKey (List.replicate 31 1 ++ [0])) = none := by
    decide +kernel
  have tally : tallyOf (replay oneProposal (toLedgerKey (List.replicate 31 1 ++ [0]))
      (freezingSteps (accusing 5) (Concrete.block 6))) = some ([5000000], 5000000) := by
    decide +kernel
  have opened : openHeight (App.node (freezing (accusing 5) (Concrete.block 6))) = some 6 := by
    decide +kernel
  obtain ⟨prop, replayed, -, frozen⟩ := Run.frozen_replayed ran (by decide +kernel) opened froze
    (k := toLedgerKey (List.replicate 31 1 ++ [0])) (.inl (by decide +kernel))
  rw [replayed] at tally
  rw [before] at frozen
  exact ⟨prop, replayed, tally, frozen⟩

/-- The evidence in the block that freezes does not count: the votes of the punished voter are
frozen as they were. -/
theorem frozen_unpunished :
    ∃ steps s ls', Run oneProposal false shortPeriods .delivering steps s ∧
      openHeight (App.node s) = some 6 ∧
      exec (GovCtrler.freezeProposals oneProposal.sort 6) (App.node s).ledgers = (.ok (), ls') ∧
      tallyOf (replay oneProposal (toLedgerKey (List.replicate 31 1 ++ [0])) steps) =
        some ([5000000], 5000000) ∧
      (ls' .proposals).lookup (toLedgerKey (List.replicate 31 1 ++ [0])) = none ∧
      tallyOf ((ls' .frozenProposals).lookup (toLedgerKey (List.replicate 31 1 ++ [0]))) =
        some ([10000000], 10000000) := by
  have ran := run_untilFreezing (by decide +kernel :
    (freezingSteps (Concrete.block 5) (accusing 6)).length = _) rfl
  have succeeds : (exec (GovCtrler.freezeProposals oneProposal.sort 6)
      (App.node (freezing (Concrete.block 5) (accusing 6))).ledgers).1.isOk = true := by
    decide +kernel
  obtain ⟨_, froze⟩ := Foundation.exists_eq_ok succeeds
  exact ⟨_, _, _, ran, by decide +kernel, froze, by decide +kernel, by decide +kernel,
    by decide +kernel⟩

end RigoApp

end Rigo
