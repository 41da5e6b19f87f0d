import Rigo.Node.Choices
import Rigo.Node.Merging

/-!
# Options that can be applied

An option of a proposal for new parameters is parsed twice: when the proposal is validated, and,
if it wins the vote, when the proposal is applied.  Validation rejects a text that does not parse,
but the text of an option that is applied is rewritten first if it ends in `""}`, and then it may
not parse any more.  An error there is an error of `EndBlock`, and the node stops.

`Run.options_applied` says that this is the only way: if no option that is proposed ends like
that, every option in the ledgers is applied as what it was validated as, and governance can end
every block.
-/

namespace Rigo

open Foundation
open GovCtrler GovProposal LedgerProg

variable {prop : GovProposal} {ls : Stores} {ctx : TrxContext}

namespace GovCtrler

/-- The text ends in `""}`, so that it is rewritten before it is applied. -/
def Doubled (option : HexBytes) : Prop := doubledQuotes.isSuffixOf option = true

instance (option : HexBytes) : Decidable (Doubled option) :=
  inferInstanceAs (Decidable (doubledQuotes.isSuffixOf option = true))

/-- The option is applied as what it is validated as. -/
def Decodes (json : ParamsJSON) (option : HexBytes) : Prop :=
  ∃ params, GovParams.unmarshalJSON json option = .ok params ∧ decodeOption json option = .ok params

section

variable {json : ParamsJSON}

theorem decodes_of_parsed {option : HexBytes} {params : GovParams}
    (parsed : GovParams.unmarshalJSON json option = .ok params) (plain : ¬ Doubled option) :
    Decodes json option := by
  refine ⟨params, parsed, ?_⟩
  unfold Doubled at plain
  unfold decodeOption hotfix
  rw [if_neg plain]
  exact parsed

/-- Every option was parsed. -/
theorem checkOptions_ok {options : List HexBytes} (checked : checkOptions json options = .ok ()) :
    ∀ option ∈ options, ∃ params, GovParams.unmarshalJSON json option = .ok params := by
  induction options with
  | nil => exact fun _ member => by cases member
  | cons head tail ih =>
    unfold checkOptions at checked
    cases parsed : GovParams.unmarshalJSON json head with
    | error err =>
      rw [parsed] at checked
      cases checked
    | ok params =>
      rw [parsed] at checked
      intro option member
      rcases List.mem_cons.mp member with rfl | inTail
      · exact ⟨params, parsed⟩
      · exact ih checked option inTail

/-- A proposal that passes the checks has an option, and its options were parsed if they are
about parameters. -/
theorem checkProposal_options {payload : TrxPayloadProposal}
    (checked : checkProposal json ctx payload = .ok ()) :
    payload.options ≠ [] ∧ (payload.optType = proposalGovParams →
      ∀ option ∈ payload.options, ∃ params, GovParams.unmarshalJSON json option = .ok params) := by
  unfold checkProposal at checked
  simp only at checked
  split at checked
  · cases checked
  split at checked
  · cases checked
  by_cases params : payload.optType = proposalGovParams
  · rw [if_pos params] at checked
    rcases options : checkOptions json payload.options with e | _ <;> rw [options] at checked
    · cases checked
    simp only [bind, Except.bind] at checked
    split at checked
    · cases checked
    split at checked
    · cases checked
    split at checked
    · cases checked
    next some =>
      exact ⟨some, fun _ => checkOptions_ok options⟩
  · rw [if_neg params] at checked
    simp only [bind, Except.bind] at checked
    split at checked
    · cases checked
    split at checked
    · cases checked
    split at checked
    · cases checked
    next some =>
      exact ⟨some, fun same => absurd same params⟩

end

end GovCtrler

/-! ## Proposals -/

namespace GovProposal

variable {json : ParamsJSON} {prop prop' : GovProposal}

/-- A proposal that can be frozen and applied: there is an option, and what may be the major option
decodes. -/
def Applicable (json : ParamsJSON) (prop : GovProposal) : Prop :=
  prop.options ≠ [] ∧ (prop.optType = proposalGovParams → ∀ opt,
    opt ∈ prop.options ∨ prop.majorOption = some opt → GovCtrler.Decodes json opt.option)

/-- Votes and punishments keep the texts. -/
theorem Applicable.of_terms (applicable : prop.Applicable json) (same : prop'.terms = prop.terms) :
    prop'.Applicable json := by
  obtain ⟨some, decodes⟩ := applicable
  simp only [terms, schedule, Prod.mk.injEq] at same
  obtain ⟨-, ⟨-, major⟩, optType, texts⟩ := same
  refine ⟨fun none => some ?_, fun params opt possible => ?_⟩
  · rw [none, List.map_nil] at texts
    exact List.map_eq_nil_iff.mp texts.symm
  · rcases possible with member | chosen
    · have text : opt.option ∈ prop.options.map VoteOption.option := by
        rw [← texts]
        exact List.mem_map_of_mem member
      obtain ⟨old, member', text⟩ := List.mem_map.mp text
      rw [← text]
      exact decodes (optType ▸ params) old (.inl member')
    · exact decodes (optType ▸ params) opt (.inr (major ▸ chosen))

/-- The major option is one of the options. -/
theorem Applicable.decided {sort : OptionSort} (applicable : prop.Applicable json)
    (frozen : prop.decided sort = some prop') : prop'.Applicable json := by
  obtain ⟨-, decodes⟩ := applicable
  have perm := sort.perm prop.options
  unfold GovProposal.decided at frozen
  cases options : sort.sort prop.options with
  | nil =>
    rw [options] at frozen
    cases frozen
  | cons first rest =>
    rw [options] at frozen perm
    have possible : ∀ opt, (if first.votes ≥ prop.majorityPower then some first
        else prop.majorOption) = some opt → opt ∈ prop.options ∨ prop.majorOption = some opt := by
      intro opt chosen
      split at chosen
      · cases chosen
        exact .inl (perm.mem_iff.mp List.mem_cons_self)
      · exact .inr chosen
    simp only at frozen
    generalize (if first.votes ≥ prop.majorityPower then some first
      else prop.majorOption) = major at frozen possible
    cases major with
    | none => cases frozen
    | some opt =>
      cases frozen
      refine ⟨List.cons_ne_nil _ _, fun params opt' here => decodes params opt' ?_⟩
      rcases here with member | chosen
      · exact .inl (perm.mem_iff.mp member)
      · exact possible opt' chosen

theorem applicable_newGovProposal (txHash : HexBytes)
    {optType startHeight votingBlocks totalVotingPower applyingHeight : Int} {voters : List Voter}
    {options : List HexBytes} (some : options ≠ [])
    (decodes : optType = proposalGovParams → ∀ option ∈ options, Decodes json option) :
    (newGovProposal txHash optType startHeight votingBlocks totalVotingPower applyingHeight voters
      options).Applicable json := by
  refine ⟨fun none => some (List.map_eq_nil_iff.mp none), fun params opt possible => ?_⟩
  rcases possible with member | chosen
  · obtain ⟨option, proposed, rfl⟩ := List.mem_map.mp member
    exact decodes params option proposed
  · cases chosen

end GovProposal

namespace GovCtrler

variable {json : ParamsJSON}

/-! ## Evidence and transactions -/

theorem files_punishProposal_applicable (slashRatio : Int) (target : Address) (k : LedgerKey) :
    Files True .proposals (Applicable json) (punishProposal slashRatio target k) := by
  refine (fetches_get k).bind fun answer granted => ?_
  cases answer with
  | error e => trivial
  | ok prop =>
    have applicable := granted prop rfl
    have punishes : Returns (filing True .proposals (Applicable json))
        (fun punished => punished.2.terms = prop.terms)
        (GovProposal.doPunish prop target slashRatio) :=
      keepsTerms_doPunish prop target slashRatio
    refine Returns.bind (obeys_tryXError punishes) fun caught same => ?_
    cases caught with
    | error e => exact (files_set applicable).seq fun _ => trivial
    | ok punished =>
      exact (files_set (applicable.of_terms (same punished rfl))).seq fun _ => trivial

theorem files_beginBlock_applicable (params : GovParams) (info : BlockInfo) :
    Files True .proposals (Applicable json) (beginBlock params info) := by
  refine Obeys.forM _ trivial fun target _ => ?_
  refine (Calm.files (S := fun _ => False) (writes_readAll _) id).seq fun props => ?_
  split
  · trivial
  · exact Obeys.forM _ trivial fun k _ =>
      (files_punishProposal_applicable _ target k).seq fun _ => trivial

/-- No option for the parameters that parses is rewritten before it is applied. -/
def Plain (json : ParamsJSON) : TrxPayload → Prop
  | .proposal payload => payload.optType = proposalGovParams → ∀ option ∈ payload.options,
      (GovParams.unmarshalJSON json option).isOk = true → ¬ Doubled option
  | _ => True

instance (payload : TrxPayload) : Decidable (Plain json payload) := by
  unfold Plain
  cases payload <;> infer_instance

/-- The options of a proposal that was validated decode if none of them is rewritten. -/
theorem decodes_of_valid {payload : TrxPayloadProposal} {ls' : Stores}
    (proposes : ctx.tx.payload = .proposal payload) (plain : Plain json ctx.tx.payload)
    (valid : exec (validateTrx json ctx) ls = (.ok (), ls')) :
    payload.options ≠ [] ∧ (payload.optType = proposalGovParams →
      ∀ option ∈ payload.options, Decodes json option) := by
  obtain ⟨some, parsed⟩ := checkProposal_options (validateTrx_proposal proposes valid)
  rw [proposes] at plain
  refine ⟨some, fun params option member => ?_⟩
  obtain ⟨value, parsed⟩ := parsed params option member
  exact decodes_of_parsed parsed (plain params option member (by rw [parsed]; rfl))

/-- A proposal that was validated is applicable if no option of it is rewritten. -/
theorem applicable_executeTrx {ls' : Stores}
    (holds : Everywhere .proposals (Applicable json) ls) (plain : Plain json ctx.tx.payload)
    (valid : exec (validateTrx json ctx) ls = (.ok (), ls')) :
    Everywhere .proposals (Applicable json) (exec (executeTrx ctx) ls).2 := by
  refine holds.exec ?_
  unfold executeTrx
  split
  · unfold execProposing
    split
    · next payload proposes =>
      obtain ⟨some, decodes⟩ := decodes_of_valid proposes plain valid
      exact files_set (applicable_newGovProposal _ some decodes)
    · trivial
  · unfold execVoting
    split
    · next payload _ =>
      refine (fetches_get _).bind fun answer granted => ?_
      refine (returns_ofExcept answer).bind fun prop found => ?_
      have votes : Returns (filing True .proposals (Applicable json))
          (fun prop' => prop'.terms = terms prop)
          (vote prop ctx.tx.fromAddr payload.choice) :=
        keepsTerms_vote prop _ _
      exact votes.bind fun prop' same => files_set ((granted prop found).of_terms same)
    · trivial
  · trivial

/-! ## The end of a block -/

/-- The proposals that a loop has still to go through are there, and are applicable. -/
structure Ahead (json : ParamsJSON) (found : LedgerKey → Option GovProposal)
    (rest : List GovProposal) : Prop where
  distinct : (rest.map LedgerItem.key).Nodup
  there : ∀ prop ∈ rest, (found (LedgerItem.key prop)).isSome = true
  applicable : ∀ prop ∈ rest, prop.Applicable json

theorem Ahead.tail {found found' : LedgerKey → Option GovProposal}
    {rest : List GovProposal} (ahead : Ahead json found (prop :: rest))
    (others : ∀ k, k ≠ LedgerItem.key prop → found' k = found k) : Ahead json found' rest := by
  have distinct := ahead.distinct
  rw [List.map_cons, List.nodup_cons] at distinct
  refine ⟨distinct.2, fun prop' member => ?_, fun prop' member =>
    ahead.applicable prop' (List.mem_cons_of_mem _ member)⟩
  rw [others]
  · exact ahead.there prop' (List.mem_cons_of_mem _ member)
  · intro same
    exact distinct.1 (same ▸ List.mem_map_of_mem member)

/-- The committed proposals, of which none was deleted. -/
theorem ahead_items {store : Store GovProposal} (removed : store.removed = [])
    (all : store.All (Applicable json)) :
    Ahead json store.lookup store.tree.contents.items := by
  refine ⟨KeyedMap.nodup_map_key_items _, fun prop member => ?_, fun prop member =>
    all.committed _ prop (KeyedMap.mem_items.mp member)⟩
  have committed := KeyedMap.mem_items.mp member
  rw [Store.lookup_eq, removed, if_neg List.not_mem_nil, committed]
  simp

/-- A round of `freezeProposals` for a proposal that is there does not fail. -/
theorem exec_freezeProposal (sort : OptionSort) (height : Int) (some : prop.options ≠ [])
    (there : ((ls .proposals).lookup (LedgerItem.key prop)).isSome = true) :
    (exec (freezeProposal sort height prop) ls).1.isOk = true := by
  obtain ⟨prop₀, found⟩ := Option.isSome_iff_exists.mp there
  unfold freezeProposal
  split
  · rw [exec_bind, exec_del, andThen_ok, Store.get, found]
    cases options : sort.sort prop.options with
    | nil =>
      have perm := sort.perm prop.options
      rw [options] at perm
      exact absurd perm.nil_eq.symm some
    | cons first rest =>
      simp only [updateMajorOption, options]
      generalize (if first.votes ≥ prop.majorityPower then Option.some first
        else prop.majorOption) = major
      cases major <;> rfl
  · rfl

/-- What `freezeProposals` counts on, while some proposals are left. -/
structure Freezes (json : ParamsJSON) (rest : List GovProposal) (ls : Stores) : Prop where
  freezable : Freezable ls
  frozen : Everywhere .frozenProposals (GovProposal.Applicable json) ls
  ahead : Ahead json (ls .proposals).lookup rest

theorem triple_freezeProposal (sort : OptionSort) (height : Int) (prop : GovProposal)
    (rest : List GovProposal) :
    Triple (ledgerHandler storeImpl) (Freezes json (prop :: rest)) (freezeProposal sort height prop)
      (fun _ => Freezes json rest) fun _ _ => False := by
  refine triple_returns_iff.mpr fun ls freezes => ?_
  have applicable := freezes.ahead.applicable prop List.mem_cons_self
  obtain ⟨_, ran⟩ := exists_eq_ok (exec_freezeProposal sort height
    applicable.1 (freezes.ahead.there prop List.mem_cons_self))
  obtain ⟨freezable, found⟩ := freezeProposal_found freezes.freezable ran
  refine ⟨_, _, ran, freezable, ?_, freezes.ahead.tail fun k other => ?_⟩
  · rw [exec_freezeProposal_ok ran, Everywhere]
    have kept : (Stores.remove ls .proposals (LedgerItem.key prop)) .frozenProposals =
        ls .frozenProposals := Stores.remove_of_ne _ _ (by decide)
    split
    · split
      · next prop' decided =>
        rw [Stores.put_self, kept]
        exact Store.All.set freezes.frozen (applicable.decided decided)
      · rw [kept]
        exact freezes.frozen
    · exact freezes.frozen
  · have same := found k
    rw [if_neg other] at same
    exact (Prod.mk.inj same).1

/-- A round of `applyProposals` for an applicable proposal that is there does not fail. -/
theorem exec_applyProposal (params : GovParams) (height : Int) (newParams : Option GovParams)
     (applicable : prop.Applicable json)
    (there : ((ls .frozenProposals).lookup (LedgerItem.key prop)).isSome = true) :
    (exec (applyProposal json params height newParams prop) ls).1.isOk = true := by
  obtain ⟨prop₀, found⟩ := Option.isSome_iff_exists.mp there
  unfold applyProposal
  split
  · rw [exec_bind, exec_del, andThen_ok, Store.get, found]
    cases major : prop.majorOption with
    | none => rfl
    | some opt =>
      simp only
      split
      · next params =>
        obtain ⟨value, -, decoded⟩ := applicable.2 params opt (.inr major)
        rw [decoded]
        rfl
      · rfl
  · rfl

/-- What `applyProposals` counts on, while some proposals are left. -/
structure Applies (json : ParamsJSON) (rest : List GovProposal) (ls : Stores) : Prop where
  committable : Committable ls
  frozen : Everywhere .frozenProposals (GovProposal.Applicable json) ls
  ahead : Ahead json (ls .frozenProposals).lookup rest

theorem triple_applyProposal (params : GovParams) (height : Int) (newParams : Option GovParams)
    (prop : GovProposal) (rest : List GovProposal) :
    Triple (ledgerHandler storeImpl) (Applies json (prop :: rest))
      (applyProposal json params height newParams prop) (fun _ => Applies json rest)
      fun _ _ => False := by
  refine triple_returns_iff.mpr fun ls applies => ?_
  obtain ⟨newParams', ran⟩ := exists_eq_ok (exec_applyProposal params
    height newParams (applies.ahead.applicable prop List.mem_cons_self)
    (applies.ahead.there prop List.mem_cons_self))
  obtain ⟨committable, found⟩ := applyProposal_found applies.committable ran
  refine ⟨_, _, ran, committable, ?_, applies.ahead.tail fun k other => ?_⟩
  · rw [Everywhere, (exec_applyProposal_ok ran).2]
    split
    · exact Store.All.erase applies.frozen _
    · exact applies.frozen
  · have same := found k
    rw [if_neg other] at same
    exact (Prod.mk.inj same).2

/-- What governance counts on when a block ends: no proposal was deleted, and all are
applicable. -/
structure Governs (json : ParamsJSON) (ls : Stores) : Prop where
  proposals : Intact .proposals (GovProposal.Applicable json) ls
  frozen : Intact .frozenProposals (GovProposal.Applicable json) ls

/-- Governance ends the block, and its frozen proposals are applicable. -/
theorem endBlock_governs (governs : Governs json ls) (sort : OptionSort)
    (params : GovParams) (newParams : Option GovParams) (height : Int) :
    ∃ newParams' ls', exec (endBlock json sort params newParams height) ls = (.ok newParams', ls') ∧
      Everywhere .frozenProposals (Applicable json) ls' := by
  have freezes : Freezes json (ls .proposals).tree.contents.items ls := by
    refine ⟨⟨?_, governs.frozen.removed⟩, governs.frozen.all,
      ahead_items governs.proposals.removed governs.proposals.all⟩
    intro k member
    rw [governs.proposals.removed] at member
    cases member
  obtain ⟨_, ls₁, froze, frozen⟩ := triple_returns_iff.mp
    (Triple.forM (I := Freezes json) _ fun prop rest =>
      triple_freezeProposal sort height prop rest) ls freezes
  have applies : Applies json (ls₁ .frozenProposals).tree.contents.items ls₁ := by
    refine ⟨⟨frozen.freezable.1, ?_⟩, frozen.frozen,
      ahead_items frozen.freezable.2 frozen.frozen⟩
    intro k member
    rw [frozen.freezable.2] at member
    cases member
  obtain ⟨newParams', ls', applied, done⟩ := triple_returns_iff.mp
    (Triple.foldlM (I := fun rest _ => Applies json rest) _ newParams fun newParams prop rest =>
      triple_applyProposal params height newParams prop rest) ls₁ applies
  refine ⟨newParams', ls', ?_, done.frozen⟩
  have froze : exec (freezeProposals sort height) ls = (.ok (), ls₁) := by
    unfold freezeProposals
    rw [exec_bind, exec_readAll]
    exact froze
  unfold endBlock
  rw [exec_bind, froze, andThen_ok]
  unfold applyProposals
  rw [exec_bind, exec_readAll]
  exact applied

end GovCtrler

/-! ## Runs -/

namespace RigoApp

variable {X : External} {s t : Node X.evm} {mayRestart : Bool} {genesis : Genesis}

/-- No option for the parameters that is delivered and parses is rewritten before it is applied. -/
def PlainOptions (X : External) (step : Step X.evm) : Prop :=
  match step.call with
  | .deliverTx txbz => ∀ tx ∈ (Trx.decode X.trx txbz).toOption, GovCtrler.Plain X.json tx.payload
  | _ => True

instance (X : External) (step : Step X.evm) : Decidable (PlainOptions X step) :=
  match step with
  | ⟨_, .deliverTx _, _, _⟩ => inferInstanceAs (Decidable (∀ tx ∈ Except.toOption _, _))
  | ⟨_, .beginBlock _, _, _⟩ => .isTrue trivial
  | ⟨_, .endBlock, _, _⟩ => .isTrue trivial
  | ⟨_, .commit, _, _⟩ => .isTrue trivial

/-- The proposals of a run: all are applicable, and none is deleted before the block ends. -/
structure Governed (X : External) (phase : Phase) (s : Node X.evm) : Prop where
  proposals : Everywhere .proposals (GovProposal.Applicable X.json) s.ledgers
  frozen : Everywhere .frozenProposals (GovProposal.Applicable X.json) s.ledgers
  kept : phase ≠ .ended →
    (s.ledgers .proposals).removed = [] ∧ (s.ledgers .frozenProposals).removed = []

theorem Governed.governs {phase : Phase} (governed : Governed X phase s) (early : phase ≠ .ended) :
    Governs X.json s.ledgers :=
  ⟨⟨governed.proposals, (governed.kept early).1⟩, ⟨governed.frozen, (governed.kept early).2⟩⟩

theorem Governed.beginBlock {info : BlockInfo} (governed : Governed X .idle s)
    (ran : BeginsBlock X info s t) :
    Governed X .delivering t := by
  obtain ⟨removed, frozenRemoved⟩ := governed.kept (by decide)
  obtain ⟨removed', -, frozen⟩ := beginBlock_plan removed ran
  refine ⟨beginBlock_proposals (files_beginBlock_applicable _ _) governed.proposals ran,
    ?_, fun _ => ⟨removed', ?_⟩⟩
  · rw [Everywhere, frozen]
    exact governed.frozen
  · rw [frozen]
    exact frozenRemoved

theorem Governed.deliverTx {txbz : HexBytes} {answer : TxResponse}
    (governed : Governed X .delivering s)
    (plain : PlainOptions X ⟨s, .deliverTx txbz, .deliverTx answer, t⟩)
    (ran : DeliversTx X txbz s answer t) :
    Governed X .delivering t := by
  obtain ⟨removed, frozenRemoved⟩ := governed.kept (by decide)
  obtain ⟨removed', -, frozen⟩ := deliverTx_plan removed ran
  refine ⟨deliverTx_proposals (fun {ctx _ _} decoded holds valid => ?_) governed.proposals ran,
    ?_, fun _ => ⟨removed', ?_⟩⟩
  · exact applicable_executeTrx holds (plain ctx.tx (by rw [decoded]; rfl)) valid
  · rw [Everywhere, frozen]
    exact governed.frozen
  · rw [frozen]
    exact frozenRemoved

theorem Governed.endBlock {valUpdates : List ValidatorUpdate} (governed : Governed X .delivering s)
    (ran : EndsBlock X s valUpdates t) :
    Governed X .ended t := by
  refine ⟨endBlock_proposals governed.proposals ran, ?_, fun early => absurd rfl early⟩
  obtain ⟨bctx, newGovParams, lastValidators, ls, ls', ls'', -, ended, paid, refunded, rfl⟩ :=
    endBlock_ok ran
  have same : ls'' .frozenProposals = ls .frozenProposals :=
    ((StakeCtrler.writes_endBlock (S := fun l => l ≠ .frozenProposals) (by decide) (by decide)
      _ _ _ _).frame (not_not.mpr rfl) refunded).trans
      ((AcctCtrler.writes_endBlock (S := fun l => l ≠ .frozenProposals) (by decide) _ _).frame
        (not_not.mpr rfl) paid)
  obtain ⟨_, _, ended', frozen⟩ := endBlock_governs (governed.governs (by decide)) X.sort
    s.mem.govParams s.mem.newGovParams bctx.blockInfo.height
  cases ended.symm.trans ended'
  rw [Everywhere, ← same] at frozen
  exact frozen

theorem Governed.commit {appHash : HexBytes} (governed : Governed X .ended s)
    (ran : Commits X s appHash t) :
    Governed X .idle t := by
  refine ⟨commit_everywhere governed.proposals ran, commit_everywhere governed.frozen ran,
    fun _ => ?_⟩
  obtain ⟨bctx, state, -, -, -, rfl, -, -⟩ := commit_ok ran
  exact ⟨rfl, rfl⟩

/-- The proposals of every run in which no option is rewritten. -/
theorem Run.governed {phase : Phase} {steps : List (Step X.evm)} {s : App X.evm}
    (ran : Run X mayRestart genesis phase steps s) (plain : ∀ step ∈ steps, PlainOptions X step) :
    Governed X phase (App.node s) := by
  refine ran.node_induction_of (C := PlainOptions X) (I := fun phase _ s => Governed X phase s)
    ?_ ?_ ?_ ?_ ?_ ?_ ?_ plain
  · intro s t first started
    have empty {l : LedgerId} (governance : l = .proposals ∨ l = .frozenProposals) :
        t.ledgers l = Store.new Tree.empty := initChain_proposals first started governance
    have kept {l : LedgerId} (governance : l = .proposals ∨ l = .frozenProposals) :
        t.ledgers l = s.ledgers l := by
      rcases governance with rfl | rfl <;> exact initChain_frame started (by decide)
    refine ⟨?_, ?_, fun _ => ?_⟩
    · rw [Everywhere, kept (.inl rfl)]
      exact everywhere_firstNode (l := .proposals) first
    · rw [Everywhere, kept (.inr rfl)]
      exact everywhere_firstNode (l := .frozenProposals) first
    · simp only [empty (.inl rfl), empty (.inr rfl)]
      exact ⟨rfl, rfl⟩
  · intro steps s t info governed _ began
    exact governed.beginBlock began
  · intro steps s t txbz answer governed plain delivered
    exact governed.deliverTx plain delivered
  · intro steps s t valUpdates governed _ ended
    exact governed.endBlock ended
  · intro steps s t appHash governed _ committed
    exact governed.commit committed
  · intro phase steps s limiter governed
    exact ⟨governed.proposals, governed.frozen, governed.kept⟩
  · intro steps t u governed same _
    obtain ⟨proposals, frozen, kept⟩ := governed
    refine ⟨?_, ?_, ?_⟩ <;> rw [same]
    · exact proposals
    · exact frozen
    · exact kept

/-- Options that are accepted are applied as what they were accepted as. -/
structure OptionsApply (X : External) (phase : Phase) (steps : List (Step X.evm)) (s : Node X.evm) :
    Prop where
  /-- of every proposal that is delivered, wherever it is valid -/
  accepted : ∀ step ∈ steps, ∀ {txbz ctx payload ls ls'}, step.call = .deliverTx txbz →
    Trx.decode X.trx txbz = .ok ctx.tx → ctx.tx.payload = .proposal payload →
    payload.optType = proposalGovParams →
    exec (GovCtrler.validateTrx X.json ctx) ls = (.ok (), ls') →
    ∀ option ∈ payload.options, GovCtrler.Decodes X.json option
  /-- of every proposal that is voted on or frozen -/
  stored : ∀ k prop, (s.ledgers .proposals).lookup k = some prop ∨
      (s.ledgers .frozenProposals).lookup k = some prop → prop.optType = proposalGovParams →
    ∀ opt, opt ∈ prop.options ∨ prop.majorOption = some opt → GovCtrler.Decodes X.json opt.option
  /-- and governance ends every block -/
  ends : phase = .delivering → ∀ height, ∃ newParams ls',
    exec (GovCtrler.endBlock X.json X.sort s.mem.govParams s.mem.newGovParams height) s.ledgers =
      (.ok newParams, ls')

/-- In every run in which no option for the parameters that is delivered and parses ends in `""}`,
an option that was accepted is decoded without an error when it is applied, and to the same
parameters, and so governance fails to end no block. -/
theorem Run.options_applied {phase : Phase} {steps : List (Step X.evm)} {s : App X.evm}
    (ran : Run X mayRestart genesis phase steps s) (plain : ∀ step ∈ steps, PlainOptions X step) :
    OptionsApply X phase steps (App.node s) := by
  have governed := ran.governed plain
  refine ⟨?_, fun k prop here => ?_, fun inBlock height => ?_⟩
  · intro step member txbz ctx payload ls ls' call decoded proposes params valid option proposed
    have plain := plain step member
    unfold PlainOptions at plain
    rw [call] at plain
    exact (GovCtrler.decodes_of_valid proposes (plain ctx.tx (by rw [decoded]; rfl)) valid).2
      params option proposed
  · rcases here with voting | frozen
    · exact (Store.All.lookup governed.proposals voting).2
    · exact (Store.All.lookup governed.frozen frozen).2
  · subst inBlock
    obtain ⟨newParams, ls', ended, -⟩ := GovCtrler.endBlock_governs (governed.governs (by decide))
      X.sort (App.node s).mem.govParams (App.node s).mem.newGovParams height
    exact ⟨newParams, ls', ended⟩

/-! ### An option with an empty amount -/

/-- The text `{"slashRatio":"40"}`. -/
def slashOption : HexBytes :=
  [0x7b, 0x22, 0x73, 0x6c, 0x61, 0x73, 0x68, 0x52, 0x61, 0x74, 0x69, 0x6f, 0x22, 0x3a, 0x22, 0x34,
    0x30, 0x22, 0x7d]

/-- The text `{"slashRatio":"40","gasPrice":""}`, which stands for the same parameters. -/
def slashOnlyOption : HexBytes :=
  slashOption.dropLast ++ [0x2c, 0x22, 0x67, 0x61, 0x73, 0x50, 0x72, 0x69, 0x63, 0x65, 0x22, 0x3a,
    0x22, 0x22, 0x7d]

/-- A proposal with one option, voted on in the blocks 4 and 5 and applied from block 5 on, and a
vote for it. -/
def optionProposal (option : HexBytes) : External :=
  Concrete.external ⟨[Concrete.trx .proposal 1 0 0 0 [0], Concrete.trx .voting 1 0 1 0 [0]],
    [⟨[], 4, 1, 5, proposalGovParams, [option]⟩], [⟨List.replicate 31 1 ++ [0], 0⟩],
    [(slashOption, slashText), (slashOnlyOption, slashText)]⟩

/-- The proposal was frozen in block 6, and block 7, which applies it, has begun. -/
def untilOption : List ConsensusCall :=
  blockOf 1 [] ++ blockOf 2 [] ++ blockOf 3 [[0]] ++ blockOf 4 [[1]] ++ blockOf 5 [] ++
    blockOf 6 [] ++ [.beginBlock (Concrete.block 7)]

theorem run_untilOption {option : HexBytes} {s : App (optionProposal option).evm}
    (started : start (optionProposal option) shortPeriods = .ok s)
    (length : (stepsOf (optionProposal option) untilOption s).length = untilOption.length) :
    Run (optionProposal option) false shortPeriods .delivering
      (stepsOf (optionProposal option) untilOption s)
      (runCalls (optionProposal option) finalityImpl untilOption s).2 := by
  have ran : Run (optionProposal option) false shortPeriods .delivering
      ([] ++ stepsOf (optionProposal option) untilOption s)
      (runCalls (optionProposal option) finalityImpl untilOption s).2 :=
    (Run.start started).calls untilOption rfl length
  rwa [List.nil_append] at ran

def slashStarted : App (optionProposal slashOption).evm :=
  (start (optionProposal slashOption) shortPeriods).toOption.get (by decide +kernel)

def slashOnlyStarted : App (optionProposal slashOnlyOption).evm :=
  (start (optionProposal slashOnlyOption) shortPeriods).toOption.get (by decide +kernel)

/-- The option without the empty amount is applied. -/
theorem Run.options_applied_slash :
    OptionsApply (optionProposal slashOption) .delivering
        (stepsOf (optionProposal slashOption) untilOption slashStarted)
        (App.node (runCalls (optionProposal slashOption) finalityImpl untilOption slashStarted).2) ∧
      (appliedParams (optionProposal slashOption) (App.node
        (runCalls (optionProposal slashOption) finalityImpl untilOption slashStarted).2)).map
          GovParams.slashRatio = [40] := by
  have started : RigoApp.start (optionProposal slashOption) shortPeriods = .ok slashStarted :=
    eq_ok_of_isSome _
  have ran := run_untilOption started (by decide +kernel)
  exact ⟨Run.options_applied ran (by decide +kernel), by decide +kernel⟩

/-- The option with it was accepted too, and the block that applies it cannot be ended. -/
theorem Run.option_unapplicable : ∃ steps s,
    Run (optionProposal slashOnlyOption) false shortPeriods .delivering steps s ∧
      (steps.filterMap (executedTrx (optionProposal slashOnlyOption))).length = 2 ∧
      (GovParams.unmarshalJSON (optionProposal slashOnlyOption).json slashOnlyOption).isOk = true ∧
      (GovCtrler.decodeOption (optionProposal slashOnlyOption).json slashOnlyOption).isOk = false ∧
      (exec (GovCtrler.endBlock (optionProposal slashOnlyOption).json
        (optionProposal slashOnlyOption).sort s.mem.govParams s.mem.newGovParams 7)
        (App.node s).ledgers).1 = .error (.xerr (.fromErr "unexpected end of JSON input")) ∧
      (run (nodeHandler (optionProposal slashOnlyOption) finalityImpl)
        (endBlock (optionProposal slashOnlyOption)) s).1.isOk = false := by
  have started : RigoApp.start (optionProposal slashOnlyOption) shortPeriods =
    .ok slashOnlyStarted := eq_ok_of_isSome _
  have ran := run_untilOption started (by decide +kernel)
  exact ⟨_, _, ran, by decide +kernel, by decide +kernel, by decide +kernel, by decide +kernel,
    by decide +kernel⟩

end RigoApp

end Rigo
