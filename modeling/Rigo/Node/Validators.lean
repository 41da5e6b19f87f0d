import Rigo.Ctrlers.Stake.Selection
import Rigo.Node.Delegatees
import Rigo.Node.Issuance

/-!
# The validators of the consensus engine

The consensus engine starts with the validators of the genesis and applies the updates that the
blocks return.  From the second block on the application compares the validators that it selects
with those it selected in the block before; in the first two blocks it compares them with none.

So the engine follows the application from the second block on, if the second block selects all
genesis validators (`Run.validators_follow`).  A genesis validator that is not selected then stays
with the engine (`Run.unselectedGenesis`).

The votes in a block come from the validators of the block before it, whose powers are those of
the delegatees committed three blocks earlier; that is where `BeginBlock` looks them up
(`Run.votes_matched`).
-/

namespace Rigo

open Foundation
open Delegatee StakeCtrler

variable {info : BlockInfo} {d : Delegatee} {valUpdates : List ValidatorUpdate}

namespace StakeCtrler

/-! ## Delegatees with distinct addresses -/

/-- Delegatees with distinct addresses, and public keys that belong to them. -/
structure Listed (addressOf : HexBytes → Address) (list : List Delegatee) : Prop where
  keyed : Keyed addressOf list
  distinct : (list.map Delegatee.addr).Nodup

section

variable {addressOf : HexBytes → Address} {list list' : List Delegatee}

theorem Listed.perm (listed : Listed addressOf list) (same : list'.Perm list) :
    Listed addressOf list' :=
  ⟨fun d member => listed.keyed d (same.mem_iff.mp member),
    (same.map addr).nodup_iff.mpr listed.distinct⟩

theorem Listed.sublist (listed : Listed addressOf list) (fewer : list'.Sublist list) :
    Listed addressOf list' :=
  ⟨fun d member => listed.keyed d (fewer.subset member),
    listed.distinct.sublist (fewer.map addr)⟩

theorem withAddr_perm (distinct : (list.map Delegatee.addr).Nodup) (same : list.Perm list') :
    withAddr list = withAddr list' := by
  have distinct' := (same.map Delegatee.addr).nodup_iff.mp distinct
  funext addr
  refine Option.ext fun d => ?_
  rw [withAddr_iff distinct, withAddr_iff distinct', same.mem_iff]

theorem heldPowers_perm (distinct : (list.map Delegatee.addr).Nodup) (same : list.Perm list') :
    heldPowers list = heldPowers list' := by
  funext addr
  rw [heldPowers, heldPowers, powersOf, powersOf, withAddr_perm distinct same]

theorem mem_of_selected {params : GovParams} (member : d ∈ selected params list) :
    d ∈ list :=
  List.mem_of_mem_filter ((sortBy_perm _ _).mem_iff.mp (List.mem_of_mem_take member))

/-- The eligible delegatees of a ledger are listed. -/
theorem listed_selected {m : ItemMap Delegatee} (params : GovParams)
    (keyed : ItemMap.All (fun d => addressOf d.pubKey = d.addr) m) :
    Listed addressOf (selected params m.items) := by
  have listed : Listed addressOf m.items :=
    ⟨fun d member => keyed (LedgerItem.key d) d (KeyedMap.mem_items.mp member), nodup_items m⟩
  refine Listed.sublist ?_ (List.take_sublist _ _)
  exact (listed.sublist List.filter_sublist).perm (sortBy_perm _ _)

/-- Whoever applies the updates to the powers of the last validators has those of the new ones. -/
theorem applyAll_updates (listed : Listed addressOf list) (listed' : Listed addressOf list')
    {powers : Address → Option Int}
    (known : ∀ addr, withAddr list addr = none → powers addr ≠ none →
      ∃ d ∈ list', d.addr = addr)
    (held : ∀ addr, withAddr list addr ≠ none → powers addr = heldPowers list addr) :
    applyAll powers (changes addressOf (validatorUpdates (sortBy addrLess list)
        (sortBy addrLess list'))) = heldPowers list' := by
  have perm := sortBy_perm addrLess list
  have perm' := sortBy_perm addrLess list'
  have sorted := listed.perm perm
  have sorted' := listed'.perm perm'
  rw [← heldPowers_perm sorted'.distinct perm']
  apply applyAll_validatorUpdates sorted.keyed sorted'.keyed (ascending_sortBy listed.distinct)
    (ascending_sortBy listed'.distinct)
  intro addr same
  unfold heldPowers
  rw [← same, powersOf, withAddr_perm sorted.distinct perm]
  cases found : withAddr list addr with
  | some d =>
    rw [held addr (by simp [found]), heldPowers, powersOf, found]
  | none =>
    -- the address is in neither list
    rw [powersOf, powersOf, withAddr_perm sorted.distinct perm, found,
      withAddr_perm sorted'.distinct perm'] at same
    by_contra some
    obtain ⟨d, member, rfl⟩ := known addr found some
    rw [(withAddr_iff listed'.distinct).mpr ⟨member, rfl⟩] at same
    cases same

end

/-! ## Stakes on validators that signed -/

/-- The stakes on the validators that signed, as a snapshot has them. -/
def signedStakes (immu : ItemMap Delegatee) (votes : List VoteInfo) : List Stake :=
  (votes.filter VoteInfo.signedLastBlock).flatMap fun vote =>
    (immu.find? (toLedgerKey vote.address)).toList.flatMap stakes

section

variable {immu : ItemMap Delegatee}

theorem mem_signedStakes {votes : List VoteInfo} {vote : VoteInfo} {s0 : Stake}
    (member : vote ∈ votes) (signed : vote.signedLastBlock = true)
    (stored : immu.find? (toLedgerKey vote.address) = some d) (held : s0 ∈ d.stakes) :
    s0 ∈ signedStakes immu votes := by
  refine List.mem_flatMap.mpr ⟨vote, List.mem_filter.mpr ⟨member, signed⟩, ?_⟩
  rw [stored]
  exact List.mem_flatMap.mpr ⟨d, List.mem_cons_self, held⟩

/-- If all votes have the powers of the snapshot, all these stakes get a reward. -/
theorem rewardedStakes_matched {ls : Stores}
    (loaded : (ls .delegatees).tree.lazyLoadVersion (heightOfPower info.height) = .ok immu)
    (matched : ∀ vote ∈ info.votes, ∃ d, immu.find? (toLedgerKey vote.address) = some d ∧
      d.totalPower = vote.power) : rewardedStakes ls info = signedStakes immu info.votes := by
  rw [rewardedStakes, loaded]
  simp only
  generalize info.votes = votes at matched
  induction votes with
  | nil => rfl
  | cons vote rest ih =>
    obtain ⟨d, stored, power⟩ := matched vote List.mem_cons_self
    have later := ih fun vote' member => matched vote' (List.mem_cons_of_mem _ member)
    rw [List.flatMap_cons, later, signedStakes, signedStakes, List.filter_cons]
    cases signed : vote.signedLastBlock <;> simp [rewardedBy, signed, stored, power]

theorem rewardFor_le_issuedFor (params : GovParams) {stakes : List Stake} {s0 : Stake}
    (member : s0 ∈ stakes) :
    (rewardFor params s0).toNat ≤ issuedFor params stakes (toLedgerKey s0.fromAddr) := by
  refine List.le_sum_of_mem (List.mem_map.mpr ⟨s0, member, ?_⟩)
  exact if_pos rfl

end

end StakeCtrler

namespace RigoApp

variable {X : External} {txbz : HexBytes} {answer : TxResponse}

/-! ## The validators of the engine -/

/-- The powers of the genesis validators. -/
def genesisPowers (X : External) (genesis : Genesis) (addr : Address) : Option Int :=
  (genesis.validators.find? fun val => X.pubBytes2Addr val.1 = addr).map Prod.snd

/-- The ends of the blocks: the node before, and the updates that were returned. -/
def endings {E : EvmLib} (steps : List (Step E)) : List (Node E × List ValidatorUpdate) :=
  steps.filterMap fun step =>
    match step.response with
    | .endBlock valUpdates => some (step.before, valUpdates)
    | _ => none

/-- The updates that the blocks have returned. -/
def updatesOf {E : EvmLib} (steps : List (Step E)) : List (List ValidatorUpdate) :=
  (endings steps).map Prod.snd

/-- The genesis validators under the updates of some blocks. -/
def validatorSet (X : External) (genesis : Genesis) (updates : List (List ValidatorUpdate)) :
    Address → Option Int :=
  applyAll (genesisPowers X genesis) (StakeCtrler.changes X.pubBytes2Addr updates.flatten)

/-- The delegatees that a block selects: it goes through those committed before it. -/
def selection (s : Node X.evm) : List Delegatee :=
  StakeCtrler.selected s.mem.govParams (s.ledgers .delegatees).tree.contents.items

/-- The second block selects every genesis validator. -/
def SelectsGenesis (X : External) (genesis : Genesis) (steps : List (Step X.evm)) : Prop :=
  ∀ ending ∈ (endings steps)[1]?, ∀ val ∈ genesis.validators,
    ∃ d ∈ selection ending.1, d.addr = X.pubBytes2Addr val.1

/-- No block selects a delegatee without power. -/
def SelectsPower {X : External} (steps : List (Step X.evm)) : Prop :=
  ∀ ending ∈ endings steps, ∀ d ∈ selection ending.1, d.totalPower ≠ 0

section

variable {genesis : Genesis} {steps : List (Step X.evm)}

theorem validatorSet_append (updates : List (List ValidatorUpdate))
    (valUpdates : List ValidatorUpdate) :
    validatorSet X genesis (updates ++ [valUpdates]) =
      applyAll (validatorSet X genesis updates)
        (changes X.pubBytes2Addr valUpdates) := by
  simp [validatorSet, changes, ← applyAll_append]

theorem endings_append (steps later : List (Step X.evm)) :
    endings (steps ++ later) = endings steps ++ endings later :=
  List.filterMap_append

theorem SelectsGenesis.earlier {later : List (Step X.evm)}
    (selects : SelectsGenesis X genesis (steps ++ later)) : SelectsGenesis X genesis steps := by
  intro ending second
  obtain ⟨length, -⟩ := List.getElem?_eq_some_iff.mp second
  refine selects ending ?_
  rw [endings_append, List.getElem?_append_left length]
  exact second

theorem genesisPowers_ne_none {addr : Address} (present : genesisPowers X genesis addr ≠ none) :
    ∃ val ∈ genesis.validators, X.pubBytes2Addr val.1 = addr := by
  cases found : genesis.validators.find? fun val => X.pubBytes2Addr val.1 = addr with
  | none =>
    rw [genesisPowers, found] at present
    exact absurd rfl present
  | some val =>
    have holds := List.find?_some found
    exact ⟨val, List.mem_of_find?_eq_some found, by simpa using holds⟩

end

/-! ## The invariant -/

/-- The powers that the engine has after some blocks are those of delegatees in the version that
was committed one block earlier. -/
def Recorded (X : External) (genesis : Genesis) (updates : List (List ValidatorUpdate))
    (versions : List (ItemMap Delegatee)) : Prop :=
  ∀ k, 2 ≤ k → k ≤ updates.length → ∀ addr power,
    validatorSet X genesis (updates.take k) addr = some power →
      ∃ d, (versions.getD (k - 2) KeyedMap.empty).find? (toLedgerKey addr) = some d ∧
        d.totalPower = power

section

variable {genesis : Genesis} {updates : List (List ValidatorUpdate)}
  {versions : List (ItemMap Delegatee)}

/-- Later versions do not change the earlier ones. -/
theorem Recorded.save (recorded : Recorded X genesis updates versions)
    (enough : updates.length ≤ versions.length + 1) (later : List (ItemMap Delegatee)) :
    Recorded X genesis updates (versions ++ later) := by
  intro k low high addr power held
  rw [List.getD_append _ _ _ _ (by omega)]
  exact recorded k low high addr power held

theorem Recorded.update (recorded : Recorded X genesis updates versions)
    (new : 1 ≤ updates.length → ∀ addr power,
      validatorSet X genesis (updates ++ [valUpdates]) addr = some power →
      ∃ d, (versions.getD (updates.length - 1) KeyedMap.empty).find?
        (toLedgerKey addr) = some d ∧ d.totalPower = power) :
    Recorded X genesis (updates ++ [valUpdates]) versions := by
  intro k low high addr power held
  rw [List.length_append, List.length_singleton] at high
  by_cases last : k = updates.length + 1
  · subst last
    rw [List.take_of_length_le (by simp)] at held
    exact new (by omega) addr power held
  · rw [List.take_append_of_le_length (by omega)] at held
    exact recorded k low (by omega) addr power held

end

/-- The public key belongs to the address. -/
abbrev KeyedTo (X : External) (d : Delegatee) : Prop := X.pubBytes2Addr d.pubKey = d.addr

/-- What the application and the engine know of each other after some steps. -/
structure Follows (X : External) (genesis : Genesis) (phase : Phase) (steps : List (Step X.evm))
    (s : Node X.evm) : Prop where
  heights : Heights phase steps s
  count : (endings steps).length = blocks steps + if phase = .ended then 1 else 0
  keyed : Everywhere .delegatees (KeyedTo X) s.ledgers
  saved : (s.ledgers .delegatees).tree.contents = (s.ledgers .delegatees).tree.lastSaved
  collected : phase ≠ .idle → s.mem.allDelegatees =
    StakeCtrler.eligible s.mem.govParams (s.ledgers .delegatees).tree.contents.items
  listed : StakeCtrler.Listed X.pubBytes2Addr s.mem.lastValidators
  early : (endings steps).length ≤ 1 → s.mem.lastValidators = [] ∧
    validatorSet X genesis (updatesOf steps) = genesisPowers X genesis
  late : 2 ≤ (endings steps).length →
    validatorSet X genesis (updatesOf steps) = StakeCtrler.heldPowers s.mem.lastValidators
  ended : phase = .ended → s.mem.lastValidators.Perm (selection s)
  powerful : SelectsPower steps → ∀ d ∈ s.mem.lastValidators, d.totalPower ≠ 0
  recorded : Recorded X genesis (updatesOf steps) (s.ledgers .delegatees).tree.versions

section

variable {genesis : Genesis} {steps : List (Step X.evm)} {s t : Node X.evm}

theorem keyedTo_leftOver (keyed : KeyedTo X d) (s0 : Stake) :
    KeyedTo X (leftOver d s0) := by
  have kept : KeyedTo X (d.delStake s0.txHash) := by
    unfold KeyedTo delStake
    split <;> exact keyed
  unfold leftOver
  split
  · exact kept
  · exact kept

theorem keyedTo_beginBlock (holds : Everywhere .delegatees (KeyedTo X) s.ledgers)
    (ran : BeginsBlock X info s t) :
    Everywhere .delegatees (KeyedTo X) t.ledgers := by
  refine beginBlock_delegatees (fun d marker keyed => keyed) holds ?_ ran
  intro k d found n _ _
  exact slashedTimes_induction (fun d keyed => keyed) n (holds.lookup found)

theorem keyedTo_deliverTx (holds : Everywhere .delegatees (KeyedTo X) s.ledgers)
    (ran : DeliversTx X txbz s answer t) :
    Everywhere .delegatees (KeyedTo X) t.ledgers := by
  obtain ⟨bctx, tx, -, -, effect⟩ := deliverTx_stakes ran
  rw [Everywhere]
  generalize t.ledgers .delegatees = delegatees at effect ⊢
  generalize t.ledgers .frozenStakes = frozenStakes at effect
  cases effect with
  | kept => exact holds
  | @staked pubKey d valid power grows target =>
    refine Store.All.set holds ?_
    have before : KeyedTo X d := by
      cases target with
      | existing found => exact holds.lookup found
      | new missing self =>
        exact TrxLib.sig2Addr_ok (TrxExecutor.verifyTrxRLP_ok (valid.signed rfl)).2
    exact before
  | @unstaked pubKey d s0 valid found own =>
    exact all_stored holds fun _ => keyedTo_leftOver (holds.lookup found) s0

/-- A call that ends no block keeps the last validators and what the engine has. -/
theorem Follows.quiet {phase phase' : Phase} (follows : Follows X genesis phase steps s)
    {step : Step X.evm} (silent : endings [step] = [])
    (heights : Heights phase' (steps ++ [step]) t)
    (count : blocks (steps ++ [step]) + (if phase' = .ended then 1 else 0) =
      blocks steps + if phase = .ended then 1 else 0)
    (keyed : Everywhere .delegatees (KeyedTo X) t.ledgers)
    (saved : (t.ledgers .delegatees).tree.contents = (t.ledgers .delegatees).tree.lastSaved)
    (later : List (ItemMap Delegatee))
    (versions : (t.ledgers .delegatees).tree.versions =
      (s.ledgers .delegatees).tree.versions ++ later)
    (last : t.mem.lastValidators = s.mem.lastValidators)
    (collected : phase' ≠ .idle → t.mem.allDelegatees =
      eligible t.mem.govParams (t.ledgers .delegatees).tree.contents.items)
    (ended : phase' ≠ .ended) : Follows X genesis phase' (steps ++ [step]) t := by
  have same : endings (steps ++ [step]) = endings steps := by
    rw [endings_append, silent, List.append_nil]
  refine ⟨heights, ?_, keyed, saved, collected, ?_, ?_, ?_, fun here => absurd here ended, ?_, ?_⟩
  · rw [same, follows.count, count]
  · rw [last]
    exact follows.listed
  · rw [updatesOf, same, last]
    exact follows.early
  · rw [updatesOf, same, last]
    exact follows.late
  · rw [SelectsPower, same, last]
    exact follows.powerful
  · rw [updatesOf, same, versions]
    refine follows.recorded.save ?_ later
    have version : ((s.ledgers .delegatees).tree.versions.length : Int) = blocks steps :=
      follows.heights.versions .delegatees
    rw [updatesOf, List.length_map, follows.count]
    split <;> omega

/-- In the first block there are no delegatees yet. -/
theorem Follows.first {phase : Phase} (follows : Follows X genesis phase steps s)
    (none : blocks steps = 0) : selection s = [] := by
  have version := follows.heights.versions .delegatees
  rw [none] at version
  have empty : (s.ledgers .delegatees).tree.versions = [] :=
    List.length_eq_zero_iff.mp (Int.natCast_eq_zero.mp version)
  rw [selection, follows.saved, Tree.lastSaved, empty]
  simp [selected, eligible, sortBy]

/-- The updates of a block, from the second block on. -/
theorem Follows.updated (follows : Follows X genesis .delivering steps s)
    (many : 1 ≤ (endings steps).length)
    (covered : (endings steps).length = 1 → ∀ val ∈ genesis.validators,
      ∃ d ∈ selection s, d.addr = X.pubBytes2Addr val.1) :
    applyAll (validatorSet X genesis (updatesOf steps)) (changes X.pubBytes2Addr
        (validatorUpdates (sortBy addrLess s.mem.lastValidators)
          (sortBy addrLess (selection s)))) =
      heldPowers (selection s) := by
  have listed := listed_selected s.mem.govParams follows.keyed.committed
  refine applyAll_updates follows.listed listed (fun addr missing known => ?_)
    fun addr found => ?_
  · by_cases second : (endings steps).length = 1
    · rw [(follows.early second.le).2] at known
      obtain ⟨val, member, rfl⟩ := genesisPowers_ne_none known
      exact covered second val member
    · rw [follows.late (by omega), heldPowers, powersOf, missing] at known
      exact absurd rfl known
  · by_cases second : (endings steps).length = 1
    · rw [(follows.early second.le).1] at found
      exact absurd rfl found
    · rw [follows.late (by omega)]

/-- The selected delegatees are those of the last version. -/
theorem Follows.committed_of_held (follows : Follows X genesis .delivering steps s) {addr : Address}
    {power : Int} (held : heldPowers (selection s) addr = some power) :
    ∃ d, ((s.ledgers .delegatees).tree.versions.getD ((endings steps).length - 1)
      KeyedMap.empty).find? (toLedgerKey addr) = some d ∧ d.totalPower = power := by
  have version : ((s.ledgers .delegatees).tree.versions.length : Int) = blocks steps :=
    follows.heights.versions .delegatees
  have length : (endings steps).length = (s.ledgers .delegatees).tree.versions.length :=
    follows.count.trans (Int.ofNat.inj version).symm
  have last : (s.ledgers .delegatees).tree.versions.getD ((endings steps).length - 1)
      KeyedMap.empty = (s.ledgers .delegatees).tree.contents := by
    rw [follows.saved, Tree.lastSaved, length, List.getLast?_eq_getElem?, List.getD_eq_getElem?_getD]
  obtain ⟨found, -⟩ := Option.filter_eq_some_iff.mp held
  obtain ⟨d, here, rfl⟩ := Option.map_eq_some_iff.mp found
  obtain ⟨member, rfl⟩ := withAddr_eq_some here
  refine ⟨d, ?_, rfl⟩
  rw [last]
  exact KeyedMap.mem_items.mp (mem_of_selected member)

/-- What `EndBlock` does to the validators. -/
theorem endBlock_validators (ran : EndsBlock X s valUpdates t) :
    t.ledgers .delegatees = s.ledgers .delegatees ∧ t.mem.govParams = s.mem.govParams ∧
      t.mem.allDelegatees = s.mem.allDelegatees ∧
      valUpdates = validatorUpdates (sortBy addrLess s.mem.lastValidators)
        (sortBy addrLess
          (s.mem.allDelegatees.take s.mem.govParams.maxValidatorCnt.toNat)) ∧
      t.mem.lastValidators = sortBy powerLess
        (s.mem.allDelegatees.take s.mem.govParams.maxValidatorCnt.toNat) := by
  refine ⟨endBlock_frame ran id, ?_⟩
  obtain ⟨bctx, newGovParams, lastValidators, ls, ls', ls'', -, -, -, refunded, rfl⟩ :=
    endBlock_ok ran
  exact ⟨rfl, rfl, endBlock_selects refunded⟩

theorem Follows.endBlock (follows : Follows X genesis .delivering steps s)
    (selects : SelectsGenesis X genesis (steps ++ [⟨s, .endBlock, .endBlock valUpdates, t⟩]))
    (ran : EndsBlock X s valUpdates t) :
    Follows X genesis .ended (steps ++ [⟨s, .endBlock, .endBlock valUpdates, t⟩]) t := by
  have heights := follows.heights.endBlock ran
  obtain ⟨frame, params, all, updates, last⟩ := endBlock_validators ran
  have chosen : s.mem.allDelegatees.take s.mem.govParams.maxValidatorCnt.toNat = selection s := by
    rw [follows.collected (by decide)]
    rfl
  rw [chosen] at updates last
  have perm : t.mem.lastValidators.Perm (selection s) := last ▸ sortBy_perm _ _
  have listed := listed_selected s.mem.govParams follows.keyed.committed
  have length : (endings steps).length = blocks steps := follows.count
  have ends : endings (steps ++ [⟨s, .endBlock, .endBlock valUpdates, t⟩]) =
      endings steps ++ [(s, valUpdates)] := endings_append _ _
  have late (many : 1 ≤ (endings steps).length) :
      validatorSet X genesis (updatesOf steps ++ [valUpdates]) =
        heldPowers (selection s) := by
    rw [validatorSet_append, updates]
    refine follows.updated many fun second => selects (s, valUpdates) ?_
    rw [ends, List.getElem?_append_right second.le, second]
    rfl
  refine ⟨heights, ?_, ?_, ?_, fun _ => ?_, ?_, fun few => ?_, fun many => ?_, fun _ => ?_,
    fun powers d member => ?_, ?_⟩
  · rw [ends, List.length_append, length, blocks_append]
    rfl
  · rw [Everywhere, frame]
    exact follows.keyed
  · rw [frame]
    exact follows.saved
  · rw [frame, all, params]
    exact follows.collected (by decide)
  · exact listed.perm perm
  · rw [ends, List.length_append, List.length_singleton] at few
    have first : (endings steps).length = 0 := by omega
    obtain ⟨noneLast, set⟩ := follows.early (by omega)
    rw [follows.first (length ▸ first), noneLast] at updates
    rw [follows.first (length ▸ first)] at last
    rw [last, updatesOf, ends, List.map_append, List.map_singleton,
      validatorSet_append, updates]
    exact ⟨rfl, set⟩
  · rw [ends, List.length_append, List.length_singleton] at many
    rw [updatesOf, ends, List.map_append, List.map_singleton,
      heldPowers_perm (listed.perm perm).distinct perm]
    exact late (by omega)
  · rw [selection, frame, params]
    exact perm
  · refine powers (s, valUpdates) ?_ d (perm.mem_iff.mp member)
    rw [ends]
    exact List.mem_append_right _ List.mem_cons_self
  · rw [updatesOf, ends, List.map_append, List.map_singleton, frame]
    refine follows.recorded.update fun many addr power held => ?_
    rw [updatesOf, List.length_map] at many ⊢
    change validatorSet X genesis (updatesOf steps ++ [valUpdates]) addr = _ at held
    rw [late many] at held
    exact follows.committed_of_held held

theorem follows_initChain (first : firstNode X = .ok s)
    (ran : InitsChain X genesis s t) :
    Follows X genesis .idle [] t := by
  have keyed : Everywhere .delegatees (KeyedTo X) t.ledgers :=
    initChain_delegatees first ran fun val _ => rfl
  have heights := Heights.initChain first ran
  obtain ⟨ls, ls', ls'', held, accounts, staked, rfl⟩ := initChain_ok ran
  cases first
  refine ⟨heights, rfl, keyed, ?_, fun busy => absurd rfl busy, ⟨?_, List.nodup_nil⟩,
    fun _ => ⟨rfl, rfl⟩, fun many => ?_, fun ended => ?_, fun _ d member => ?_,
    fun k low high => ?_⟩
  · simp only
    rw [tree_of_exec staked, tree_of_exec accounts, tree_of_exec held]
    rfl
  · exact fun d member => absurd member List.not_mem_nil
  · cases many
  · cases ended
  · exact absurd member List.not_mem_nil
  · exact absurd (low.trans high) (by simp [updatesOf, endings])

theorem Follows.beginBlock (follows : Follows X genesis .idle steps s)
    (ran : BeginsBlock X info s t) :
    Follows X genesis .delivering (steps ++ [⟨s, .beginBlock info, .beginBlock, t⟩]) t := by
  have tree := beginBlock_tree ran .delegatees
  have keyed := keyedTo_beginBlock follows.keyed ran
  have heights := follows.heights.beginBlock ran
  obtain ⟨last, ls, ls', allDelegatees, -, -, -, governed, collected, -, rfl⟩ := beginBlock_ok ran
  have before : ls .delegatees = s.ledgers .delegatees :=
    GovCtrler.beginBlock_frame (by decide) governed
  refine follows.quiet rfl heights ?_ keyed ?_ [] ?_ rfl (fun _ => ?_) (by decide)
  · rw [blocks_append]
    rfl
  · rw [tree]
    exact follows.saved
  · rw [tree, List.append_nil]
  · rw [tree, ← before]
    exact collectDelegatees_ok collected

theorem Follows.deliverTx (follows : Follows X genesis .delivering steps s)
    (ran : DeliversTx X txbz s answer t) :
    Follows X genesis .delivering (steps ++ [⟨s, .deliverTx txbz, .deliverTx answer, t⟩]) t := by
  have tree := deliverTx_tree ran .delegatees
  obtain ⟨-, -, -, -, next, mem, -⟩ := deliverTx_keeps ran
  refine follows.quiet rfl (follows.heights.deliverTx ran) ?_
    (keyedTo_deliverTx follows.keyed ran) ?_ [] ?_ (by rw [mem]) (fun _ => ?_) (by decide)
  · rw [blocks_append]
    rfl
  · rw [tree]
    exact follows.saved
  · rw [tree, List.append_nil]
  · rw [tree, mem]
    exact follows.collected (by decide)

theorem Follows.commit {appHash : HexBytes} (follows : Follows X genesis .ended steps s)
    (ran : Commits X s appHash t) :
    Follows X genesis .idle (steps ++ [⟨s, .commit, .commit appHash, t⟩]) t := by
  have keyed := commit_everywhere follows.keyed ran
  have heights := follows.heights.commit ran
  obtain ⟨bctx, state, -, -, -, rfl, -, -⟩ := commit_ok ran
  refine follows.quiet rfl heights ?_ keyed ?_ _ (Store.versions_commit _) rfl
    (fun busy => absurd rfl busy) (by decide)
  · rw [blocks_append]
    rfl
  · simp only [committed]
    rw [Tree.lastSaved, Store.versions_commit]
    simp

end

section

variable {genesis : Genesis} {steps : List (Step X.evm)} {phase : Phase} {s : App X.evm}

/-- The engine and the application in every run without a restart. -/
theorem Run.follows (ran : Run X false genesis phase steps s) :
    SelectsGenesis X genesis steps → Follows X genesis phase steps (App.node s) := by
  refine ran.node_induction (I := fun phase steps s =>
    SelectsGenesis X genesis steps → Follows X genesis phase steps s) ?_ ?_ ?_ ?_ ?_ ?_ ?_
  · intro s t first ran _
    exact follows_initChain first ran
  · intro steps s t info ih ran selects
    exact (ih selects.earlier).beginBlock ran
  · intro steps s t txbz answer ih ran selects
    exact (ih selects.earlier).deliverTx ran
  · intro steps s t valUpdates ih ran selects
    exact (ih selects.earlier).endBlock selects ran
  · intro steps s t appHash ih ran selects
    exact (ih selects.earlier).commit ran
  · intro phase steps s limiter ih selects
    obtain ⟨heights, count, keyed, saved, collected, listed, early, late, ended, powerful,
      recorded⟩ := ih selects
    exact ⟨⟨heights.small, heights.evm, heights.versions, heights.last, heights.opened,
      heights.evmStored, heights.stored⟩, count, keyed, saved, collected, listed, early, late,
      ended, powerful, recorded⟩
  · intro steps s t u appHash allowed
    cases allowed

/-- An update with power 0 is about a validator of the engine. -/
theorem Follows.removal {steps : List (Step X.evm)} {s t : Node X.evm}
    (follows : Follows X genesis .delivering steps s)
    (ran : EndsBlock X s valUpdates t)
    (powers : SelectsPower (steps ++ [⟨s, .endBlock, .endBlock valUpdates, t⟩]))
    {u : ValidatorUpdate} (member : u ∈ valUpdates) (zero : u.power = 0) :
    (validatorSet X genesis (updatesOf steps) (X.pubBytes2Addr u.pubKey)).isSome := by
  have listed := listed_selected s.mem.govParams follows.keyed.committed
  have perm := sortBy_perm addrLess s.mem.lastValidators
  have perm' := sortBy_perm addrLess (selection s)
  have nonzero : ∀ d ∈ sortBy addrLess (selection s), d.totalPower ≠ 0 := by
    intro d member
    refine powers (s, valUpdates) ?_ d (perm'.mem_iff.mp member)
    rw [endings_append]
    exact List.mem_append_right _ List.mem_cons_self
  have before : SelectsPower steps := fun ending member => powers ending (by
    rw [endings_append]
    exact List.mem_append_left _ member)
  obtain ⟨-, -, -, updates, -⟩ := endBlock_validators ran
  rw [follows.collected (by decide)] at updates
  change valUpdates = validatorUpdates (sortBy addrLess s.mem.lastValidators)
    (sortBy addrLess (selection s)) at updates
  rw [updates] at member
  obtain ⟨⟨e, present, address⟩, -⟩ := (zero_iff (follows.listed.perm perm).keyed
    (listed.perm perm').keyed (ascending_sortBy follows.listed.distinct)
      (ascending_sortBy listed.distinct) nonzero
    (X.pubBytes2Addr u.pubKey)).mp ⟨u, member, rfl, zero⟩
  have present := perm.mem_iff.mp present
  by_cases early : (endings steps).length ≤ 1
  · rw [(follows.early early).1] at present
    cases present
  · rw [follows.late (by omega), heldPowers_of_nonzero (follows.powerful before),
      powersOf, (withAddr_iff follows.listed.distinct).mpr
        ⟨present, address⟩]
    rfl

/-- In every run without a restart whose second block selects all genesis validators and that
selects no delegatee without power: when a block ends, from the second on, the updates of all
blocks take the genesis validators to the powers of the selected delegatees; and power 0 only
names validators that the engine has. -/
theorem Run.validators_follow (ran : Run X false genesis .ended steps s)
    (second : 2 ≤ (endings steps).length) (selects : SelectsGenesis X genesis steps)
    (powers : SelectsPower steps) :
    validatorSet X genesis (updatesOf steps) = StakeCtrler.powersOf (selection (App.node s)) ∧
      ∀ earlier step later valUpdates, steps = earlier ++ step :: later →
        step.response = .endBlock valUpdates → ∀ u ∈ valUpdates, u.power = 0 →
          (validatorSet X genesis (updatesOf earlier) (X.pubBytes2Addr u.pubKey)).isSome := by
  have follows := ran.follows selects
  have perm := follows.ended rfl
  have nonzero := follows.powerful powers
  refine ⟨?_, fun earlier step later valUpdates same response u member zero => ?_⟩
  · rw [follows.late second, StakeCtrler.heldPowers_perm follows.listed.distinct perm]
    exact StakeCtrler.heldPowers_of_nonzero fun d member => nonzero d (perm.mem_iff.mpr member)
  · obtain ⟨phase₁, s₁, phase₂, s₂, before, started, next, called, -⟩ := ran.split same
    have follows₁ := before.follows (same ▸ selects).earlier
    obtain ⟨node₁, call, answer, node₂⟩ := step
    obtain rfl : node₁ = App.node s₁ := started
    obtain rfl : answer = .endBlock valUpdates := response
    have called := run_node_ok called
    cases call with
    | beginBlock info => cases (consensus_beginBlock_ok called).1
    | deliverTx txbz =>
      obtain ⟨_, ⟨⟩, _⟩ := consensus_deliverTx_ok called
    | commit =>
      obtain ⟨_, ⟨⟩, _⟩ := consensus_commit_ok called
    | endBlock =>
      obtain ⟨_, ⟨⟩, ended⟩ := consensus_endBlock_ok called
      cases phase₁ <;> cases next
      refine follows₁.removal ended (fun ending present => powers ending ?_) member zero
      rw [same, endings_append]
      rw [endings_append] at present
      rcases List.mem_append.mp present with old | new
      · exact List.mem_append_left _ old
      · obtain rfl : ending = (App.node s₁, valUpdates) := List.mem_singleton.mp new
        exact List.mem_append_right _ List.mem_cons_self

/-! ## Votes -/

/-- The validators of a block: the updates of a block take effect two blocks later. -/
def validatorsAt (X : External) (genesis : Genesis) (steps : List (Step X.evm)) (height : Int) :
    Address → Option Int :=
  validatorSet X genesis ((updatesOf steps).take (height - 2).toNat)

/-- The votes in a block are those of the validators of the block before it. -/
def VotesOfValidators (X : External) (genesis : Genesis) (steps : List (Step X.evm))
    (info : BlockInfo) : Prop :=
  ∀ vote ∈ info.votes,
    validatorsAt X genesis steps (info.height - 1) vote.address = some vote.power

section

variable {earlier later : List (Step X.evm)} {before after : Node X.evm} {info : BlockInfo}
  {response : Response}

/-- The votes in a block are of delegatees of the version that `BeginBlock` looks them up in. -/
theorem Run.votes_recorded (ran : Run X false genesis phase earlier s)
    (selects : SelectsGenesis X genesis earlier) (began : BeginsBlock X info (App.node s) after)
    (idle : phase = .idle) (fifth : 5 ≤ info.height)
    (votes : VotesOfValidators X genesis earlier info) :
    StakeCtrler.heightOfPower info.height = info.height - 4 ∧
      ∃ immu, ((App.node s).ledgers .delegatees).tree.lazyLoadVersion (info.height - 4) = .ok immu ∧
        ∀ vote ∈ info.votes, ∃ d, immu.find? (toLedgerKey vote.address) = some d ∧
          d.totalPower = vote.power := by
  subst idle
  have follows := ran.follows selects
  obtain ⟨last, -, -, -, found, height, -⟩ := beginBlock_ok began
  have lastHeight := follows.heights.last
  rw [found, Option.map_some, Option.some.injEq] at lastHeight
  rw [lastHeight] at height
  have number : info.height = blocks earlier + 1 :=
    height.trans (height_eq follows.heights.small (by omega))
  have small := follows.heights.small
  have range : i64 (info.height - 4) = info.height - 4 := i64_of_range (by omega) (by omega)
  have version : ((App.node s).ledgers .delegatees).tree.version = blocks earlier :=
    follows.heights.versions .delegatees
  refine ⟨?_, ((App.node s).ledgers .delegatees).tree.versions.getD ((info.height - 4).toNat - 1)
    Foundation.KeyedMap.empty, ?_, fun vote member => ?_⟩
  · rw [StakeCtrler.heightOfPower, range, if_neg (by omega)]
  · rw [Tree.lazyLoadVersion, version, if_neg (by omega), if_neg (by omega)]
  · have held := votes vote member
    have length : (updatesOf earlier).length = blocks earlier := by
      rw [updatesOf, List.length_map, follows.count]
      rfl
    obtain ⟨d, stored, power⟩ := follows.recorded _ (by omega) (by omega) _ _ held
    rw [show (info.height - 4).toNat - 1 = (info.height - 1 - 2).toNat - 2 by omega]
    exact ⟨d, stored, power⟩

/-- In every run without a restart whose second block selects all genesis validators: from the
fifth block on, every vote is by a delegatee of the version four blocks earlier, and has its
power.  So every validator that signed is rewarded: `BeginBlock` adds to each record the rewards for
all stakes of its owner on such validators, as long as the sum is below `2 ^ 256`. -/
theorem Run.votes_matched (ran : Run X false genesis phase steps s)
    (selects : SelectsGenesis X genesis steps)
    (same : steps = earlier ++ ⟨before, .beginBlock info, response, after⟩ :: later)
    (fifth : 5 ≤ info.height) (votes : VotesOfValidators X genesis earlier info) :
    StakeCtrler.heightOfPower info.height = info.height - 4 ∧
      ∃ immu, (before.ledgers .delegatees).tree.lazyLoadVersion (info.height - 4) = .ok immu ∧
        let owed := issuedFor before.mem.govParams (signedStakes immu info.votes)
        (∀ vote ∈ info.votes, ∃ d, ItemMap.read immu (toLedgerKey vote.address) = .ok d ∧
          d.totalPower = vote.power ∧ (vote.signedLastBlock = true → ∀ s0 ∈ d.stakes,
            let k := toLedgerKey s0.fromAddr
            Stores.cumulated before.ledgers k + owed k < 2 ^ 256 →
              Stores.cumulated before.ledgers k + (rewardFor before.mem.govParams s0).toNat ≤
                Stores.cumulated after.ledgers k)) ∧
        ∀ k, Stores.cumulated before.ledgers k + owed k < 2 ^ 256 →
          Stores.cumulated after.ledgers k = Stores.cumulated before.ledgers k + owed k := by
  obtain ⟨phase₁, s₁, phase₂, s₂, ran₁, rfl, next, called, rfl⟩ := ran.split same
  cases phase₁ <;> cases next
  obtain ⟨-, began⟩ := consensus_beginBlock_ok (run_node_ok called)
  obtain ⟨height, immu, loaded, matched⟩ :=
    ran₁.votes_recorded (same ▸ selects).earlier began rfl fifth votes
  have owed (k : LedgerKey) : issuedAt (App.node s₁).mem.govParams (App.node s₁).ledgers info k =
      issuedFor (App.node s₁).mem.govParams (signedStakes immu info.votes) k := by
    rw [issuedAt, rewardedStakes_matched (by rw [height]; exact loaded) matched]
  have added := (beginBlock_cumulated ran₁.rewards_behind.2.removed began).2
  simp only [owed] at added
  refine ⟨height, immu, loaded, fun vote member => ?_, added⟩
  obtain ⟨d, stored, power⟩ := matched vote member
  refine ⟨d, by rw [ItemMap.read_eq, stored]; rfl, power, fun signed s0 held => ?_⟩
  intro k small
  rw [added k small]
  exact Nat.add_le_add_left (rewardFor_le_issuedFor _ (mem_signedStakes member signed stored held)) _

end

end

/-! ### Two small chains, and one that grows -/

instance (X : External) (genesis : Genesis) (steps : List (Step X.evm)) :
    Decidable (SelectsGenesis X genesis steps) :=
  inferInstanceAs (Decidable (∀ ending ∈ (endings steps)[1]?, ∀ val ∈ genesis.validators,
    ∃ d ∈ selection ending.1, d.addr = X.pubBytes2Addr val.1))

instance (steps : List (Step X.evm)) : Decidable (SelectsPower steps) :=
  inferInstanceAs (Decidable (∀ ending ∈ endings steps, ∀ d ∈ selection ending.1,
    d.totalPower ≠ 0))

/-- Nobody sends a transaction. -/
def calm : External := Concrete.external ⟨[], [], [], []⟩

/-- A validator, and one with too little power to be selected. -/
def oneTooSmall : Genesis := Concrete.genesis [(1, 10000000), (2, 1)]

def oneSelected : Genesis := Concrete.genesis [(1, 10000000)]

def tooSmallStart : App calm.evm := (start calm oneTooSmall).toOption.get (by decide +kernel)

def selectedStart : App calm.evm := (start calm oneSelected).toOption.get (by decide +kernel)

/-- Two blocks without transactions, up to the end of the second. -/
def toSecondEnd : List ConsensusCall :=
  [.beginBlock (Concrete.block 1), .endBlock, .commit, .beginBlock (Concrete.block 2), .endBlock]

/-- A genesis validator that the second block does not select stays with the engine. -/
theorem Run.unselectedGenesis : ∃ steps s, Run calm false oneTooSmall .ended steps s ∧
    2 ≤ (endings steps).length ∧ SelectsPower steps ∧
    validatorSet calm oneTooSmall (updatesOf steps) (Concrete.addr 2) = some 1 ∧
    StakeCtrler.powersOf (selection (App.node s)) (Concrete.addr 2) = none := by
  have ran : Run calm false oneTooSmall .ended ([] ++ stepsOf calm toSecondEnd tooSmallStart) _ :=
    (Run.start (eq_ok_of_isSome _)).calls toSecondEnd rfl (by decide +kernel)
  exact ⟨_, _, ran, by decide +kernel, by decide +kernel, by decide +kernel, by decide +kernel⟩

section

open Concrete

/-- The chain that grows, up to the end of its third block. -/
def toThirdEnd : List ConsensusCall :=
  growingCalls ++ [.commit, .beginBlock (block 3), .deliverTx [4], .endBlock]

/-- The three genesis validators are selected with their new powers, and the fourth with them; the
engine has their powers. -/
theorem Run.validators_follow_growing :
    [1, 2, 3, 4].map (fun n : UInt8 => validatorSet growing growingGenesis
        (updatesOf ([] ++ stepsOf growing toThirdEnd growingStart)) (addr n)) =
      [some 10000001, some 10000001, some 10000001, some 8000000] := by
  have ran : Run growing false growingGenesis .ended
      ([] ++ stepsOf growing toThirdEnd growingStart) _ :=
    (Run.start (eq_ok_of_isSome _)).calls toThirdEnd rfl (by decide +kernel)
  have follow := Run.validators_follow ran (by decide +kernel) (by decide +kernel)
    (by decide +kernel)
  rw [follow.1]
  decide +kernel

/-- Five blocks of it. -/
def fiveBlocks : List ConsensusCall :=
  toThirdEnd ++ [.commit, .beginBlock (block 4), .endBlock, .commit, .beginBlock (block 5),
    .endBlock, .commit]

/-- The sixth block.  The second validator did not sign. -/
def votedBlock : BlockInfo :=
  { block 6 with
    votes := [⟨addr 1, 10000001, true⟩, ⟨addr 2, 10000001, false⟩, ⟨addr 3, 10000001, true⟩,
      ⟨addr 4, 8000000, true⟩] }

/-- The powers that signed. -/
def signedPowers : List (UInt8 × Nat) := [(1, 10000001), (2, 0), (3, 10000001), (4, 8000000)]

/-- The node that the sixth block finds. -/
def afterFive : App growing.evm := (runCalls growing finalityImpl fiveBlocks growingStart).2

/-- The votes in the sixth block have the powers of version 2, and all but the second validator get
their rewards. -/
theorem Run.votes_matched_growing :
    ∃ after, BeginsBlock growing votedBlock (App.node afterFive) after ∧
      ∀ paid ∈ signedPowers, Stores.cumulated after.ledgers (toLedgerKey (addr paid.1)) =
          paid.2 * GovParams.defaultGovParams.rewardPerPower.toNat := by
  have ran : Run growing false growingGenesis .idle ([] ++ stepsOf growing fiveBlocks growingStart)
      afterFive :=
    (Run.start (eq_ok_of_isSome _)).calls fiveBlocks rfl (by decide +kernel)
  have began : (run (nodeHandler growing finalityImpl) (consensus growing (.beginBlock votedBlock))
      afterFive).1.isOk = true := by decide +kernel
  generalize called : run (nodeHandler growing finalityImpl)
    (consensus growing (.beginBlock votedBlock)) afterFive = ended at began
  obtain ⟨_ | response, s⟩ := ended
  · cases began
  · obtain ⟨rfl, begun⟩ := consensus_beginBlock_ok (run_node_ok called)
    have selects : SelectsGenesis growing growingGenesis
        ([] ++ stepsOf growing fiveBlocks growingStart ++
          [⟨App.node afterFive, .beginBlock votedBlock, .beginBlock, App.node s⟩]) := by
      rw [SelectsGenesis, endings_append, show endings [_] = [] from rfl, List.append_nil]
      decide +kernel
    have votes : ∀ vote ∈ votedBlock.votes, validatorsAt growing growingGenesis
        ([] ++ stepsOf growing fiveBlocks growingStart) (6 - 1) vote.address = some vote.power := by
      decide +kernel
    obtain ⟨-, immu, loaded, -, added⟩ := Run.votes_matched (.call ran rfl called) selects rfl
      (by decide) votes
    have owed : ∀ immu ∈ (((App.node afterFive).ledgers .delegatees).tree.lazyLoadVersion
          (votedBlock.height - 4)).toOption,
        ∀ paid ∈ signedPowers, Stores.cumulated (App.node afterFive).ledgers (toLedgerKey (addr paid.1)) +
            issuedFor (App.node afterFive).mem.govParams (signedStakes immu votedBlock.votes)
              (toLedgerKey (addr paid.1)) =
            paid.2 * GovParams.defaultGovParams.rewardPerPower.toNat := by
      decide +kernel
    have small : ∀ paid ∈ signedPowers, paid.2 * GovParams.defaultGovParams.rewardPerPower.toNat < 2 ^ 256 := by decide
    refine ⟨_, begun, fun paid member => ?_⟩
    have sum := owed immu (by rw [loaded]; rfl) paid member
    rw [added _ (by rw [sum]; exact small paid member), sum]

end

end RigoApp

end Rigo
