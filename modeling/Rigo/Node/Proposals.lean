import Rigo.Ctrlers.Gov.Schedule
import Rigo.Node.Blocks
import Rigo.Node.Items

/-!
# What the calls do to proposals

A proposal has a timetable: the heights between which it is voted on, and the height at which
it is applied.  Votes and punishments keep the timetable, and so does every call until
`EndBlock` freezes the proposal.

`EndBlock` goes through the committed proposals while it deletes and sets in the stores.  The
committed proposals have distinct keys, so what it does under a key depends on what was
committed under that key only (`GovCtrler.endBlock_lookup`).
-/

namespace Rigo

open Foundation
open Stores
open GovCtrler GovProposal LedgerProg TrxExecutor

variable {prop prop' : GovProposal} {txbz : HexBytes}

/-! ## Timetables -/

/-- The heights that matter to a proposal. -/
structure Timetable where
  start : Int
  last : Int
  applying : Int
  deriving DecidableEq

namespace GovProposal

def timetable (prop : GovProposal) : Timetable :=
  ⟨prop.startVotingHeight, prop.endVotingHeight, prop.applyingHeight⟩

/-- What of a proposal does not depend on votes: its timetable and, after it was frozen, its
major option. -/
def schedule (prop : GovProposal) : Timetable × Option VoteOption :=
  (prop.timetable, prop.majorOption)

/-- The same proposal, perhaps with other votes. -/
def Alike (prop prop' : GovProposal) : Prop :=
  prop'.txHash = prop.txHash ∧ prop'.schedule = prop.schedule

/-- There is an option with enough votes. -/
def HasMajority (prop : GovProposal) : Prop :=
  ∃ opt ∈ prop.options, prop.majorityPower ≤ opt.votes

instance (prop : GovProposal) : Decidable prop.HasMajority :=
  inferInstanceAs (Decidable (∃ opt ∈ prop.options, prop.majorityPower ≤ opt.votes))

/-- The proposal as `freezeProposals` sets it, if it does. -/
def decided (sort : OptionSort) (prop : GovProposal) : Option GovProposal :=
  match sort.sort prop.options with
  | [] => none
  | first :: rest =>
    let major := if first.votes ≥ prop.majorityPower then some first else prop.majorOption
    if major.isSome then some { prop with options := first :: rest, majorOption := major }
    else none

/-- The first option after sorting has the most votes. -/
theorem isSome_decided (sort : OptionSort) (open' : prop.majorOption = none) :
    (prop.decided sort).isSome = true ↔ prop.HasMajority := by
  have perm := sort.perm prop.options
  have sorted := sort.sorted prop.options
  unfold decided HasMajority
  cases options : sort.sort prop.options with
  | nil =>
    rw [options] at perm
    simp [← List.Perm.nil_eq perm]
  | cons first rest =>
    rw [options] at perm sorted
    simp only [open']
    constructor
    · intro frozen
      refine ⟨first, perm.mem_iff.mp List.mem_cons_self, ?_⟩
      by_contra few
      simp [few] at frozen
    · rintro ⟨opt, member, enough⟩
      have most : prop.majorityPower ≤ first.votes := by
        rcases List.mem_cons.mp (perm.mem_iff.mpr member) with rfl | inRest
        · exact enough
        · exact enough.trans ((List.pairwise_cons.mp sorted).1 opt inRest)
      simp [most]

theorem decided_timetable {sort : OptionSort}
    (frozen : prop.decided sort = some prop') :
    prop'.timetable = prop.timetable ∧ prop'.txHash = prop.txHash := by
  unfold decided at frozen
  split at frozen
  · cases frozen
  · next first rest _ =>
    simp only at frozen
    generalize (if first.votes ≥ prop.majorityPower then some first
      else prop.majorOption) = major at frozen
    cases major with
    | none => cases frozen
    | some opt =>
      cases frozen
      exact ⟨rfl, rfl⟩

/-! ### Votes and punishments -/

/-- What votes and punishments leave of a proposal: its hash, its schedule, what its options are
about, and their texts. -/
def terms (prop : GovProposal) :
    HexBytes × (Timetable × Option VoteOption) × Int × List HexBytes :=
  (prop.txHash, prop.schedule, prop.optType, prop.options.map VoteOption.option)

theorem alike_of_terms (same : prop'.terms = prop.terms) :
    prop.Alike prop' := by
  obtain ⟨hash, rest⟩ := Prod.mk.inj same
  exact ⟨hash, (Prod.mk.inj rest).1⟩

section

variable {Op : Type → Type} {c : Contract Op} {post : GovProposal → Prop}

/-- Code that returns a proposal with the same terms. -/
abbrev KeepsTerms {α : Type} (c : Contract Op) (result : α → GovProposal) (prop : GovProposal)
    (p : Prog Op Fault α) : Prop :=
  Obeys c (fun outcome => ∀ value, outcome = .ok value → (result value).terms = prop.terms) p

theorem KeepsTerms.trans {α β : Type} {result : β → GovProposal} {result' : α → GovProposal}
    {p : Prog Op Fault β} {f : β → Prog Op Fault α}
    (first : KeepsTerms c result prop p)
    (next : ∀ value, KeepsTerms c result' (result value) (f value)) :
    KeepsTerms c result' prop (p >>= f) := by
  refine Obeys.bind first (fun value returned => ?_) fun _ _ _ failed => by cases failed
  exact (next value).mono fun _ same value' ended => (same value' ended).trans (returned value rfl)

theorem keepsTerms_pure {α : Type} {result : α → GovProposal} {value : α}
    (same : (result value).terms = prop.terms) :
    KeepsTerms c result prop (pure value : Prog Op Fault α) := by
  rintro _ ⟨⟩
  exact same

theorem keepsTerms_addVotes (prop : GovProposal) (choice power : Int) :
    KeepsTerms c id prop (prop.addVotes choice power) := by
  unfold addVotes
  split
  · refine keepsTerms_pure ?_
    have texts : (prop.options.modify choice.toNat fun opt =>
          { opt with votes := i64 (opt.votes + power) }).map VoteOption.option =
        prop.options.map VoteOption.option := by
      refine List.ext_getElem? fun i => ?_
      rw [List.getElem?_map, List.getElem?_map, List.getElem?_modify, Option.map_eq_map,
        Option.map_map]
      refine congrArg (Option.map · _) (funext fun opt => ?_)
      by_cases here : choice.toNat = i <;> simp [here]
    simp only [terms, id, texts]
    rfl
  · exact fun _ failed => by cases failed

theorem keepsTerms_cancelVote (prop : GovProposal) (voter : Voter) :
    KeepsTerms c Prod.fst prop (prop.cancelVote voter) := by
  unfold cancelVote
  split
  · exact (keepsTerms_addVotes prop _ _).trans fun prop' => keepsTerms_pure rfl
  · exact keepsTerms_pure rfl

theorem keepsTerms_doVote (prop : GovProposal) (voter : Voter) (choice : Int) :
    KeepsTerms c Prod.fst prop (prop.doVote voter choice) := by
  unfold doVote
  split
  · exact (keepsTerms_addVotes prop _ _).trans fun prop' => keepsTerms_pure rfl
  · exact keepsTerms_pure rfl

theorem keepsTerms_vote (prop : GovProposal) (addr : Address) (choice : Int) :
    KeepsTerms c id prop (prop.vote addr choice) := by
  unfold vote
  split
  · exact fun _ failed => by cases failed
  · exact (keepsTerms_cancelVote prop _).trans fun cancelled =>
      (keepsTerms_doVote cancelled.1 _ _).trans fun voted => keepsTerms_pure rfl

theorem keepsTerms_voteAgain (prop : GovProposal) (voter : Voter) (choice : Int) :
    KeepsTerms c id prop (prop.voteAgain voter choice) := by
  unfold voteAgain
  split
  · exact keepsTerms_pure rfl
  · exact (keepsTerms_doVote prop _ _).trans fun voted => keepsTerms_pure rfl

theorem keepsTerms_doPunish (prop : GovProposal) (addr : Address) (ratio : Int) :
    KeepsTerms c Prod.snd prop (prop.doPunish addr ratio) := by
  unfold doPunish
  split
  · exact fun _ failed => by cases failed
  · exact (keepsTerms_cancelVote prop _).trans fun cancelled =>
      (keepsTerms_voteAgain cancelled.1 _ _).trans fun again => keepsTerms_pure rfl

/-- Code that returns a proposal like another one. -/
abbrev ReturnsAlike {α : Type} (c : Contract Op) (result : α → GovProposal) (prop : GovProposal)
    (p : Prog Op Fault α) : Prop :=
  Obeys c (fun outcome => ∀ value, outcome = .ok value → prop.Alike (result value)) p

theorem returnsAlike_vote (prop : GovProposal) (addr : Address) (choice : Int) :
    ReturnsAlike c id prop (prop.vote addr choice) :=
  (keepsTerms_vote prop addr choice).mono fun _ same value ended => alike_of_terms (same value ended)

theorem returnsAlike_doPunish (prop : GovProposal) (addr : Address) (ratio : Int) :
    ReturnsAlike c Prod.snd prop (prop.doPunish addr ratio) :=
  (keepsTerms_doPunish prop addr ratio).mono fun _ same value ended =>
    alike_of_terms (same value ended)

end

end GovProposal

/-! ## Blocks and transactions -/

/-- The proposals have the schedules `plan`, except perhaps under the keys in `free`. -/
def Planned (free : LedgerKey → Prop) (plan : LedgerKey → Option (Timetable × Option VoteOption))
    (k : LedgerKey) (found : Option GovProposal) : Prop :=
  free k ∨ found.map GovProposal.schedule = plan k

section

variable {free : LedgerKey → Prop} {plan : LedgerKey → Option (Timetable × Option VoteOption)}

/-- A proposal like one that was read may be set. -/
theorem keeps_set_alike {k : LedgerKey}
    (planned : Planned free plan k (some prop)) (filed : LedgerItem.key prop = k)
    (alike : prop.Alike prop') :
    Keeps .proposals (Planned free plan) (set .proposals prop') := by
  have key : LedgerItem.key prop' = k := by
    rw [← filed]
    exact congrArg toLedgerKey alike.1
  refine keeps_set ?_
  rw [key]
  refine planned.imp_right fun same => ?_
  rw [← same, Option.map_some, alike.2]
  rfl

namespace GovCtrler

theorem keeps_punishProposal (slashRatio : Int) (target : Address) (k : LedgerKey) :
    Keeps .proposals (Planned free plan) (punishProposal slashRatio target k) := by
  refine (returns_get k).bind fun answer ⟨planned, filed⟩ => ?_
  cases answer with
  | error e => trivial
  | ok prop =>
    have punishes : Returns (keeping .proposals (Planned free plan)) (fun punished => prop.Alike punished.2)
        (GovProposal.doPunish prop target slashRatio) :=
      returnsAlike_doPunish prop target slashRatio
    refine Returns.bind (obeys_tryXError punishes) fun caught alike => ?_
    cases caught with
    | error e => exact (keeps_set_alike planned (filed prop rfl) ⟨rfl, rfl⟩).seq fun _ => trivial
    | ok punished =>
      exact (keeps_set_alike planned (filed prop rfl) (alike punished rfl)).seq fun _ => trivial

/-- Punishments keep the schedules. -/
theorem keeps_beginBlock (params : GovParams) (info : BlockInfo) :
    Keeps .proposals (Planned free plan) (beginBlock params info) := by
  refine Obeys.each _ fun target => ?_
  refine ((writes_readAll (S := fun _ => False) _).keeps id).seq fun props => ?_
  split
  · trivial
  · exact Obeys.each _ fun k => (keeps_punishProposal _ target k).seq fun _ => trivial

/-- A transaction sets its own proposal, or a proposal with other votes. -/
theorem keeps_executeTrx (ctx : TrxContext) (own : free (toLedgerKey ctx.txHash)) :
    Keeps .proposals (Planned free plan) (executeTrx ctx) := by
  unfold executeTrx
  split
  · unfold execProposing
    split
    · exact keeps_set (.inl own)
    · trivial
  · unfold execVoting
    split
    · next payload _ =>
      refine (returns_get (toLedgerKey payload.txHash)).bind fun answer ⟨planned, filed⟩ => ?_
      refine (returns_ofExcept answer).bind fun prop found => ?_
      subst found
      refine Obeys.bind (returnsAlike_vote prop _ _) (fun prop' alike => ?_)
        fun _ _ => trivial
      exact keeps_set_alike planned (filed prop rfl) (alike prop' rfl)
    · trivial
  · trivial

end GovCtrler

end

/-! ## The end of a block -/

namespace GovCtrler

/-- What is found under a key among the proposals and the frozen proposals. -/
def found (ls : Stores) (k : LedgerKey) : Option GovProposal × Option GovProposal :=
  ((ls .proposals).lookup k, (ls .frozenProposals).lookup k)

/-- What `freezeProposals` leaves under a key, from the committed proposal. -/
def afterFreezing (sort : OptionSort) (height : Int) (committed : Option GovProposal)
    (before : Option GovProposal × Option GovProposal) : Option GovProposal × Option GovProposal :=
  match committed with
  | none => before
  | some prop =>
    if prop.endVotingHeight < height then (none, (prop.decided sort).or before.2) else before

/-- What `applyProposals` leaves under a key, from the committed frozen proposal. -/
def afterApplying (height : Int) (committed : Option GovProposal)
    (before : Option GovProposal × Option GovProposal) : Option GovProposal × Option GovProposal :=
  match committed with
  | none => before
  | some prop => if prop.applyingHeight ≤ height then (before.1, none) else before

variable {ls ls' : Stores} {height : Int} {prop : GovProposal} {sort : OptionSort}

/-- One round of `freezeProposals`. -/
theorem exec_freezeProposal_ok (ran : exec (freezeProposal sort height prop) ls = (.ok (), ls')) :
    ls' = if prop.endVotingHeight < height then
        match prop.decided sort with
        | some frozen => (ls.remove .proposals (LedgerItem.key prop)).put .frozenProposals frozen
        | none => ls.remove .proposals (LedgerItem.key prop)
      else ls := by
  unfold freezeProposal at ran
  split at ran
  · next closed =>
    rw [if_pos closed]
    obtain ⟨_, -, ran⟩ := run_ofExcept_ok (run_del_ok ran)
    unfold updateMajorOption at ran
    unfold decided
    cases options : sort.sort prop.options with
    | nil =>
      rw [options] at ran
      cases ran
    | cons first rest =>
      rw [options] at ran
      simp only [Prog.bind_eq, Prog.pure_bind] at ran ⊢
      generalize (if first.votes ≥ prop.majorityPower then some first
        else prop.majorOption) = major at ran ⊢
      cases major with
      | none =>
        cases ran
        rfl
      | some opt =>
        cases ran
        rfl
  · next running =>
    rw [if_neg running]
    cases ran
    rfl

/-- What `EndBlock` counts on: nothing that was deleted among the proposals was set again, and
no frozen proposal was deleted. -/
def Freezable (ls : Stores) : Prop :=
  (ls .proposals).Clean ∧ (ls .frozenProposals).removed = []

/-- One round of `freezeProposals` changes what is found under the key of its proposal only. -/
theorem freezeProposal_found (freezable : Freezable ls)
    (ran : exec (freezeProposal sort height prop) ls = (.ok (), ls')) :
    Freezable ls' ∧ ∀ k, found ls' k =
      if k = LedgerItem.key prop then afterFreezing sort height (some prop) (found ls k)
      else found ls k := by
  obtain ⟨clean, removed⟩ := freezable
  have erased (k : LedgerKey) : ((ls .proposals).erase (LedgerItem.key prop)).lookup k =
      if k = LedgerItem.key prop then none else (ls .proposals).lookup k := by
    simp only [Store.lookup_erase, eq_comm]
  rw [exec_freezeProposal_ok ran]
  unfold afterFreezing
  by_cases closed : prop.endVotingHeight < height
  · simp only [if_pos closed]
    cases decided : prop.decided sort with
    | none =>
      simp only
      refine ⟨⟨?_, ?_⟩, fun k => ?_⟩
      · rw [remove_self]
        exact clean.erase _
      · rw [remove_of_ne _ _ (by decide)]
        exact removed
      · rw [found, remove_self, remove_of_ne _ _ (by decide), erased]
        split <;> rfl
    | some frozen =>
      have key : LedgerItem.key frozen = LedgerItem.key prop :=
        congrArg toLedgerKey (decided_timetable decided).2
      simp only
      refine ⟨⟨?_, ?_⟩, fun k => ?_⟩
      · rw [put_of_ne _ _ (by decide), remove_self]
        exact clean.erase _
      · rw [put_self, remove_of_ne _ _ (by decide)]
        exact removed
      · rw [found, put_of_ne _ _ (by decide), remove_self, put_self,
          remove_of_ne _ _ (by decide), erased, Store.lookup_set_of_removed removed, key]
        by_cases here : k = LedgerItem.key prop
        · simp [here]
        · simp [here, Ne.symm here, found]
  · simp only [if_neg closed]
    refine ⟨⟨clean, removed⟩, fun k => ?_⟩
    split <;> rfl

/-- The items of a tree, seen under a key. -/
theorem found_of_items {T : Type} [LedgerItem T] {tree : Tree T} {k : LedgerKey}
    {P : Option T → Prop} (absent : k ∉ tree.contents.items.map LedgerItem.key → P none)
    (present : ∀ x ∈ tree.contents.items, LedgerItem.key x = k → P (some x)) :
    P (tree.contents.find? k) := by
  cases here : tree.contents.find? k with
  | none =>
    refine absent fun member => ?_
    obtain ⟨x, inItems, rfl⟩ := List.mem_map.mp member
    rw [KeyedMap.mem_items.mp inItems] at here
    cases here
  | some x =>
    exact present x (KeyedMap.mem_items_of_find? here)
      (KeyedMap.key_of_find? here)

/-- `freezeProposals` does under every key what the committed proposal there asks for. -/
theorem freezeProposals_found (freezable : Freezable ls)
    (ran : exec (freezeProposals sort height) ls = (.ok (), ls')) :
    Freezable ls' ∧ ∀ k, found ls' k =
      afterFreezing sort height ((ls .proposals).tree.contents.find? k) (found ls k) := by
  obtain ⟨props, same, ran⟩ := run_ofExcept_ok (run_readAll_ok ran)
  cases same
  obtain ⟨freezable', outside, inside⟩ := run_forM_at
    (V := found) (I := Freezable) (fun prop ls ls' freezable ran => by
      obtain ⟨freezable', effect⟩ := freezeProposal_found freezable ran
      refine ⟨freezable', fun k other => ?_⟩
      rw [effect, if_neg other])
    (KeyedMap.nodup_map_key_items _) freezable ran
  refine ⟨freezable', fun k => ?_⟩
  refine found_of_items (P := fun committed => found ls' k =
    afterFreezing sort height committed (found ls k)) (fun absent => outside k absent) ?_
  rintro prop member rfl
  obtain ⟨ls₁, ls₂, freezable₁, before, round, after⟩ := inside prop member
  rw [after, (freezeProposal_found freezable₁ round).2, if_pos rfl, before]

variable {newParams newParams' : Option GovParams} {params : GovParams} {json : ParamsJSON}

/-- One round of `applyProposals`; setting new parameters is not seen here. -/
theorem exec_applyProposal_ok
    (ran : exec (applyProposal json params height newParams prop) ls = (.ok newParams', ls')) :
    ls' .proposals = ls .proposals ∧ ls' .frozenProposals =
      if prop.applyingHeight ≤ height then (ls .frozenProposals).erase (LedgerItem.key prop)
      else ls .frozenProposals := by
  unfold applyProposal at ran
  split at ran
  · next due =>
    rw [if_pos due]
    obtain ⟨_, -, ran⟩ := run_ofExcept_ok (run_del_ok ran)
    have removed : (ls.remove .frozenProposals (LedgerItem.key prop)) .proposals =
          ls .proposals ∧
        (ls.remove .frozenProposals (LedgerItem.key prop)) .frozenProposals =
          (ls .frozenProposals).erase (LedgerItem.key prop) :=
      ⟨remove_of_ne _ _ (by decide), remove_self ..⟩
    split at ran
    · cases ran
      exact removed
    · split at ran
      · split at ran
        · cases ran
        · next new _ =>
          cases ran
          have other {l : LedgerId} (other : l ≠ .params) :
              (put _ .params (params.mergeGovParams new)) l =
                (ls.remove .frozenProposals (LedgerItem.key prop)) l :=
            put_of_ne _ _ other
          exact ⟨(other (by decide)).trans removed.1, (other (by decide)).trans removed.2⟩
      · cases ran
        exact removed
  · next waiting =>
    rw [if_neg waiting]
    cases ran
    exact ⟨rfl, rfl⟩

/-- Nothing that was deleted was set again. -/
def Committable (ls : Stores) : Prop := (ls .proposals).Clean ∧ (ls .frozenProposals).Clean

/-- One round of `applyProposals` changes what is found under the key of its proposal only. -/
theorem applyProposal_found (committable : Committable ls)
    (ran : exec (applyProposal json params height newParams prop) ls = (.ok newParams', ls')) :
    Committable ls' ∧ ∀ k, found ls' k =
      if k = LedgerItem.key prop then afterApplying height (some prop) (found ls k)
      else found ls k := by
  obtain ⟨proposals, frozen⟩ := exec_applyProposal_ok ran
  unfold Committable found afterApplying
  rw [proposals, frozen]
  by_cases due : prop.applyingHeight ≤ height
  · simp only [if_pos due]
    refine ⟨⟨committable.1, committable.2.erase _⟩, fun k => ?_⟩
    rw [Store.lookup_erase]
    by_cases here : k = LedgerItem.key prop
    · simp [here]
    · simp [here, Ne.symm here]
  · simp only [if_neg due]
    refine ⟨committable, fun k => ?_⟩
    split <;> rfl

/-- `applyProposals` does under every key what the committed frozen proposal there asks for. -/
theorem applyProposals_found (committable : Committable ls)
    (ran : exec (applyProposals json params newParams height) ls = (.ok newParams', ls')) :
    Committable ls' ∧ ∀ k, found ls' k =
      afterApplying height ((ls .frozenProposals).tree.contents.find? k) (found ls k) := by
  obtain ⟨props, same, ran⟩ := run_ofExcept_ok (run_readAll_ok ran)
  cases same
  obtain ⟨committable', outside, inside⟩ := run_foldlM_at
    (V := found) (I := Committable) (fun newParams prop ls newParams' ls' committable ran => by
      obtain ⟨committable', effect⟩ := applyProposal_found committable ran
      refine ⟨committable', fun k other => ?_⟩
      rw [effect, if_neg other])
    (KeyedMap.nodup_map_key_items _) committable ran
  refine ⟨committable', fun k => ?_⟩
  refine found_of_items (P := fun committed => found ls' k =
    afterApplying height committed (found ls k)) (fun absent => outside k absent) ?_
  rintro prop member rfl
  obtain ⟨_, ls₁, _, ls₂, committable₁, before, round, after⟩ := inside prop member
  rw [after, (applyProposal_found committable₁ round).2, if_pos rfl, before]

/-- `EndBlock` does under every key what was committed there asks for. -/
theorem endBlock_found (freezable : Freezable ls)
    (ran : exec (endBlock json sort params newParams height) ls = (.ok newParams', ls')) :
    Committable ls' ∧ ∀ k, found ls' k =
      afterApplying height ((ls .frozenProposals).tree.contents.find? k)
        (afterFreezing sort height ((ls .proposals).tree.contents.find? k) (found ls k)) := by
  obtain ⟨_, ls₁, froze, ran⟩ := run_bind_ok ran
  obtain ⟨⟨clean, removed⟩, frozen⟩ := freezeProposals_found freezable froze
  have kept : (ls₁ .frozenProposals).Clean := by
    intro k member
    rw [removed] at member
    cases member
  obtain ⟨committable, applied⟩ := applyProposals_found ⟨clean, kept⟩ ran
  refine ⟨committable, fun k => ?_⟩
  rw [applied, frozen, tree_of_exec froze]

end GovCtrler

/-! ## Calls -/

namespace RigoApp

variable {X : External} {s t : Node X.evm} {bctx : BlockContext} {tx : Trx}

/-- The schedules of the proposals. -/
def planOf (ls : Stores) (k : LedgerKey) : Option (Timetable × Option VoteOption) :=
  ((ls .proposals).lookup k).map GovProposal.schedule

theorem holds_planOf (free : LedgerKey → Prop) {ls : Stores}
    (removed : (ls .proposals).removed = []) : Holds .proposals (Planned free (planOf ls)) ls :=
  ⟨removed, fun _ => .inr rfl⟩

/-- `BeginBlock` keeps the schedules of the proposals, and the frozen proposals. -/
theorem beginBlock_plan {info : BlockInfo} (removed : (s.ledgers .proposals).removed = [])
    (ran : BeginsBlock X info s t) :
    (t.ledgers .proposals).removed = [] ∧ planOf t.ledgers = planOf s.ledgers ∧
      t.ledgers .frozenProposals = s.ledgers .frozenProposals := by
  obtain ⟨last, ls, ls', allDelegatees, -, -, -, governed, -, rewarded, rfl⟩ := beginBlock_ok ran
  have stakes {l : LedgerId} (other : l = .proposals ∨ l = .frozenProposals) : ls' l = ls l := by
    rcases other with rfl | rfl <;> exact StakeCtrler.punishAndReward_frame (by decide) rewarded
  have kept := (holds_planOf (fun _ => False) removed).of_exec
    (keeps_beginBlock _ _) governed
  have frozen := (writes_beginBlock (S := fun l => l ≠ .frozenProposals) (by decide)
    _ _).frame (not_not.mpr rfl) governed
  refine ⟨?_, ?_, (stakes (.inr rfl)).trans frozen⟩
  · exact (congrArg Store.removed (stakes (.inl rfl))).trans kept.1
  · funext k
    simp only [planOf, stakes (.inl rfl)]
    exact (kept.2 k).resolve_left id

variable {answer : TxResponse}

/-- `DeliverTx` keeps the frozen proposals, and the schedules of the proposals except perhaps
under the hash of the transaction. -/
theorem deliverTx_plan (removed : (s.ledgers .proposals).removed = [])
    (ran : DeliversTx X txbz s answer t) :
    (t.ledgers .proposals).removed = [] ∧
      (∀ k, k ≠ toLedgerKey (X.trx.txHash txbz) → planOf t.ledgers k = planOf s.ledgers k) ∧
      t.ledgers .frozenProposals = s.ledgers .frozenProposals := by
  have frozen := (deliverTx_keeps ran).1 .frozenProposals id
  obtain ⟨bctx, tx, sender, -, decoded, -, answered⟩ := deliverTx_ok ran
  by_cases governance : tx.type = .proposal ∨ tx.type = .voting
  · have holds : Holds .proposals
        (Planned (· = toLedgerKey (X.trx.txHash txbz)) (planOf s.ledgers)) t.ledgers := by
      rw [(respond_ok answered).1]
      have created : (withAccount s.ledgers tx.toAddr) .proposals = s.ledgers .proposals :=
        withAccount_of_ne (by decide) _ _
      have before : Holds .proposals
          (Planned (· = toLedgerKey (X.trx.txHash txbz)) (planOf s.ledgers))
          (withAccount s.ledgers tx.toAddr) := by
        unfold Holds
        rw [created]
        exact holds_planOf _ removed
      rcases executeSync_cases X.trx X.json
          (ctxOf X s bctx txbz tx)
          { s.toResources with ledgers := withAccount s.ledgers tx.toAddr } with
        ⟨fault, r, failed, kept⟩ | ⟨pubKey, r, -, kept, sequence⟩
      · rw [failed]
        simp only
        rw [kept]
        exact before
      · have native : runTrx
            (ctxOf X s bctx txbz tx) pubKey =
            (Ctrler.ledger (runNative
              (ctxOf X s bctx txbz tx)
              (executeTrx
                (ctxOf X s bctx txbz tx))) :
              Ctrler X.evm TrxResult) := by
          unfold runTrx
          rcases governance with type | type <;> simp only [contextOf, type]
        have executes : Keeps .proposals
            (Planned (· = toLedgerKey (X.trx.txHash txbz)) (planOf s.ledgers))
            (executeTrx
              (ctxOf X s bctx txbz tx)) :=
          keeps_executeTrx _ rfl
        rw [sequence, native, run_ledger, kept]
        refine (before.exec (executes.seq fun _ => ?_)).2
        exact (writes_postRunTrx (S := fun l => l ≠ .proposals) (by decide) _ _).keeps
          (not_not.mpr rfl)
    exact ⟨holds.1, fun k other => (holds.2 k).resolve_left other, frozen⟩
  · have same : t.ledgers .proposals = s.ledgers .proposals := deliverTx_frame ran decoded governance
    refine ⟨by rw [same]; exact removed, fun k _ => ?_, frozen⟩
    simp only [planOf, same]

/-- A proposal that was accepted is stored under the hash of its transaction, and its heights
are in order. -/
theorem deliverTx_proposed {payload : TrxPayloadProposal}
    (removed : (s.ledgers .proposals).removed = [])
    (ran : DeliversTx X txbz s answer t)
    (code : answer.code = 0) (decoded : Trx.decode X.trx txbz = .ok tx)
    (type : tx.type = .proposal) (proposed : tx.payload = .proposal payload)
    (inBlock : s.mem.nextBlockCtx = some bctx) :
    planOf t.ledgers (toLedgerKey (X.trx.txHash txbz)) = some (⟨payload.startVotingHeight,
        i64 (payload.startVotingHeight + payload.votingPeriodBlocks), payload.applyingHeight⟩, none) ∧
      bctx.blockInfo.height < payload.startVotingHeight ∧
      payload.startVotingHeight ≤ i64 (payload.startVotingHeight + payload.votingPeriodBlocks) ∧
      i64 (payload.startVotingHeight + payload.votingPeriodBlocks) ≤ payload.applyingHeight := by
  obtain ⟨bctx', tx', pubKey, r, result, inBlock', decoded', valid, ledgers, executed, -⟩ :=
    deliverTx_success ran code
  obtain rfl : bctx = bctx' := Option.some.inj (inBlock.symm.trans inBlock')
  obtain rfl : tx = tx' := Except.ok.inj (decoded.symm.trans decoded')
  obtain ⟨-, -, checked⟩ := validateTrx_ok valid
  constructor
  · simp only [runTrx, contextOf, type] at executed
    obtain ⟨ls, executed, same⟩ := run_ledger_ok executed
    obtain ⟨_, ls₁, proposing, paid⟩ := run_bind_ok executed
    have kept := (writes_postRunTrx (S := fun l => l ≠ .proposals) (by decide)
      _ _).frame (not_not.mpr rfl) paid
    simp only [executeTrx, type, execProposing, proposed] at proposing
    cases proposing
    have created : (r.ledgers .proposals).removed = [] := by
      rw [ledgers, withAccount_of_ne (by decide)]
      exact removed
    have stored : t.ledgers .proposals = ls .proposals := congrArg (fun r => r.ledgers .proposals) same
    unfold planOf
    rw [stored, kept]
    refine (congrArg _ ((Store.lookup_set_of_removed created _ _).trans (if_pos rfl))).trans rfl
  · simp only [validateByType, contextOf, type] at checked
    obtain ⟨ls, checked, -⟩ := run_ledger_ok checked
    simp only [GovCtrler.validateTrx, type] at checked
    obtain ⟨-, checked⟩ := run_ensure_ok checked
    obtain ⟨-, checked⟩ := run_ensure_ok checked
    simp only [proposed] at checked
    have checked := run_get_ok checked
    cases found : ((withAccount s.ledgers tx.toAddr) .proposals).get
        (toLedgerKey (X.trx.txHash txbz)) with
    | ok prop =>
      rw [found] at checked
      cases checked
    | error e =>
      rw [found] at checked
      obtain ⟨-, checked⟩ := run_ensure_ok checked
      have ordered := checkProposal_ok (ofExcept_ok checked)
      exact ⟨ordered.future, ordered.ends, ordered.applied⟩

/-- A vote that was accepted is for a stored proposal, and made in its voting period. -/
theorem deliverTx_voted {payload : TrxPayloadVoting}
    (ran : DeliversTx X txbz s answer t)
    (code : answer.code = 0) (decoded : Trx.decode X.trx txbz = .ok tx)
    (type : tx.type = .voting) (voted : tx.payload = .voting payload)
    (inBlock : s.mem.nextBlockCtx = some bctx) :
    ∃ prop, (s.ledgers .proposals).lookup (toLedgerKey payload.txHash) = some prop ∧
      prop.startVotingHeight ≤ bctx.blockInfo.height ∧
      bctx.blockInfo.height ≤ prop.endVotingHeight := by
  obtain ⟨bctx', tx', pubKey, r, result, inBlock', decoded', valid, -, -, -⟩ :=
    deliverTx_success ran code
  obtain rfl : bctx = bctx' := Option.some.inj (inBlock.symm.trans inBlock')
  obtain rfl : tx = tx' := Except.ok.inj (decoded.symm.trans decoded')
  obtain ⟨-, -, checked⟩ := validateTrx_ok valid
  simp only [validateByType, contextOf, type] at checked
  obtain ⟨ls, checked, -⟩ := run_ledger_ok checked
  simp only [GovCtrler.validateTrx, type] at checked
  obtain ⟨-, checked⟩ := run_ensure_ok checked
  simp only [voted] at checked
  obtain ⟨prop, found, checked⟩ := run_ofExcept_ok (run_get_ok checked)
  obtain ⟨-, checked⟩ := run_ensure_ok checked
  obtain ⟨-, checked⟩ := run_ensure_ok checked
  have period := of_decide_eq_true (ensure_ok checked)
  rw [Store.get, withAccount_of_ne (by decide), found_eq_ok] at found
  exact ⟨prop, found, period.2, period.1⟩

/-- `EndBlock` does under every key what was committed there asks for. -/
theorem endBlock_found {valUpdates : List ValidatorUpdate}
    (freezable : Freezable s.ledgers)
    (ran : EndsBlock X s valUpdates t) :
    ∃ bctx, s.mem.nextBlockCtx = some bctx ∧ Committable t.ledgers ∧
      ∀ k, GovCtrler.found t.ledgers k = GovCtrler.afterApplying bctx.blockInfo.height
        ((s.ledgers .frozenProposals).tree.contents.find? k)
        (afterFreezing X.sort bctx.blockInfo.height
          ((s.ledgers .proposals).tree.contents.find? k) (GovCtrler.found s.ledgers k)) := by
  obtain ⟨bctx, newGovParams, lastValidators, ls, ls', ls'', inBlock, governed, paid, refunded,
    rfl⟩ := endBlock_ok ran
  have kept {l : LedgerId} (other : l = .proposals ∨ l = .frozenProposals) : ls'' l = ls l := by
    have untouched : ¬ (l ≠ .proposals ∧ l ≠ .frozenProposals) :=
      fun ⟨notProposals, notFrozen⟩ => other.elim notProposals notFrozen
    exact ((StakeCtrler.writes_endBlock (S := fun l => l ≠ .proposals ∧ l ≠ .frozenProposals)
      (by decide) (by decide) _ _ _ _).frame untouched refunded).trans
      ((AcctCtrler.writes_endBlock (S := fun l => l ≠ .proposals ∧ l ≠ .frozenProposals)
        (by decide) _ _).frame untouched paid)
  obtain ⟨⟨clean, clean'⟩, effect⟩ := GovCtrler.endBlock_found freezable governed
  refine ⟨bctx, inBlock, ⟨?_, ?_⟩, fun k => ?_⟩
  · simp only [kept (.inl rfl)]
    exact clean
  · simp only [kept (.inr rfl)]
    exact clean'
  · rw [← effect k]
    simp only [GovCtrler.found, kept (.inl rfl), kept (.inr rfl)]

end RigoApp

end Rigo
