import Rigo.Foundation.Triple
import Rigo.Node.TrxExecutor

/-!
# Which ledgers the controllers write

`Writes S p` says that the code `p` sets and deletes items only in the ledgers of `S`.
There is one lemma for each function of the controllers, and `exec_frame` draws the
conclusion: the other stores are left as they are.  Where a function has no panics, or few, the
lemma says so too (`Calm`).
-/

namespace Rigo

open Foundation
open AcctCtrler Ctrler EvmCtrler GovProposal LedgerProg StakeCtrler

variable {α : Type}

/-- What is known of a caught result. -/
theorem obeys_tryXError {Op : Type → Type} {c : Contract Op} {result : α → Prop}
    {p : Prog Op Fault α}
    (first : Obeys c (fun outcome => ∀ value, outcome = .ok value → result value) p) :
    Obeys c (fun outcome => ∀ caught, outcome = .ok caught → ∀ value, caught = .ok value →
      result value) (tryXError p) := by
  refine Obeys.attempt first (fun v returned caught same => ?_) (fun _ _ _ _ caught same => ?_)
    fun _ _ _ _ same => by cases same
  · cases same
    rintro _ ⟨⟩
    exact returned v rfl
  · cases same
    intro _ failed
    cases failed

/-- Items are set only in the ledgers of `S`, and deleted only in those of `D`. -/
def writing (S D : LedgerId → Prop) : Contract LedgerOp where
  asks op :=
    match op with
    | .get _ _ => True
    | .set l _ => S l
    | .del l _ => D l
    | .cancelSet l _ => D l
    | .readAll _ => True
    | .immutableAt _ _ => True
  grants _ _ := True

/-- The outcome is no panic but a fine one. -/
def Ending {α : Type} (fine : Panic → Prop) : Except Fault α → Prop
  | .ok _ => True
  | .error (.xerr _) => True
  | .error (.panic p) => fine p

/-- The code keeps to the contract, and its panics are fine. -/
def Calm {α : Type} (c : Contract LedgerOp) (fine : Panic → Prop) (p : LedgerProg α) : Prop :=
  Obeys c (Ending fine) p

/-- The code writes only the ledgers of `S`. -/
abbrev Writes {α : Type} (S : LedgerId → Prop) (p : LedgerProg α) : Prop :=
  Calm (writing S S) (fun _ => True) p

variable {S : LedgerId → Prop} {l : LedgerId}

theorem ledgerStep_frame {β : Type} {op : LedgerOp β}
    (asks : (writing S S).asks op) (other : ¬ S l) (ls : Stores) :
    (ledgerStep storeImpl op ls).2 l = ls l := by
  have put (l' : LedgerId) (x : Store l'.Item) (allowed : S l') :
      Function.update ls l' x l = ls l := by
    rw [Function.update_of_ne]
    rintro rfl
    exact other allowed
  cases op with
  | get l' k => simp only [ledgerStep, storeImpl, Function.update_eq_self]
  | set l' x => exact put l' _ asks
  | del l' k => exact put l' _ asks
  | cancelSet l' k => exact put l' _ asks
  | readAll l' => rfl
  | immutableAt l' n => rfl

/-- A store that the code does not write is left as it is. -/
theorem exec_frame {p : LedgerProg α} (writes : Writes S p)
    (other : ¬ S l) (ls : Stores) : (exec p ls).2 l = ls l := by
  refine (Obeys.run (ledgerHandler storeImpl) (I := fun ls' => ls' l = ls l) ?_ writes rfl).2
  intro β op ls' kept asks
  exact ⟨trivial, (ledgerStep_frame asks other ls').trans kept⟩

theorem Calm.frame {p : LedgerProg α} (writes : Calm (writing S S) (fun _ => True) p)
    (other : ¬ S l) {ls ls' : Stores} {outcome : Except Fault α}
    (ran : exec p ls = (outcome, ls')) : ls' l = ls l := by
  have kept := exec_frame writes other ls
  rwa [ran] at kept

/-- What holds of a store that the code does not write still holds after it. -/
theorem Calm.triple {p : LedgerProg α} (writes : Calm (writing S S) (fun _ => True) p)
    (other : ¬ S l) (P : Store l.Item → Prop) :
    Triple (ledgerHandler storeImpl) (fun ls => P (ls l)) p (fun _ ls => P (ls l))
      (fun _ _ => True) := by
  intro ls holds
  have kept : (run (ledgerHandler storeImpl) p ls).2 l = ls l := exec_frame writes other ls
  rw [← kept] at holds
  generalize run (ledgerHandler storeImpl) p ls = r at holds ⊢
  obtain ⟨outcome, ls'⟩ := r
  cases outcome with
  | error fault => trivial
  | ok value => exact holds

/-! ## The committed trees -/

theorem ledgerStep_tree {β : Type} (op : LedgerOp β) (ls : Stores) (l : LedgerId) :
    ((ledgerStep storeImpl op ls).2 l).tree = (ls l).tree := by
  have put (l' : LedgerId) (x : Store l'.Item) (same : x.tree = (ls l').tree) :
      (Function.update ls l' x l).tree = (ls l).tree := by
    by_cases here : l = l'
    · subst here
      rw [Function.update_self]
      exact same
    · rw [Function.update_of_ne here]
  cases op with
  | get l' k => exact put l' _ rfl
  | set l' x => exact put l' _ rfl
  | del l' k =>
    refine put l' _ ?_
    change (Store.erase (ls l') k).tree = (ls l').tree
    unfold Store.erase
    split <;> rfl
  | cancelSet l' k => exact put l' _ rfl
  | readAll l' => rfl
  | immutableAt l' n => rfl

/-- Code of the controllers does not change the committed trees. -/
theorem exec_tree (p : LedgerProg α) (ls : Stores) (l : LedgerId) :
    ((exec p ls).2 l).tree = (ls l).tree :=
  run_preserves (ledgerHandler storeImpl) (fun ls' => (ls' l).tree = (ls l).tree)
    (fun op ls' same => (ledgerStep_tree op ls' l).trans same) p rfl

theorem tree_of_exec {p : LedgerProg α} {ls ls' : Stores} {outcome : Except Fault α}
    (ran : exec p ls = (outcome, ls')) (l : LedgerId) : (ls' l).tree = (ls l).tree := by
  have same := exec_tree p ls l
  rwa [ran] at same

section

variable {c : Contract LedgerOp} {fine : Panic → Prop} {S D : LedgerId → Prop} {α β : Type}

/-! ## Sequences and loops -/

theorem Ending.fault {fault : Fault} (ended : Ending fine (.error fault : Except Fault α)) :
    Ending fine (.error fault : Except Fault β) := by
  cases fault with
  | xerr e => trivial
  | panic p => exact ended

theorem Calm.seq {p : LedgerProg β} {f : β → LedgerProg α} (first : Calm c fine p)
    (next : ∀ value, Calm c fine (f value)) : Calm c fine (p >>= f) :=
  Obeys.bind first (fun value _ => next value) fun _ ended => ended.fault

theorem Calm.forM {γ : Type} {body : γ → LedgerProg Unit} (list : List γ)
    (round : ∀ x, Calm c fine (body x)) : Calm c fine (list.forM body) :=
  Obeys.forM list trivial fun x _ => round x

theorem Calm.foldlM {γ δ : Type} {body : δ → γ → LedgerProg δ} (list : List γ) (acc : δ)
    (round : ∀ acc x, Calm c fine (body acc x)) : Calm c fine (list.foldlM body acc) := by
  induction list generalizing acc with
  | nil => trivial
  | cons head tail ih => exact (round acc head).seq fun acc' => ih acc'

theorem Calm.tryXError {p : LedgerProg α} (calm : Calm c fine p) : Calm c fine (tryXError p) :=
  Obeys.attempt calm (fun _ _ => trivial) (fun _ _ _ _ => trivial) fun _ _ ended => ended.fault

theorem calm_ofExcept (result : Except XError α) : Calm c fine (ofExcept result) := by
  cases result <;> trivial

theorem calm_ensure (condition : Bool) (e : XError) : Calm c fine (ensure condition e) := by
  cases condition <;> trivial

theorem calm_perform {op : LedgerOp α} (asks : c.asks op) : Calm c fine (Prog.perform op) :=
  ⟨asks, fun _ _ => trivial⟩

theorem returns_ofExcept (value : Except XError α) :
    Returns c (fun v => value = .ok v) (ofExcept value) := by
  cases value with
  | error e => exact fun v same => by cases same
  | ok v => exact returns_pure rfl

theorem writes_get (l : LedgerId) (k : LedgerKey) : Calm (writing S D) fine (get l k) :=
  calm_perform trivial

theorem writes_readAll (l : LedgerId) : Calm (writing S D) fine (readAll l) :=
  calm_perform trivial

theorem writes_immutableAt (l : LedgerId) (n : Int) : Calm (writing S D) fine (immutableAt l n) :=
  calm_perform trivial

theorem writes_set {l : LedgerId} (allowed : S l) (x : l.Item) :
    Calm (writing S D) fine (set l x) := calm_perform allowed

theorem writes_del {l : LedgerId} (allowed : D l) (k : LedgerKey) :
    Calm (writing S D) fine (del l k) := calm_perform allowed

theorem writes_cancelSet {l : LedgerId} (allowed : D l) (k : LedgerKey) :
    Calm (writing S D) fine (cancelSet l k) := calm_perform allowed

/-- The panic of `AmountToPower`. -/
def negativePower (amt : Uint256) : Panic :=
  .explicit ("voting power is negative: " ++ toString (powerOf amt))

theorem calm_amountToPower {amt : Uint256} (negative : powerOf amt < 0 → fine (negativePower amt)) :
    Calm c fine (amountToPower amt) := by
  unfold amountToPower
  split
  · next less => exact negative less
  · trivial

/-! ## Accounts -/

namespace AcctCtrler

theorem writes_findAccount (addr : Address) : Calm (writing S D) fine (findAccount addr) := by
  refine (writes_get _ _).seq fun found => ?_
  split <;> trivial

theorem writes_findOrNewAccount (allowed : S .accounts) (addr : Address) :
    Calm (writing S D) fine (findOrNewAccount addr) := by
  refine (writes_findAccount addr).seq fun found => ?_
  split
  · trivial
  · exact (writes_set allowed _).seq fun _ => trivial

theorem writes_accountAt (missing : fine .nilDereference) (addr : Address) :
    Calm (writing S D) fine (accountAt addr) := by
  refine (writes_findAccount addr).seq fun found => ?_
  split
  · trivial
  · exact missing

theorem writes_reward (allowed : S .accounts) (receiver : Address) (amt : Uint256) :
    Calm (writing S D) fine (reward receiver amt) := by
  refine (writes_findAccount receiver).seq fun found => ?_
  split
  · trivial
  · exact (calm_ofExcept _).seq fun _ => writes_set allowed _

theorem writes_receiverOf (sender receiver : Address) (acct0 : Account) :
    Writes S (receiverOf sender receiver acct0) := by
  unfold receiverOf
  split
  · trivial
  · exact writes_accountAt trivial receiver

theorem writes_transfer (allowed : S .accounts) (sender receiver : Address) (amt : Uint256) :
    Writes S (transfer sender receiver amt) :=
  (writes_accountAt trivial sender).seq fun _ => (calm_ofExcept _).seq fun _ =>
    (writes_receiverOf _ _ _).seq fun _ => (calm_ofExcept _).seq fun _ =>
      (writes_set allowed _).seq fun _ => writes_set allowed _

theorem writes_setDoc (allowed : S .accounts) (sender receiver : Address) (name url : GoString) :
    Writes S (setDoc sender receiver name url) :=
  (writes_accountAt trivial sender).seq fun _ => (writes_set allowed _).seq fun _ =>
    (writes_accountAt trivial receiver).seq fun _ => writes_set allowed _

theorem writes_validateTrx (ctx : TrxContext) : Writes S (validateTrx ctx) := by
  unfold validateTrx
  split
  · split
    · exact (calm_ensure _ _).seq fun _ => calm_ensure _ _
    · trivial
  · trivial

theorem writes_executeTrx (allowed : S .accounts) (ctx : TrxContext) :
    Writes S (executeTrx ctx) := by
  unfold executeTrx
  split
  · exact writes_transfer allowed _ _ _
  · split
    · exact writes_setDoc allowed _ _ _ _
    · trivial
  · exact (writes_accountAt trivial _).seq fun _ => (writes_set allowed _).seq fun _ =>
      (writes_accountAt trivial _).seq fun _ => writes_set allowed _

theorem writes_endBlock (allowed : S .accounts) (proposer : Option Address) (sumFee : Uint256) :
    Writes S (endBlock proposer sumFee) := by
  unfold endBlock
  split
  · trivial
  · split
    · exact (writes_findAccount _).seq fun _ => (calm_ofExcept _).seq fun _ =>
        writes_set allowed _
    · trivial

theorem writes_initLedger (allowed : S .accounts) (holders : List (Address × Uint256)) :
    Writes S (initLedger holders) :=
  Calm.forM _ fun _ => writes_set allowed _

end AcctCtrler

/-! ## Governance -/

namespace GovCtrler

theorem writes_addVotes (prop : GovProposal) (choice power : Int) :
    Writes S (prop.addVotes choice power) := by
  unfold addVotes
  split <;> trivial

theorem writes_cancelVote (prop : GovProposal) (voter : Voter) :
    Writes S (prop.cancelVote voter) := by
  unfold cancelVote
  split
  · exact (writes_addVotes _ _ _).seq fun _ => trivial
  · trivial

theorem writes_doVote (prop : GovProposal) (voter : Voter) (choice : Int) :
    Writes S (prop.doVote voter choice) := by
  unfold doVote
  split
  · exact (writes_addVotes _ _ _).seq fun _ => trivial
  · trivial

theorem writes_vote (prop : GovProposal) (addr : Address) (choice : Int) :
    Writes S (prop.vote addr choice) := by
  unfold vote
  split
  · trivial
  · exact (writes_cancelVote _ _).seq fun _ => (writes_doVote _ _ _).seq fun _ => trivial

theorem writes_punish (prop : GovProposal) (addr : Address) (ratio : Int) :
    Writes S (prop.doPunish addr ratio) := by
  unfold GovProposal.doPunish
  split
  · trivial
  · refine (writes_cancelVote _ _).seq fun _ => Calm.seq ?_ fun _ => trivial
    unfold voteAgain
    split
    · trivial
    · exact (writes_doVote _ _ _).seq fun _ => trivial

theorem writes_punishProposal (allowed : S .proposals) (slashRatio : Int) (target : Address)
    (k : LedgerKey) : Writes S (punishProposal slashRatio target k) := by
  refine (writes_get _ _).seq fun found => ?_
  split
  · trivial
  · refine (writes_punish _ _ _).tryXError.seq fun result => ?_
    split
    · exact (writes_set allowed _).seq fun _ => trivial
    · exact (writes_set allowed _).seq fun _ => trivial

theorem writes_doPunish (allowed : S .proposals) (slashRatio : Int) (target : Address) :
    Writes S (doPunish slashRatio target) := by
  refine (writes_readAll _).seq fun props => ?_
  split
  · trivial
  · exact Calm.forM _ fun k => (writes_punishProposal allowed _ _ k).seq fun _ => trivial

theorem writes_beginBlock (allowed : S .proposals) (params : GovParams) (info : BlockInfo) :
    Writes S (beginBlock params info) :=
  Calm.forM _ fun target => writes_doPunish allowed _ target

theorem beginBlock_frame (other : l ≠ .proposals) {params : GovParams} {info : BlockInfo}
    {ls ls' : Stores} {outcome : Except Fault Unit}
    (ran : exec (beginBlock params info) ls = (outcome, ls')) : ls' l = ls l :=
  (writes_beginBlock (S := (· = .proposals)) rfl params info).frame other ran

theorem writes_validateTrx (json : ParamsJSON) (ctx : TrxContext) :
    Calm (writing S D) fine (validateTrx json ctx) := by
  unfold validateTrx
  split
  · refine (calm_ensure _ _).seq fun _ => (calm_ensure _ _).seq fun _ => ?_
    split
    · refine (writes_get _ _).seq fun found => ?_
      split
      · trivial
      · exact (calm_ensure _ _).seq fun _ => calm_ofExcept _
    · trivial
  · refine (calm_ensure _ _).seq fun _ => ?_
    split
    · exact (writes_get _ _).seq fun _ => (calm_ofExcept _).seq fun _ =>
        (calm_ensure _ _).seq fun _ => (calm_ensure _ _).seq fun _ => calm_ensure _ _
    · trivial
  · trivial

theorem writes_executeTrx (allowed : S .proposals) (ctx : TrxContext) :
    Writes S (executeTrx ctx) := by
  unfold executeTrx
  split
  · unfold execProposing
    split
    · exact writes_set allowed _
    · trivial
  · unfold execVoting
    split
    · exact (writes_get _ _).seq fun _ => (calm_ofExcept _).seq fun _ =>
        (writes_vote _ _ _).seq fun _ => writes_set allowed _
    · trivial
  · trivial

theorem writes_freezeProposals (proposals : S .proposals) (frozen : S .frozenProposals)
    (sort : OptionSort) (height : Int) : Writes S (freezeProposals sort height) := by
  refine (writes_readAll _).seq fun _ => (calm_ofExcept _).seq fun _ => ?_
  refine Calm.forM _ fun prop => ?_
  unfold freezeProposal
  split
  · refine (writes_del proposals _).seq fun _ => (calm_ofExcept _).seq fun _ =>
      Calm.seq ?_ fun prop' => ?_
    · unfold updateMajorOption
      split <;> trivial
    · split
      · exact writes_set frozen _
      · trivial
  · trivial

theorem writes_applyProposals (params : S .params) (frozen : S .frozenProposals)
    (json : ParamsJSON) (govParams : GovParams) (newParams : Option GovParams) (height : Int) :
    Writes S (applyProposals json govParams newParams height) := by
  refine (writes_readAll _).seq fun _ => (calm_ofExcept _).seq fun _ => ?_
  refine Calm.foldlM _ _ fun newParams prop => ?_
  unfold applyProposal
  split
  · refine (writes_del frozen _).seq fun _ => (calm_ofExcept _).seq fun _ => ?_
    split
    · trivial
    · split
      · split
        · trivial
        · exact (writes_set params _).seq fun _ => trivial
      · trivial
  · trivial

theorem writes_endBlock (params : S .params) (proposals : S .proposals)
    (frozen : S .frozenProposals) (json : ParamsJSON) (sort : OptionSort) (govParams : GovParams)
    (newParams : Option GovParams) (height : Int) :
    Writes S (endBlock json sort govParams newParams height) :=
  (writes_freezeProposals proposals frozen sort height).seq fun _ =>
    writes_applyProposals params frozen json govParams newParams height

end GovCtrler

/-! ## Stakes -/

namespace StakeCtrler

theorem writes_candidates (negative : ∀ amt, fine (negativePower amt))
    (minValidatorStake : Uint256) (delegatees : List Delegatee) :
    Calm (writing S D) fine (candidates minValidatorStake delegatees) := by
  induction delegatees with
  | nil => trivial
  | cons d rest ih =>
    exact (calm_amountToPower fun _ => negative _).seq fun _ => Calm.seq ih fun _ => trivial

theorem writes_collectDelegatees (negative : ∀ amt, fine (negativePower amt))
    (params : GovParams) : Calm (writing S D) fine (collectDelegatees params) :=
  (writes_readAll _).seq fun _ => (writes_candidates negative _ _).seq fun _ => trivial

theorem writes_doPunish (allowed : S .delegatees) (slashRatio : Int) (addr : Address) :
    Calm (writing S D) fine (doPunish slashRatio addr) := by
  refine (writes_get _ _).seq fun found => ?_
  split
  · trivial
  · exact writes_set allowed _

theorem calm_issue {rwd : Reward} {height : Int} (ahead : fine (rwd.aheadOf height))
    (amt : Uint256) : Calm c fine (rwd.issue amt height) := by
  unfold Reward.issue
  split
  · trivial
  · split
    · trivial
    · exact ahead

theorem writes_doRewardTo (ahead : ∀ rwd h, fine (Reward.aheadOf rwd h)) (allowed : S .rewards)
    (params : GovParams) (height : Int) (delegatee : Delegatee) :
    Calm (writing S D) fine (doRewardTo params height delegatee) := by
  refine Calm.forM _ fun s0 => (writes_get _ _).seq fun found => ?_
  split
  · exact (calm_issue (ahead _ _) _).seq fun _ => writes_set allowed _
  · split
    · exact (calm_issue (ahead _ _) _).seq fun _ => writes_set allowed _
    · trivial

theorem writes_missedBlock (delegatees : S .delegatees) (frozen : S .frozenStakes)
    (params : GovParams) (height : Int) (addr : Address) :
    Calm (writing S S) fine (missedBlock params height addr) := by
  refine (writes_get _ _).seq fun found => ?_
  split
  · trivial
  · refine (writes_set delegatees _).seq fun _ => (writes_set delegatees _).seq fun _ => ?_
    split
    · exact (Calm.forM _ fun _ => writes_set frozen _).seq fun _ =>
        (writes_del delegatees _).seq fun _ => trivial
    · trivial

theorem writes_punishAndReward (ahead : ∀ rwd h, fine (Reward.aheadOf rwd h))
    (delegatees : S .delegatees) (frozen : S .frozenStakes) (rewards : S .rewards)
    (params : GovParams) (info : BlockInfo) :
    Calm (writing S S) fine (punishAndReward params info) := by
  refine (Calm.forM _ fun addr => writes_doPunish delegatees _ addr).seq fun _ => ?_
  split
  · trivial
  · refine (writes_immutableAt _ _).seq fun _ => (calm_ofExcept _).seq fun immu => ?_
    refine Calm.forM _ fun vote => ?_
    unfold processVote
    split
    · split
      · trivial
      · split
        · trivial
        · exact writes_doRewardTo ahead rewards _ _ _
    · exact writes_missedBlock delegatees frozen _ _ _

theorem punishAndReward_frame (other : l ≠ .delegatees ∧ l ≠ .frozenStakes ∧ l ≠ .rewards)
    {params : GovParams} {info : BlockInfo} {ls ls' : Stores} {outcome : Except Fault Unit}
    (ran : exec (punishAndReward params info) ls = (outcome, ls')) : ls' l = ls l :=
  (writes_punishAndReward (S := (· ≠ l)) (fun _ _ => trivial) other.1.symm other.2.1.symm
    other.2.2.symm params info).frame (not_not.mpr rfl) ran

theorem writes_findDelegatee (addr : Address) : Calm (writing S D) fine (findDelegatee addr) := by
  refine (writes_get _ _).seq fun found => ?_
  split
  · trivial
  · split <;> trivial

theorem writes_validateStaker (ctx : TrxContext) (delegatee : Option Delegatee) (txPower : Int) :
    Writes S (validateStaker ctx delegatee txPower) := by
  unfold validateStaker
  split
  · exact (calm_amountToPower fun _ => trivial).seq fun _ => (calm_ensure _ _).seq fun _ => trivial
  · unfold validateDelegating
    split
    · trivial
    · refine (calm_amountToPower fun _ => trivial).seq fun _ => (calm_ensure _ _).seq fun _ =>
        Calm.seq ?_ fun _ => (calm_ensure _ _).seq fun _ => trivial
      unfold Delegatee.selfStakeRatio
      split <;> trivial

theorem writes_validateStaking (ctx : TrxContext) : Writes S (validateStaking ctx) := by
  refine (calm_ensure _ _).seq fun _ => (calm_ensure _ _).seq fun _ =>
    (calm_amountToPower fun _ => trivial).seq fun _ => (writes_findDelegatee _).seq fun _ =>
      (writes_validateStaker _ _ _).seq fun _ => ?_
  split <;> trivial

theorem calm_findOwnStake {ctx : TrxContext}
    (other : (∀ txHash, ctx.tx.payload ≠ .unstaking txHash) → fine .typeAssertion)
    (delegatee : Delegatee) : Calm c fine (findOwnStake ctx delegatee) := by
  unfold findOwnStake
  split
  · split
    · trivial
    · split
      · trivial
      · split <;> trivial
  · next different => exact other different

theorem writes_validateUnstaking (ctx : TrxContext) : Writes S (validateUnstaking ctx) :=
  (writes_get _ _).seq fun _ => (calm_ofExcept _).seq fun _ =>
    (calm_findOwnStake (fun _ => trivial) _).seq fun _ => trivial

theorem writes_validateWithdraw (ctx : TrxContext) : Writes S (validateWithdraw ctx) := by
  refine (calm_ensure _ _).seq fun _ => ?_
  split
  · exact (writes_get _ _).seq fun _ => (calm_ofExcept _).seq fun _ => calm_ensure _ _
  · trivial

theorem writes_exeStaking (missing : fine .nilDereference)
    (negative : ∀ amt, fine (negativePower amt)) (accounts : S .accounts)
    (delegatees : S .delegatees) (ctx : TrxContext) (pubKey : HexBytes) :
    Calm (writing S D) fine (exeStaking ctx pubKey) := by
  have staked (delegatee : Delegatee) :
      Calm (writing S D) fine (exeStaking.stakeOn ctx delegatee) :=
    (writes_accountAt missing _).seq fun _ => (calm_ofExcept _).seq fun _ =>
      (writes_set accounts _).seq fun _ => (calm_amountToPower fun _ => negative _).seq fun _ =>
        writes_set delegatees _
  refine (writes_findDelegatee _).seq fun found => ?_
  split
  · exact staked _
  · split
    · exact staked _
    · trivial

theorem writes_exeUnstaking (delegatees : S .delegatees) (frozen : S .frozenStakes)
    {ctx : TrxContext} (other : (∀ txHash, ctx.tx.payload ≠ .unstaking txHash) → fine .typeAssertion) :
    Calm (writing S S) fine (exeUnstaking ctx) := by
  refine (writes_get _ _).seq fun _ => (calm_ofExcept _).seq fun _ =>
    (calm_findOwnStake other _).seq fun _ => (writes_set frozen _).seq fun _ =>
      Calm.seq ?_ fun delegatee => ?_
  · unfold freezeOthers
    split
    · exact (Calm.forM _ fun _ => writes_set frozen _).seq fun _ => trivial
    · trivial
  · unfold storeDelegatee
    split
    · exact (writes_del delegatees _).seq fun _ => (calm_ofExcept _).seq fun _ => trivial
    · exact writes_set delegatees _

theorem writes_exeWithdraw (accounts : S .accounts) (rewards : S .rewards) (ctx : TrxContext) :
    Writes S (exeWithdraw ctx) := by
  unfold exeWithdraw
  split
  · refine (writes_get _ _).seq fun _ => (calm_ofExcept _).seq fun rwd =>
      Calm.seq ?_ fun _ => (writes_set rewards _).seq fun _ =>
        (writes_reward accounts _ _).tryXError.seq fun paid => ?_
    · unfold Reward.withdraw
      split
      · trivial
      · split <;> trivial
    · split
      · trivial
      · exact (writes_cancelSet rewards _).seq fun _ => trivial
  · trivial

theorem writes_unfreezingStakes (accounts : S .accounts) (frozen : D .frozenStakes)
    (height : Int) : Calm (writing S D) fine (unfreezingStakes height) := by
  refine (writes_readAll _).seq fun _ => (calm_ofExcept _).seq fun _ => Calm.forM _ fun s0 => ?_
  unfold unfreezeStake
  split
  · exact (writes_reward accounts _ _).seq fun _ => (writes_del frozen _).seq fun _ => trivial
  · trivial

theorem writes_endBlock (accounts : S .accounts) (frozen : S .frozenStakes) (params : GovParams)
    (allDelegatees : List Delegatee) (lastValidators : Validators) (height : Int) :
    Writes S (endBlock params allDelegatees lastValidators height) := by
  refine (writes_unfreezingStakes accounts frozen _).seq fun _ => Calm.seq ?_ fun _ => trivial
  unfold selectValidators
  split <;> trivial

theorem writes_initLedger (allowed : S .delegatees) (initStakes : List InitStake) :
    Writes S (initLedger initStakes) :=
  Calm.forM _ fun _ => writes_set allowed _

end StakeCtrler

/-! ## The EVM -/

namespace EvmCtrler

variable {E : EvmLib}

theorem writes_addAccessedObjAddr (allowed : S .accounts) (accessed : Accessed) (snapshot : Nat)
    (addr : Address) : Calm (writing S D) fine (addAccessedObjAddr accessed snapshot addr) := by
  unfold addAccessedObjAddr
  split
  · trivial
  · exact (writes_findOrNewAccount allowed _).seq fun _ => trivial

theorem writes_runEvm (allowed : S .accounts) (tree : EvmRun E.State) (accessed : Accessed)
    (snapshot : Nat) : Calm (writing S D) fine (runEvm tree accessed snapshot) := by
  induction tree generalizing accessed snapshot with
  | access addr next ih =>
    exact (writes_addAccessedObjAddr allowed _ _ _).seq fun loaded => ih _ _ _
  | snapshot id next ih => exact ih accessed id
  | revert id next ih => exact ih _ snapshot
  | done result state gasPool => trivial

theorem writes_load (allowed : S .accounts) (accessed : Accessed) (snapshot : Nat)
    (state : E.State) (addr : Address) : Writes S (load accessed snapshot state addr) := by
  refine (writes_addAccessedObjAddr allowed _ _ _).seq fun loaded => ?_
  split <;> trivial

theorem writes_prepare (allowed : S .accounts) (state : E.State) (snap : Nat)
    (sender receiver : Address) : Writes S (prepare state snap sender receiver) := by
  refine (writes_load allowed _ _ _ _).seq fun loaded => ?_
  obtain ⟨state', accessed⟩ := loaded
  simp only
  split
  · trivial
  · exact writes_load allowed _ _ _ _

theorem writes_finish (allowed : S .accounts) (state : E.State) (accessed : Accessed) :
    Calm (writing S D) fine (finish state accessed) :=
  Calm.forM _ fun _ => (writes_findOrNewAccount allowed _).seq fun _ =>
    writes_set allowed _

theorem writes_validateTrx (ctx : TrxContext) : Writes S (validateTrx E ctx) := by
  refine (writes_accountAt trivial _).seq fun _ => (calm_ensure _ _).seq fun _ => ?_
  split
  · trivial
  · exact calm_ensure _ _

theorem writes_recordCreation (allowed : S .accounts) (ctx : TrxContext) :
    Writes S (recordCreation E ctx) := by
  refine (writes_findAccount _).seq fun found => ?_
  split
  · trivial
  · exact (writes_set allowed _).seq fun _ => trivial

end EvmCtrler

/-! ## Transactions -/

namespace TrxExecutor

theorem writes_commonValidation0 (lib : TrxLib) (ctx : TrxContext) :
    Calm (writing S D) fine (commonValidation0 lib ctx) := by
  refine (calm_ensure _ _).seq fun _ => (calm_ensure _ _).seq fun _ =>
    (calm_ensure _ _).seq fun _ => (calm_ensure _ _).seq fun _ =>
      (calm_ensure _ _).seq fun _ => (calm_ensure _ _).seq fun _ => ?_
  split
  · exact (calm_ofExcept _).seq fun _ => trivial
  · trivial

theorem writes_commonValidation1 (ctx : TrxContext) : Writes S (commonValidation1 ctx) := by
  refine (writes_accountAt trivial _).seq fun _ => (calm_ofExcept _).seq fun _ => ?_
  split <;> trivial

theorem writes_postRunTrx (allowed : S .accounts) (ctx : TrxContext) (result : TrxResult) :
    Writes S (postRunTrx ctx result) := by
  refine (writes_accountAt trivial _).seq fun _ => ?_
  split
  · trivial
  · exact (writes_accountAt trivial _).seq fun _ => (calm_ofExcept _).seq fun _ =>
      (writes_set allowed _).seq fun _ => trivial

theorem writes_runNative (allowed : S .accounts) (ctx : TrxContext) {execute : LedgerProg Unit}
    (writes : Writes S execute) : Writes S (runNative ctx execute) :=
  writes.seq fun _ => writes_postRunTrx allowed ctx _

end TrxExecutor

end

/-! ## Code that uses more than the ledgers -/

/-- Items are set and deleted only in the ledgers of `S`, the limiter is used only if
`limiter` holds and the EVM only if transactions are executed for a block; the root and
the height of the last block stay as they are. -/
def within {E : EvmLib} (S : LedgerId → Prop) (limiter : Prop) (exec : Bool) (root : HexBytes)
    (height : Int) : Contract (TrxOp E) where
  asks op :=
    match op with
    | .inl op => (writing S S).asks op
    | .inr .getLimiter => limiter
    | .inr (.setLimiter _) => limiter
    | .inr .getEvm => exec = true
    | .inr (.setEvm m) => exec = true ∧ m.lastRootHash = root ∧ m.lastBlockHeight = height
  grants op answer :=
    match op, answer with
    | .inr .getEvm, m => m.lastRootHash = root ∧ m.lastBlockHeight = height
    | .inl _, _ => True
    | .inr .getLimiter, _ => True
    | .inr (.setLimiter _), _ => True
    | .inr (.setEvm _), _ => True

/-- The ledgers a transaction may write. -/
def WrittenByTrx : LedgerId → Prop
  | .params => False
  | .frozenProposals => False
  | .proposals | .accounts | .delegatees | .frozenStakes | .rewards => True

/-- The ledgers a transaction of a type may write. -/
def WrittenBy (type : TrxType) : LedgerId → Prop
  | .params => False
  | .frozenProposals => False
  | .accounts => True
  | .proposals => type = .proposal ∨ type = .voting
  | .delegatees => type = .staking ∨ type = .unstaking
  | .frozenStakes => type = .unstaking
  | .rewards => type = .withdraw

theorem writtenByTrx_of_writtenBy {type : TrxType} (written : WrittenBy type l) :
    WrittenByTrx l := by
  cases l with
  | params => exact written
  | frozenProposals => exact written
  | accounts | proposals | delegatees | frozenStakes | rewards => trivial

section

variable {E : EvmLib} {α : Type} {S : LedgerId → Prop} {limiter : Prop} {exec : Bool}
  {root : HexBytes} {height : Int}

theorem obeys_ledger {p : LedgerProg α} (writes : Writes S p) :
    Obeys (within (E := E) S limiter exec root height) (fun _ => True) (ledger p) := by
  unfold ledger
  rw [obeys_lift]
  exact (Obeys.weaken writes (fun _ asks => asks) fun _ _ _ => trivial).mono fun _ _ => trivial

theorem EvmCtrler.obeys_execute (accounts : S .accounts) (ctx : TrxContext) {m : EvmMem E}
    (kept : m.lastRootHash = root ∧ m.lastBlockHeight = height) (state : E.State) :
    Obeys (within S limiter true root height) (fun _ => True)
      (execute ctx m state) := by
  have stored (state' : Option E.State) (gasPool : Nat) :
      Obeys (within S limiter true root height) (fun _ => True)
        (setEvm { m with stateDB := state', blockGasPool := gasPool }) :=
    ⟨⟨rfl, kept⟩, fun _ _ => trivial⟩
  have undone (snap : Nat) (applied : Applied E.State) :
      Obeys (within S limiter true root height) (fun _ => True)
        (undo m state snap applied) :=
    (obeys_ledger (writes_finish accounts _ _)).seq fun _ => stored _ _
  refine (obeys_ledger (writes_prepare accounts _ _ _ _)).seq fun ⟨prepared, accessed⟩ => ?_
  refine (obeys_ledger (writes_runEvm accounts _ _ _)).seq fun applied => ?_
  split
  · exact (undone _ _).seq fun _ => trivial
  · split
    · exact (undone _ _).seq fun _ => trivial
    · refine (obeys_ledger (writes_finish accounts _ _)).seq fun _ => (stored _ _).seq fun _ => ?_
      split
      · exact (obeys_ledger (writes_recordCreation accounts _)).seq fun _ => trivial
      · trivial

theorem EvmCtrler.obeys_executeTrx (accounts : S .accounts) (ctx : TrxContext) :
    Obeys (within S limiter ctx.exec root height) (fun _ => True)
      (EvmCtrler.executeTrx ctx : Ctrler E TrxResult) := by
  unfold EvmCtrler.executeTrx
  cases ctx.exec with
  | false => trivial
  | true =>
    refine (obeys_ledger (writes_accountAt trivial _)).seq fun receiver => ?_
    split
    · trivial
    · refine ⟨rfl, fun m kept => ?_⟩
      simp only [Prog.pure_bind]
      split
      · trivial
      · exact obeys_execute accounts ctx kept _

namespace TrxExecutor

theorem obeys_runEvmTrx (accounts : S .accounts) (ctx : TrxContext) :
    Obeys (within S limiter ctx.exec root height) (fun _ => True)
      (runEvmTrx ctx : Ctrler E TrxResult) := by
  refine (obeys_executeTrx accounts ctx).seq fun result => ?_
  split
  · exact obeys_ledger (writes_postRunTrx accounts _ _)
  · split
    · exact obeys_ledger (writes_postRunTrx accounts _ _)
    · trivial

/-- Running a validated transaction writes only the ledgers for its type, and does not use
the limiter. -/
theorem obeys_runTrx_type (ctx : TrxContext) (pubKey : HexBytes)
    (allowed : ∀ l, WrittenBy ctx.tx.type l → S l) :
    Obeys (within S limiter ctx.exec root height) (fun _ => True)
      (runTrx ctx pubKey : Ctrler E TrxResult) := by
  have accounts : S .accounts := allowed .accounts trivial
  have native {execute : LedgerProg Unit} (writes : Writes S execute) :
      Obeys (within S limiter ctx.exec root height) (fun _ => True)
        (ledger (runNative ctx execute) : Ctrler E TrxResult) :=
    obeys_ledger (writes_runNative accounts ctx writes)
  unfold runTrx StakeCtrler.executeTrx
  cases type : ctx.tx.type with
  | contract => exact obeys_runEvmTrx accounts ctx
  | transfer =>
    refine (obeys_ledger (writes_accountAt trivial _)).seq fun receiver => ?_
    split
    · exact obeys_runEvmTrx accounts ctx
    · exact native (AcctCtrler.writes_executeTrx accounts ctx)
  | proposal => exact native (GovCtrler.writes_executeTrx (allowed .proposals (.inl type)) ctx)
  | voting => exact native (GovCtrler.writes_executeTrx (allowed .proposals (.inr type)) ctx)
  | setDoc => exact native (AcctCtrler.writes_executeTrx accounts ctx)
  | staking =>
    exact native (writes_exeStaking trivial (fun _ => trivial) accounts
      (allowed .delegatees (.inl type)) ctx pubKey)
  | unstaking =>
    exact native (writes_exeUnstaking (allowed .delegatees (.inr type))
      (allowed .frozenStakes type) fun _ => trivial)
  | withdraw =>
    exact native (writes_exeWithdraw accounts (allowed .rewards type) ctx)

/-- Running a validated transaction does not use the limiter. -/
theorem obeys_runTrx (ctx : TrxContext) (pubKey : HexBytes) :
    Obeys (within WrittenByTrx limiter ctx.exec root height) (fun _ => True)
      (runTrx ctx pubKey : Ctrler E TrxResult) :=
  obeys_runTrx_type ctx pubKey fun _ => writtenByTrx_of_writtenBy

theorem obeys_checkLimit (validators : Validators) (delegatee : Delegatee) (changePower : Int) :
    Obeys (within S True exec root height) (fun _ => True)
      (checkLimit validators delegatee changePower : Ctrler E Unit) := by
  unfold checkLimit
  split
  · refine Obeys.seq (p := getLimiter) ⟨trivial, fun _ _ => trivial⟩ fun sl => ?_
    refine Obeys.seq (p := setLimiter _) ⟨trivial, fun _ _ => trivial⟩ fun _ => ?_
    split <;> trivial
  · trivial

/-- The validation of a transaction writes no ledger, and does not use the limiter if the
transaction neither stakes nor unstakes. -/
theorem obeys_validateTrx (lib : TrxLib) (json : ParamsJSON) (ctx : TrxContext)
    (asked : ctx.tx.type = .staking ∨ ctx.tx.type = .unstaking → limiter) :
    Obeys (within S limiter exec root height) (fun _ => True)
      (validateTrx lib json ctx : Ctrler E HexBytes) := by
  have limit (used : limiter) (delegatee : Delegatee) (changePower : Int) :
      Obeys (within S limiter exec root height) (fun _ => True)
        (checkLimit ctx.validators delegatee changePower : Ctrler E Unit) := by
    rw [eq_true used]
    exact obeys_checkLimit _ _ _
  refine (obeys_ledger (writes_commonValidation0 _ _)).seq fun pubKey =>
    (obeys_ledger (writes_commonValidation1 _)).seq fun _ => ?_
  unfold StakeCtrler.validateTrx
  cases type : ctx.tx.type with
  | staking =>
    refine Obeys.seq ?_ fun _ => trivial
    exact (obeys_ledger (writes_validateStaking _)).seq fun _ =>
      limit (asked (.inl type)) _ _
  | unstaking =>
    refine Obeys.seq ?_ fun _ => trivial
    exact (obeys_ledger (writes_validateUnstaking _)).seq fun _ =>
      limit (asked (.inr type)) _ _
  | proposal | voting =>
    exact (obeys_ledger (GovCtrler.writes_validateTrx _ _)).seq fun _ => trivial
  | transfer | setDoc => exact (obeys_ledger (AcctCtrler.writes_validateTrx _)).seq fun _ => trivial
  | withdraw => exact (obeys_ledger (writes_validateWithdraw _)).seq fun _ => trivial
  | contract => exact (obeys_ledger (EvmCtrler.writes_validateTrx _)).seq fun _ => trivial

/-- No transaction writes the ledgers of the parameters and of the frozen proposals, and
one that neither stakes nor unstakes does not use the limiter. -/
theorem obeys_executeSync (lib : TrxLib) (json : ParamsJSON) (ctx : TrxContext)
    (asked : ctx.tx.type = .staking ∨ ctx.tx.type = .unstaking → limiter) :
    Obeys (within WrittenByTrx limiter ctx.exec root height) (fun _ => True)
      (executeSync lib json ctx : Ctrler E TrxResult) :=
  (obeys_validateTrx lib json ctx asked).seq fun pubKey => obeys_runTrx ctx pubKey

/-- A transaction writes only the ledgers for its type. -/
theorem obeys_executeSync_type (lib : TrxLib) (json : ParamsJSON) (ctx : TrxContext) :
    Obeys (within (WrittenBy ctx.tx.type) True ctx.exec root height) (fun _ => True)
      (executeSync lib json ctx : Ctrler E TrxResult) :=
  (obeys_validateTrx lib json ctx fun _ => trivial).seq fun pubKey =>
    obeys_runTrx_type ctx pubKey fun _ => id

end TrxExecutor

end

end Rigo
