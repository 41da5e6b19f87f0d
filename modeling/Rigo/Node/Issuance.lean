import Rigo.Ctrlers.Stake.Signing
import Rigo.Node.Entries
import Rigo.Node.Heights
import Rigo.Node.Rewards

/-!
# The issuance of rewards

`BeginBlock` goes through the votes of a block and through the stakes of every validator that
signed, and adds a reward to the record of the owner of each stake.  The sum of what it issues is
the amount of the event `reward`.  The definitions here compute this sum along with what the
model of `BeginBlock` does (`punishAndRewardIssued_forget`).

`Issues h p value stakes` says that the code `p` returns `value` and adds the rewards for `stakes`
to the records of their owners, and changes no other record, where no record is ahead of the
height `h`.  It is proved along the code, from the stake to the block.

`DoReward` does the same for some votes outside of a block.
-/

namespace Rigo

open Foundation
open Delegatee StakeCtrler TrxExecutor

variable {info : BlockInfo} {h : Int} {ls : Stores}

namespace StakeCtrler

open LedgerProg

/-! ## The amounts that are reported -/

/-- One round of the loop of `doRewardTo`, with the amount it issues. -/
def rewardStakeIssued (params : GovParams) (height : Int) (s0 : Stake) : LedgerProg Uint256 := do
  let rwd := Uint256.newInt (uint64OfInt s0.power) * params.rewardPerPower
  match ← get .rewards (toLedgerKey s0.fromAddr) with
  | .ok rwdObj => do
      set .rewards (← Reward.issue rwdObj rwd height)
      return rwd
  | .error e =>
    if e = .errNotFoundResult then do
      set .rewards (← (Reward.newReward s0.fromAddr).issue rwd height)
      return rwd
    else return 0

/-- `doRewardTo`, with the amount it returns. -/
def doRewardToIssued (params : GovParams) (height : Int) (delegatee : Delegatee) :
    LedgerProg Uint256 :=
  delegatee.stakes.foldlM (fun issued s0 => return issued + (← rewardStakeIssued params height s0)) 0

/-- One round of the loop over the votes in `BeginBlock`, with the sum for the event. -/
def processVoteIssued (params : GovParams) (height : Int) (immu : ItemMap Delegatee)
    (issuedReward : Uint256) (vote : VoteInfo) : LedgerProg Uint256 :=
  if vote.signedLastBlock then
    match ItemMap.read immu (toLedgerKey vote.address) with
    | .error _ => return issuedReward
    | .ok delegatee =>
      if delegatee.totalPower ≠ vote.power then return issuedReward
      else return issuedReward + (← doRewardToIssued params height delegatee)
  else do
    missedBlock params height vote.address
    return issuedReward

/-- The reward loop of `BeginBlock`, with the amount of the event `reward`, if there is one. -/
def rewardLoop (params : GovParams) (height : Int) (votes : List VoteInfo) :
    LedgerProg (Option Uint256) :=
  if votes = [] then return none
  else do
    let immu ← ofExcept (← immutableAt .delegatees (heightOfPower height))
    return some (← votes.foldlM (processVoteIssued params height immu) 0)

/-- The second part of `BeginBlock`, with the amount of the event. -/
def punishAndRewardIssued (params : GovParams) (info : BlockInfo) :
    LedgerProg (Option Uint256) := do
  info.byzantines.forM (doPunish params.slashRatio)
  rewardLoop params info.height info.votes

theorem rewardStakeIssued_forget (params : GovParams) (height : Int) (s0 : Stake) :
    (rewardStakeIssued params height s0 >>= fun _ => pure ()) = rewardStake params height s0 := by
  unfold rewardStakeIssued rewardStake
  rw [bind_assoc]
  refine bind_congr fun found => ?_
  cases found with
  | ok rwd =>
    simp only [bind_assoc, pure_bind]
    refine bind_congr fun rwd' => ?_
    exact Prog.bind_pure _
  | error e =>
    simp only
    split
    · simp only [bind_assoc, pure_bind]
      refine bind_congr fun rwd' => ?_
      exact Prog.bind_pure _
    · rfl

theorem doRewardToIssued_forget (params : GovParams) (height : Int) (delegatee : Delegatee) :
    (doRewardToIssued params height delegatee >>= fun _ => pure ()) =
      doRewardTo params height delegatee := by
  refine Prog.foldlM_forget (fun issued s0 => ?_) _ _
  rw [bind_assoc]
  exact rewardStakeIssued_forget params height s0

theorem processVoteIssued_forget (params : GovParams) (height : Int) (immu : ItemMap Delegatee)
    (issuedReward : Uint256) (vote : VoteInfo) :
    (processVoteIssued params height immu issuedReward vote >>= fun _ => pure ()) =
      processVote params height immu vote := by
  unfold processVoteIssued processVote
  split
  · cases ItemMap.read immu (toLedgerKey vote.address) with
    | error e => rfl
    | ok delegatee =>
      simp only
      split
      · rfl
      · rw [bind_assoc]
        exact doRewardToIssued_forget params height delegatee
  · rw [bind_assoc]
    exact Prog.bind_pure _

/-- What `BeginBlock` does, without the amount. -/
theorem punishAndRewardIssued_forget (params : GovParams) (info : BlockInfo) :
    (punishAndRewardIssued params info >>= fun _ => pure ()) = punishAndReward params info := by
  unfold punishAndRewardIssued punishAndReward rewardLoop
  rw [bind_assoc]
  refine bind_congr fun _ => ?_
  split
  · rfl
  · rw [bind_assoc]
    refine bind_congr fun loaded => ?_
    rw [bind_assoc]
    refine bind_congr fun immu => ?_
    rw [bind_assoc]
    exact Prog.foldlM_forget (processVoteIssued_forget params info.height immu) _ _

/-! ## What is issued for stakes -/

/-- The code returns the value and writes only the records of the owners of the stakes. -/
def Issues {α : Type} (h : Int) (p : LedgerProg α) (value : α)
    (stakes : List Stake) : Prop :=
  ∀ ls, Holds .rewards (AtMost h) ls → ∃ ls', exec p ls = (.ok value, ls') ∧
    Holds .rewards (AtMost h) ls' ∧
    ∀ k, (∀ s0 ∈ stakes, toLedgerKey s0.fromAddr ≠ k) →
      (ls' .rewards).lookup k = (ls .rewards).lookup k

section

variable {α β γ : Type} {h : Int}

theorem Issues.seq {p : LedgerProg β} {f : β → LedgerProg α} {value : β} {value' : α}
    {stakes stakes' : List Stake} (first : Issues h p value stakes)
    (next : Issues h (f value) value' stakes') :
    Issues h (p >>= f) value' (stakes ++ stakes') := by
  intro ls behind
  obtain ⟨ls₁, ran₁, behind₁, kept₁⟩ := first ls behind
  obtain ⟨ls₂, ran₂, behind₂, kept₂⟩ := next ls₁ behind₁
  refine ⟨ls₂, ?_, behind₂, fun k others => ?_⟩
  · rw [exec_bind, ran₁]
    exact ran₂
  · rw [kept₂ k fun s0 member => others s0 (List.mem_append_right _ member),
      kept₁ k fun s0 member => others s0 (List.mem_append_left _ member)]

theorem issues_pure (value : α) : Issues h (pure value : LedgerProg α) value [] :=
  fun ls behind => ⟨ls, rfl, behind, fun _ _ => rfl⟩

theorem Issues.returning {p : LedgerProg α} {value : α} {stakes : List Stake}
    (issues : Issues h p value stakes) (f : α → β) :
    Issues h (p >>= fun value => pure (f value)) (f value) stakes := by
  have whole := issues.seq (f := fun value => pure (f value)) (issues_pure (f value))
  rwa [List.append_nil] at whole

theorem Issues.foldlM {f : β → γ → LedgerProg β} {add : β → γ → β} {stakesOf : γ → List Stake}
    (round : ∀ acc x, Issues h (f acc x) (add acc x) (stakesOf x)) (list : List γ)
    (acc : β) : Issues h (list.foldlM f acc) (list.foldl add acc) (list.flatMap stakesOf) := by
  induction list generalizing acc with
  | nil => exact issues_pure acc
  | cons x rest ih =>
    rw [List.foldlM_cons, List.foldl_cons, List.flatMap_cons]
    exact (round acc x).seq (ih (add acc x))

theorem Issues.forM {body : γ → LedgerProg Unit} {stakesOf : γ → List Stake}
    (round : ∀ x, Issues h (body x) () (stakesOf x)) (list : List γ) :
    Issues h (list.forM body) () (list.flatMap stakesOf) := by
  induction list with
  | nil => exact issues_pure ()
  | cons x rest ih =>
    rw [List.forM, List.flatMap_cons]
    exact (round x).seq ih

/-- Code that does not write the rewards. -/
theorem issues_of_writes {S : LedgerId → Prop} {p : LedgerProg α} {value : α} (writes : Writes S p)
    (other : ¬ S .rewards) (returns : ∀ ls, (exec p ls).1 = .ok value) :
    Issues h p value [] := by
  intro ls behind
  have ran : exec p ls = (.ok value, (exec p ls).2) := Prod.ext (returns ls) rfl
  have same := writes.frame other ran
  refine ⟨_, ran, ?_, fun k _ => by rw [same]⟩
  unfold Holds
  rw [same]
  exact behind

end

theorem exec_rewardStakeIssued {params : GovParams} {s0 : Stake}
    (behind : (recordOf ls s0).height ≤ h) :
    exec (rewardStakeIssued params h s0) ls = (.ok (rewardFor params s0),
      ls.put .rewards ((recordOf ls s0).issuedTo (rewardFor params s0) h)) := by
  unfold rewardStakeIssued
  rw [exec_bind, exec_get, Store.get]
  unfold recordOf at behind ⊢
  cases found : (ls .rewards).lookup (toLedgerKey s0.fromAddr) with
  | none =>
    rw [found, Option.getD_none] at behind
    simp only [andThen_ok, found_none, if_true, Reward.issue_eq]
    rw [if_pos behind]
    rfl
  | some rwd =>
    rw [found, Option.getD_some] at behind
    simp only [andThen_ok, found_some, Reward.issue_eq]
    rw [if_pos behind]
    rfl

theorem issues_rewardStake (params : GovParams) (positive : 0 ≤ h) (s0 : Stake) :
    Issues h (rewardStakeIssued params h s0) (rewardFor params s0) [s0] := by
  intro ls behind
  have record : (recordOf ls s0).height ≤ h := by
    unfold recordOf
    cases found : (ls .rewards).lookup (toLedgerKey s0.fromAddr) with
    | none => exact positive
    | some rwd => exact behind.2 _ rwd found
  have ran : exec (rewardStakeIssued params h s0) ls = (.ok (rewardFor params s0), _) :=
    exec_rewardStakeIssued record
  have key : LedgerItem.key ((recordOf ls s0).issuedTo (rewardFor params s0) h) =
      toLedgerKey s0.fromAddr := key_recordOf ls s0
  have lookup (k : LedgerKey) := Store.lookup_set_of_removed behind.1
    ((recordOf ls s0).issuedTo (rewardFor params s0) h) k
  rw [key] at lookup
  refine ⟨_, ran, ⟨by rw [Stores.put_self]; exact behind.1, fun k rwd found => ?_⟩,
    fun k others => ?_⟩
  · rw [Stores.put_self, lookup] at found
    split at found
    · cases found
      exact le_rfl
    · exact behind.2 k rwd found
  · rw [Stores.put_self, lookup, if_neg (others s0 List.mem_cons_self)]

/-- The sum of the rewards for some stakes, as it is computed. -/
def issuedTotal (params : GovParams) (stakes : List Stake) : Uint256 :=
  (stakes.map (rewardFor params)).sum

theorem issues_doRewardTo (params : GovParams) (positive : 0 ≤ h)
    (delegatee : Delegatee) :
    Issues h (doRewardToIssued params h delegatee) (issuedTotal params delegatee.stakes)
      delegatee.stakes := by
  have loop := Issues.foldlM (fun issued s0 => (issues_rewardStake params positive s0).returning
    fun rwd => issued + rwd) delegatee.stakes 0
  rwa [List.flatMap_singleton', ← List.foldl_map (f := rewardFor params) (g := (· + ·)),
    ← List.sum_eq_foldl] at loop

theorem exec_missedBlock (params : GovParams) (height : Int) (addr : Address) (ls : Stores) :
    (exec (missedBlock params height addr) ls).1 = .ok () := by
  unfold missedBlock
  rw [exec_bind, exec_get]
  cases (ls .delegatees).get (toLedgerKey addr) with
  | error e => rfl
  | ok delegatee =>
    simp only [andThen_ok, exec_bind, exec_set]
    split
    · rw [stopValidator, exec_bind, exec_freezeStakes]
      rfl
    · rfl

theorem issues_processVote (params : GovParams) (positive : 0 ≤ h)
    (immu : ItemMap Delegatee) (issuedReward : Uint256) (vote : VoteInfo) :
    Issues h (processVoteIssued params h immu issuedReward vote)
      (issuedReward + issuedTotal params (rewardedBy immu vote)) (rewardedBy immu vote) := by
  have nothing : Issues h (pure issuedReward) (issuedReward + issuedTotal params []) [] := by
    rw [issuedTotal, List.map_nil, List.sum_nil, add_zero]
    exact issues_pure issuedReward
  unfold processVoteIssued rewardedBy
  split
  · rw [ItemMap.read_eq]
    cases immu.find? (toLedgerKey vote.address) with
    | none => exact nothing
    | some delegatee =>
      simp only [found_some]
      by_cases same : delegatee.totalPower = vote.power
      · simp only [same, ne_eq, not_true_eq_false, if_false, if_true]
        exact (issues_doRewardTo params positive delegatee).returning fun issued =>
          issuedReward + issued
      · simp only [same, ne_eq, not_false_eq_true, if_true, if_false]
        exact nothing
  · have missed : Issues h (missedBlock params h vote.address) () [] :=
      issues_of_writes (writes_missedBlock (S := fun l => l ≠ .rewards) (by decide) (by decide)
        _ _ _) (not_not.mpr rfl) (exec_missedBlock params h vote.address)
    exact missed.seq nothing

/-- The rewards of some votes. -/
theorem issues_rewardVotes (params : GovParams) (positive : 0 ≤ h)
    (immu : ItemMap Delegatee) (votes : List VoteInfo) :
    Issues h (votes.foldlM (processVoteIssued params h immu) 0)
      (issuedTotal params (votes.flatMap (rewardedBy immu))) (votes.flatMap (rewardedBy immu)) := by
  have loop := Issues.foldlM (issues_processVote params positive immu) votes 0
  have total : votes.foldl (fun issued vote => issued + issuedTotal params (rewardedBy immu vote)) 0 =
      issuedTotal params (votes.flatMap (rewardedBy immu)) := by
    rw [← List.foldl_map (f := fun vote => issuedTotal params (rewardedBy immu vote))
      (g := (· + ·)), ← List.sum_eq_foldl, issuedTotal, List.map_flatMap, List.flatMap_def,
      List.sum_flatten, List.map_map]
    rfl
  rwa [total] at loop

/-! ## The validators that signed -/

/-- The delegatee of a snapshot that a vote is of. -/
def signer (immu : ItemMap Delegatee) (vote : VoteInfo) : Option Delegatee :=
  if vote.signedLastBlock then
    (immu.find? (toLedgerKey vote.address)).filter fun d => d.totalPower = vote.power
  else none

/-- The delegatees of a snapshot that signed and have the power of their vote. -/
def signers (immu : ItemMap Delegatee) (votes : List VoteInfo) : List Delegatee :=
  immu.items.filter fun d => votes.any fun vote =>
    vote.signedLastBlock && LedgerItem.key d == toLedgerKey vote.address &&
      d.totalPower == vote.power

section

variable {immu : ItemMap Delegatee} {votes : List VoteInfo}

theorem signer_eq_some {vote : VoteInfo} {d : Delegatee} :
    signer immu vote = some d ↔ vote.signedLastBlock = true ∧
      immu.find? (toLedgerKey vote.address) = some d ∧ d.totalPower = vote.power := by
  unfold signer
  split
  · next signed => simp [signed, Option.filter_eq_some_iff]
  · next absent => simp [absent]

theorem rewardedBy_eq (immu : ItemMap Delegatee) (vote : VoteInfo) :
    rewardedBy immu vote = (signer immu vote).toList.flatMap stakes := by
  unfold rewardedBy signer
  split
  · cases immu.find? (toLedgerKey vote.address) with
    | none => rfl
    | some d =>
      by_cases same : d.totalPower = vote.power
      · simp [Option.filter, same]
      · simp [Option.filter, same]
  · rfl

theorem filterMap_signer_perm (distinct : (votes.map fun vote => toLedgerKey vote.address).Nodup) :
    (votes.filterMap (signer immu)).Perm (signers immu votes) := by
  refine (List.perm_ext_iff_of_nodup ?_ (immu.nodup_items.filter _)).mpr fun d => ?_
  · rw [List.Nodup, List.pairwise_map] at distinct
    refine distinct.filterMap (signer immu) fun vote vote' other d signed d' signed' same => other ?_
    subst same
    rw [← KeyedMap.key_of_find? (signer_eq_some.mp signed).2.1,
      ← KeyedMap.key_of_find? (signer_eq_some.mp signed').2.1]
  · rw [List.mem_filterMap, List.mem_filter]
    constructor
    · rintro ⟨vote, member, signed⟩
      obtain ⟨signed, found, power⟩ := signer_eq_some.mp signed
      refine ⟨KeyedMap.mem_items_of_find? found, List.any_eq_true.mpr ⟨vote, member, ?_⟩⟩
      have key := KeyedMap.key_of_find? found
      simp [signed, key, power]
    · rintro ⟨listed, some⟩
      obtain ⟨vote, member, matching⟩ := List.any_eq_true.mp some
      simp only [Bool.and_eq_true, beq_iff_eq] at matching
      obtain ⟨⟨signed, key⟩, power⟩ := matching
      refine ⟨vote, member, signer_eq_some.mpr ⟨signed, ?_, power⟩⟩
      rw [← key]
      exact KeyedMap.mem_items.mp listed

/-- The stakes that get a reward are those of the delegatees that signed. -/
theorem rewarded_perm (immu : ItemMap Delegatee)
    (distinct : (votes.map fun vote => toLedgerKey vote.address).Nodup) :
    (votes.flatMap (rewardedBy immu)).Perm ((signers immu votes).flatMap stakes) := by
  have flat : votes.flatMap (rewardedBy immu) =
      (votes.filterMap (signer immu)).flatMap stakes := by
    induction votes with
    | nil => rfl
    | cons vote rest ih =>
      rw [List.flatMap_cons, ih (List.nodup_cons.mp distinct).2, rewardedBy_eq,
        List.filterMap_cons]
      cases signer immu vote with
      | none => rfl
      | some d => simp
  rw [flat]
  exact (filterMap_signer_perm distinct).flatMap_right _

end

/-! ## Amounts -/

/-- The rewards for some stakes are amounts, and fit into 256 bits, also together with what the
records of the owners have. -/
structure Fits (params : GovParams) (ls : Stores) (stakes : List Stake) : Prop where
  int64 : ∀ s0 ∈ stakes, s0.power < 2 ^ 63
  amounts : ∀ s0 ∈ stakes, 0 ≤ (params.rewardPerPower.toNat : Int) * s0.power
  total : (params.rewardPerPower.toNat : Int) * (stakes.map Stake.power).sum < 2 ^ 256
  records : ∀ k, (ls.cumulated k : Int) + params.rewardPerPower.toNat *
    ((stakes.filter fun s0 => toLedgerKey s0.fromAddr = k).map Stake.power).sum < 2 ^ 256

section

variable {params : GovParams} {ls : Stores} {stakes stakes' : List Stake}

theorem Fits.of_perm (fits : Fits params ls stakes) (perm : stakes'.Perm stakes) :
    Fits params ls stakes' := by
  refine ⟨fun s0 member => fits.int64 s0 (perm.mem_iff.mp member),
    fun s0 member => fits.amounts s0 (perm.mem_iff.mp member), ?_, fun k => ?_⟩
  · rw [(perm.map _).sum_eq]
    exact fits.total
  · rw [((perm.filter _).map _).sum_eq]
    exact fits.records k

/-- What is issued for a stake, over the integers. -/
theorem rewardFor_toNat {s0 : Stake} (int64 : s0.power < 2 ^ 63)
    (amount : 0 ≤ (params.rewardPerPower.toNat : Int) * s0.power)
    (small : (params.rewardPerPower.toNat : Int) * s0.power < 2 ^ 256) :
    ((rewardFor params s0).toNat : Int) = params.rewardPerPower.toNat * s0.power := by
  unfold rewardFor Uint256.newInt
  rw [BitVec.toNat_mul, BitVec.toNat_ofNat]
  rcases Nat.eq_zero_or_pos params.rewardPerPower.toNat with zero | positive
  · simp [zero]
  · have nonneg : 0 ≤ s0.power := nonneg_of_mul_nonneg_right amount (by omega)
    rw [uint64OfInt_of_nonneg nonneg (by omega)]
    obtain ⟨power, same⟩ := Int.eq_ofNat_of_zero_le nonneg
    rw [same] at small int64 ⊢
    rw [Int.toNat_natCast, Nat.mod_eq_of_lt (by omega : power < 2 ^ 256),
      Nat.mod_eq_of_lt (by rw [Nat.mul_comm]; exact_mod_cast small)]
    push_cast
    ring

theorem Fits.rewardFor (fits : Fits params ls stakes) :
    ∀ s0 ∈ stakes, ((rewardFor params s0).toNat : Int) =
      params.rewardPerPower.toNat * s0.power := by
  intro s0 member
  refine rewardFor_toNat (fits.int64 s0 member) (fits.amounts s0 member) (lt_of_le_of_lt ?_ fits.total)
  rw [← List.sum_map_mul_left]
  refine List.single_le_sum (fun x present => ?_) _ (List.mem_map_of_mem member)
  obtain ⟨s0', member', rfl⟩ := List.mem_map.mp present
  exact fits.amounts s0' member'

/-- What is issued to the owner with a key, over the integers. -/
theorem Fits.issuedFor (fits : Fits params ls stakes) (k : LedgerKey) :
    (StakeCtrler.issuedFor params stakes k : Int) = params.rewardPerPower.toNat *
      ((stakes.filter fun s0 => toLedgerKey s0.fromAddr = k).map Stake.power).sum := by
  have own := fits.rewardFor
  clear fits
  induction stakes with
  | nil => simp [StakeCtrler.issuedFor]
  | cons s0 rest ih =>
    have others := ih fun s0' member => own s0' (List.mem_cons_of_mem _ member)
    have first := own s0 List.mem_cons_self
    unfold StakeCtrler.issuedFor at others ⊢
    rw [List.map_cons, List.sum_cons, Nat.cast_add, others, rewardAt]
    by_cases here : toLedgerKey s0.fromAddr = k
    · rw [if_pos here, List.filter_cons_of_pos (by simpa using here), List.map_cons,
        List.sum_cons, first]
      ring
    · rw [if_neg here, List.filter_cons_of_neg (by simpa using here)]
      simp

/-- A sum of 256-bit numbers. -/
theorem toNat_sum (list : List Uint256) :
    list.sum.toNat = (list.map BitVec.toNat).sum % 2 ^ 256 := by
  induction list with
  | nil => rfl
  | cons x rest ih =>
    rw [List.sum_cons, BitVec.toNat_add, ih, List.map_cons, List.sum_cons, Nat.add_mod_mod]

/-- What is reported, over the integers. -/
theorem Fits.issuedTotal (fits : Fits params ls stakes) :
    ((StakeCtrler.issuedTotal params stakes).toNat : Int) =
      params.rewardPerPower.toNat * (stakes.map Stake.power).sum := by
  have sum : (((stakes.map fun s0 => (StakeCtrler.rewardFor params s0).toNat).sum : Nat) : Int) =
      params.rewardPerPower.toNat * (stakes.map Stake.power).sum := by
    rw [Nat.cast_list_sum, List.map_map, ← List.sum_map_mul_left]
    exact congrArg List.sum (List.map_congr_left fits.rewardFor)
  have small := fits.total
  rw [← sum] at small ⊢
  rw [StakeCtrler.issuedTotal, toNat_sum, List.map_map]
  exact congrArg Nat.cast (Nat.mod_eq_of_lt (by exact_mod_cast small))

/-- What the owners get is what is issued. -/
theorem sum_owners (stakes : List Stake) {owners : Finset Address}
    (all : ∀ s0 ∈ stakes, s0.fromAddr ∈ owners) :
    ∑ a ∈ owners, ((stakes.filter fun s0 => s0.fromAddr = a).map Stake.power).sum =
      (stakes.map Stake.power).sum := by
  induction stakes with
  | nil => simp
  | cons s0 rest ih =>
    rw [List.map_cons, List.sum_cons, ← ih fun s0' member => all s0' (List.mem_cons_of_mem _ member),
      ← Finset.sum_ite_eq_of_mem owners s0.fromAddr (fun _ => s0.power) (all s0 List.mem_cons_self),
      ← Finset.sum_add_distrib]
    refine Finset.sum_congr rfl fun a _ => ?_
    by_cases own : s0.fromAddr = a
    · rw [List.filter_cons_of_pos (by simpa using own), List.map_cons, List.sum_cons, if_pos own]
    · rw [List.filter_cons_of_neg (by simpa using own), if_neg own, zero_add]

/-- The power of the stakes of an owner, over some delegatees. -/
def powerOwned (delegatees : List Delegatee) (a : Address) : Int :=
  (((delegatees.flatMap Delegatee.stakes).filter fun s0 => s0.fromAddr = a).map Stake.power).sum

theorem filter_key_eq {a : Address} (size : a.length = addrSize)
    (sized : ∀ s0 ∈ stakes, s0.fromAddr.length = addrSize) :
    (stakes.filter fun s0 => toLedgerKey s0.fromAddr = toLedgerKey a) =
      stakes.filter fun s0 => s0.fromAddr = a := by
  refine List.filter_congr fun s0 member => decide_eq_decide.mpr ⟨fun same => ?_, congrArg _⟩
  have own := sized s0 member
  exact toLedgerKey_injOn (own.le.trans (by decide)) (own.trans size.symm) same

end

/-! ## The rewards of a block -/

theorem issues_doPunish (slashRatio : Int) (addr : Address) :
    Issues h (doPunish slashRatio addr) () [] := by
  refine issues_of_writes (writes_doPunish (S := fun l => l ≠ .rewards) (by decide) _ _)
    (not_not.mpr rfl) fun ls => ?_
  unfold doPunish
  rw [exec_bind, exec_get]
  cases (ls .delegatees).get (toLedgerKey addr) <;> rfl

/-- What `BeginBlock` reports, and what it issues. -/
theorem issues_punishAndReward (params : GovParams) {immu : ItemMap Delegatee}
    (loaded : (ls .delegatees).tree.lazyLoadVersion (heightOfPower info.height) = .ok immu)
    (positive : 0 ≤ info.height) (behind : Holds .rewards (AtMost info.height) ls) :
    ∃ ls', exec (punishAndRewardIssued params info) ls =
        (.ok (if info.votes = [] then none
          else some (issuedTotal params (info.votes.flatMap (rewardedBy immu)))), ls') ∧
      ∀ k, (∀ s0 ∈ info.votes.flatMap (rewardedBy immu), toLedgerKey s0.fromAddr ≠ k) →
        (ls' .rewards).lookup k = (ls .rewards).lookup k := by
  obtain ⟨ls₁, punished, behind₁, -⟩ := Issues.forM
    (issues_doPunish (h := info.height) params.slashRatio) info.byzantines ls behind
  have kept : ls₁ .rewards = ls .rewards :=
    Calm.frame (S := fun l => l ≠ .rewards) (Calm.forM _ fun _ => writes_doPunish (by decide) _ _)
      (not_not.mpr rfl) punished
  have tree := tree_of_exec punished .delegatees
  unfold punishAndRewardIssued rewardLoop
  rw [exec_bind, punished, andThen_ok]
  by_cases none : info.votes = []
  · exact ⟨ls₁, by rw [if_pos none, if_pos none]; rfl, fun k _ => by rw [kept]⟩
  · obtain ⟨ls₂, ran, -, others⟩ :=
      issues_rewardVotes params positive immu info.votes ls₁ behind₁
    refine ⟨ls₂, ?_, fun k other => ?_⟩
    · rw [if_neg none, if_neg none, exec_bind, exec_immutableAt, tree, loaded]
      change exec (info.votes.foldlM (processVoteIssued params info.height immu) 0 >>=
        fun issued => pure (some issued)) ls₁ = _
      rw [exec_bind, ran]
      rfl
    · rw [others k other, kept]

/-- What `BeginBlock` should do to the records, and report: every address gets the reward per
power times the power of its stakes on the validators that signed, no other record is changed, and
what is reported is the sum of this, which is the reward per power times the power of these
validators. -/
structure Exact (params : GovParams) (votes : List VoteInfo) (immu : ItemMap Delegatee)
    (reported : Option Uint256) (ls ls' : Stores) : Prop where
  increase : ∀ a, a.length = addrSize → (ls'.cumulated (toLedgerKey a) : Int) =
    ls.cumulated (toLedgerKey a) + params.rewardPerPower.toNat * powerOwned (signers immu votes) a
  others : ∀ k, (∀ d ∈ signers immu votes, ∀ s0 ∈ d.stakes, toLedgerKey s0.fromAddr ≠ k) →
    (ls' .rewards).lookup k = (ls .rewards).lookup k
  reported : votes ≠ [] → ∃ issued, reported = some issued ∧
    (issued.toNat : Int) =
      params.rewardPerPower.toNat * ((signers immu votes).map Delegatee.totalPower).sum ∧
    ∀ owners : Finset Address, (∀ a ∈ owners, a.length = addrSize) →
      (∀ d ∈ signers immu votes, ∀ s0 ∈ d.stakes, s0.fromAddr ∈ owners) →
      (issued.toNat : Int) = ∑ a ∈ owners, ((ls'.cumulated (toLedgerKey a) : Int) -
        ls.cumulated (toLedgerKey a))

/-- The votes are of distinct validators, the snapshot has the sums of its stakes as their powers,
and the amounts fit. -/
structure RegularVotes (params : GovParams) (votes : List VoteInfo) (immu : ItemMap Delegatee)
    (ls : Stores) : Prop where
  distinct : (votes.map fun vote => toLedgerKey vote.address).Nodup
  sized : ∀ d ∈ signers immu votes, ∀ s0 ∈ d.stakes, s0.fromAddr.length = addrSize
  summed : ∀ d ∈ signers immu votes, d.totalPower = (d.stakes.map Stake.power).sum
  fits : Fits params ls ((signers immu votes).flatMap Delegatee.stakes)

theorem punishAndReward_exact {params : GovParams} {immu : ItemMap Delegatee}
    (loaded : (ls .delegatees).tree.lazyLoadVersion (heightOfPower info.height) = .ok immu)
    (positive : 0 ≤ info.height) (behind : Holds .rewards (AtMost info.height) ls)
    (regular : RegularVotes params info.votes immu ls) :
    ∃ reported ls', exec (punishAndRewardIssued params info) ls = (.ok reported, ls') ∧
      exec (punishAndReward params info) ls = (.ok (), ls') ∧
      Exact params info.votes immu reported ls ls' := by
  obtain ⟨distinct, sized, summed, fits⟩ := regular
  obtain ⟨ls', ran, others⟩ := issues_punishAndReward params loaded positive behind
  have forgotten : exec (punishAndReward params info) ls = (.ok (), ls') := by
    rw [← punishAndRewardIssued_forget, exec_bind, ran]
    rfl
  have added := (punishAndReward_cumulated behind.1 forgotten).2
  simp only [issuedAt, rewardedStakes, loaded] at added
  have perm := rewarded_perm immu distinct
  have fits' := fits.of_perm perm
  have sized' : ∀ s0 ∈ (signers immu info.votes).flatMap stakes,
      s0.fromAddr.length = addrSize := by
    intro s0 member
    obtain ⟨d, signed, held⟩ := List.mem_flatMap.mp member
    exact sized d signed s0 held
  have increase (a : Address) (size : a.length = addrSize) :
      (ls'.cumulated (toLedgerKey a) : Int) = ls.cumulated (toLedgerKey a) +
        params.rewardPerPower.toNat * powerOwned (signers immu info.votes) a := by
    have issued := fits'.issuedFor (toLedgerKey a)
    rw [((perm.filter _).map _).sum_eq, filter_key_eq size sized'] at issued
    have small := fits.records (toLedgerKey a)
    rw [filter_key_eq size sized', ← issued] at small
    rw [added _ (by exact_mod_cast small), Nat.cast_add, issued]
    rfl
  refine ⟨_, ls', ran, forgotten, increase, fun k other => others k fun s0 member => ?_,
    fun nonempty => ?_⟩
  · obtain ⟨d, signed, held⟩ := List.mem_flatMap.mp (perm.mem_iff.mp member)
    exact other d signed s0 held
  · have total := fits'.issuedTotal
    rw [(perm.map _).sum_eq] at total
    refine ⟨_, if_neg nonempty, ?_, fun owners size all => ?_⟩
    · rw [total, List.map_flatMap, List.flatMap_def, List.sum_flatten, List.map_map]
      exact congrArg _ (congrArg List.sum (List.map_congr_left fun d signed => (summed d signed).symm))
    · have everybody : ∀ s0 ∈ (signers immu info.votes).flatMap stakes,
          s0.fromAddr ∈ owners := by
        intro s0 member
        obtain ⟨d, signed, held⟩ := List.mem_flatMap.mp member
        exact all d signed s0 held
      rw [total, ← sum_owners _ everybody, Finset.mul_sum]
      refine Finset.sum_congr rfl fun a member => ?_
      rw [increase a (size a member)]
      unfold powerOwned
      ring

/-! ## `DoReward` -/

/-- The height whose powers `DoReward` takes. -/
def heightForReward (height : Int) : Int :=
  if i64 (height - 4) ≤ 0 then 1 else i64 (height - 4)

/-- One round of the loop of `DoReward`. -/
def doRewardRound (params : GovParams) (height : Int) (immu : ItemMap Delegatee)
    (issuedReward : Uint256) (vote : VoteInfo) : LedgerProg Uint256 :=
  if vote.signedLastBlock then
    match ItemMap.read immu (toLedgerKey vote.address) with
    | .error _ => return issuedReward
    | .ok delegatee =>
      if delegatee.totalPower ≠ vote.power then
        crash (.explicit ("delegatee(" ++ HexBytes.toHex delegatee.addr ++ ")'s power(" ++
          toString delegatee.totalPower ++ ") is not same as the power(" ++ toString vote.power ++
          ") of VoteInfo at block[" ++ toString (heightForReward height) ++ "]"))
      else return issuedReward + (← doRewardToIssued params height delegatee)
  else return issuedReward

/-- `DoReward`. -/
def doReward (params : GovParams) (height : Int) (votes : List VoteInfo) :
    LedgerProg (Option Uint256) :=
  if votes = [] then return none
  else do
    let immu ← ofExcept (← immutableAt .delegatees (heightForReward height))
    return some (← votes.foldlM (doRewardRound params height immu) 0)

/-- The outcome is not a panic. -/
def NoPanic {α : Type} (outcome : Except Fault α) : Prop := ∀ p, outcome ≠ .error (.panic p)

section

variable {params : GovParams} {height : Int} {immu : ItemMap Delegatee}

/-- The rounds of the two loops agree for a vote of a validator that signed, unless `DoReward`
panics. -/
theorem processVoteIssued_eq {vote : VoteInfo} (signed : vote.signedLastBlock = true)
    (issuedReward : Uint256) :
    processVoteIssued params height immu issuedReward vote =
        doRewardRound params height immu issuedReward vote ∨
      ∃ p, doRewardRound params height immu issuedReward vote = crash p := by
  unfold processVoteIssued doRewardRound
  rw [if_pos signed, if_pos signed]
  cases ItemMap.read immu (toLedgerKey vote.address) with
  | error e => exact .inl rfl
  | ok delegatee =>
    simp only
    split
    · exact .inr ⟨_, rfl⟩
    · exact .inl rfl

/-- The two loops agree for votes of validators that signed, unless `DoReward` panics. -/
theorem exec_rewardVotes_eq {votes : List VoteInfo}
    (signed : ∀ vote ∈ votes, vote.signedLastBlock = true) (issuedReward : Uint256) (ls : Stores)
    (calm : NoPanic (exec (votes.foldlM (doRewardRound params height immu) issuedReward) ls).1) :
    exec (votes.foldlM (processVoteIssued params height immu) issuedReward) ls =
      exec (votes.foldlM (doRewardRound params height immu) issuedReward) ls := by
  induction votes generalizing issuedReward ls with
  | nil => rfl
  | cons vote rest ih =>
    rw [List.foldlM_cons, exec_bind] at calm ⊢
    rw [List.foldlM_cons, exec_bind]
    rcases processVoteIssued_eq (signed vote List.mem_cons_self) issuedReward with same | ⟨p, panics⟩
    · rw [same]
      generalize exec (doRewardRound params height immu issuedReward vote) ls = outcome at calm ⊢
      obtain ⟨_ | issued, ls₁⟩ := outcome
      · rfl
      · exact ih (fun vote' member => signed vote' (List.mem_cons_of_mem _ member)) issued ls₁ calm
    · rw [panics] at calm
      exact absurd rfl (calm p)

end

/-- The version that is read when a version is asked for. -/
def versionRead (ls : Stores) (target : Int) : Int :=
  if target ≤ 0 then (ls .delegatees).tree.version else target

/-- The reward loop of `BeginBlock` and `DoReward` read the same version of the delegatees, and do
the same: they issue the same rewards to the same addresses and report the same sum, or fail in
the same way. -/
structure RewardsAgree (params : GovParams) (height : Int) (votes : List VoteInfo) (ls : Stores) :
    Prop where
  version : versionRead ls (heightOfPower height) = versionRead ls (heightForReward height)
  outcome : exec (rewardLoop params height votes) ls = exec (doReward params height votes) ls

/-- Two targets that are the same version. -/
theorem lazyLoadVersion_one (first : (ls .delegatees).tree.version = 1) :
    (ls .delegatees).tree.lazyLoadVersion 0 = (ls .delegatees).tree.lazyLoadVersion 1 := by
  have single : (ls .delegatees).tree.versions.length = 1 := by
    have count : ((ls .delegatees).tree.versions.length : Int) = 1 := first
    exact_mod_cast count
  obtain ⟨saved, only⟩ := List.length_eq_one_iff.mp single
  unfold Tree.lazyLoadVersion Tree.lastSaved
  rw [first, only]
  rfl

/-- On every history of the delegatees, for every height from 2 on and all votes of validators that
signed, on which `DoReward` does not panic: the reward loop of `BeginBlock` and `DoReward` agree
exactly if the height is not 4, or the last version is the first. -/
theorem rewardsAgree_iff {params : GovParams} {height : Int} {votes : List VoteInfo} {ls : Stores}
    (low : 2 ≤ height) (high : height < 2 ^ 63) (nonempty : votes ≠ [])
    (signed : ∀ vote ∈ votes, vote.signedLastBlock = true)
    (calm : NoPanic (exec (doReward params height votes) ls).1) :
    RewardsAgree params height votes ls ↔ (height = 4 → (ls .delegatees).tree.version = 1) := by
  have before : i64 (height - 4) = height - 4 := i64_of_range (by omega) (by omega)
  -- the loops agree on one snapshot
  have agree (same : (ls .delegatees).tree.lazyLoadVersion (heightOfPower height) =
      (ls .delegatees).tree.lazyLoadVersion (heightForReward height)) :
      exec (rewardLoop params height votes) ls = exec (doReward params height votes) ls := by
    unfold doReward at calm ⊢
    unfold rewardLoop
    rw [if_neg nonempty, exec_bind, exec_immutableAt] at calm ⊢
    rw [if_neg nonempty, exec_bind, exec_immutableAt, same]
    cases loaded : (ls .delegatees).tree.lazyLoadVersion (heightForReward height) with
    | error e => rfl
    | ok immu =>
      rw [loaded] at calm
      change NoPanic (exec (votes.foldlM (doRewardRound params height immu) 0 >>=
        fun issued => pure (some issued)) ls).1 at calm
      change exec (votes.foldlM (processVoteIssued params height immu) 0 >>=
        fun issued => pure (some issued)) ls =
          exec (votes.foldlM (doRewardRound params height immu) 0 >>=
            fun issued => pure (some issued)) ls
      rw [exec_bind] at calm
      rw [exec_bind, exec_bind, exec_rewardVotes_eq signed]
      intro p panics
      generalize exec (votes.foldlM (doRewardRound params height immu) 0) ls = outcome
        at calm panics
      obtain ⟨outcome, ls'⟩ := outcome
      obtain rfl : outcome = .error (.panic p) := panics
      exact calm p rfl
  constructor
  · intro agree four
    have version := agree.version
    subst four
    exact version
  · intro same
    by_cases four : height = 4
    · subst four
      exact ⟨same rfl, agree (lazyLoadVersion_one (same rfl))⟩
    · have equal : heightOfPower height = heightForReward height := by
        unfold heightOfPower heightForReward
        rw [before]
        split <;> split <;> omega
      exact ⟨by rw [equal], agree (by rw [equal])⟩

/-! ### A delegatee that has grown -/

/-- A validator with a stake of its own and one of somebody else. -/
def sharedDelegatee : Delegatee :=
  { Delegatee.newDelegatee (Concrete.addr 1) (Concrete.addr 1) with
    selfPower := 10
    totalPower := 15
    stakes := [⟨Concrete.addr 1, Concrete.addr 1, [], 1, 0, 10⟩,
      ⟨Concrete.addr 2, Concrete.addr 1, [], 1, 0, 5⟩] }

/-- The validator without the stake of somebody else. -/
def aloneDelegatee : Delegatee :=
  { sharedDelegatee with totalPower := 10, stakes := sharedDelegatee.stakes.take 1 }

/-- Three versions of the ledgers; the stake of somebody else is in the last one only. -/
def grownStores : Stores := fun l =>
  (Stores.put (fun l => (Stores.put (fun _ => Store.new Tree.empty) .delegatees aloneDelegatee
    l).commit.commit) .delegatees sharedDelegatee l).commit

/-- The vote of the validator, with the power of the first version. -/
def earlyVotes : List VoteInfo := [⟨Concrete.addr 1, 10, true⟩]

/-- At height 4 `DoReward` issues a reward by the first version, and `BeginBlock` none, as it finds
another power in the last version. -/
theorem rewards_disagree :
    NoPanic (exec (doReward GovParams.defaultGovParams 4 earlyVotes) grownStores).1 ∧
      (exec (doReward GovParams.defaultGovParams 4 earlyVotes) grownStores).1.toOption =
        some (some (4756468797 * 10)) ∧
      (exec (rewardLoop GovParams.defaultGovParams 4 earlyVotes) grownStores).1.toOption =
        some (some 0) ∧
      versionRead grownStores (heightOfPower 4) = 3 ∧
      versionRead grownStores (heightForReward 4) = 1 ∧
      ¬ RewardsAgree GovParams.defaultGovParams 4 earlyVotes grownStores := by
  have issued : (exec (doReward GovParams.defaultGovParams 4 earlyVotes) grownStores).1.toOption =
      some (some (4756468797 * 10)) := by decide +kernel
  refine ⟨fun p panics => ?_, issued, by decide +kernel, by decide +kernel, by decide +kernel,
    fun agree => absurd agree.version (by decide +kernel)⟩
  rw [panics] at issued
  cases issued

/-- At height 5 both take the first version. -/
theorem rewardsAgree_five :
    RewardsAgree GovParams.defaultGovParams 5 earlyVotes grownStores := by
  refine (rewardsAgree_iff (by decide) (by decide) (by decide) (by decide) fun p panics => ?_).mpr
    (by decide)
  have issued : (exec (doReward GovParams.defaultGovParams 5 earlyVotes) grownStores).1.toOption =
      some (some (4756468797 * 10)) := by decide +kernel
  rw [panics] at issued
  cases issued

/-! ## No record is ahead of the chain -/

section

variable {h height : Int} (reached : height ≤ h)

include reached

theorem files_punishAndReward (params : GovParams) (now : info.height = height) :
    Files False .rewards (fun rwd => rwd.height ≤ h) (punishAndReward params info) := by
  have calm : Calm _ (fun _ => True) _ :=
    calm_punishAndReward reached (fun _ _ _ => trivial) params now
  exact Obeys.files (calm.mono fun _ _ => trivial)

theorem files_exeWithdraw {ctx : TrxContext} (now : ctx.height = height) :
    Files False .rewards (fun rwd => rwd.height ≤ h) (exeWithdraw ctx) := by
  unfold exeWithdraw
  split
  · next req _ =>
    refine (fetches_get _).bind fun answer _ => (returns_ofExcept answer).bind fun rwd _ => ?_
    rw [Reward.withdraw_eq]
    split
    · change Files False .rewards _
        (set .rewards (rwd.withdrawnFrom req ctx.height) >>= _)
      refine Obeys.seq (files_set (now.trans_le reached)) fun _ => Obeys.seq ?_ fun answer => ?_
      · exact ((AcctCtrler.writes_reward (S := fun l => l = .accounts) rfl _ _).files
          (by decide)).attempted
      · cases answer with
        | ok _ => trivial
        | error e => exact ⟨trivial, fun _ _ => trivial⟩
    · trivial
  · trivial

end

end StakeCtrler

namespace RigoApp

/-- The height that no record of rewards is ahead of. -/
def reachedHeight {E : EvmLib} (phase : Phase) (steps : List (Step E)) : Int :=
  if phase = .idle then blocks steps else blocks steps + 1

section

variable {X : External} {steps : List (Step X.evm)} {s t u : Node X.evm}

theorem behind_deliverTx {height : Int} {txbz : HexBytes} {answer : TxResponse}
    (intact : Intact .rewards (fun rwd => rwd.height ≤ h) s.ledgers)
    (opened : openHeight s = some height) (reached : height ≤ h)
    (ran : DeliversTx X txbz s answer t) :
    Intact .rewards (fun rwd => rwd.height ≤ h) t.ledgers := by
  obtain ⟨bctx, tx, sender, inBlock, decoded, -, answered⟩ := deliverTx_ok ran
  by_cases type : tx.type = .withdraw
  · have before : Intact .rewards (fun rwd => rwd.height ≤ h)
        (Stores.withAccount s.ledgers tx.toAddr) := by
      have same : (Stores.withAccount s.ledgers tx.toAddr) .rewards = s.ledgers .rewards :=
        Stores.withAccount_of_ne (by decide) _ _
      exact ⟨by rw [Everywhere, same]; exact intact.all, by rw [same]; exact intact.removed⟩
    rw [(respond_ok answered).1]
    rcases executeSync_cases X.trx X.json
        (ctxOf X s bctx txbz tx)
        { s.toResources with ledgers := Stores.withAccount s.ledgers tx.toAddr } with
      ⟨fault, r, failed, ledgers⟩ | ⟨pubKey, r, -, ledgers, sequence⟩
    · rw [failed]
      simp only [ledgers]
      exact before
    · have now : (ctxOf X s bctx txbz tx).height =
          height := by
        rw [openHeight, inBlock] at opened
        exact Option.some.inj opened
      rw [sequence]
      refine Intact.run (by rw [ledgers]; exact before) ?_
      have native : runTrx
          (ctxOf X s bctx txbz tx) pubKey =
          (Ctrler.ledger (runNative
            (ctxOf X s bctx txbz tx)
            (executeTrx
              (ctxOf X s bctx txbz tx) pubKey)) :
            Ctrler X.evm TrxResult) := by
        unfold runTrx
        simp only [contextOf, type]
      have withdraws : executeTrx
          (ctxOf X s bctx txbz tx) pubKey =
          exeWithdraw
            (ctxOf X s bctx txbz tx) := by
        unfold executeTrx
        simp only [contextOf, type]
      rw [native, withdraws]
      refine filesTrx_ledger (Obeys.seq ?_ fun _ => ?_)
      · exact files_exeWithdraw reached now
      · exact (writes_postRunTrx (S := fun l => l ≠ .rewards) (by decide) _ _).files
          (not_not.mpr rfl)
  · have kept : t.ledgers .rewards = s.ledgers .rewards := deliverTx_frame ran decoded type
    exact ⟨by rw [Everywhere, kept]; exact intact.all, by rw [kept]; exact intact.removed⟩

theorem Heights.opened_le {phase : Phase} (heights : Heights phase steps s)
    (open_ : phase ≠ .idle) : ∃ height, openHeight s = some height ∧ height ≤ blocks steps + 1 :=
  ⟨_, heights.opened.trans (if_neg open_), i64_le (by omega)⟩

/-- In every run, no record of rewards is ahead of the chain, and none was deleted. -/
theorem Run.rewards_behind {mayRestart : Bool} {genesis : Genesis} {phase : Phase} {s : App X.evm}
    (ran : Run X mayRestart genesis phase steps s) :
    Heights phase steps (App.node s) ∧
      Intact .rewards (fun rwd => rwd.height ≤ reachedHeight phase steps) (App.node s).ledgers := by
  have of_same {P : Reward → Prop} {ls ls' : Stores} (intact : Intact .rewards P ls)
      (same : ls' .rewards = ls .rewards) : Intact .rewards P ls' :=
    ⟨by rw [Everywhere, same]; exact intact.all, by rw [same]; exact intact.removed⟩
  have committed {steps : List (Step X.evm)} {s t : Node X.evm} {appHash : HexBytes}
      (intact : Intact .rewards (fun rwd => rwd.height ≤ reachedHeight .ended steps) s.ledgers)
      (ran : Commits X s appHash t) :
      Intact .rewards (fun rwd => rwd.height ≤
        reachedHeight .idle (steps ++ [⟨s, .commit, .commit appHash, t⟩])) t.ledgers := by
    have next : blocks (steps ++ [⟨s, .commit, .commit appHash, t⟩]) = blocks steps + 1 :=
      blocks_append steps _
    obtain ⟨bctx, state, -, -, -, rfl, -, -⟩ := commit_ok ran
    rw [reachedHeight, if_pos rfl, next]
    exact intact.commit
  refine ran.node_induction (I := fun phase steps s => Heights phase steps s ∧
    Intact .rewards (fun rwd => rwd.height ≤ reachedHeight phase steps) s.ledgers)
    ?_ ?_ ?_ ?_ ?_ ?_ ?_
  · intro s t first ran
    refine ⟨.initChain first ran, of_same ?_ (initChain_frame ran (by decide))⟩
    cases first
    exact ⟨⟨.empty, .empty, fun _ member => (by cases member)⟩, rfl⟩
  · rintro steps s t info ⟨heights, intact⟩ ran
    refine ⟨heights.beginBlock ran, ?_⟩
    have same : blocks (steps ++ [⟨s, .beginBlock info, .beginBlock, t⟩]) = blocks steps :=
      blocks_append steps _
    obtain ⟨height, opened, reached⟩ := (heights.beginBlock ran).opened_le (by decide)
    rw [same] at reached
    rw [reachedHeight, if_neg (by decide), same]
    obtain ⟨last, ls, ls', allDelegatees, -, -, -, governed, -, rewarded, rfl⟩ := beginBlock_ok ran
    have before : Intact .rewards (fun rwd => rwd.height ≤ blocks steps + 1) ls := by
      refine of_same ⟨intact.all.mono fun rwd behind => ?_, intact.removed⟩
        (GovCtrler.beginBlock_frame (by decide) governed)
      have behind : rwd.height ≤ blocks steps := behind
      omega
    exact before.of_exec (files_punishAndReward reached _ (Option.some.inj opened))
      rewarded
  · rintro steps s t txbz answer ⟨heights, intact⟩ ran
    obtain ⟨height, opened, reached⟩ := heights.opened_le (by decide)
    refine ⟨heights.deliverTx ran, ?_⟩
    rw [reachedHeight, blocks_append]
    exact behind_deliverTx intact opened reached ran
  · rintro steps s t valUpdates ⟨heights, intact⟩ ran
    refine ⟨heights.endBlock ran, of_same ?_ (endBlock_frame ran id)⟩
    rw [reachedHeight, blocks_append]
    exact intact
  · rintro steps s t appHash ⟨heights, intact⟩ ran
    exact ⟨heights.commit ran, committed intact ran⟩
  · rintro phase steps s limiter ⟨heights, intact⟩
    exact ⟨⟨heights.small, heights.evm, heights.versions, heights.last, heights.opened,
      heights.evmStored, heights.stored⟩, intact⟩
  · rintro steps s t u appHash allowed ⟨heights, intact⟩ ran restarted
    refine ⟨(heights.commit ran).restartNode ran restarted, ?_⟩
    rw [restartNode_ledgers ran restarted]
    exact committed intact ran

end

/-- In every run, for the next block and on any snapshot of the delegatees: `BeginBlock` issues
rewards exactly. -/
theorem Run.rewards_exact {X : External} {mayRestart : Bool} {genesis : Genesis}
    {steps : List (Step X.evm)} {s : App X.evm} (ran : Run X mayRestart genesis .idle steps s)
    {params : GovParams} {info : BlockInfo} (next : info.height = blocks steps + 1) {ls : Stores}
    (rewards : ls .rewards = (App.node s).ledgers .rewards) {immu : ItemMap Delegatee}
    (loaded : (ls .delegatees).tree.lazyLoadVersion (StakeCtrler.heightOfPower info.height) =
      .ok immu)
    (regular : StakeCtrler.RegularVotes params info.votes immu ls) :
    ∃ reported ls', exec (StakeCtrler.punishAndRewardIssued params info) ls = (.ok reported, ls') ∧
      exec (StakeCtrler.punishAndReward params info) ls = (.ok (), ls') ∧
      StakeCtrler.Exact params info.votes immu reported ls ls' := by
  obtain ⟨-, intact⟩ := ran.rewards_behind
  have behind : Holds .rewards (AtMost info.height) ls := by
    unfold Holds
    rw [rewards]
    refine ⟨intact.removed, fun k rwd found => ?_⟩
    have reached : rwd.height ≤ blocks steps := intact.all.lookup found
    omega
  exact StakeCtrler.punishAndReward_exact loaded (by omega) behind regular

/-! ### Two owners -/

/-- A new chain of one validator. -/
def signedStart : App (Concrete.external ⟨[], [], [], []⟩).evm :=
  (start (Concrete.external ⟨[], [], [], []⟩) (Concrete.genesis [(1, 15)])).toOption.get
    (by decide +kernel)

/-- The ledgers of this chain, where somebody else owns a part of the stakes. -/
def sharedStores : Stores :=
  Function.update (App.node signedStart).ledgers .delegatees
    ((Store.new Tree.empty).set StakeCtrler.sharedDelegatee).commit

/-- The validator has signed. -/
def sharedBlock : BlockInfo :=
  { Concrete.block 1 with votes := [⟨Concrete.addr 1, 15, true⟩] }

theorem rewards_shared : sharedStores .rewards = (App.node signedStart).ledgers .rewards :=
  Function.update_of_ne (by decide) _ _

theorem signers_shared :
    signers (sharedStores .delegatees).tree.lastSaved sharedBlock.votes =
      [sharedDelegatee] := by
  decide +kernel

theorem loaded_shared : (sharedStores .delegatees).tree.lazyLoadVersion
    (heightOfPower sharedBlock.height) =
      .ok (sharedStores .delegatees).tree.lastSaved := rfl

theorem cumulated_shared (k : LedgerKey) : sharedStores.cumulated k = 0 := by
  have none : (sharedStores .rewards).lookup k = none := by
    rw [rewards_shared]
    rfl
  rw [Stores.cumulated, none]
  rfl

theorem regular_shared : RegularVotes GovParams.defaultGovParams sharedBlock.votes
    (sharedStores .delegatees).tree.lastSaved sharedStores := by
  refine ⟨by decide, by rw [signers_shared]; decide, by rw [signers_shared]; decide, ?_⟩
  rw [signers_shared]
  refine ⟨by decide, by decide, by decide, fun k => ?_⟩
  have part : ((([sharedDelegatee].flatMap stakes).filter fun s0 =>
      toLedgerKey s0.fromAddr = k).map Stake.power).sum ≤ 15 := by
    simp only [List.flatMap_cons, List.flatMap_nil, List.append_nil, sharedDelegatee,
      List.filter]
    split <;> split <;> decide
  have reward : (GovParams.defaultGovParams.rewardPerPower.toNat : Int) = 4756468797 := by decide
  rw [cumulated_shared, reward]
  omega

/-- Both owners get the reward for their part of the power. -/
theorem Run.rewards_exact_shared :
    ∃ issued ls', exec (StakeCtrler.punishAndRewardIssued GovParams.defaultGovParams sharedBlock)
        sharedStores = (.ok (some issued), ls') ∧
      (ls'.cumulated (toLedgerKey (Concrete.addr 1)) : Int) = 4756468797 * 10 ∧
      (ls'.cumulated (toLedgerKey (Concrete.addr 2)) : Int) = 4756468797 * 5 ∧
      (issued.toNat : Int) = 4756468797 * 15 := by
  have started : Run (Concrete.external ⟨[], [], [], []⟩) false (Concrete.genesis [(1, 15)]) .idle []
      signedStart := Run.start (eq_ok_of_isSome _)
  obtain ⟨reported, ls', ran, -, exact⟩ :=
    Run.rewards_exact started rfl rewards_shared loaded_shared regular_shared
  have increase := exact.increase
  have total := exact.reported
  rw [signers_shared] at increase total
  obtain ⟨issued, rfl, amount, -⟩ := total (by decide)
  have first := increase (Concrete.addr 1) rfl
  have second := increase (Concrete.addr 2) rfl
  rw [cumulated_shared] at first second
  exact ⟨issued, ls', ran, first.trans (by decide), second.trans (by decide),
    amount.trans (by decide)⟩

end RigoApp

end Rigo
