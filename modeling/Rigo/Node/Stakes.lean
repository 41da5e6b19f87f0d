import Rigo.Node.Orphans

/-!
# What holds of every stake

A stake is held by a delegatee until it is frozen, by an unstaking or by the stop of a validator.
`EveryStake Q ls` says that `Q` holds of the stakes on both sides.  It is kept by every call if `Q`
does not depend on the height of the refund, holds of new stakes, and is kept by the slashes of the
run (`Run.everyStake`).
-/

namespace Rigo

open Foundation
open StakeCtrler

variable {ls ls' : Stores}

/-- A loop that keeps something in every round. -/
theorem exec_forM_keeps {γ : Type} {I : Stores → Prop} {body : γ → LedgerProg Unit}
    (each : ∀ x ls, I ls → I (exec (body x) ls).2) (list : List γ) (holds : I ls) :
    I (exec (list.forM body) ls).2 := by
  induction list generalizing ls with
  | nil => exact holds
  | cons x rest ih =>
    have after := each x ls holds
    rw [List.forM, exec_bind]
    generalize exec (body x) ls = result at after ⊢
    obtain ⟨_ | _, ls'⟩ := result
    · exact after
    · exact ih after

namespace StakeCtrler

theorem writes_processVote_signed (params : GovParams) (height : Int) (immu : ItemMap Delegatee)
    {vote : VoteInfo} (signed : vote.signedLastBlock = true) :
    Writes (fun l => l = .rewards) (processVote params height immu vote) := by
  unfold processVote
  rw [if_pos signed]
  split
  · trivial
  · split
    · trivial
    · exact writes_doRewardTo (S := fun l => l = .rewards) (fun _ _ => trivial) rfl _ _ _

/-- What the slashes and every vote keep holds when a block has begun. -/
theorem punishAndReward_keeps {I : Stores → Prop} {params : GovParams} {info : BlockInfo}
    (ran : exec (punishAndReward params info) ls = (.ok (), ls'))
    (punished : I (exec (info.byzantines.forM (doPunish params.slashRatio)) ls).2)
    (voted : ∀ immu vote ls, I ls → I (exec (processVote params info.height immu vote) ls).2) :
    I ls' := by
  obtain ⟨_, ls₁, slashed, rewarded⟩ := run_bind_ok ran
  rw [show exec (info.byzantines.forM (doPunish params.slashRatio)) ls = (.ok (), ls₁)
    from slashed] at punished
  split at rewarded
  · cases rewarded
    exact punished
  · obtain ⟨found, ls₂, loaded, opened⟩ := run_bind_ok rewarded
    obtain ⟨immu, -, counted⟩ := run_ofExcept_ok opened
    have same : ls₂ = ls₁ := funext fun l =>
      (writes_immutableAt (S := fun _ => False) _ _).frame id loaded
    have kept := exec_forM_keeps (voted immu) info.votes (same ▸ punished)
    rwa [show exec (info.votes.forM (processVote params info.height immu)) ls₂ = (.ok (), ls')
      from counted] at kept

end StakeCtrler

/-- `Q` holds of the stakes of the delegatees, and of the frozen ones. -/
structure EveryStake (Q : Stake → Prop) (ls : Stores) : Prop where
  held : Everywhere .delegatees (fun d => ∀ s0 ∈ d.stakes, Q s0) ls
  frozen : Everywhere .frozenStakes Q ls

/-- Code that writes neither the delegatees nor the frozen stakes. -/
theorem EveryStake.congr {Q : Stake → Prop} (holds : EveryStake Q ls)
    (same : ls' .delegatees = ls .delegatees) (same' : ls' .frozenStakes = ls .frozenStakes) :
    EveryStake Q ls' := by
  refine ⟨?_, ?_⟩
  · rw [Everywhere, same]
    exact holds.held
  · rw [Everywhere, same']
    exact holds.frozen

namespace StakeCtrler

section

variable {Q : Stake → Prop} (refund : ∀ s0 h, Q s0 → Q { s0 with refundHeight := h })

include refund

theorem everywhere_frozen {refundHeight : Int} {stakes : List Stake}
    (due : ∀ s0 ∈ stakes, Q s0) (holds : Everywhere .frozenStakes Q ls) :
    Everywhere .frozenStakes Q (frozen refundHeight stakes ls) := by
  induction stakes generalizing ls with
  | nil => exact holds
  | cons s0 rest ih =>
    refine ih (fun s member => due s (List.mem_cons_of_mem _ member)) ?_
    simp only [Everywhere, Stores.put_self]
    exact Store.All.set holds (refund s0 _ (due s0 List.mem_cons_self))

/-- The stakes of a validator that is stopped are frozen. -/
theorem everyStake_missedBlock (params : GovParams) (height : Int) (addr : Address)
    (holds : EveryStake Q ls) : EveryStake Q (exec (missedBlock params height addr) ls).2 := by
  refine ⟨holds.held.exec (files_missedBlock (fun d marker kept => kept) params height addr), ?_⟩
  cases found : (ls .delegatees).lookup (toLedgerKey addr) with
  | none =>
    have missing : (ls .delegatees).get (toLedgerKey addr) = .error .errNotFoundResult := by
      rw [Store.get, found]
      rfl
    simp only [missedBlock, exec_bind, LedgerProg.exec_get, missing, andThen_ok]
    exact holds.frozen
  | some d =>
    rw [exec_missedBlock_snd found rfl]
    have noted : Everywhere .frozenStakes Q (noted params (i64 (height - 1)) d ls) := by
      rw [Everywhere, noted, Stores.put_of_ne _ _ (by decide), Stores.put_of_ne _ _ (by decide)]
      exact holds.frozen
    split
    · rw [Everywhere, Stores.remove_of_ne _ _ (by decide)]
      exact everywhere_frozen refund (holds.held.lookup found) noted
    · exact noted

theorem everyStake_processVote (params : GovParams) (height : Int) (immu : ItemMap Delegatee)
    (vote : VoteInfo) (holds : EveryStake Q ls) :
    EveryStake Q (exec (processVote params height immu vote) ls).2 := by
  by_cases signed : vote.signedLastBlock = true
  · have rewards := writes_processVote_signed params height immu signed
    exact holds.congr (exec_frame rewards (by decide) ls) (exec_frame rewards (by decide) ls)
  · unfold processVote
    rw [if_neg signed]
    exact everyStake_missedBlock refund params height vote.address holds

/-- The slashes keep `Q`, so it holds when a block has begun. -/
theorem everyStake_punishAndReward {params : GovParams} {info : BlockInfo}
    (holds : EveryStake Q ls)
    (slashed : ∀ k d, (ls .delegatees).lookup k = some d →
      ∀ n, 1 ≤ n → n ≤ evidence info.byzantines k →
        ∀ s0 ∈ (slashedTimes params.slashRatio n d).stakes, Q s0)
    (ran : exec (punishAndReward params info) ls = (.ok (), ls')) : EveryStake Q ls' := by
  refine punishAndReward_keeps ran ⟨everywhere_punish holds.held slashed, ?_⟩
    fun immu vote ls holds => everyStake_processVote refund params info.height immu vote holds
  have other : (exec (info.byzantines.forM (doPunish params.slashRatio)) ls).2 .frozenStakes =
      ls .frozenStakes := by
    refine exec_frame (S := fun l => l = .delegatees) ?_ (by decide) ls
    exact Calm.forM _ fun addr => writes_doPunish (S := fun l => l = .delegatees) rfl _ _
  rw [Everywhere, other]
  exact holds.frozen

end

/-- `EndBlock` deletes frozen stakes, and writes accounts. -/
theorem everyStake_endBlock {Q : Stake → Prop} (holds : EveryStake Q ls)
    (params : GovParams) (allDelegatees : List Delegatee) (lastValidators : Validators)
    (height : Int) :
    EveryStake Q (exec (endBlock params allDelegatees lastValidators height) ls).2 := by
  refine ⟨?_, holds.frozen.exec ?_⟩
  · rw [Everywhere, exec_frame (S := fun l => l ≠ .delegatees)
      (writes_endBlock (by decide) (by decide) _ _ _ _) (not_not.mpr rfl) ls]
    exact holds.held
  · have nothing {α : Type} {p : LedgerProg α} (writes : Writes (fun l => l = .accounts) p) :
        Files True .frozenStakes Q p := writes.files (by decide)
    refine Obeys.seq (Obeys.seq (nothing (writes_readAll _)) fun found =>
      Obeys.seq (nothing (calm_ofExcept _)) fun due => Obeys.forM _ trivial fun s0 _ => ?_) fun _ => ?_
    · unfold unfreezeStake
      split
      · exact Obeys.seq (nothing (AcctCtrler.writes_reward (S := fun l => l = .accounts) rfl _ _)) fun _ =>
          Obeys.seq (files_del (fun _ => trivial) _) fun _ => trivial
      · trivial
    · refine Obeys.seq ?_ fun _ => trivial
      unfold selectValidators
      split <;> trivial

end StakeCtrler

namespace RigoApp

variable {X : External} {Q : Stake → Prop} {s t : Node X.evm}

/-! ## The calls -/

/-- The slashes of a block keep `Q`. -/
def SlashesKeep (Q : Stake → Prop) (step : Step X.evm) : Prop :=
  match step.call with
  | .beginBlock info => ∀ addr ∈ info.byzantines,
      ∀ d ∈ (step.before.ledgers .delegatees).lookup (toLedgerKey addr),
      ∀ n < StakeCtrler.evidence info.byzantines (toLedgerKey addr),
      ∀ s0 ∈ (StakeCtrler.slashedTimes step.before.mem.govParams.slashRatio n d).stakes,
        Q s0 → Q (Delegatee.slashStake step.before.mem.govParams.slashRatio s0)
  | _ => True

theorem everyStake_initChain {genesis : Genesis} (first : firstNode X = .ok s)
    (ran : InitsChain X genesis s t)
    (holds : ∀ val ∈ genesis.validators, Q (initStake X val.1 val.2).stake) :
    EveryStake Q t.ledgers := by
  refine ⟨initChain_delegatees first ran fun val member s0 member' => ?_, ?_⟩
  · rw [List.mem_singleton.mp member']
    exact holds val member
  · rw [Everywhere, initChain_frame ran (by decide)]
    exact (everywhere_firstNode first : Everywhere .frozenStakes Q s.ledgers)

theorem everyStake_beginBlock (refund : ∀ s0 h, Q s0 → Q { s0 with refundHeight := h })
    {info : BlockInfo} {response : Response} (holds : EveryStake Q s.ledgers)
    (kept : SlashesKeep Q ⟨s, .beginBlock info, response, t⟩)
    (ran : BeginsBlock X info s t) :
    EveryStake Q t.ledgers := by
  obtain ⟨last, ls, ls', allDelegatees, -, -, -, governed, -, rewarded, rfl⟩ := beginBlock_ok ran
  have same {l : LedgerId} (other : l ≠ .proposals) : ls l = s.ledgers l :=
    GovCtrler.beginBlock_frame other governed
  refine everyStake_punishAndReward refund
    (holds.congr (same (by decide)) (same (by decide))) ?_ rewarded
  intro k d found n low high
  rw [same (by decide)] at found
  obtain ⟨n, rfl⟩ := Nat.exists_eq_succ_of_ne_zero (Nat.one_le_iff_ne_zero.mp low)
  obtain ⟨addr, member, same'⟩ := List.countP_pos_iff.mp (low.trans high)
  obtain rfl := of_decide_eq_true same'
  clear low
  -- one slash after the other
  induction n with
  | zero =>
    intro s0 member'
    obtain ⟨s', before, rfl⟩ := Delegatee.mem_slashedStakes member'
    exact kept addr member d found 0 high s' before (holds.held.lookup found s' before)
  | succ n ih =>
    intro s0 member'
    rw [Nat.succ_eq_add_one, slashedTimes_succ] at member'
    obtain ⟨s', before, rfl⟩ := Delegatee.mem_slashedStakes member'
    exact kept addr member d found (n + 1) high s' before (ih (by omega) s' before)

theorem everyStake_deliverTx (refund : ∀ s0 h, Q s0 → Q { s0 with refundHeight := h })
    (staked : ∀ ctx, 0 ≤ powerOf ctx.tx.amount → Q (stakeOf ctx))
    {txbz : HexBytes} {answer : TxResponse} (holds : EveryStake Q s.ledgers)
    (ran : DeliversTx X txbz s answer t) :
    EveryStake Q t.ledgers := by
  obtain ⟨bctx, tx, -, -, effect⟩ := deliverTx_stakes ran
  suffices (t.ledgers .delegatees).All (fun d => ∀ s0 ∈ d.stakes, Q s0) ∧
      (t.ledgers .frozenStakes).All Q from ⟨this.1, this.2⟩
  generalize t.ledgers .delegatees = delegatees at effect ⊢
  generalize t.ledgers .frozenStakes = frozenStakes at effect ⊢
  cases effect with
  | kept => exact ⟨holds.held, holds.frozen⟩
  | @staked pubKey d valid power grows target =>
    refine ⟨Store.All.set holds.held fun s0 member => ?_, holds.frozen⟩
    rcases List.mem_append.mp member with old | new
    · cases target with
      | existing found => exact holds.held.lookup found s0 old
      | new missing self => exact absurd old List.not_mem_nil
    · rw [List.mem_singleton.mp new]
      exact staked _ power
  | @unstaked pubKey d s0 valid found own =>
    have before := holds.held.lookup found
    have left := (d.delStake_stakes_sublist s0.txHash).subset
    constructor
    · refine all_stored holds.held fun _ s' member => before s' ?_
      unfold leftOver at member
      split at member
      · exact absurd member List.not_mem_nil
      · exact left member
    · refine everywhere_frozen refund (fun s' member => ?_) holds.frozen
      rcases List.mem_cons.mp member with rfl | others
      · exact before s' (List.mem_of_find?_eq_some own.found)
      · split at others
        · exact before s' (left others)
        · exact absurd others List.not_mem_nil

theorem everyStake_endBlock {valUpdates : List ValidatorUpdate} (holds : EveryStake Q s.ledgers)
    (ran : EndsBlock X s valUpdates t) :
    EveryStake Q t.ledgers := by
  obtain ⟨bctx, newGovParams, lastValidators, ls, ls', ls'', -, governed, paid, refunded, rfl⟩ :=
    endBlock_ok ran
  have same {l : LedgerId} (other : l = .delegatees ∨ l = .frozenStakes) :
      ls' l = s.ledgers l := by
    rw [(AcctCtrler.writes_endBlock (S := fun l => l = .accounts) rfl _ _).frame
        (by rcases other with rfl | rfl <;> decide) paid,
      (GovCtrler.writes_endBlock (S := fun l => l ≠ .delegatees ∧ l ≠ .frozenStakes) (by decide)
        (by decide) (by decide) _ _ _ _ _).frame
        (by rcases other with rfl | rfl <;> decide) governed]
  have kept := StakeCtrler.everyStake_endBlock (holds.congr (same (.inl rfl)) (same (.inr rfl)))
    s.mem.govParams s.mem.allDelegatees s.mem.lastValidators bctx.blockInfo.height
  rwa [refunded] at kept

/-! ## Runs -/

/-- `Q` holds of every stake in every run whose slashes keep it. -/
theorem Run.everyStake (refund : ∀ s0 h, Q s0 → Q { s0 with refundHeight := h })
    (staked : ∀ ctx, 0 ≤ powerOf ctx.tx.amount → Q (stakeOf ctx))
    {mayRestart : Bool} {genesis : Genesis} {phase : Phase} {steps : List (Step X.evm)}
    {s : App X.evm} (ran : Run X mayRestart genesis phase steps s)
    (first : ∀ val ∈ genesis.validators, Q (initStake X val.1 val.2).stake) :
    (∀ step ∈ steps, SlashesKeep Q step) → EveryStake Q (App.node s).ledgers := by
  refine ran.node_induction_of (I := fun _ _ s => EveryStake Q s.ledgers) ?_ ?_ ?_ ?_ ?_ ?_ ?_
  · intro s t started ran
    exact everyStake_initChain started ran first
  · intro steps s t info ih kept ran
    exact everyStake_beginBlock refund ih kept ran
  · intro steps s t txbz answer ih _ ran
    exact everyStake_deliverTx refund staked ih ran
  · intro steps s t valUpdates ih _ ran
    exact everyStake_endBlock ih ran
  · intro steps s t appHash ih _ ran
    exact ⟨commit_everywhere ih.held ran, commit_everywhere ih.frozen ran⟩
  · intro phase steps s limiter ih
    exact ih
  · intro steps t u ih same _
    rw [same]
    exact ih

end RigoApp

end Rigo
