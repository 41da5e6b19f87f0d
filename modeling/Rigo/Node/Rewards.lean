import Rigo.Node.Blocks
import Rigo.Node.Items

/-!
# What the calls do to rewards

`BeginBlock` issues rewards to the stakes of the validators that signed, from a past version
of the delegatees; a withdrawal takes from the record of its sender.  Nothing else changes the
reward ledger.

`Credits p amount` says that the code `p` adds `amount k` to the record under every key `k`,
as long as the sum fits into 256 bits.

The records carry the height of their last change, and a height in the past makes `Issue` and
`Withdraw` panic.  `Behind h p` says that `p` does not panic like that as long as no record is
ahead of `h`, and that it keeps the records there.
-/

namespace Rigo

open Foundation
open Stores
open AcctCtrler LedgerProg StakeCtrler

variable {acct : Account} {info : BlockInfo} {ls ls' : Stores} {ctx : TrxContext}

/-! ## Amounts -/

/-- The cumulated amount in the record under a key. -/
def cumulatedIn (found : Option Reward) : Nat := (found.map fun rwd => rwd.cumulated.toNat).getD 0

/-- The cumulated amount in the record under a key. -/
def Stores.cumulated (ls : Stores) (k : LedgerKey) : Nat := cumulatedIn ((ls .rewards).lookup k)

/-- The code adds the amounts to the records. -/
def Credits (p : LedgerProg Unit) (amount : LedgerKey → Nat) : Prop :=
  ∀ ls ls', (ls .rewards).removed = [] → exec p ls = (.ok (), ls') →
    (ls' .rewards).removed = [] ∧
      ∀ k, ls.cumulated k + amount k < 2 ^ 256 → ls'.cumulated k = ls.cumulated k + amount k

theorem Credits.seq {p q : LedgerProg Unit} {amount amount' : LedgerKey → Nat}
    (first : Credits p amount) (next : Credits q amount') :
    Credits (p >>= fun _ => q) fun k => amount k + amount' k := by
  intro ls ls' removed ran
  obtain ⟨_, ls₁, ran₁, ran₂⟩ := run_bind_ok ran
  obtain ⟨removed₁, added₁⟩ := first ls ls₁ removed ran₁
  obtain ⟨removed₂, added₂⟩ := next ls₁ ls' removed₁ ran₂
  refine ⟨removed₂, fun k small => ?_⟩
  simp only at small ⊢
  have added := added₁ k (by omega)
  rw [added₂ k (by omega), added, Nat.add_assoc]

theorem Credits.forM {γ : Type} {body : γ → LedgerProg Unit} {amount : γ → LedgerKey → Nat}
    (list : List γ) (round : ∀ x, Credits (body x) (amount x)) :
    Credits (list.forM body) fun k => (list.map fun x => amount x k).sum := by
  induction list with
  | nil =>
    intro ls ls' removed ran
    cases ran
    exact ⟨removed, fun _ _ => rfl⟩
  | cons head tail ih =>
    simp only [List.map_cons, List.sum_cons]
    exact (round head).seq ih

/-- Code that does not write the rewards. -/
theorem Calm.credits {S : LedgerId → Prop} {p : LedgerProg Unit}
    (writes : Calm (writing S S) (fun _ => True) p)
    (other : ¬ S .rewards) : Credits p fun _ => 0 := by
  intro ls ls' removed ran
  have same := writes.frame other ran
  refine ⟨by rw [same]; exact removed, fun k _ => ?_⟩
  rw [cumulated, same]
  rfl

namespace Reward

/-- The record after an issue. -/
def issuedTo (rwd : Reward) (r : Uint256) (h : Int) : Reward :=
  { rwd with
    issued := if rwd.height < h then r else rwd.issued + r
    height := h
    cumulated := rwd.cumulated + r }

/-- The record after a withdrawal. -/
def withdrawnFrom (rwd : Reward) (r : Uint256) (h : Int) : Reward :=
  { rwd with
    withdrawn := if rwd.height < h then r else rwd.withdrawn + r
    height := h
    cumulated := rwd.cumulated - r }

theorem issue_eq {Op : Type → Type} (rwd : Reward) (r : Uint256) (h : Int) :
    (rwd.issue r h : Prog Op Fault Reward) =
      if rwd.height ≤ h then .pure (rwd.issuedTo r h) else crash (rwd.aheadOf h) := by
  unfold issue issuedTo
  rcases lt_trichotomy rwd.height h with less | same | more
  · simp [less, less.le]
  · subst same
    simp
  · simp [more.not_gt, more.ne', more.not_ge]

theorem withdraw_eq {Op : Type → Type} (rwd : Reward) (r : Uint256) (h : Int) :
    (rwd.withdraw r h : Prog Op Fault Reward) =
      if rwd.height ≤ h then .pure (rwd.withdrawnFrom r h) else crash (rwd.aheadOf h) := by
  unfold withdraw withdrawnFrom
  rcases lt_trichotomy rwd.height h with less | same | more
  · simp [less, less.le]
  · subst same
    simp
  · simp [more.not_gt, more.ne', more.not_ge]

end Reward

namespace StakeCtrler

/-- The reward for a stake. -/
def rewardFor (params : GovParams) (s0 : Stake) : Uint256 :=
  Uint256.newInt (uint64OfInt s0.power) * params.rewardPerPower

/-- The reward for a stake, if its owner has the given key. -/
def rewardAt (params : GovParams) (s0 : Stake) (k : LedgerKey) : Nat :=
  if toLedgerKey s0.fromAddr = k then (rewardFor params s0).toNat else 0

/-- The rewards for some stakes to the owner with a key. -/
def issuedFor (params : GovParams) (stakes : List Stake) (k : LedgerKey) : Nat :=
  (stakes.map fun s0 => rewardAt params s0 k).sum

/-- The stakes that get a reward for a vote. -/
def rewardedBy (immu : ItemMap Delegatee) (vote : VoteInfo) : List Stake :=
  if vote.signedLastBlock then
    match immu.find? (toLedgerKey vote.address) with
    | some delegatee => if delegatee.totalPower = vote.power then delegatee.stakes else []
    | none => []
  else []

/-- The record of the owner of a stake. -/
def recordOf (ls : Stores) (s0 : Stake) : Reward :=
  ((ls .rewards).lookup (toLedgerKey s0.fromAddr)).getD (Reward.newReward s0.fromAddr)

theorem key_recordOf (ls : Stores) (s0 : Stake) :
    LedgerItem.key (recordOf ls s0) = toLedgerKey s0.fromAddr := by
  unfold recordOf
  cases found : (ls .rewards).lookup (toLedgerKey s0.fromAddr) with
  | none => rfl
  | some rwd => exact Store.key_of_lookup found

/-- A record is set with the reward added to it. -/
theorem exec_rewardStake_ok {params : GovParams} {height : Int} {s0 : Stake}
    (ran : exec (rewardStake params height s0) ls = (.ok (), ls')) :
    ls' = ls.put .rewards ((recordOf ls s0).issuedTo (rewardFor params s0) height) := by
  have ran := run_get_ok ran
  rw [Store.get] at ran
  unfold recordOf
  cases found : (ls .rewards).lookup (toLedgerKey s0.fromAddr) with
  | none =>
    rw [found] at ran
    simp only [found_none, if_true, Reward.issue_eq] at ran
    split at ran
    · cases ran
      rfl
    · cases ran
  | some rwd =>
    rw [found] at ran
    simp only [found_some, Reward.issue_eq] at ran
    split at ran
    · cases ran
      rfl
    · cases ran

theorem credits_rewardStake (params : GovParams) (height : Int) (s0 : Stake) :
    Credits (rewardStake params height s0) (rewardAt params s0) := by
  intro ls ls' removed ran
  obtain rfl := exec_rewardStake_ok ran
  refine ⟨by rw [put_self]; exact removed, fun k small => ?_⟩
  have key : LedgerItem.key ((recordOf ls s0).issuedTo (rewardFor params s0) height) =
      toLedgerKey s0.fromAddr := key_recordOf ls s0
  unfold cumulated at small ⊢
  rw [put_self, Store.lookup_set_of_removed removed, key]
  unfold rewardAt recordOf at *
  by_cases here : toLedgerKey s0.fromAddr = k
  · subst here
    rw [if_pos rfl] at small ⊢
    rw [if_pos rfl]
    cases found : (ls .rewards).lookup (toLedgerKey s0.fromAddr) with
    | none =>
      change (0 + rewardFor params s0).toNat = 0 + (rewardFor params s0).toNat
      rw [Nat.zero_add, zero_add]
    | some rwd =>
      rw [found] at small
      change (rwd.cumulated + rewardFor params s0).toNat =
        rwd.cumulated.toNat + (rewardFor params s0).toNat
      exact BitVec.toNat_add_of_lt small
  · rw [if_neg here, if_neg here]
    rfl

/-- The rewards of a block for one vote. -/
theorem credits_processVote (params : GovParams) (height : Int) (immu : ItemMap Delegatee)
    (vote : VoteInfo) :
    Credits (processVote params height immu vote) (issuedFor params (rewardedBy immu vote)) := by
  have nothing : Credits (pure ()) fun _ => 0 :=
    Calm.credits (S := fun _ => False) trivial id
  unfold processVote rewardedBy
  split
  · rw [ItemMap.read_eq]
    cases immu.find? (toLedgerKey vote.address) with
    | none => exact nothing
    | some delegatee =>
      simp only [found_some]
      by_cases same : delegatee.totalPower = vote.power
      · simp only [same, ne_eq, not_true_eq_false, if_false, if_true]
        exact Credits.forM _ (credits_rewardStake params height)
      · simp only [same, ne_eq, not_false_eq_true, if_true, if_false]
        exact nothing
  · exact (writes_missedBlock (S := fun l => l ≠ .rewards) (by decide) (by decide)
      _ _ _).credits (not_not.mpr rfl)

/-- The stakes that get a reward at the beginning of a block. -/
def rewardedStakes (ls : Stores) (info : BlockInfo) : List Stake :=
  match (ls .delegatees).tree.lazyLoadVersion (heightOfPower info.height) with
  | .ok immu => info.votes.flatMap (rewardedBy immu)
  | .error _ => []

/-- What a block issues to the owner with a key. -/
def issuedAt (params : GovParams) (ls : Stores) (info : BlockInfo) (k : LedgerKey) : Nat :=
  issuedFor params (rewardedStakes ls info) k

/-- What `BeginBlock` adds to the records. -/
theorem punishAndReward_cumulated {params : GovParams} (removed : (ls .rewards).removed = [])
    (ran : exec (punishAndReward params info) ls = (.ok (), ls')) :
    (ls' .rewards).removed = [] ∧ ∀ k, ls.cumulated k + issuedAt params ls info k < 2 ^ 256 →
      ls'.cumulated k = ls.cumulated k + issuedAt params ls info k := by
  obtain ⟨_, ls₁, punished, ran⟩ := run_bind_ok ran
  have kept : ls₁ .rewards = ls .rewards :=
    Calm.frame (S := fun l => l ≠ .rewards) (Calm.forM _ fun _ => writes_doPunish (by decide) _ _)
      (not_not.mpr rfl) punished
  have tree := tree_of_exec punished .delegatees
  split at ran
  · next none =>
    cases ran
    refine ⟨by rw [kept]; exact removed, fun k _ => ?_⟩
    have nothing : issuedAt params ls info k = 0 := by
      unfold issuedAt rewardedStakes
      rw [none]
      split <;> rfl
    rw [nothing, cumulated, kept]
    rfl
  · obtain ⟨immu, version, ran⟩ := run_ofExcept_ok ran
    have loaded : (ls .delegatees).tree.lazyLoadVersion (heightOfPower info.height) = .ok immu := by
      rw [← tree]
      exact version
    have issued (k : LedgerKey) : issuedAt params ls info k =
        (info.votes.map fun vote => issuedFor params (rewardedBy immu vote) k).sum := by
      simp only [issuedAt, rewardedStakes, loaded]
      rw [issuedFor, List.map_flatMap, List.flatMap_def, List.sum_flatten, List.map_map]
      rfl
    have same (k : LedgerKey) : ls₁.cumulated k = ls.cumulated k := by
      rw [cumulated, kept]
      rfl
    obtain ⟨removed', added⟩ := Credits.forM info.votes
      (credits_processVote params info.height immu) ls₁ ls' (by rw [kept]; exact removed) ran
    refine ⟨removed', fun k small => ?_⟩
    rw [issued] at small ⊢
    rw [← same] at small ⊢
    exact added k small

end StakeCtrler

/-! ## Heights -/

/-- No panic of a record that is ahead of the block. -/
def NoHeightPanic {α : Type} (outcome : Except Fault α) : Prop :=
  ∀ fault, outcome = .error fault → ∀ rwd h, fault ≠ .panic (Reward.aheadOf rwd h)

/-- A record is not ahead of a height. -/
def AtMost (h : Int) (_ : LedgerKey) (found : Option Reward) : Prop :=
  ∀ rwd, found = some rwd → rwd.height ≤ h

/-- A panic that is not about a record ahead of the block. -/
def NotAhead (p : Panic) : Prop := ∀ rwd h, p ≠ Reward.aheadOf rwd h

/-- The code keeps the records where they are, or at the height, and so does not panic. -/
abbrev Behind {α : Type} (h : Int) (p : LedgerProg α) : Prop :=
  Calm (keeping .rewards (AtMost h)) NotAhead p

section

variable {α : Type} {h : Int} {p : LedgerProg α}

theorem Ending.noHeightPanic {outcome : Except Fault α} (ended : Ending NotAhead outcome) :
    NoHeightPanic outcome := by
  rintro _ rfl rwd h rfl
  exact ended rwd h rfl

/-- The other explicit panics have other texts. -/
theorem notAhead_explicit {text : String} (other : text.toList.head? ≠ some 't') :
    NotAhead (.explicit text) := by
  intro rwd h same
  injection same with same
  refine other ?_
  rw [same]
  simp

theorem notAhead_negativePower (amt : Uint256) : NotAhead (negativePower amt) :=
  notAhead_explicit (by simp)

theorem Behind.keeps (behind : Behind h p) : Keeps .rewards (AtMost h) p :=
  behind.mono fun _ _ => trivial

/-- Code that writes no rewards. -/
theorem Calm.behind (calm : Calm (writing (· ≠ .rewards) (· ≠ .rewards)) NotAhead p) :
    Behind h p := calm.keeping (not_not.mpr rfl)

end

namespace StakeCtrler

variable {h : Int}

theorem behind_collectDelegatees (params : GovParams) : Behind h (collectDelegatees params) :=
  Calm.behind (writes_collectDelegatees notAhead_negativePower params)

section

variable {fine : Panic → Prop} {height : Int} (reached : height ≤ h)
  (ahead : ∀ rwd : Reward, rwd.height ≤ max h 0 → height < rwd.height → fine (rwd.aheadOf height))

include reached ahead

theorem calm_rewardStake (params : GovParams) (s0 : Stake) :
    Calm (keeping .rewards (AtMost h)) fine (rewardStake params height s0) := by
  have issued (rwd : Reward) (behind : rwd.height ≤ max h 0) (r : Uint256) :
      Calm (keeping .rewards (AtMost h)) fine (do set .rewards (← rwd.issue r height)) := by
    rw [Reward.issue_eq]
    split
    · refine calm_perform fun _ rwd' same => ?_
      cases same
      exact reached
    · next later => exact ahead rwd behind (not_le.mp later)
  refine ⟨trivial, fun answer granted => ?_⟩
  cases answer with
  | ok rwd => exact issued rwd ((granted.1 rfl rwd rfl).trans (le_max_left _ _)) _
  | error e =>
    simp only [Prog.pure_bind]
    split
    · exact issued _ (le_max_right _ _) _
    · trivial

theorem calm_punishAndReward (params : GovParams) (now : info.height = height) :
    Calm (keeping .rewards (AtMost h)) fine (punishAndReward params info) := by
  have others {α : Type} {p : LedgerProg α}
      (calm : Calm (writing (· ≠ .rewards) (· ≠ .rewards)) fine p) :
      Calm (keeping .rewards (AtMost h)) fine p := calm.keeping (not_not.mpr rfl)
  refine (others (Calm.forM _ fun addr => writes_doPunish (by decide) _ addr)).seq fun _ => ?_
  split
  · trivial
  · refine (others (writes_immutableAt _ _)).seq fun _ => (calm_ofExcept _).seq fun immu =>
      Calm.forM _ fun vote => ?_
    unfold processVote
    split
    · split
      · trivial
      · split
        · trivial
        · subst now
          exact Calm.forM _ fun s0 => calm_rewardStake reached ahead params s0
    · exact others (writes_missedBlock (by decide) (by decide) _ _ _)

end

/-- `BeginBlock` at the height of the records or a later one. -/
theorem behind_punishAndReward (params : GovParams) (info : BlockInfo)
    (positive : 0 ≤ info.height) : Behind info.height (punishAndReward params info) :=
  calm_punishAndReward le_rfl (fun _ behind later => absurd behind (by omega)) params rfl

/-- `BeginBlock` does not find a record ahead of its block. -/
theorem beginBlock_noHeightPanic {E : EvmLib} (params : GovParams)
    {r : Workspace E} (positive : 0 ≤ info.height)
    (behind : Holds .rewards (AtMost info.height) r.ledgers) :
    NoHeightPanic (run (trxHandler storeImpl) (beginBlock params info) r).1 := by
  intro fault ended
  generalize ran : run (trxHandler storeImpl) (beginBlock params info) r = ending at ended
  obtain ⟨outcome, r'⟩ := ending
  obtain rfl : outcome = .error fault := ended
  rcases run_bind_error ran with failed | ⟨all, r₁, collected, ran⟩
  · rw [run_ledger] at failed
    exact (behind.exec (behind_collectDelegatees params)).1.noHeightPanic fault
      (congrArg Prod.fst failed)
  · obtain ⟨ls₁, collected', rfl⟩ := run_ledger_ok collected
    have behind' := behind.of_exec (Behind.keeps (behind_collectDelegatees params)) collected'
    rcases run_bind_error ran with failed | ⟨_, r₂, limited, ran⟩
    · cases failed
    · cases limited
      rcases run_bind_error ran with failed | ⟨_, r₃, _, ran⟩
      · rw [run_ledger] at failed
        exact (behind'.exec (behind_punishAndReward params info positive)).1.noHeightPanic fault
          (congrArg Prod.fst failed)
      · cases ran

/-! ## Withdrawals -/

/-- A withdrawal that can be credited takes the amount from the record. -/
theorem exec_exeWithdraw {req : Uint256} {rwd : Reward}
    {acct' : Account} (payload : ctx.tx.payload = .withdraw req)
    (record : (ls .rewards).lookup (toLedgerKey ctx.tx.fromAddr) = some rwd)
    (sender : ls.account ctx.tx.fromAddr = some acct) (credit : acct.addBalance req = .ok acct') :
    exec (exeWithdraw ctx) ls =
      if rwd.height ≤ ctx.height then
        (.ok (), (ls.put .rewards (rwd.withdrawnFrom req ctx.height)).put .accounts acct')
      else (.error (.panic (rwd.aheadOf ctx.height)), ls) := by
  have sender' : (ls.put .rewards (rwd.withdrawnFrom req ctx.height)).account ctx.tx.fromAddr =
      some acct := by
    rw [account, put_of_ne _ _ (by decide)]
    exact sender
  unfold exeWithdraw
  simp only [payload, Prog.bind_eq, run_bind, exec_get, Store.get, record,
    found_some, andThen_ok, run_ofExcept, Except.mapError, Reward.withdraw_eq]
  split
  · simp only [run_pure, andThen_ok, exec_set, run_tryXError,
      exec_reward, sender', credit]
    rfl
  · rfl

/-- `ExecuteTrx` does not find a record ahead of its block. -/
theorem executeTrx_noHeightPanic (behind : Holds .rewards (AtMost ctx.height) ls)
    (pubKey : HexBytes) :
    NoHeightPanic (exec (executeTrx ctx pubKey) ls).1 := by
  unfold executeTrx
  split
  · exact (behind.exec (Calm.behind (writes_exeStaking (D := (· ≠ .rewards)) nofun
      notAhead_negativePower (by decide) (by decide) ctx pubKey))).1.noHeightPanic
  · exact (behind.exec (Calm.behind (writes_exeUnstaking (by decide) (by decide)
      fun _ => nofun))).1.noHeightPanic
  · unfold exeWithdraw
    split
    · next req payload =>
      simp only [Prog.bind_eq, run_bind, exec_get, Store.get,
        andThen_ok, run_ofExcept]
      cases record : (ls .rewards).lookup (toLedgerKey ctx.tx.fromAddr) with
      | none => exact Ending.noHeightPanic trivial
      | some rwd =>
        have height : rwd.height ≤ ctx.height := behind.2 _ rwd record
        simp only [found_some, Except.mapError, andThen_ok, Reward.withdraw_eq,
          if_pos height, run_pure, exec_set, run_tryXError,
          exec_reward]
        split
        · exact Ending.noHeightPanic trivial
        · split
          · exact Ending.noHeightPanic trivial
          · exact Ending.noHeightPanic trivial
    · exact Ending.noHeightPanic trivial
  · exact Ending.noHeightPanic trivial

/-- A withdrawal that is valid is covered by the record. -/
theorem validateWithdraw_ok (ran : exec (validateWithdraw ctx) ls = (.ok (), ls')) :
    ∃ req rwd, ctx.tx.payload = .withdraw req ∧
      (ls .rewards).lookup (toLedgerKey ctx.tx.fromAddr) = some rwd ∧
      req.toNat ≤ rwd.cumulated.toNat := by
  obtain ⟨-, ran⟩ := run_ensure_ok ran
  split at ran
  · next req payload =>
    obtain ⟨rwd, record, ran⟩ := run_ofExcept_ok (run_get_ok ran)
    have enough := of_decide_eq_true (ensure_ok ran)
    refine ⟨req, rwd, payload, found_eq_ok.mp record, ?_⟩
    simpa [BitVec.lt_def] using enough
  · cases ran

end StakeCtrler

/-- The amount that a withdrawal asks for. -/
def Trx.reqAmt (tx : Trx) : Uint256 :=
  match tx.payload with
  | .withdraw req => req
  | _ => 0

/-- The fee can be taken from an account after an amount was added to it. -/
def CoversFee (acct : Account) (amt fee : Uint256) : Prop :=
  fee.isNegative = false ∧ ¬ acct.balance + amt < fee

instance (acct : Account) (amt fee : Uint256) : Decidable (CoversFee acct amt fee) :=
  inferInstanceAs (Decidable (_ ∧ _))

namespace TrxExecutor

theorem exec_payFee  {acct' : Account}
    (sender : ls.account ctx.tx.fromAddr = some acct)
    (paid : acct.subBalance (gasToFee ctx.tx.gas ctx.tx.gasPrice) = .ok acct') :
    exec (payFee ctx) ls = (.ok ⟨ctx.tx.gas, [], none⟩, ls.put .accounts acct'.addNonce) := by
  unfold payFee
  simp only [Prog.bind_eq, run_bind, exec_accountAt, sender,
    Option.elim_some, andThen_ok, run_ofExcept, paid, Except.mapError,
    exec_set]
  rfl

/-- A valid withdrawal is carried out, unless the code panics. -/
theorem exec_runNative_withdraw (pubKey : HexBytes) {req : Uint256}
    {rwd : Reward} (type : ctx.tx.type = .withdraw)
    (payload : ctx.tx.payload = .withdraw req)
    (record : (ls .rewards).lookup (toLedgerKey ctx.tx.fromAddr) = some rwd)
    (sender : ls.account ctx.tx.fromAddr = some acct) (credit : req.isNegative = false)
    (covers : CoversFee acct req (gasToFee ctx.tx.gas ctx.tx.gasPrice)) :
    (∃ p ls', exec (runNative ctx (StakeCtrler.executeTrx ctx pubKey)) ls =
        (.error (.panic p), ls')) ∨
      rwd.height ≤ ctx.height ∧ ∃ result ls',
        exec (runNative ctx (StakeCtrler.executeTrx ctx pubKey)) ls = (.ok result, ls') ∧
        result.failed = none ∧
        ls' .rewards = (ls .rewards).set (rwd.withdrawnFrom req ctx.height) := by
  have added : acct.addBalance req = .ok { acct with balance := acct.balance + req } := by
    rw [Account.addBalance, credit]
    rfl
  have executed := exec_exeWithdraw payload record sender added
  have native : exec (runNative ctx (StakeCtrler.executeTrx ctx pubKey)) ls =
      andThen (fun _ ls' => exec (postRunTrx ctx ⟨0, [], none⟩) ls')
        (exec (exeWithdraw ctx) ls) := by
    unfold runNative StakeCtrler.executeTrx
    rw [type]
    exact run_bind ..
  rw [native, executed]
  by_cases behind : rwd.height ≤ ctx.height
  · rw [if_pos behind, andThen_ok]
    have sender' : (ls.put .rewards (rwd.withdrawnFrom req ctx.height)).account ctx.tx.fromAddr =
        some acct := by
      rw [account, put_of_ne _ _ (by decide)]
      exact sender
    have credited : ((ls.put .rewards (rwd.withdrawnFrom req ctx.height)).put .accounts
        { acct with balance := acct.balance + req }).account ctx.tx.fromAddr =
        some { acct with balance := acct.balance + req } := account_put sender' rfl
    have paid : ({ acct with balance := acct.balance + req } : Account).subBalance
        (gasToFee ctx.tx.gas ctx.tx.gasPrice) = .ok { acct with
          balance := acct.balance + req - gasToFee ctx.tx.gas ctx.tx.gasPrice } := by
      simp only [Account.subBalance, covers.1, Bool.false_eq_true, if_false, if_neg covers.2]
    unfold postRunTrx
    rw [exec_bind, exec_accountAt]
    cases ((ls.put .rewards (rwd.withdrawnFrom req ctx.height)).put .accounts
        { acct with balance := acct.balance + req }).account ctx.tx.toAddr with
    | none => exact .inl ⟨_, _, rfl⟩
    | some receiver =>
      rw [Option.elim_some, andThen_ok, if_neg (by simp [type]),
        exec_payFee credited paid]
      refine .inr ⟨behind, _, _, rfl, rfl, ?_⟩
      rw [put_of_ne _ _ (by decide), put_of_ne _ _ (by decide), put_self]
  · rw [if_neg behind]
    exact .inl ⟨_, _, rfl⟩

/-- A withdrawal fails and leaves the ledgers, or the code panics, or the amount is taken from
the record of the sender. -/
theorem executeSync_withdraw {E : EvmLib} (lib : TrxLib) (json : ParamsJSON) (ctx : TrxContext)
    {r : Workspace E} (type : ctx.tx.type = .withdraw)
    (sender : account r.ledgers ctx.tx.fromAddr = some acct)
    (small : cumulated r.ledgers (toLedgerKey ctx.tx.fromAddr) < 2 ^ 255)
    (covered : ∀ req pubKey r', ctx.tx.payload = .withdraw req →
      run (trxHandler storeImpl) (validateTrx lib json ctx) r = (.ok pubKey, r') →
      CoversFee acct req (gasToFee ctx.tx.gas ctx.tx.gasPrice)) :
    (∃ e r', run (trxHandler storeImpl) (executeSync lib json ctx) r = (.error (.xerr e), r') ∧
      r'.ledgers = r.ledgers) ∨
    (∃ p r', run (trxHandler storeImpl) (executeSync lib json ctx) r = (.error (.panic p), r')) ∨
    ∃ req rwd result r',
      run (trxHandler storeImpl) (executeSync lib json ctx) r = (.ok result, r') ∧
      result.failed = none ∧ ctx.tx.payload = .withdraw req ∧
      (r.ledgers .rewards).lookup (toLedgerKey ctx.tx.fromAddr) = some rwd ∧
      req.toNat ≤ rwd.cumulated.toNat ∧
      r'.ledgers .rewards = (r.ledgers .rewards).set (rwd.withdrawnFrom req ctx.height) := by
  rcases executeSync_cases lib json ctx r with
    ⟨fault, r', failed, ledgers⟩ | ⟨pubKey, r', valid, ledgers, sequence⟩
  · cases fault with
    | xerr e => exact .inl ⟨e, r', failed, ledgers⟩
    | panic p => exact .inr (.inl ⟨p, r', failed⟩)
  · have checked := (validateTrx_ok valid).2.2
    simp only [validateByType, type, StakeCtrler.validateTrx] at checked
    obtain ⟨_, validated, -⟩ := run_ledger_ok checked
    obtain ⟨req, rwd, payload, record, enough⟩ := validateWithdraw_ok validated
    have credit : req.isNegative = false := by
      rw [cumulated, record] at small
      exact (Uint256.isNegative_eq_false_iff req).mpr (Nat.lt_of_le_of_lt enough small)
    simp only [runTrx, type] at sequence
    rw [← ledgers] at record sender ⊢
    rcases exec_runNative_withdraw pubKey type payload record sender credit
      (covered req pubKey r' payload valid) with
      ⟨p, ls', panicked⟩ | ⟨-, result, ls', executed, succeeded, rewards⟩
    · exact .inr (.inl ⟨p, _, sequence.trans (run_ledger_of_exec panicked)⟩)
    · exact .inr (.inr ⟨req, rwd, result, _, sequence.trans (run_ledger_of_exec executed),
        succeeded, payload, record, enough, rewards⟩)

end TrxExecutor

/-! ## DeliverTx -/

namespace RigoApp

variable {X : External} {s t : Node X.evm}

/-- If the transaction is a valid withdrawal, its sender can pay the fee after it. -/
def FeeCovered (X : External) (s : Node X.evm) (txbz : HexBytes) : Prop :=
  ∀ tx ∈ (Trx.decode X.trx txbz).toOption, tx.type = .withdraw →
    ∀ bctx ∈ s.mem.nextBlockCtx, ∀ acct ∈ Stores.account s.ledgers tx.fromAddr,
      (run (trxHandler storeImpl) (TrxExecutor.validateTrx X.trx X.json
        (TrxExecutor.contextOf X.trx (deliverSetting s.mem bctx) txbz tx))
        { s.toResources with ledgers := Stores.withAccount s.ledgers tx.toAddr }).1.isOk = true →
      CoversFee acct tx.reqAmt (gasToFee tx.gas tx.gasPrice)

instance (X : External) (s : Node X.evm) (txbz : HexBytes) : Decidable (FeeCovered X s txbz) := by
  unfold FeeCovered
  infer_instance

/-- A withdrawal fails and leaves the rewards, or it takes its amount from the record of its
sender. -/
theorem deliverTx_withdraw {txbz : HexBytes} {answer : TxResponse} {tx : Trx}
    (ran : DeliversTx X txbz s answer t)
    (decoded : Trx.decode X.trx txbz = .ok tx) (type : tx.type = .withdraw)
    (covered : FeeCovered X s txbz)
    (small : cumulated s.ledgers (toLedgerKey tx.fromAddr) < 2 ^ 255) :
    (answer.code ≠ 0 ∧ t.ledgers .rewards = s.ledgers .rewards) ∨
      answer.code = 0 ∧ ∃ bctx req rwd, s.mem.nextBlockCtx = some bctx ∧
        tx.payload = .withdraw req ∧
        (s.ledgers .rewards).lookup (toLedgerKey tx.fromAddr) = some rwd ∧
        req.toNat ≤ rwd.cumulated.toNat ∧
        t.ledgers .rewards =
          (s.ledgers .rewards).set (rwd.withdrawnFrom req bctx.blockInfo.height) := by
  obtain ⟨bctx, tx', sender, inBlock, decoded', present, answered⟩ := deliverTx_ok ran
  obtain rfl : tx = tx' := Except.ok.inj (decoded.symm.trans decoded')
  have resources := (respond_ok answered).1
  have kept : (withAccount s.ledgers tx.toAddr) .rewards = s.ledgers .rewards :=
    withAccount_of_ne (by decide) _ _
  have small' : cumulated (withAccount s.ledgers tx.toAddr)
      (toLedgerKey tx.fromAddr) < 2 ^ 255 := by
    rw [cumulated, kept]
    exact small
  have covers (req : Uint256) (pubKey : HexBytes) (r : Workspace X.evm)
      (payload : tx.payload = .withdraw req)
      (valid : run (trxHandler storeImpl) (TrxExecutor.validateTrx X.trx X.json
        (ctxOf X s bctx txbz tx))
        { s.toResources with ledgers := withAccount s.ledgers tx.toAddr } =
          (.ok pubKey, r)) : CoversFee sender req (gasToFee tx.gas tx.gasPrice) := by
    have amount : tx.reqAmt = req := by rw [Trx.reqAmt, payload]
    rw [← amount]
    refine covered tx (by rw [decoded]; rfl) type bctx inBlock sender present ?_
    rw [valid]
    rfl
  rcases TrxExecutor.executeSync_withdraw X.trx X.json
      (ctxOf X s bctx txbz tx)
      (r := { s.toResources with ledgers := withAccount s.ledgers tx.toAddr })
      type (account_withAccount present _) small' covers with
    ⟨e, r, failed, ledgers⟩ | ⟨p, r, panicked⟩ |
    ⟨req, rwd, result, r, executed, succeeded, payload, record, enough, rewards⟩
  · rw [failed] at answered resources
    cases answered
    refine .inl ⟨by rw [code_failure]; decide, ?_⟩
    rw [resources]
    exact (congrFun ledgers .rewards).trans kept
  · rw [panicked] at answered
    cases answered
  · rw [executed] at answered resources
    simp only [respond, succeeded] at answered
    cases answered
    rw [← kept]
    exact .inr ⟨rfl, bctx, req, rwd, inBlock, payload, record, enough, rewards⟩

/-! ## BeginBlock and EndBlock -/

/-- What `BeginBlock` adds to the records. -/
theorem beginBlock_cumulated (removed : (s.ledgers .rewards).removed = [])
    (ran : BeginsBlock X info s t) :
    (t.ledgers .rewards).removed = [] ∧
      ∀ k, cumulated s.ledgers k +
          issuedAt s.mem.govParams s.ledgers info k < 2 ^ 256 →
        cumulated t.ledgers k = cumulated s.ledgers k +
          issuedAt s.mem.govParams s.ledgers info k := by
  obtain ⟨last, ls, ls', allDelegatees, -, -, -, governed, -, rewarded, rfl⟩ := beginBlock_ok ran
  have kept : ls .rewards = s.ledgers .rewards :=
    GovCtrler.beginBlock_frame (by decide) governed
  have same (k : LedgerKey) : ls.cumulated k = cumulated s.ledgers k := by
    rw [cumulated, kept]
    rfl
  have issued (k : LedgerKey) : issuedAt s.mem.govParams ls info k =
      issuedAt s.mem.govParams s.ledgers info k := by
    unfold issuedAt rewardedStakes
    rw [tree_of_exec governed]
  obtain ⟨removed', added⟩ :=
    punishAndReward_cumulated (by rw [kept]; exact removed) rewarded
  refine ⟨removed', fun k small => ?_⟩
  rw [← same, ← issued] at small ⊢
  exact added k small

/-- `BeginBlock` leaves no record ahead of its block. -/
theorem beginBlock_atMost (positive : 0 ≤ info.height)
    (behind : Holds .rewards (AtMost info.height) s.ledgers)
    (ran : BeginsBlock X info s t) :
    Holds .rewards (AtMost info.height) t.ledgers := by
  obtain ⟨last, ls, ls', allDelegatees, -, -, -, governed, -, rewarded, rfl⟩ := beginBlock_ok ran
  have governed' := behind.of_exec ((GovCtrler.writes_beginBlock (S := fun l => l ≠ .rewards)
    (by decide) _ _).keeps (not_not.mpr rfl)) governed
  exact governed'.of_exec (Behind.keeps (behind_punishAndReward _ _ positive)) rewarded

end RigoApp

end Rigo
