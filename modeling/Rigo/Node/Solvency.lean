import Rigo.Node.Heights
import Rigo.Node.Rewards

/-!
# Solvency of the rewards

In every run the cumulated amount of a record is what was issued to its owner minus what its
owner has withdrawn, as a number: no subtraction wraps around.  No record is ever ahead of the
block that changes it.

A withdrawal can be carried out although its transaction fails: the fee is taken after it, and
nothing puts the amount back if that fails.  The balance was checked before, so this happens
only if the amount makes the balance wrap around (`withdrawn_unpaid`); the theorem is about the
runs in which no withdrawal does so (`FeePaid`).
-/

namespace Rigo

open Foundation

namespace RigoApp

/-! ## What was issued and what was paid -/

section

variable {E : EvmLib}

/-- What a step issues to the owner with a key. -/
def issuedIn (k : LedgerKey) (step : Step E) : Nat :=
  match step.call with
  | .beginBlock info => StakeCtrler.issuedAt step.before.mem.govParams step.before.ledgers info k
  | _ => 0

/-- What was issued to the owner with a key. -/
def issued (k : LedgerKey) (steps : List (Step E)) : Nat := (steps.map (issuedIn k)).sum

/-- What a step issues to all owners. -/
def issuanceIn (step : Step E) : Nat :=
  match step.call with
  | .beginBlock info => ((StakeCtrler.rewardedStakes step.before.ledgers info).map fun s0 =>
    (StakeCtrler.rewardFor step.before.mem.govParams s0).toNat).sum
  | _ => 0

/-- The total issuance. -/
def issuance (steps : List (Step E)) : Nat := (steps.map issuanceIn).sum

theorem issuedIn_le (k : LedgerKey) (step : Step E) : issuedIn k step ≤ issuanceIn step := by
  unfold issuedIn issuanceIn
  split
  · refine List.sum_le_sum fun s0 _ => ?_
    unfold StakeCtrler.rewardAt
    split
    · exact le_rfl
    · exact Nat.zero_le _
  · exact le_rfl

theorem issued_le (k : LedgerKey) (steps : List (Step E)) : issued k steps ≤ issuance steps :=
  List.sum_le_sum fun step _ => issuedIn_le k step

theorem issued_append (k : LedgerKey) (steps : List (Step E)) (step : Step E) :
    issued k (steps ++ [step]) = issued k steps + issuedIn k step := by
  simp [issued]

theorem issuance_append (steps : List (Step E)) (step : Step E) :
    issuance (steps ++ [step]) = issuance steps + issuanceIn step := by
  simp [issuance]

end

variable {X : External} {call : ConsensusCall} {genesis : Genesis} {appHash : HexBytes} {h : Int}
  {phase : Phase} {ls : Stores}

/-- What a step pays to the owner with a key. -/
def paidIn (X : External) (k : LedgerKey) (step : Step X.evm) : Nat :=
  match executedTrx X step with
  | some tx => if tx.type = .withdraw ∧ toLedgerKey tx.fromAddr = k then tx.reqAmt.toNat else 0
  | none => 0

/-- What the owner with a key was paid. -/
def paid (X : External) (k : LedgerKey) (steps : List (Step X.evm)) : Nat :=
  (steps.map (paidIn X k)).sum

theorem paid_append (k : LedgerKey) (steps : List (Step X.evm)) (step : Step X.evm) :
    paid X k (steps ++ [step]) = paid X k steps + paidIn X k step := by
  simp [paid]

/-- If the step is a valid withdrawal, its sender can pay the fee after it. -/
def FeePaid (X : External) (step : Step X.evm) : Prop :=
  match step.call with
  | .deliverTx txbz => FeeCovered X step.before txbz
  | _ => True

instance (X : External) (step : Step X.evm) : Decidable (FeePaid X step) :=
  match step with
  | ⟨_, .deliverTx _, _, _⟩ => inferInstanceAs (Decidable (FeeCovered ..))
  | ⟨_, .beginBlock _, _, _⟩ => .isTrue trivial
  | ⟨_, .endBlock, _, _⟩ => .isTrue trivial
  | ⟨_, .commit, _, _⟩ => .isTrue trivial

/-! ## The invariant -/

/-- The rewards after some steps. -/
structure Solvent (X : External) (phase : Phase) (steps : List (Step X.evm)) (s : Node X.evm) :
    Prop where
  removed : (s.ledgers .rewards).removed = []
  balanced : ∀ k, Stores.cumulated s.ledgers k + paid X k steps = issued k steps
  idle : phase = .idle → Holds .rewards (AtMost (blocks steps)) s.ledgers
  opened : ∀ h, openHeight s = some h → 0 < h → Holds .rewards (AtMost h) s.ledgers

theorem Holds.mono_height {h' : Int} (behind : Holds .rewards (AtMost h) ls)
    (le : h ≤ h') : Holds .rewards (AtMost h') ls :=
  ⟨behind.1, fun k rwd found => (behind.2 k rwd found).trans le⟩

/-- The next height is later, if it is one. -/
theorem le_height_of_pos {n : Nat} (small : n < 2 ^ 63) (positive : 0 < i64 ((n : Int) + 1)) :
    (n : Int) ≤ i64 ((n : Int) + 1) := by
  by_cases last : n + 1 = 2 ^ 63
  · rw [show (n : Int) + 1 = 2 ^ 63 by omega] at positive
    exact absurd positive (by decide)
  · rw [i64_of_range (by omega) (by omega)]
    omega

section

variable {steps : List (Step X.evm)} {s t u : Node X.evm}

theorem Solvent.initChain (first : firstNode X = .ok s)
    (ran : InitsChain X genesis s t) :
    Solvent X .idle [] t := by
  have none (k : LedgerKey) : (t.ledgers .rewards).lookup k = none := by
    rw [initChain_frame ran (l := .rewards) (by decide)]
    cases first
    rfl
  have removed : (t.ledgers .rewards).removed = [] := by
    rw [initChain_frame ran (l := .rewards) (by decide)]
    cases first
    rfl
  have behind (h : Int) : Holds .rewards (AtMost h) t.ledgers := by
    refine ⟨removed, fun k rwd found => ?_⟩
    cases (none k).symm.trans found
  refine ⟨removed, fun k => ?_, fun _ => behind _, fun h _ _ => behind h⟩
  rw [Stores.cumulated, none]
  rfl

/-- What is assumed of a run holds of the run before its last step. -/
theorem before {step : Step X.evm} (covered : ∀ step' ∈ steps ++ [step], FeePaid X step')
    (small : issuance (steps ++ [step]) < 2 ^ 255) :
    (∀ step' ∈ steps, FeePaid X step') ∧ issuance steps < 2 ^ 255 := by
  rw [issuance_append] at small
  exact ⟨fun step' member => covered step' (List.mem_append_left _ member), by omega⟩

/-- A step that neither issues nor pays rewards. -/
theorem Solvent.unchanged {phase' : Phase} {response : Response}
    (solvent : Solvent X phase steps s) (kept : t.ledgers .rewards = s.ledgers .rewards)
    (opened : openHeight t = openHeight s) (unpaid : ∀ k, paidIn X k ⟨s, call, response, t⟩ = 0)
    (unissued : ∀ k, issuedIn k ⟨s, call, response, t⟩ = 0)
    (busy : phase' ≠ .idle) : Solvent X phase' (steps ++ [⟨s, call, response, t⟩]) t := by
  have holds {h : Int} (behind : Holds .rewards (AtMost h) s.ledgers) :
      Holds .rewards (AtMost h) t.ledgers := by
    unfold Holds
    rw [kept]
    exact behind
  refine ⟨by rw [kept]; exact solvent.removed, fun k => ?_, fun idle => absurd idle busy,
    fun h here positive => holds (solvent.opened h (opened ▸ here) positive)⟩
  rw [paid_append, issued_append, unpaid, unissued, Stores.cumulated, kept]
  exact solvent.balanced k

/-- A step that pays some of a record. -/
theorem Solvent.withdrawn {response : Response} {k : LedgerKey}
    {rwd : Reward} {req : Uint256} (solvent : Solvent X .delivering steps s)
    (record : (s.ledgers .rewards).lookup k = some rwd) (enough : req.toNat ≤ rwd.cumulated.toNat)
    (rewards : t.ledgers .rewards = (s.ledgers .rewards).set (rwd.withdrawnFrom req h))
    (opened : openHeight t = openHeight s) (height : openHeight s = some h)
    (paid : ∀ k', paidIn X k' ⟨s, call, response, t⟩ = if k = k' then req.toNat else 0)
    (unissued : ∀ k', issuedIn k' ⟨s, call, response, t⟩ = 0) :
    Solvent X .delivering (steps ++ [⟨s, call, response, t⟩]) t := by
  have key : LedgerItem.key rwd = k := Store.key_of_lookup record
  have filed : LedgerItem.key (rwd.withdrawnFrom req h) = k := key
  have found (k' : LedgerKey) : (t.ledgers .rewards).lookup k' =
      if k = k' then some (rwd.withdrawnFrom req h) else (s.ledgers .rewards).lookup k' := by
    rw [rewards, Store.lookup_set_of_removed solvent.removed, filed]
  have removed : (t.ledgers .rewards).removed = [] := by
    rw [rewards]
    exact solvent.removed
  refine ⟨removed, fun k' => ?_, fun idle => (by cases idle), fun h' here positive => ?_⟩
  · have balanced := solvent.balanced k'
    rw [paid_append, issued_append, paid, unissued, Stores.cumulated, found]
    unfold Stores.cumulated at balanced
    by_cases mine : k = k'
    · subst mine
      have left : (rwd.cumulated - req).toNat = rwd.cumulated.toNat - req.toNat :=
        BitVec.toNat_sub_of_le enough
      rw [record] at balanced
      rw [if_pos rfl, if_pos rfl]
      change rwd.cumulated.toNat + _ = _ at balanced
      change (rwd.cumulated - req).toNat + _ = _
      omega
    · rw [if_neg mine, if_neg mine]
      exact balanced
  · obtain rfl : h = h' := Option.some.inj (height.symm.trans (opened.symm.trans here))
    refine ⟨removed, fun k' rwd' found' => ?_⟩
    rw [found] at found'
    split at found'
    · cases found'
      exact le_rfl
    · exact (solvent.opened h height positive).2 k' rwd' found'

theorem Solvent.beginBlock (solvent : Solvent X .idle steps s) (heights : Heights .idle steps s)
    {info : BlockInfo}
    (small : issuance (steps ++ [⟨s, .beginBlock info, .beginBlock, t⟩]) < 2 ^ 255)
    (ran : BeginsBlock X info s t) :
    Solvent X .delivering (steps ++ [⟨s, .beginBlock info, .beginBlock, t⟩]) t := by
  obtain ⟨removed, added⟩ := beginBlock_cumulated solvent.removed ran
  refine ⟨removed, fun k => ?_, fun idle => (by cases idle), fun h opened positive => ?_⟩
  · have issued := issued_append k steps ⟨s, .beginBlock info, .beginBlock, t⟩
    have bound := (issued_le k _).trans_lt small
    have balanced := solvent.balanced k
    have paid : paid X k (steps ++ [⟨s, .beginBlock info, .beginBlock, t⟩]) = paid X k steps :=
      paid_append k steps _
    have here : issuedIn k ⟨s, .beginBlock info, .beginBlock, t⟩ =
        StakeCtrler.issuedAt s.mem.govParams s.ledgers info k := rfl
    rw [issued, here] at bound ⊢
    rw [added k (by omega), paid]
    omega
  · have next := (heights.beginBlock ran).opened
    have same : blocks (steps ++ [⟨s, .beginBlock info, .beginBlock, t⟩]) = blocks steps :=
      blocks_append steps _
    rw [opened, if_neg (by decide), same, Option.some.injEq] at next
    have height : h = info.height := by
      obtain ⟨last, _, _, _, -, -, -, -, -, -, rfl⟩ := beginBlock_ok ran
      exact (Option.some.inj opened).symm
    subst height
    have later : (blocks steps : Int) ≤ info.height := by
      rw [next] at positive ⊢
      exact le_height_of_pos heights.small positive
    exact beginBlock_atMost positive.le ((Holds.mono_height (solvent.idle rfl) later)) ran

theorem Solvent.deliverTx (solvent : Solvent X .delivering steps s) {txbz : HexBytes}
    {answer : TxResponse} (small : issuance steps < 2 ^ 255) (covered : FeeCovered X s txbz)
    (ran : DeliversTx X txbz s answer t) :
    Solvent X .delivering (steps ++ [⟨s, .deliverTx txbz, .deliverTx answer, t⟩]) t := by
  obtain ⟨bctx, tx, sender, inBlock, decoded, -, -⟩ := deliverTx_ok ran
  have opened := openHeight_deliverTx ran
  have paid (k : LedgerKey) : paidIn X k ⟨s, .deliverTx txbz, .deliverTx answer, t⟩ =
      if answer.code = 0 ∧ tx.type = .withdraw ∧ toLedgerKey tx.fromAddr = k then tx.reqAmt.toNat
      else 0 := by
    by_cases code : answer.code = 0 <;> simp [paidIn, executedTrx, decoded, code, Except.toOption]
  by_cases type : tx.type = .withdraw
  · have bound : Stores.cumulated s.ledgers (toLedgerKey tx.fromAddr) < 2 ^ 255 := by
      have balanced := solvent.balanced (toLedgerKey tx.fromAddr)
      have least := (issued_le (toLedgerKey tx.fromAddr) steps).trans_lt small
      omega
    rcases deliverTx_withdraw ran decoded type covered bound with
      ⟨code, kept⟩ | ⟨code, bctx', req, rwd, inBlock', payload, record, enough, rewards⟩
    · exact solvent.unchanged kept opened (fun k => by rw [paid, if_neg (by simp [code])])
        (fun _ => rfl) (by decide)
    · have amount : tx.reqAmt = req := by rw [Trx.reqAmt, payload]
      refine solvent.withdrawn record enough rewards opened ?_ (fun k => ?_) fun _ => rfl
      · rw [openHeight, inBlock']
        rfl
      · rw [paid, amount]
        simp only [code, type, true_and]
  · have kept : t.ledgers .rewards = s.ledgers .rewards := deliverTx_frame ran decoded type
    exact solvent.unchanged kept opened (fun k => by rw [paid, if_neg (by simp [type])])
      (fun _ => rfl) (by decide)

theorem Solvent.endBlock (solvent : Solvent X .delivering steps s)
    {valUpdates : List ValidatorUpdate}
    (ran : EndsBlock X s valUpdates t) :
    Solvent X .ended (steps ++ [⟨s, .endBlock, .endBlock valUpdates, t⟩]) t :=
  solvent.unchanged (endBlock_frame ran id) (openHeight_endBlock ran) (fun _ => rfl) (fun _ => rfl)
    (by decide)

theorem Solvent.commit (solvent : Solvent X .ended steps s) (heights : Heights .ended steps s)
    (ran : Commits X s appHash t) :
    Solvent X .idle (steps ++ [⟨s, .commit, .commit appHash, t⟩]) t := by
  have next : blocks (steps ++ [⟨s, .commit, .commit appHash, t⟩]) = blocks steps + 1 :=
    blocks_append steps _
  have height : openHeight s = some ((blocks steps : Int) + 1) := by
    have last := (heights.commit ran).last
    obtain ⟨bctx, state, inBlock, -, -, rfl, -, -⟩ := commit_ok ran
    rw [next] at last
    rw [openHeight, inBlock]
    exact last
  have behind := (solvent.opened _ height (by omega)).commit
  have ledgers : t.ledgers = fun l => (s.ledgers l).commit := by
    obtain ⟨bctx, state, -, -, -, rfl, -, -⟩ := commit_ok ran
    rfl
  refine ⟨by rw [ledgers]; rfl, fun k => ?_, fun _ => ?_, fun h opened _ => ?_⟩
  · have kept : Stores.cumulated t.ledgers k = Stores.cumulated s.ledgers k := by
      rw [Stores.cumulated, ledgers, Store.lookup_commit_of_removed solvent.removed]
      rfl
    rw [paid_append, issued_append, kept]
    exact solvent.balanced k
  · rw [ledgers, next]
    exact behind
  · have closed := (heights.commit ran).opened
    rw [opened] at closed
    cases closed

theorem Solvent.restartNode (solvent : Solvent X .idle steps t)
    (ran : Commits X s appHash t)
    (restarted : restartNode X t = .ok u) (heights : Heights .idle steps u) :
    Solvent X .idle steps u := by
  have ledgers := restartNode_ledgers ran restarted
  refine ⟨by rw [ledgers]; exact solvent.removed, fun k => by rw [ledgers]; exact solvent.balanced k,
    fun idle => by rw [ledgers]; exact solvent.idle idle, fun h opened _ => ?_⟩
  have closed := heights.opened
  rw [opened] at closed
  cases closed

/-- The rewards in every run whose withdrawals can pay their fees. -/
theorem Run.keepsSolvent {mayRestart : Bool} {s : App X.evm}
    (ran : Run X mayRestart genesis phase steps s) :
    Heights phase steps (App.node s) ∧ ((∀ step ∈ steps, FeePaid X step) →
      issuance steps < 2 ^ 255 → Solvent X phase steps (App.node s)) := by
  refine ran.node_induction (I := fun phase steps s => Heights phase steps s ∧
    ((∀ step ∈ steps, FeePaid X step) → issuance steps < 2 ^ 255 → Solvent X phase steps s))
    ?_ ?_ ?_ ?_ ?_ ?_ ?_
  · intro s t first ran
    exact ⟨.initChain first ran, fun _ _ => .initChain first ran⟩
  · rintro steps s t info ⟨heights, solvent⟩ ran
    refine ⟨heights.beginBlock ran, fun covered small => ?_⟩
    obtain ⟨covered', small'⟩ := before covered small
    exact (solvent covered' small').beginBlock heights small ran
  · rintro steps s t txbz answer ⟨heights, solvent⟩ ran
    refine ⟨heights.deliverTx ran, fun covered small => ?_⟩
    obtain ⟨covered', small'⟩ := before covered small
    exact (solvent covered' small').deliverTx small' (covered _ List.mem_concat_self) ran
  · rintro steps s t valUpdates ⟨heights, solvent⟩ ran
    refine ⟨heights.endBlock ran, fun covered small => ?_⟩
    obtain ⟨covered', small'⟩ := before covered small
    exact (solvent covered' small').endBlock ran
  · rintro steps s t appHash ⟨heights, solvent⟩ ran
    refine ⟨heights.commit ran, fun covered small => ?_⟩
    obtain ⟨covered', small'⟩ := before covered small
    exact (solvent covered' small').commit heights ran
  · rintro phase steps s limiter ⟨heights, solvent⟩
    refine ⟨⟨heights.small, heights.evm, heights.versions, heights.last, heights.opened,
      heights.evmStored, heights.stored⟩, fun covered small => ?_⟩
    obtain ⟨removed, balanced, idle, opened⟩ := solvent covered small
    exact ⟨removed, balanced, idle, opened⟩
  · rintro steps s t u appHash - ⟨heights, solvent⟩ ran restarted
    have heights' := (heights.commit ran).restartNode ran restarted
    refine ⟨heights', fun covered small => ?_⟩
    obtain ⟨covered', small'⟩ := before covered small
    exact ((solvent covered' small').commit heights ran).restartNode ran restarted heights'

theorem Holds.of_same {ls' : Stores} (behind : Holds .rewards (AtMost h) ls)
    (same : ls' .rewards = ls .rewards) : Holds .rewards (AtMost h) ls' := by
  unfold Holds
  rw [same]
  exact behind

end

/-! ## Solvency -/

/-- In every run whose withdrawals can pay their fees, the cumulated amount of an address is
what was issued to it minus what it was paid; and neither the `BeginBlock` of the next block nor
a transaction in the open one finds a record that is ahead. -/
theorem Run.solvent {mayRestart : Bool} {genesis : Genesis} {phase : Phase}
    {steps : List (Step X.evm)} {s : App X.evm} (ran : Run X mayRestart genesis phase steps s)
    (covered : ∀ step ∈ steps, FeePaid X step) (small : issuance steps < 2 ^ 255) :
    (∀ addr, (Stores.cumulated (App.node s).ledgers (toLedgerKey addr) : Int) =
      (issued (toLedgerKey addr) steps : Int) - paid X (toLedgerKey addr) steps) ∧
    (phase = .idle → ∀ (params : GovParams) (info : BlockInfo) (r : Workspace X.evm),
      info.height = (blocks steps : Int) + 1 → r.ledgers .rewards = (App.node s).ledgers .rewards →
      NoHeightPanic (run (trxHandler storeImpl) (StakeCtrler.beginBlock params info) r).1) ∧
    (∀ height, openHeight (App.node s) = some height → 0 < height →
      ∀ ctx pubKey ls, ctx.height = height → ls .rewards = (App.node s).ledgers .rewards →
        NoHeightPanic (exec (StakeCtrler.executeTrx ctx pubKey) ls).1) := by
  have solvent := ran.keepsSolvent.2 covered small
  refine ⟨fun addr => ?_, fun idle params info r next same => ?_,
    fun height opened positive ctx pubKey ls here same => ?_⟩
  · have balanced := solvent.balanced (toLedgerKey addr)
    omega
  · have behind := Holds.of_same (solvent.idle idle) same
    exact StakeCtrler.beginBlock_noHeightPanic params (by omega)
      (Holds.mono_height behind (by omega))
  · subst here
    exact StakeCtrler.executeTrx_noHeightPanic
      (Holds.of_same (solvent.opened _ opened positive) same) pubKey

/-! ### A withdrawal that is not paid -/

/-- A withdrawal of the smallest amount. -/
def oneWithdrawal : External :=
  Concrete.external ⟨[Concrete.trx .withdraw 1 0 0 0 [1]], [], [], []⟩

/-- A chain with one validator that has the given balance. -/
def validatorWith (balance : Uint256) : Genesis :=
  { Concrete.genesis [(1, 10000000)] with assetHolders := [(Concrete.addr 1, balance)] }

/-- The validator signs a block and then withdraws from its reward. -/
def withdrawing : List ConsensusCall :=
  [.beginBlock (Concrete.block 1), .endBlock, .commit,
    .beginBlock { Concrete.block 2 with votes := [⟨Concrete.addr 1, 10000000, true⟩] },
    .deliverTx [0]]

def oneCoin : App oneWithdrawal.evm :=
  (start oneWithdrawal (validatorWith Concrete.coin)).toOption.get (by decide +kernel)

def allCoins : App oneWithdrawal.evm :=
  (start oneWithdrawal (validatorWith (BitVec.allOnes 256))).toOption.get (by decide +kernel)

/-- A validator with one coin is rewarded and withdraws a part of the reward. -/
theorem Run.solvent_oneCoin :
    issued (toLedgerKey (Concrete.addr 1)) (stepsOf oneWithdrawal withdrawing oneCoin) =
      47564687970000000 ∧
    paid oneWithdrawal (toLedgerKey (Concrete.addr 1))
      (stepsOf oneWithdrawal withdrawing oneCoin) = 1 ∧
    (Stores.cumulated (App.node (runCalls oneWithdrawal finalityImpl withdrawing oneCoin).2).ledgers
      (toLedgerKey (Concrete.addr 1)) : Int) = 47564687970000000 - 1 := by
  have length : (stepsOf oneWithdrawal withdrawing oneCoin).length = withdrawing.length := by
    decide +kernel
  have ran : Run oneWithdrawal false (validatorWith Concrete.coin) .delivering
      ([] ++ stepsOf oneWithdrawal withdrawing oneCoin) _ :=
    (Run.start (eq_ok_of_isSome _)).calls withdrawing rfl length
  have issued : issued (toLedgerKey (Concrete.addr 1))
      (stepsOf oneWithdrawal withdrawing oneCoin) = 47564687970000000 := by decide +kernel
  have paid : paid oneWithdrawal (toLedgerKey (Concrete.addr 1))
      (stepsOf oneWithdrawal withdrawing oneCoin) = 1 := by decide +kernel
  have solvent := (Run.solvent ran (by decide +kernel) (by decide +kernel)).1 (Concrete.addr 1)
  rw [List.nil_append, issued, paid] at solvent
  exact ⟨issued, paid, solvent⟩

/-- A validator with all coins but one of the smallest unit has the amount taken from its record
by a withdrawal that fails: the balance has wrapped around when the fee is taken. -/
theorem withdrawn_unpaid :
    ∃ steps s, Run oneWithdrawal false (validatorWith (BitVec.allOnes 256)) .delivering steps s ∧
      issuance steps < 2 ^ 255 ∧
      issued (toLedgerKey (Concrete.addr 1)) steps = 47564687970000000 ∧
      paid oneWithdrawal (toLedgerKey (Concrete.addr 1)) steps = 0 ∧
      Stores.cumulated (App.node s).ledgers (toLedgerKey (Concrete.addr 1)) =
        47564687970000000 - 1 := by
  have length : (stepsOf oneWithdrawal withdrawing allCoins).length = withdrawing.length := by
    decide +kernel
  have ran : Run oneWithdrawal false (validatorWith (BitVec.allOnes 256)) .delivering
      ([] ++ stepsOf oneWithdrawal withdrawing allCoins) _ :=
    (Run.start (eq_ok_of_isSome _)).calls withdrawing rfl length
  exact ⟨_, _, ran, by decide +kernel, by decide +kernel, by decide +kernel, by decide +kernel⟩

end RigoApp

end Rigo
