import Rigo.Foundation.Wp
import Rigo.Node.Delegatees

/-!
# Where staking panics

The rules of `Foundation.wp` for the operations of the controllers compute when a function ends
without a panic.  For the checks on a staking and on an unstaking the result is a condition on
the parameters, the delegatee and the limiter: amounts whose power does not fit 64 bits, sums
of powers that overflow, and the divisors and the index that `CheckLimit` takes from the
limiter (`StakeLimiter.Breaks`).
-/

namespace Rigo

open Foundation

variable {delg : Delegatee} {diffPower : Int} {sl : StakeLimiter} {ls : Stores}

/-- A fault that is not a panic of a bad kind. -/
def Fault.Avoids (bad : Panic → Prop) : Fault → Prop
  | xerr _ => True
  | panic p => ¬ bad p

/-- Every panic is bad. -/
def anyPanic : Panic → Prop := fun _ => True

/-- An index or a slice bound out of range, or a division by zero. -/
def Panic.Arithmetic (p : Panic) : Prop := p = .outOfRange ∨ p = .divisionByZero

/-! ## Rules -/

section

variable {Op : Type → Type} {σ α : Type} {h : Handler Op σ} {bad : Panic → Prop}
  {post : α → σ → Prop} {s : σ}

@[simp] theorem wp_throwX (e : XError) :
    wp h (Fault.Avoids bad) (throwX e : Prog Op Fault α) post s ↔ True := Iff.rfl

@[simp] theorem wp_crash (p : Panic) :
    wp h (Fault.Avoids bad) (crash p : Prog Op Fault α) post s ↔ ¬ bad p := Iff.rfl

@[simp] theorem wp_ensure (condition : Bool) (e : XError) {post : Unit → σ → Prop} :
    wp h (Fault.Avoids bad) (ensure condition e : Prog Op Fault Unit) post s ↔
      (condition = true → post () s) := by
  cases condition with
  | false => simp [ensure]
  | true => simp [ensure]

theorem wp_ensure_bind {condition : Bool} {e : XError} {f : Unit → Prog Op Fault α} :
    wp h (Fault.Avoids bad) (ensure condition e >>= f) post s ↔
      (condition = true → wp h (Fault.Avoids bad) (f ()) post s) :=
  (wp_bind _ _).trans (wp_ensure _ _)

@[simp] theorem wp_ofExcept (result : Except XError α) :
    wp h (Fault.Avoids bad) (ofExcept result : Prog Op Fault α) post s ↔
      ∀ value, result = .ok value → post value s := by
  cases result with
  | error e => simp [ofExcept]
  | ok value => simp [ofExcept]

@[simp] theorem wp_amountToPower (amt : Uint256) {post : Int → σ → Prop} :
    wp h (Fault.Avoids bad) (amountToPower amt : Prog Op Fault Int) post s ↔
      (powerOf amt < 0 → ¬ bad (negativePower amt)) ∧ (0 ≤ powerOf amt → post (powerOf amt) s) := by
  unfold amountToPower
  rw [wp_ite, not_lt]
  rfl

@[simp] theorem wp_selfStakeRatio (d : Delegatee) (added : Int) {post : Int → σ → Prop} :
    wp h (Fault.Avoids bad) (d.selfStakeRatio added : Prog Op Fault Int) post s ↔
      (i64 (d.totalPower + added) = 0 → ¬ bad .divisionByZero) ∧
      (i64 (d.totalPower + added) ≠ 0 →
        post (i64 ((i64 (d.selfPower * 100)).tdiv (i64 (d.totalPower + added)))) s) := by
  unfold Delegatee.selfStakeRatio
  rw [wp_ite]
  rfl

end

section

variable {bad : Panic → Prop} {ls : Stores} {l : LedgerId}

@[simp] theorem wp_get (k : LedgerKey) {post : Except XError l.Item → Stores → Prop} :
    wp (α := no_index (Except XError l.Item)) (ledgerHandler storeImpl) (Fault.Avoids bad)
      (LedgerProg.get l k) post ls ↔ post ((ls l).get k) ls :=
  wp_of_ok (LedgerProg.exec_get l k ls)

@[simp] theorem wp_set (x : l.Item) {post : Unit → Stores → Prop} :
    wp (ledgerHandler storeImpl) (Fault.Avoids bad) (LedgerProg.set l x) post ls ↔
      post () (ls.put l x) := Iff.rfl

variable {E : EvmLib} {α : Type} {r : Workspace E}

@[simp] theorem wp_getLimiter {post : StakeLimiter → Workspace E → Prop} :
    wp (trxHandler storeImpl) (Fault.Avoids bad) Ctrler.getLimiter post r ↔ post r.limiter r :=
  Iff.rfl

@[simp] theorem wp_setLimiter (sl : StakeLimiter) {post : Unit → Workspace E → Prop} :
    wp (trxHandler storeImpl) (Fault.Avoids bad) (Ctrler.setLimiter sl) post r ↔
      post () { r with limiter := sl } := Iff.rfl

@[simp] theorem wp_getEvm {post : EvmMem E → Workspace E → Prop} :
    wp (trxHandler storeImpl) (Fault.Avoids bad) Ctrler.getEvm post r ↔ post r.evm r := Iff.rfl

@[simp] theorem wp_setEvm (m : EvmMem E) {post : Unit → Workspace E → Prop} :
    wp (trxHandler storeImpl) (Fault.Avoids bad) (Ctrler.setEvm m) post r ↔
      post () { r with evm := m } := Iff.rfl

@[simp] theorem wp_ledger (p : LedgerProg α) {post : α → Workspace E → Prop} :
    wp (trxHandler storeImpl) (Fault.Avoids bad) (Ctrler.ledger p) post r ↔
      wp (ledgerHandler storeImpl) (Fault.Avoids bad) p
        (fun value ls => post value { r with ledgers := ls }) r.ledgers := by
  unfold wp
  rw [run_ledger]
  generalize run (ledgerHandler storeImpl) p r.ledgers = ended
  obtain ⟨outcome, ls⟩ := ended
  cases outcome with
  | error fault => rfl
  | ok value => rfl

end

/-! ## The limiter -/

namespace StakeLimiter

/-- The power the limiter knows of a delegatee; a delegatee it does not know is a new face. -/
def knownPower (sl : StakeLimiter) (delg : Delegatee) : Int :=
  ((sl.findPowerObj delg.addr).2.map PowerObj.power).getD delg.totalPower

/-- Somebody who is not among the validators gains power, and the last validator is looked at
although no validators are allowed. -/
def LacksLast (sl : StakeLimiter) (delg : Delegatee) (diffPower : Int) : Prop :=
  ((sl.findPowerObj delg.addr).1 < 0 ∨ (sl.findPowerObj delg.addr).1 ≥ sl.maxValidatorCnt) ∧
    diffPower > 0 ∧ (sl.powerObjs.length : Int) ≥ sl.maxValidatorCnt ∧ sl.maxValidatorCnt < 1

/-- A delegatee that gains power does not get more than its share. -/
def WithinShare (sl : StakeLimiter) (delg : Delegatee) (diffPower : Int) : Prop :=
  0 < diffPower → i64 ((i64 (i64 (delg.totalPower + diffPower) * 100)).tdiv
    (i64 (sl.baseTotalPower + diffPower))) ≤ sl.individualLimitRatio

/-- `CheckLimit` divides by zero or looks at a validator that is not there. -/
def Breaks (sl : StakeLimiter) (delg : Delegatee) (diffPower : Int) : Prop :=
  sl.powerObjs ≠ [] ∧
    (0 < diffPower ∧ i64 (sl.baseTotalPower + diffPower) = 0 ∨
      sl.WithinShare delg diffPower ∧ sl.knownPower delg = delg.totalPower ∧
        (sl.LacksLast delg diffPower ∨ sl.baseTotalPower = 0))

instance (sl : StakeLimiter) (delg : Delegatee) (diffPower : Int) :
    Decidable (sl.LacksLast delg diffPower) :=
  inferInstanceAs (Decidable (_ ∧ _ ∧ _ ∧ _))

instance (sl : StakeLimiter) (delg : Delegatee) (diffPower : Int) :
    Decidable (sl.WithinShare delg diffPower) :=
  inferInstanceAs (Decidable (_ → _))

instance (sl : StakeLimiter) (delg : Delegatee) (diffPower : Int) :
    Decidable (sl.Breaks delg diffPower) :=
  inferInstanceAs (Decidable (_ ∧ (_ ∨ _ ∧ _ ∧ (_ ∨ _))))

theorem checkIndividualPowerLimit_panic {p : Panic} :
    sl.checkIndividualPowerLimit delg diffPower = .error (.panic p) ↔
      0 < diffPower ∧ i64 (sl.baseTotalPower + diffPower) = 0 ∧ p = .divisionByZero := by
  unfold checkIndividualPowerLimit
  by_cases gains : diffPower ≤ 0
  · simp [gains]
  · by_cases divisor : i64 (sl.baseTotalPower + diffPower) = 0
    · simp [gains, divisor, not_le.mp gains, eq_comm]
    · simp only [gains, divisor, if_false, false_and, and_false, iff_false]
      split
      · exact nofun
      · exact nofun

theorem checkIndividualPowerLimit_eq_ok
    (divides : ¬ (0 < diffPower ∧ i64 (sl.baseTotalPower + diffPower) = 0)) :
    sl.checkIndividualPowerLimit delg diffPower = .ok () ↔ sl.WithinShare delg diffPower := by
  unfold checkIndividualPowerLimit WithinShare
  by_cases gains : diffPower ≤ 0
  · rw [if_pos gains]
    exact iff_of_true rfl fun positive => absurd gains (not_le.mpr positive)
  · have positive := not_le.mp gains
    rw [if_neg gains, if_neg fun divisor => divides ⟨positive, divisor⟩]
    simp only [positive, true_implies]
    split
    · next above => exact iff_of_false nofun (not_le.mpr above)
    · next within => exact iff_of_true rfl (not_lt.mp within)

/-- The last validator is looked at for somebody who is not among the validators; there is one,
unless no validators are allowed. -/
theorem pushedOutPower_cases (sl : StakeLimiter) (delg : Delegatee) (power diffPower : Int) :
    sl.LacksLast delg diffPower ∧
        sl.pushedOutPower (sl.findPowerObj delg.addr).1 power diffPower =
          .error (.panic .outOfRange) ∨
      ¬ sl.LacksLast delg diffPower ∧ ∃ pushedOut,
        sl.pushedOutPower (sl.findPowerObj delg.addr).1 power diffPower = .ok pushedOut := by
  unfold pushedOutPower LacksLast
  generalize (sl.findPowerObj delg.addr).1 = ridx
  by_cases outside : (ridx < 0 ∨ ridx ≥ sl.maxValidatorCnt) ∧ diffPower > 0
  · by_cases enough : (sl.powerObjs.length : Int) ≥ sl.maxValidatorCnt
    · by_cases none' : sl.maxValidatorCnt - 1 < 0
      · left
        rw [if_pos outside, if_pos enough, if_pos none']
        exact ⟨⟨outside.1, outside.2, enough, by omega⟩, rfl⟩
      · right
        have inRange : (sl.maxValidatorCnt - 1).toNat < sl.powerObjs.length := by omega
        rw [if_pos outside, if_pos enough, if_neg none', List.getElem?_eq_getElem inRange]
        exact ⟨fun ⟨_, _, _, few⟩ => none' (by omega), _, rfl⟩
    · right
      rw [if_pos outside, if_neg enough]
      exact ⟨fun ⟨_, _, many, _⟩ => enough many, _, rfl⟩
  · right
    rw [if_neg outside]
    exact ⟨fun ⟨away, gains, _⟩ => outside ⟨away, gains⟩, _, rfl⟩

theorem checkUpdatablePowerLimit_panic {p : Panic} :
    (sl.checkUpdatablePowerLimit delg diffPower).1 = .error (.panic p) ↔
      sl.knownPower delg = delg.totalPower ∧
        (sl.LacksLast delg diffPower ∧ p = .outOfRange ∨
          ¬ sl.LacksLast delg diffPower ∧ sl.baseTotalPower = 0 ∧ p = .divisionByZero) := by
  have pushes := sl.pushedOutPower_cases delg (sl.knownPower delg) diffPower
  unfold checkUpdatablePowerLimit
  unfold knownPower at pushes ⊢
  generalize sl.findPowerObj delg.addr = position at pushes ⊢
  obtain ⟨ridx, found⟩ := position
  simp only at pushes ⊢
  generalize (found.map PowerObj.power).getD delg.totalPower = power at pushes ⊢
  by_cases known : power = delg.totalPower
  · rw [if_neg (not_not.mpr known)]
    rcases pushes with ⟨lacks, pushed⟩ | ⟨has, pushedOut, pushed⟩
    · simp only [pushed]
      constructor
      · rintro ⟨⟩
        exact ⟨known, .inl ⟨lacks, rfl⟩⟩
      · rintro ⟨-, ⟨-, rfl⟩ | ⟨has, -⟩⟩
        · rfl
        · exact absurd lacks has
    · simp only [pushed]
      constructor
      · intro panicked
        split at panicked
        · next divisor =>
          cases panicked
          exact ⟨known, .inr ⟨has, divisor, rfl⟩⟩
        · split at panicked
          · cases panicked
          · split at panicked <;> cases panicked
      · rintro ⟨-, ⟨lacks, -⟩ | ⟨-, divisor, rfl⟩⟩
        · exact absurd lacks has
        · rw [if_pos divisor]
  · rw [if_pos known]
    exact ⟨fun failed => (by cases failed), fun holds => absurd holds.1 known⟩

/-- The panics of `CheckLimit` are arithmetic, and there is one if the limiter breaks. -/
theorem checkLimit_avoids {bad : Panic → Prop} (arithmetic : ∀ p : Panic, p.Arithmetic → bad p)
    (sl : StakeLimiter) (delg : Delegatee) (diffPower : Int) :
    (∀ p, (sl.checkLimit delg diffPower).1 = .error (.panic p) → ¬ bad p) ↔
      ¬ sl.Breaks delg diffPower := by
  unfold checkLimit Breaks
  by_cases empty : sl.powerObjs = []
  · rw [if_pos empty]
    exact ⟨fun _ holds => holds.1 empty, fun _ _ failed => by cases failed⟩
  · rw [if_neg empty]
    simp only [empty, ne_eq, not_false_eq_true, true_and]
    by_cases divisor : 0 < diffPower ∧ i64 (sl.baseTotalPower + diffPower) = 0
    · have panics : sl.checkIndividualPowerLimit delg diffPower = _ :=
        checkIndividualPowerLimit_panic.mpr ⟨divisor.1, divisor.2, rfl⟩
      simp only [panics, divisor, true_or, not_true, iff_false, and_self]
      exact fun avoids => avoids _ rfl (arithmetic _ (.inr rfl))
    · rw [← checkIndividualPowerLimit_eq_ok divisor]
      simp only [divisor, false_or]
      cases individual : sl.checkIndividualPowerLimit delg diffPower with
      | error fault =>
        refine iff_of_true ?_ fun ⟨within, _⟩ => (by cases within)
        rintro p ⟨⟩
        obtain ⟨gains, zero, -⟩ := checkIndividualPowerLimit_panic.mp individual
        exact absurd ⟨gains, zero⟩ divisor
      | ok _ =>
        simp only [true_and, checkUpdatablePowerLimit_panic]
        constructor
        · rintro avoids ⟨known, lacks | zero⟩
          · exact avoids .outOfRange ⟨known, .inl ⟨lacks, rfl⟩⟩ (arithmetic _ (.inl rfl))
          · by_cases lacks : sl.LacksLast delg diffPower
            · exact avoids .outOfRange ⟨known, .inl ⟨lacks, rfl⟩⟩ (arithmetic _ (.inl rfl))
            · exact avoids .divisionByZero ⟨known, .inr ⟨lacks, zero, rfl⟩⟩
                (arithmetic _ (.inr rfl))
        · rintro fine p ⟨known, ⟨lacks, -⟩ | ⟨-, zero, -⟩⟩
          · exact absurd ⟨known, .inl lacks⟩ fine
          · exact absurd ⟨known, .inr zero⟩ fine

end StakeLimiter

/-! ## The checks on staking and unstaking -/

namespace StakeCtrler

variable {E : EvmLib} {r : Workspace E} {bad : Panic → Prop} {ctx : TrxContext}

/-- The limiter does not break, if it is asked. -/
def LimitFits (sl : StakeLimiter) (validators : Validators) (d : Delegatee) (changePower : Int) :
    Prop :=
  3 ≤ validators.length → ¬ sl.Breaks d changePower

theorem wp_checkLimit (arithmetic : ∀ p : Panic, p.Arithmetic → bad p) (validators : Validators)
    (d : Delegatee) (changePower : Int) :
    wp (trxHandler storeImpl) (Fault.Avoids bad) (checkLimit validators d changePower)
      (fun _ _ => True) r ↔ LimitFits r.limiter validators d changePower := by
  unfold LimitFits
  rw [← StakeLimiter.checkLimit_avoids arithmetic]
  unfold checkLimit
  by_cases asked : validators.length ≥ 3
  · rw [if_pos asked]
    simp only [asked, true_implies]
    simp only [Prog.bind_eq, wp_bind, wp_getLimiter, wp_setLimiter]
    rcases (r.limiter.checkLimit d changePower).1 with (e | p) | _
    · simp
    · simp
    · simp
  · rw [if_neg asked]
    simp [asked]

/-- The amount is a positive whole number of powers. -/
def Whole (amt : Uint256) : Prop :=
  Uint256.isPositive (amt / amountPerPower) = true ∧ (amt % amountPerPower == 0) = true

/-- The power of its own that a delegatee has after it staked. -/
def selfPowerAfter (d : Option Delegatee) (power : Int) : Int :=
  (d.map fun d => i64 (power + d.selfPower)).getD power

/-- The total power of a delegatee that may be missing. -/
def totalPowerOf (d : Option Delegatee) : Int := (d.map Delegatee.totalPower).getD 0

/-- The share of its own power that a delegatee has after somebody delegated to it. -/
def selfRatioAfter (d : Delegatee) (power : Int) : Int :=
  i64 ((i64 (d.selfPower * 100)).tdiv (i64 (d.totalPower + power)))

/-- A delegation is not too small. -/
def EnoughToDelegate (params : GovParams) (power : Int) : Prop :=
  ¬ (powerOf params.minDelegatorStake > 0 ∧ powerOf params.minDelegatorStake > power)

theorem wp_findDelegatee (addr : Address) {post : Option Delegatee → Stores → Prop} :
    wp (ledgerHandler storeImpl) (Fault.Avoids bad) (findDelegatee addr) post ls ↔
      post ((ls .delegatees).lookup (toLedgerKey addr)) ls :=
  wp_of_ok (exec_findDelegatee addr ls)

theorem wp_validateSelfStaking {params : GovParams} {d : Option Delegatee} {power : Int}
    {post : Int → Stores → Prop} :
    wp (ledgerHandler storeImpl) (Fault.Avoids bad) (validateSelfStaking params d power) post ls ↔
      (powerOf params.minValidatorStake < 0 → ¬ bad (negativePower params.minValidatorStake)) ∧
      (0 ≤ powerOf params.minValidatorStake →
        powerOf params.minValidatorStake ≤ selfPowerAfter d power → post (totalPowerOf d) ls) := by
  simp only [validateSelfStaking, Prog.bind_eq, wp_bind, wp_amountToPower, wp_ensure,
    decide_eq_true_eq, Prog.pure_eq, wp_pure, selfPowerAfter, totalPowerOf]

theorem wp_validateDelegating {params : GovParams} {addr : Address} {d : Option Delegatee}
    {power : Int} {post : Int → Stores → Prop} :
    wp (ledgerHandler storeImpl) (Fault.Avoids bad) (validateDelegating params addr d power) post
        ls ↔
      ∀ d₀, d = some d₀ →
        (powerOf params.minDelegatorStake < 0 → ¬ bad (negativePower params.minDelegatorStake)) ∧
        (0 ≤ powerOf params.minDelegatorStake → EnoughToDelegate params power →
          (i64 (d₀.totalPower + power) = 0 → ¬ bad .divisionByZero) ∧
          (i64 (d₀.totalPower + power) ≠ 0 →
            params.minSelfStakeRatio ≤ selfRatioAfter d₀ power → post d₀.totalPower ls)) := by
  cases d with
  | none => simp [validateDelegating]
  | some d₀ =>
    simp only [validateDelegating, Prog.bind_eq, wp_bind, wp_amountToPower, wp_ensure,
      decide_eq_true_eq, wp_selfStakeRatio, Prog.pure_eq, wp_pure, Option.some.injEq,
      forall_eq', EnoughToDelegate, selfRatioAfter]

/-- The power of the delegatee grows, and the limiter is asked. -/
def Asks (bad : Panic → Prop) (total power : Int) (limit : Prop) : Prop :=
  (i64 (total + power) ≤ 0 → ¬ bad (.explicit "delegatee power overflow occurs.")) ∧
    (¬ i64 (total + power) ≤ 0 → limit)

theorem wp_validateStaking {post : Delegatee × Int → Prop} :
    wp (ledgerHandler storeImpl) (Fault.Avoids bad) (validateStaking ctx)
      (fun asked _ => post asked) ls ↔
    (Whole ctx.tx.amount →
      (powerOf ctx.tx.amount < 0 → ¬ bad (negativePower ctx.tx.amount)) ∧
      (0 ≤ powerOf ctx.tx.amount →
        wp (ledgerHandler storeImpl) (Fault.Avoids bad)
          (validateStaker ctx ((ls .delegatees).lookup (toLedgerKey ctx.tx.toAddr))
            (powerOf ctx.tx.amount))
          (fun total _ => Asks bad total (powerOf ctx.tx.amount)
            (post (((ls .delegatees).lookup (toLedgerKey ctx.tx.toAddr)).getD
              (Delegatee.newDelegatee ctx.tx.toAddr []), powerOf ctx.tx.amount))) ls)) := by
  refine (wp_ensure_bind.trans (imp_congr_right fun _ => wp_ensure_bind)).trans ?_
  unfold Whole
  rw [and_imp]
  refine imp_congr_right fun _ => imp_congr_right fun _ => ?_
  simp only [Prog.bind_eq, wp_bind, wp_amountToPower, wp_findDelegatee,
    Prog.pure_eq, wp_pure, wp_ite, wp_crash, Asks]

/-- The stake that an unstaking means. -/
structure Unstakes (ctx : TrxContext) (txHash : HexBytes) (d : Delegatee) (s0 : Stake) : Prop where
  length : txHash.length = 32
  found : d.findStake txHash = some s0
  owner : ctx.tx.fromAddr = s0.fromAddr

theorem wp_findOwnStake {txHash : HexBytes} (payload : ctx.tx.payload = .unstaking txHash)
    {d : Delegatee} {post : Stake → Stores → Prop} :
    wp (ledgerHandler storeImpl) (Fault.Avoids bad) (findOwnStake ctx d) post ls ↔
      ∀ s0, Unstakes ctx txHash d s0 → post s0 ls := by
  unfold findOwnStake
  rw [payload]
  simp only
  by_cases length : txHash.length = 32
  · rw [if_neg (not_not.mpr length)]
    cases found : d.findStake txHash with
    | none =>
      refine iff_of_true trivial fun s0 unstakes => ?_
      cases found.symm.trans unstakes.found
    | some s0 =>
      by_cases owner : ctx.tx.fromAddr = s0.fromAddr
      · simp only [owner, ne_eq, not_true, if_false]
        constructor
        · intro holds s0' unstakes
          cases found.symm.trans unstakes.found
          exact holds
        · exact fun holds => holds s0 ⟨length, found, owner⟩
      · simp only [owner, ne_eq, not_false_eq_true, if_true]
        refine iff_of_true trivial fun s0' unstakes => ?_
        cases found.symm.trans unstakes.found
        exact absurd unstakes.owner owner
  · rw [if_pos length]
    exact iff_of_true trivial fun s0 unstakes => absurd unstakes.length length

theorem wp_validateUnstaking {txHash : HexBytes} (payload : ctx.tx.payload = .unstaking txHash)
    {post : Delegatee × Int → Prop} :
    wp (ledgerHandler storeImpl) (Fault.Avoids bad) (validateUnstaking ctx)
      (fun asked _ => post asked) ls ↔
    ∀ d, (ls .delegatees).lookup (toLedgerKey ctx.tx.toAddr) = some d →
      ∀ s0, Unstakes ctx txHash d s0 → post (d, i64 (-1 * s0.power)) := by
  simp only [validateUnstaking, Prog.bind_eq, wp_bind, wp_get, wp_ofExcept,
    wp_findOwnStake payload, Prog.pure_eq, wp_pure, Store.get, found_eq_ok]

end StakeCtrler

end Rigo
