import Rigo.Node.Native

/-!
# Amounts and powers

`AmountToPower` narrows a 256-bit quotient to 64 bits and reads these as a signed number.  It panics
if that is negative, which covers half of the quotients that do not fit; the other half is taken for
a small power.  A power that is not negative survives the way to an amount and back.

A staking of so many coins is accepted, and what is recorded is worth less than what the sender has
paid (`StakeCtrler.conversion_faithful_iff`).
-/

namespace Rigo

open Foundation

/-! ## The narrowed quotient -/

/-- The number of whole powers in an amount. -/
def wholePowers (amt : Uint256) : Nat := amt.toNat / 10 ^ 18

/-- What is left of the number of powers in an amount is small enough only if nothing was lost. -/
def NarrowsFaithfully (amt : Uint256) : Prop :=
  wholePowers amt < 2 ^ 64 ∨ 2 ^ 63 ≤ wholePowers amt % 2 ^ 64

theorem powerOf_eq_i64 (amt : Uint256) : powerOf amt = i64 ((wholePowers amt % 2 ^ 64 : Nat) : Int) := by
  have quotient : (amt / amountPerPower).toNat = wholePowers amt := by
    rw [BitVec.toNat_udiv]
    rfl
  unfold powerOf Uint256.int64 Uint256.uint64
  rw [quotient]

theorem powerOf_of_lt {amt : Uint256} (low : wholePowers amt % 2 ^ 64 < 2 ^ 63) :
    powerOf amt = (wholePowers amt % 2 ^ 64 : Nat) := by
  rw [powerOf_eq_i64, i64_of_range (by omega) (by omega)]

theorem powerOf_neg_iff (amt : Uint256) : powerOf amt < 0 ↔ 2 ^ 63 ≤ wholePowers amt % 2 ^ 64 := by
  constructor
  · intro negative
    by_contra low
    rw [powerOf_of_lt (not_le.mp low)] at negative
    omega
  · intro high
    have wrapped := i64_le_sub (x := ((wholePowers amt % 2 ^ 64 : Nat) : Int)) (by omega)
    rw [powerOf_eq_i64]
    omega

theorem powerOf_eq_iff {amt : Uint256} (nonneg : 0 ≤ powerOf amt) :
    powerOf amt = wholePowers amt ↔ wholePowers amt < 2 ^ 64 := by
  have low : wholePowers amt % 2 ^ 64 < 2 ^ 63 := by
    by_contra high
    exact absurd ((powerOf_neg_iff amt).mpr (not_lt.mp high)) (not_lt.mpr nonneg)
  rw [powerOf_of_lt low]
  omega

/-- `AmountToPower` fails or answers with the number of whole powers, if nothing was lost. -/
theorem exec_amountToPower_iff (amt : Uint256) (ls : Stores) :
    ((∃ p, exec (amountToPower amt) ls = (.error (.panic p), ls)) ∨
        exec (amountToPower amt) ls = (.ok (wholePowers amt : Int), ls)) ↔
      NarrowsFaithfully amt := by
  rw [StakeCtrler.exec_amountToPower]
  unfold NarrowsFaithfully
  rw [← powerOf_neg_iff]
  split
  · next negative => exact iff_of_true (.inl ⟨_, rfl⟩) (.inr negative)
  · next nonneg =>
    rw [← powerOf_eq_iff (not_lt.mp nonneg)]
    simp [nonneg]

/-- A power survives the way to an amount and back. -/
theorem powerOf_powerToAmount {power : Int} (low : 0 ≤ power) (high : power < 2 ^ 63) :
    powerOf (powerToAmount power) = power := by
  have amount := toNat_powerToAmount low (by omega)
  have whole : wholePowers (powerToAmount power) = power.toNat := by
    rw [wholePowers, amount]
    exact Nat.mul_div_cancel _ (by decide)
  rw [powerOf_of_lt (by rw [whole]; omega), whole]
  omega

/-- A whole number of powers is worth the amount again, if nothing was lost. -/
theorem powerToAmount_powerOf_iff {amt : Uint256} (nonneg : 0 ≤ powerOf amt)
    (whole : amt.toNat % 10 ^ 18 = 0) :
    powerToAmount (powerOf amt) = amt ↔ wholePowers amt < 2 ^ 64 := by
  have high : powerOf amt < 2 ^ 63 := powerOf_eq_i64 amt ▸ (i64_range _).2
  have amount := toNat_powerToAmount nonneg (by omega)
  rw [← powerOf_eq_iff nonneg, ← BitVec.toNat_inj, amount]
  unfold wholePowers
  omega

/-! ## Staking -/

namespace StakeCtrler

/-- A staking that was found valid is of a whole number of powers. -/
theorem whole_of_validateStaking {ctx : TrxContext} {ls ls' : Stores} {asked : Delegatee × Int}
    (ran : exec (validateStaking ctx) ls = (.ok asked, ls')) : ctx.tx.amount.toNat % 10 ^ 18 = 0 := by
  obtain ⟨-, ran⟩ := run_ensure_ok ran
  obtain ⟨whole, -⟩ := run_ensure_ok ran
  have zero : ctx.tx.amount % amountPerPower = 0 := eq_of_beq whole
  have rest := congrArg BitVec.toNat zero
  rw [BitVec.toNat_umod] at rest
  exact rest

/-- `ValidateTrx` of a staking has made its checks, and left the ledgers. -/
theorem validateTrx_staking_ok {E : EvmLib} {ctx : TrxContext} {r r' : Workspace E}
    (type : ctx.tx.type = .staking)
    (valid : run (trxHandler storeImpl) (validateTrx ctx) r = (.ok (), r')) :
    ∃ asked, exec (validateStaking ctx) r.ledgers = (.ok asked, r.ledgers) ∧
      r'.ledgers = r.ledgers := by
  simp only [validateTrx, type] at valid
  obtain ⟨asked, r₁, first, limited⟩ := run_bind_ok valid
  obtain ⟨ls, checked, rfl⟩ := run_ledger_ok first
  have kept : ls = r.ledgers := by
    funext l
    exact (writes_validateStaking (S := fun _ => False) ctx).frame id checked
  subst kept
  refine ⟨asked, checked, ?_⟩
  funext l
  have obeys : Obeys (within (fun _ => False) True true r.evm.lastRootHash r.evm.lastBlockHeight)
      (fun _ => True) (checkLimit ctx.validators asked.1 asked.2 : Ctrler E Unit) :=
    TrxExecutor.obeys_checkLimit _ _ _
  have frame := run_frame (r := r) (l := l) obeys ⟨rfl, rfl⟩ id
  rwa [limited] at frame

/-- **Conversion.**  `AmountToPower` panics or answers with the number of whole powers exactly if
nothing of the quotient was lost, or its sign tells; a power that is not negative survives the way
to an amount and back.  A staking that was found valid and executed takes its amount from the
sender, and records a stake that is worth the amount exactly if that has fewer than `2 ^ 64`
powers. -/
theorem conversion_faithful_iff (amt : Uint256) (ls : Stores) :
    (((∃ p, exec (amountToPower amt) ls = (.error (.panic p), ls)) ∨
        exec (amountToPower amt) ls = (.ok ((amt.toNat / 10 ^ 18 : Nat) : Int), ls)) ↔
      NarrowsFaithfully amt) ∧
    (∀ power : Int, 0 ≤ power → power < 2 ^ 63 →
      exec (amountToPower (powerToAmount power)) ls = (.ok power, ls)) ∧
    ∀ (E : EvmLib) (ctx : TrxContext) (pubKey : HexBytes) (r r' : Workspace E) (ls : Stores),
      ctx.tx.type = .staking → run (trxHandler storeImpl) (validateTrx ctx) r = (.ok (), r') →
      exec (executeTrx ctx pubKey) r'.ledgers = (.ok (), ls) →
      ∃ (d : Delegatee) (sender sender' : Account) (s : Stake), StakesOn ctx pubKey r.ledgers d ∧
        Stores.account r.ledgers ctx.tx.fromAddr = some sender ∧
        ls = (Stores.put r.ledgers .accounts sender').put .delegatees (d.addStake s) ∧
        sender'.balance.toNat + ctx.tx.amount.toNat = sender.balance.toNat ∧
        (powerToAmount s.power = ctx.tx.amount ↔ wholePowers ctx.tx.amount < 2 ^ 64) := by
  refine ⟨exec_amountToPower_iff amt ls, fun power low high => ?_, ?_⟩
  · rw [exec_amountToPower, powerOf_powerToAmount low high, if_neg (not_lt.mpr low)]
  · intro E ctx pubKey r r' ls type valid executed
    obtain ⟨asked, checked, kept⟩ := validateTrx_staking_ok type valid
    simp only [executeTrx, type, kept] at executed
    obtain ⟨d, sender, sender', target, found, taken, nonneg, rfl⟩ := exeStaking_ok executed
    obtain ⟨-, covered, left⟩ := Account.subBalance_ok taken
    refine ⟨d, sender, sender', stakeOf ctx, target, found, rfl, by omega, ?_⟩
    have power : (stakeOf ctx).power = powerOf ctx.tx.amount := rfl
    rw [power]
    exact powerToAmount_powerOf_iff nonneg (whole_of_validateStaking checked)

/-! ### A staking of too many coins -/

/-- A sender becomes a validator with a number of coins. -/
def becoming (coins : Nat) : TrxContext where
  height := 1
  txHash := List.replicate 32 1
  tx :=
    { version := 1
      time := 0
      nonce := 0
      fromAddr := Concrete.addr 1
      toAddr := Concrete.addr 1
      amount := BitVec.ofNat 256 (coins * 10 ^ 18)
      gas := 4000
      gasPrice := GovParams.defaultGovParams.gasPrice
      type := .staking
      payload := .none
      sig := [] }
  exec := true
  chainID := "rigo"
  params := GovParams.defaultGovParams
  validators := []

/-- Nothing is there but an account with a number of coins. -/
def owning (coins : Nat) : Workspace Concrete.evm where
  ledgers := Stores.put (fun _ => Store.new Tree.empty) .accounts
    { Account.newAccount (Concrete.addr 1) with balance := BitVec.ofNat 256 (coins * 10 ^ 18) }
  limiter := StakeLimiter.reset [] 21 33 33
  evm := ⟨none, 0, [], 0, 0, [], 0⟩

/-- A validator that is accepted with 8000000 coins has a stake that is worth them. -/
theorem conversion_faithful_becoming :
    ∃ (d : Delegatee) (sender' : Account) (s : Stake),
      (exec (executeTrx (becoming 8000000) []) (run (trxHandler storeImpl)
          (validateTrx (becoming 8000000)) (owning 9000000)).2.ledgers).2 =
        (Stores.put (owning 9000000).ledgers .accounts sender').put .delegatees (d.addStake s) ∧
      powerToAmount s.power = (becoming 8000000).tx.amount := by
  have validates : (run (trxHandler storeImpl) (validateTrx (becoming 8000000))
      (owning 9000000)).1.isOk = true := by decide +kernel
  have executes : (exec (executeTrx (becoming 8000000) []) (run (trxHandler storeImpl)
      (validateTrx (becoming 8000000)) (owning 9000000)).2.ledgers).1.isOk = true := by
    decide +kernel
  obtain ⟨⟨⟩, valid⟩ := Foundation.exists_eq_ok validates
  obtain ⟨⟨⟩, executed⟩ := Foundation.exists_eq_ok executes
  obtain ⟨d, sender, sender', s, -, -, written, -, worth⟩ :=
    (conversion_faithful_iff 0 (owning 9000000).ledgers).2.2 Concrete.evm (becoming 8000000) [] (owning 9000000) _ _ rfl valid executed
  exact ⟨d, sender', s, written, worth.mpr (by decide +kernel)⟩

/-- A validator that is accepted with `2 ^ 64 + 8000000` coins pays them all for a stake of power
8000000. -/
theorem staking_loses_coins :
    (run (trxHandler storeImpl) (validateTrx (becoming (2 ^ 64 + 8000000)))
        (owning (2 ^ 64 + 8000001))).1.isOk = true ∧
      (exec (executeTrx (becoming (2 ^ 64 + 8000000)) [])
        (owning (2 ^ 64 + 8000001)).ledgers).1.isOk = true ∧
      (((exec (executeTrx (becoming (2 ^ 64 + 8000000)) [])
        (owning (2 ^ 64 + 8000001)).ledgers).2 .delegatees).lookup
          (toLedgerKey (Concrete.addr 1))).map (fun d => d.stakes.map Stake.power) =
        some [8000000] ∧
      (Stores.account (exec (executeTrx (becoming (2 ^ 64 + 8000000)) [])
        (owning (2 ^ 64 + 8000001)).ledgers).2 (Concrete.addr 1)).map Account.balance =
        some Concrete.coin ∧
      (becoming (2 ^ 64 + 8000000)).tx.amount.toNat / 10 ^ 18 = 2 ^ 64 + 8000000 := by
  decide +kernel

end StakeCtrler

end Rigo
