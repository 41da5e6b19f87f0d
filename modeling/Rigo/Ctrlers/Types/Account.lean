import Rigo.Ledger.Store

/-!
# Accounts

`ctrlers/types/account.go`.  An account is kept in the account ledger under its
address and is stored as an `AcctProto`, where the balance is a byte string.
Amounts are 256-bit words: `addBalance` wraps around, and both balance operations
refuse an amount whose top bit is set.
-/

namespace Rigo

/-- `MAX_ACCT_NAME`. -/
def maxAcctName : Nat := 2048

/-- `MAX_ACCT_DOCURL`. -/
def maxAcctDocURL : Nat := 2048

/-- `types.Account`. -/
structure Account where
  address : Address
  name : GoString
  nonce : Nat
  balance : Uint256
  code : HexBytes
  docURL : GoString
  deriving DecidableEq

/-- The stored form of an account. -/
structure AcctProto where
  address : HexBytes
  name : GoString
  nonce : Nat
  xBalance : HexBytes
  xCode : HexBytes
  docUrl : GoString
  deriving DecidableEq

namespace Account

/-- `NewAccount`. -/
def newAccount (addr : Address) : Account where
  address := addr
  name := []
  nonce := 0
  balance := 0
  code := []
  docURL := []

def encode (acct : Account) : AcctProto where
  address := acct.address
  name := acct.name
  nonce := acct.nonce
  xBalance := acct.balance.toBytes
  xCode := acct.code
  docUrl := acct.docURL

def decode (pm : AcctProto) : Account where
  address := pm.address
  name := pm.name
  nonce := pm.nonce
  balance := Uint256.ofBytes pm.xBalance
  code := pm.xCode
  docURL := pm.docUrl

instance : LedgerItem Account where
  Encoded := AcctProto
  key acct := toLedgerKey acct.address
  encode := encode
  decode pm := .ok (decode pm)
  decode_encode acct := by simp [encode, decode]

theorem key_eq (acct : Account) : LedgerItem.key acct = toLedgerKey acct.address := rfl

/-- `AddNonce`, a `uint64` increment. -/
def addNonce (acct : Account) : Account := { acct with nonce := (acct.nonce + 1) % 2 ^ 64 }

def checkNonce (acct : Account) (n : Nat) : Except XError Unit :=
  if acct.nonce ≠ n then .error .errInvalidNonce else .ok ()

def addBalance (acct : Account) (amt : Uint256) : Except XError Account :=
  if amt.isNegative then .error .errInvalidAmount
  else .ok { acct with balance := acct.balance + amt }

def subBalance (acct : Account) (amt : Uint256) : Except XError Account :=
  if amt.isNegative then .error .errInvalidAmount
  else if acct.balance < amt then .error .errInsufficientFund
  else .ok { acct with balance := acct.balance - amt }

def checkBalance (acct : Account) (amt : Uint256) : Except XError Unit :=
  if acct.balance < amt then .error .errInsufficientFund else .ok ()

/-- What a successful `addBalance` does; the hypothesis rules out the wrap-around. -/
theorem addBalance_ok {acct acct' : Account} {amt : Uint256}
    (added : acct.addBalance amt = .ok acct')
    (small : acct.balance.toNat + amt.toNat < 2 ^ 256) :
    acct' = { acct with balance := acct.balance + amt } ∧
      acct'.balance.toNat = acct.balance.toNat + amt.toNat := by
  unfold addBalance at added
  split at added
  · cases added
  · cases added
    refine ⟨rfl, ?_⟩
    rw [BitVec.toNat_add, Nat.mod_eq_of_lt small]

/-- A successful `subBalance` never wraps around. -/
theorem subBalance_ok {acct acct' : Account} {amt : Uint256}
    (taken : acct.subBalance amt = .ok acct') :
    acct' = { acct with balance := acct.balance - amt } ∧ amt.toNat ≤ acct.balance.toNat ∧
      acct'.balance.toNat = acct.balance.toNat - amt.toNat := by
  unfold subBalance at taken
  split at taken
  · cases taken
  · split at taken
    · cases taken
    · next enough =>
      cases taken
      have covered : amt.toNat ≤ acct.balance.toNat := by
        simpa [BitVec.lt_def] using enough
      exact ⟨rfl, covered, BitVec.toNat_sub_of_le covered⟩

end Account

end Rigo
