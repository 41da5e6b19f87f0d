import Rigo.Types.XError

/-!
# Wallets

`types/crypto/wallet_key.go` and the padding of `crypto.go`.  A wallet keeps a private key
encrypted with AES in CBC mode under a key that PBKDF2 derives from a passphrase, and in clear
while it is unlocked.  Nothing in the file tells whether a passphrase is the right one but the
padding of the decrypted bytes.

Two properties of slices matter.  `append` writes behind a slice if its array has room
(`Slice.spare`), and then the longer slice shares its elements with the shorter one; and a slice
that was cut keeps the room behind it.  `NewWalletKeyWith` clears the padded key and computes the
public key afterwards, from a slice that may have been cleared with it.

The random salt and initialisation vector are arguments here.
-/

namespace Rigo

/-! ## Slices -/

/-- A byte slice: its elements, and how many more its array has room for. -/
structure Slice where
  bytes : HexBytes
  spare : Nat
  deriving DecidableEq

namespace Slice

/-- The slice after `ClearBytes` of an `append` to it.  The elements are the same if there was
room. -/
def afterClearing (b : Slice) (appended : HexBytes) : Slice :=
  if appended.length ≤ b.bytes.length + b.spare then { b with bytes := zeroBytes b.bytes.length }
  else b

end Slice

/-! ## Padding -/

def errInvalidBlockSize : XError := .newOrdinary "invalid blocksize"

def errInvalidPKCS7Data : XError := .newOrdinary "invalid PKCS7 data (empty or not padded)"

def errInvalidPKCS7Padding : XError := .newOrdinary "invalid PKCS7 padding on input"

/-- How many bytes are padded, at least one. -/
def padLength (b : HexBytes) (blocksize : Nat) : Nat := blocksize - b.length % blocksize

/-- `PKCS7Padding`. -/
def pkcs7Padding (b : HexBytes) (blocksize : Nat) : Except XError HexBytes :=
  if blocksize = 0 then .error errInvalidBlockSize
  else if b = [] then .error errInvalidPKCS7Data
  else
    let pad := padLength b blocksize
    .ok (b ++ List.replicate pad (UInt8.ofNat pad))

/-- `PKCS7UnPadding`.  The result keeps the padding in its array. -/
def pkcs7UnPadding (b : HexBytes) (blocksize : Nat) : Except XError Slice :=
  if blocksize = 0 then .error errInvalidBlockSize
  else
    match b.getLast? with
    | none => .error errInvalidPKCS7Data
    | some c =>
      let n := c.toNat
      if b.length % blocksize ≠ 0 then .error errInvalidPKCS7Padding
      else if n = 0 ∨ n > b.length ∨ n > blocksize then .error errInvalidPKCS7Padding
      else if (b.drop (b.length - n)).any (· != c) then .error errInvalidPKCS7Padding
      else .ok ⟨b.take (b.length - n), n⟩

section Padding

variable {b : HexBytes} {blocksize : Nat}

theorem padLength_bounds (b : HexBytes) (positive : 0 < blocksize) :
    0 < padLength b blocksize ∧ padLength b blocksize ≤ blocksize := by
  have rest := Nat.mod_lt b.length positive
  unfold padLength
  omega

/-- Padding fills the last block. -/
theorem mod_length_padded (b : HexBytes) (positive : 0 < blocksize) :
    (b.length + padLength b blocksize) % blocksize = 0 := by
  have rest := Nat.mod_lt b.length positive
  have whole := Nat.div_add_mod b.length blocksize
  have length : b.length + padLength b blocksize = blocksize * (b.length / blocksize + 1) := by
    rw [Nat.mul_add, Nat.mul_one]
    unfold padLength
    omega
  rw [length, Nat.mul_mod_right]

/-- A padding of whole blocks is removed, as long as it fits into a byte. -/
theorem pkcs7UnPadding_padded (b : HexBytes) {n : Nat} (some' : 0 < n) (atMost : n ≤ blocksize)
    (small : blocksize < 256) (filled : (b.length + n) % blocksize = 0) :
    pkcs7UnPadding (b ++ List.replicate n (UInt8.ofNat n)) blocksize = .ok ⟨b, n⟩ := by
  have byte : (UInt8.ofNat n).toNat = n := by
    rw [UInt8.toNat_ofNat_of_lt' (by simp only [UInt8.size]; omega)]
  have last : (b ++ List.replicate n (UInt8.ofNat n)).getLast? = some (UInt8.ofNat n) := by
    simp [List.getLast?_append, List.getLast?_replicate, some'.ne']
  have length : (b ++ List.replicate n (UInt8.ofNat n)).length = b.length + n := by
    simp
  unfold pkcs7UnPadding
  rw [if_neg (by omega), last]
  simp only [length, byte, Nat.add_sub_cancel]
  rw [if_neg (not_not.mpr filled), if_neg (by omega), if_neg (by simp), List.take_left]

/-- A text that ends with a padding: at most a block of bytes, each of which says how many they
are. -/
def ValidlyPadded (blocksize : Nat) (text : HexBytes) : Prop :=
  ∃ (b : HexBytes) (n : Nat), 0 < n ∧ n ≤ blocksize ∧ text = b ++ List.replicate n (UInt8.ofNat n)

/-- Only such a text is accepted. -/
theorem validlyPadded_of_ok {text : HexBytes} {key : Slice}
    (accepted : pkcs7UnPadding text blocksize = .ok key) : ValidlyPadded blocksize text := by
  unfold pkcs7UnPadding at accepted
  split at accepted
  · cases accepted
  · split at accepted
    · cases accepted
    · next c last =>
      simp only at accepted
      split at accepted
      · cases accepted
      · split at accepted
        · cases accepted
        · next bounds =>
          split at accepted
          · cases accepted
          · next equal =>
            refine ⟨text.take (text.length - c.toNat), c.toNat, by omega, by omega, ?_⟩
            have padding : text.drop (text.length - c.toNat) =
                List.replicate c.toNat (UInt8.ofNat c.toNat) := by
              rw [List.eq_replicate_iff, UInt8.ofNat_toNat]
              refine ⟨by rw [List.length_drop]; omega, fun b member => ?_⟩
              simp only [List.any_eq_true, bne_iff_ne, ne_eq, not_exists, not_and, not_not] at equal
              exact equal b member
            rw [← padding, List.take_append_drop]

end Padding

/-! ## Wallets -/

/-- `DKLEN`. -/
def dkLen : Nat := 32

/-- `aes.BlockSize`. -/
def aesBlockSize : Nat := 16

/-- The libraries: key derivation, AES in CBC mode, and the keys and addresses of secp256k1. -/
structure WalletLib where
  pbkdf2 : (pass salt : HexBytes) → (iter keyLen : Nat) → HexBytes
  encrypt : (sk iv plaintext : HexBytes) → HexBytes
  decrypt : (sk iv ciphertext : HexBytes) → HexBytes
  pubKey : HexBytes → HexBytes
  pubBytes2Addr : HexBytes → Address

namespace WalletLib

/-- The address of a private key. -/
def address (lib : WalletLib) (key : HexBytes) : Address := lib.pubBytes2Addr (lib.pubKey key)

/-- A derived key has the length that was asked for; decryption undoes encryption of whole blocks
under the same key and vector, and gives as many bytes as it got under any. -/
structure Lawful (lib : WalletLib) : Prop where
  pbkdf2_length : ∀ pass salt iter keyLen, (lib.pbkdf2 pass salt iter keyLen).length = keyLen
  encrypt_length : ∀ sk iv plaintext, (lib.encrypt sk iv plaintext).length = plaintext.length
  decrypt_encrypt : ∀ sk iv plaintext, plaintext.length % aesBlockSize = 0 →
    lib.decrypt sk iv (lib.encrypt sk iv plaintext) = plaintext
  decrypt_length : ∀ sk iv ciphertext, (lib.decrypt sk iv ciphertext).length = ciphertext.length

/-- Libraries that differ at most in the cipher under one key. -/
structure AgreesBut (lib lib' : WalletLib) (sk : HexBytes) : Prop where
  pbkdf2 : lib'.pbkdf2 = lib.pbkdf2
  pubKey : lib'.pubKey = lib.pubKey
  pubBytes2Addr : lib'.pubBytes2Addr = lib.pubBytes2Addr
  encrypt : ∀ sk' ≠ sk, lib'.encrypt sk' = lib.encrypt sk'
  decrypt : ∀ sk' ≠ sk, lib'.decrypt sk' = lib.decrypt sk'

/-- The libraries with two plaintexts exchanged under one key. -/
def exchange (lib : WalletLib) (sk text text' : HexBytes) : WalletLib :=
  { lib with
    encrypt := fun sk' iv plaintext =>
      lib.encrypt sk' iv (if sk' = sk then Equiv.swap text text' plaintext else plaintext)
    decrypt := fun sk' iv ciphertext =>
      if sk' = sk then Equiv.swap text text' (lib.decrypt sk' iv ciphertext)
      else lib.decrypt sk' iv ciphertext }

section Exchange

variable {lib : WalletLib} {sk text text' : HexBytes}

theorem length_swap (same : text'.length = text.length) (b : HexBytes) :
    (Equiv.swap text text' b).length = b.length := by
  rw [Equiv.swap_apply_def]
  split
  · next here => rw [here, same]
  · split
    · next here => rw [here, same]
    · rfl

theorem Lawful.exchange (lawful : lib.Lawful) (same : text'.length = text.length) :
    (lib.exchange sk text text').Lawful where
  pbkdf2_length := lawful.pbkdf2_length
  encrypt_length sk' iv plaintext := by
    simp only [WalletLib.exchange, lawful.encrypt_length]
    split
    · exact length_swap same plaintext
    · rfl
  decrypt_encrypt sk' iv plaintext blocks := by
    simp only [WalletLib.exchange]
    split
    · rw [lawful.decrypt_encrypt _ _ _ (by rw [length_swap same]; exact blocks),
        Equiv.swap_apply_self]
    · exact lawful.decrypt_encrypt _ _ _ blocks
  decrypt_length sk' iv ciphertext := by
    simp only [WalletLib.exchange]
    split
    · rw [length_swap same, lawful.decrypt_length]
    · exact lawful.decrypt_length _ _ _

variable (lib) in
/-- The ciphertext of another key, where the text that it was decrypted to is exchanged. -/
theorem decrypt_exchange (iv : HexBytes) {sk' : HexBytes} (other : sk' ≠ sk)
    (plaintext text' : HexBytes) :
    let lib' := lib.exchange sk (lib.decrypt sk iv (lib.encrypt sk' iv plaintext)) text'
    lib'.decrypt sk iv (lib'.encrypt sk' iv plaintext) = text' := by
  simp only [exchange, if_neg other, if_true]
  exact Equiv.swap_apply_left _ _

theorem agreesBut_exchange : lib.AgreesBut (lib.exchange sk text text') sk where
  pbkdf2 := rfl
  pubKey := rfl
  pubBytes2Addr := rfl
  encrypt sk' other := by simp only [exchange, if_neg other]
  decrypt sk' other := by simp only [exchange, if_neg other]

end Exchange

end WalletLib

/-- `aes.NewCipher`. -/
def newCipher (sk : HexBytes) : Except XError Unit :=
  if sk.length = 16 ∨ sk.length = 24 ∨ sk.length = 32 then .ok ()
  else .error (.plain ("crypto/aes: invalid key size " ++ toString sk.length))

structure CipherTextParams where
  algo : String
  text : HexBytes
  iv : HexBytes
  deriving DecidableEq

structure DkParams where
  algo : String
  prf : String
  iter : Nat
  salt : HexBytes
  dkLen : Nat
  deriving DecidableEq

/-- `WalletKey`.  The key in clear is nil while the wallet is locked. -/
structure WalletKey where
  version : Int
  address : Address
  algo : String
  cipherTextParams : CipherTextParams
  dkParams : Option DkParams
  prvKey : Option Slice
  pubKey : HexBytes
  deriving DecidableEq

/-- The parameters of a new key derivation: the number of iterations depends on the salt. -/
def newDkParams (salt : HexBytes) : DkParams where
  algo := "pbkdf2"
  prf := "sha256"
  iter := 600000 + (salt.headD 0).toNat
  salt := salt
  dkLen := dkLen

namespace WalletKey

variable (lib : WalletLib)

/-- The key that a passphrase derives under some parameters. -/
def secretKey (dkp : DkParams) (pass : HexBytes) : HexBytes :=
  lib.pbkdf2 pass dkp.salt dkp.iter dkp.dkLen

/-- What `NewWalletKeyWith` and `LockWith` do with a key and a passphrase: the ciphertext, and the
padded key that is cleared. -/
def sealKey (key pass salt iv : HexBytes) : Except Panic (CipherTextParams × HexBytes) :=
  let sk := secretKey lib (newDkParams salt) pass
  match newCipher sk with
  | .error e => .error (.explicit e.error)
  | .ok () =>
    match pkcs7Padding key aesBlockSize with
    | .error e => .error (.explicit e.error)
    | .ok plaintext =>
      .ok ({ algo := "aes-256-cbc", text := lib.encrypt sk iv plaintext, iv }, plaintext)

/-- `NewWalletKeyWith`: the wallet, and the caller's key afterwards. -/
def newWalletKeyWith (keyBytes : Slice) (pass : Option HexBytes) (salt iv : HexBytes) :
    Except Panic (WalletKey × Slice) :=
  let walletOf (keyBytes : Slice) (cp : CipherTextParams) (dkp : Option DkParams)
      (prvKey : Option Slice) : WalletKey × Slice :=
    ({ version := 1
       address := lib.pubBytes2Addr (lib.pubKey keyBytes.bytes)
       algo := "secp256k1"
       cipherTextParams := cp
       dkParams := dkp
       prvKey
       pubKey := lib.pubKey keyBytes.bytes }, keyBytes)
  match pass with
  | some pass =>
    match sealKey lib keyBytes.bytes pass salt iv with
    | .error p => .error p
    | .ok (cp, plaintext) =>
      .ok (walletOf (keyBytes.afterClearing plaintext) cp (some (newDkParams salt)) none)
  | none =>
    .ok (walletOf keyBytes { algo := "aes-256-cbc", text := keyBytes.bytes, iv := [] } none
      (some keyBytes))

def isLock (wk : WalletKey) : Bool := wk.prvKey.isNone

/-- `LockWith`. -/
def lockWith (wk : WalletKey) (pass salt iv : HexBytes) : Except Panic WalletKey :=
  match wk.prvKey with
  | none => .ok wk
  | some key =>
    match sealKey lib key.bytes pass salt iv with
    | .error p => .error p
    | .ok (cp, _) =>
      .ok { wk with cipherTextParams := cp, dkParams := some (newDkParams salt), prvKey := none }

/-- The wallet with a key in clear. -/
def holding (wk : WalletKey) (key : Slice) : WalletKey :=
  { wk with prvKey := some key, pubKey := lib.pubKey key.bytes }

/-- `Unlock`: the error it returns, if any, and the wallet afterwards. -/
def unlock (wk : WalletKey) (s : Option HexBytes) :
    Except Panic (Except XError Unit × WalletKey) :=
  if wk.isLock = false then .ok (.ok (), wk)
  else
    match s, wk.dkParams with
    | some _, none => .error .nilDereference
    | some s, some dkp =>
      let sk := secretKey lib dkp s
      let cp := wk.cipherTextParams
      match newCipher sk with
      | .error e => .ok (.error e, wk)
      | .ok () =>
        if cp.iv.length ≠ aesBlockSize then
          .error (.explicit "cipher.NewCBCDecrypter: IV length must equal block size")
        else if cp.text.length % aesBlockSize ≠ 0 then
          .error (.explicit "crypto/cipher: input not full blocks")
        else
          match pkcs7UnPadding (lib.decrypt sk cp.iv cp.text) aesBlockSize with
          | .error e => .ok (.error e, wk)
          | .ok key => .ok (.ok (), wk.holding lib key)
    | none, none =>
      -- `append` to nil: of nothing it is nil again, and it may leave room that nobody uses
      let text := wk.cipherTextParams.text
      if text = [] then .ok (.ok (), { wk with pubKey := lib.pubKey [] })
      else .ok (.ok (), wk.holding lib ⟨text, 0⟩)
    | none, some _ =>
      .ok (.error (.plain "wrong passphrase: the passphrase can not be empty"), wk)

/-! ## What a sealed wallet opens with -/

section Opening

variable {lib} {k p s salt iv : HexBytes} {wk : WalletKey}

/-- A key with its padding. -/
def padded (k : HexBytes) : HexBytes :=
  k ++ List.replicate (padLength k aesBlockSize) (UInt8.ofNat (padLength k aesBlockSize))

theorem length_padded (k : HexBytes) : (padded k).length = k.length + padLength k aesBlockSize := by
  rw [padded, List.length_append, List.length_replicate]

/-- What the passphrase `s` decrypts a key `k` to that was sealed with `p`. -/
def decrypted (lib : WalletLib) (k p salt iv s : HexBytes) : HexBytes :=
  lib.decrypt (secretKey lib (newDkParams salt) s) iv
    (lib.encrypt (secretKey lib (newDkParams salt) p) iv (padded k))

/-- What it finds there. -/
def opened (lib : WalletLib) (k p salt iv s : HexBytes) : Except XError Slice :=
  pkcs7UnPadding (decrypted lib k p salt iv s) aesBlockSize

/-- The right passphrase finds the key. -/
theorem opened_same (lawful : lib.Lawful) :
    opened lib k p salt iv p = .ok ⟨k, padLength k aesBlockSize⟩ := by
  have blocks : (padded k).length % aesBlockSize = 0 := by
    rw [length_padded]
    exact mod_length_padded k (by decide)
  rw [opened, decrypted, lawful.decrypt_encrypt _ _ _ blocks]
  obtain ⟨some', atMost⟩ := padLength_bounds k (by decide : 0 < aesBlockSize)
  exact pkcs7UnPadding_padded k some' atMost (by decide) (mod_length_padded k (by decide))

/-- Under another key the cipher may as well decrypt to any padded text of the right length. -/
theorem exists_opened (iv : HexBytes) (lawful : lib.Lawful)
    (derived : secretKey lib (newDkParams salt) s ≠ secretKey lib (newDkParams salt) p)
    {key : HexBytes} {n : Nat} (some' : 0 < n) (atMost : n ≤ aesBlockSize)
    (length : key.length + n = (padded k).length) :
    ∃ lib' : WalletLib, lib'.Lawful ∧ lib.AgreesBut lib' (secretKey lib (newDkParams salt) s) ∧
      opened lib' k p salt iv s = .ok ⟨key, n⟩ := by
  have whole : (key.length + n) % aesBlockSize = 0 := by
    rw [length, length_padded]
    exact mod_length_padded k (by decide)
  have same : (key ++ List.replicate n (UInt8.ofNat n)).length =
      (decrypted lib k p salt iv s).length := by
    rw [decrypted, lawful.decrypt_length, lawful.encrypt_length, List.length_append,
      List.length_replicate, length]
  refine ⟨lib.exchange (secretKey lib (newDkParams salt) s) (decrypted lib k p salt iv s)
    (key ++ List.replicate n (UInt8.ofNat n)), lawful.exchange same,
    WalletLib.agreesBut_exchange, ?_⟩
  have exchanged := lib.decrypt_exchange iv derived.symm (padded k)
    (key ++ List.replicate n (UInt8.ofNat n))
  refine (congrArg (pkcs7UnPadding · aesBlockSize) exchanged).trans ?_
  exact pkcs7UnPadding_padded key some' atMost (by decide) whole

theorem newCipher_secretKey (lawful : lib.Lawful) :
    newCipher (secretKey lib (newDkParams salt) p) = .ok () := by
  have length : (secretKey lib (newDkParams salt) p).length = 32 := lawful.pbkdf2_length _ _ _ _
  rw [newCipher, if_pos (.inr (.inr length))]

theorem sealKey_eq (lawful : lib.Lawful) (nonempty : k ≠ []) :
    sealKey lib k p salt iv = .ok
      ({ algo := "aes-256-cbc",
         text := lib.encrypt (secretKey lib (newDkParams salt) p) iv (padded k), iv }, padded k) := by
  have filled : pkcs7Padding k aesBlockSize = .ok (padded k) := by
    rw [pkcs7Padding, if_neg (by decide), if_neg nonempty]
    rfl
  simp only [sealKey, newCipher_secretKey lawful, filled]

/-- A locked wallet that holds `k` under the passphrase `p`. -/
structure Seals (lib : WalletLib) (wk : WalletKey) (k p salt iv : HexBytes) : Prop where
  locked : wk.prvKey = none
  derivation : wk.dkParams = some (newDkParams salt)
  vector : wk.cipherTextParams.iv = iv
  text : wk.cipherTextParams.text =
    lib.encrypt (secretKey lib (newDkParams salt) p) iv (padded k)

namespace Seals

variable (seals : Seals lib wk k p salt iv)

include seals

/-- `Unlock` of a sealed wallet takes what the passphrase finds. -/
theorem unlock_some (lawful : lib.Lawful) (vector : iv.length = aesBlockSize) :
    wk.unlock lib (some s) =
      match opened lib k p salt iv s with
      | .error e => .ok (.error e, wk)
      | .ok key => .ok (.ok (), wk.holding lib key) := by
  have blocks : (lib.encrypt (secretKey lib (newDkParams salt) p) iv (padded k)).length %
      aesBlockSize = 0 := by
    rw [lawful.encrypt_length, length_padded]
    exact mod_length_padded k (by decide)
  have closed : wk.isLock = true := by rw [isLock, seals.locked]; rfl
  simp only [unlock, closed, seals.derivation, newCipher_secretKey lawful, seals.vector, seals.text,
    vector, blocks, opened, decrypted]
  rfl

/-- `Unlock` without a passphrase fails. -/
theorem unlock_none : wk.unlock lib none =
    .ok (.error (.plain "wrong passphrase: the passphrase can not be empty"), wk) := by
  have closed : wk.isLock = true := by rw [isLock, seals.locked]; rfl
  simp only [unlock, closed, seals.derivation]
  rfl

end Seals

/-- A wallet opens with its passphrase and gives the key `k`, stays locked without one, and opens
with any passphrase only for a key of its address. -/
structure UnlocksRightly (lib : WalletLib) (wk : WalletKey) (k p : HexBytes) : Prop where
  right : ∃ wk' key, wk.unlock lib (some p) = .ok (.ok (), wk') ∧ wk'.prvKey = some key ∧
    key.bytes = k
  refused : (∃ e, wk.unlock lib none = .ok (.error e, wk)) ∧ wk.isLock = true
  checked : ∀ s wk', wk.unlock lib s = .ok (.ok (), wk') →
    ∃ key, wk'.prvKey = some key ∧ lib.address key.bytes = wk.address

/-- A sealed wallet unlocks rightly exactly if every passphrase finds nothing in it or a key of its
address. -/
theorem Seals.unlocksRightly_iff (seals : Seals lib wk k p salt iv) (lawful : lib.Lawful)
    (vector : iv.length = aesBlockSize) :
    UnlocksRightly lib wk k p ↔
      ∀ s key, opened lib k p salt iv s = .ok key → lib.address key.bytes = wk.address := by
  constructor
  · intro rightly s key found
    have unlocked := seals.unlock_some (s := s) lawful vector
    rw [found] at unlocked
    obtain ⟨key', held, same⟩ := rightly.checked _ _ unlocked
    obtain rfl : key = key' := Option.some.inj held
    exact same
  · intro agree
    refine ⟨?_, ⟨⟨_, seals.unlock_none⟩, by rw [isLock, seals.locked]; rfl⟩, ?_⟩
    · have unlocked := seals.unlock_some (s := p) lawful vector
      rw [opened_same lawful] at unlocked
      exact ⟨_, _, unlocked, rfl, rfl⟩
    · intro s wk' unlocked
      cases s with
      | none =>
        rw [seals.unlock_none] at unlocked
        cases unlocked
      | some s =>
        rw [seals.unlock_some lawful vector] at unlocked
        cases found : opened lib k p salt iv s with
        | error e =>
          rw [found] at unlocked
          cases unlocked
        | ok key =>
          rw [found] at unlocked
          cases unlocked
          exact ⟨key, rfl, agree s key found⟩

end Opening

/-! ## New wallets and wallets that are locked again -/

section Making

variable {lib}

/-- The key that `NewWalletKeyWith` computes the address from: the caller's, or zeros if the array of
the caller's key had room for the padding. -/
def addressedKey (k : Slice) : HexBytes :=
  if padLength k.bytes aesBlockSize ≤ k.spare then zeroBytes k.bytes.length else k.bytes

theorem afterClearing_padded (k : Slice) :
    (k.afterClearing (padded k.bytes)).bytes = addressedKey k := by
  have room : (padded k.bytes).length ≤ k.bytes.length + k.spare ↔
      padLength k.bytes aesBlockSize ≤ k.spare := by
    rw [length_padded]
    omega
  unfold Slice.afterClearing addressedKey
  by_cases fits : padLength k.bytes aesBlockSize ≤ k.spare
  · rw [if_pos (room.mpr fits), if_pos fits]
  · rw [if_neg (mt room.mp fits), if_neg fits]

theorem newWalletKeyWith_seals (p salt iv : HexBytes) (lawful : lib.Lawful) {k : Slice}
    (nonempty : k.bytes ≠ []) :
    ∃ wk k', newWalletKeyWith lib k (some p) salt iv = .ok (wk, k') ∧
      Seals lib wk k.bytes p salt iv ∧ wk.address = lib.address (addressedKey k) := by
  simp only [newWalletKeyWith, sealKey_eq lawful nonempty, afterClearing_padded]
  exact ⟨_, _, rfl, ⟨rfl, rfl, rfl, rfl⟩, rfl⟩

theorem lockWith_seals (p salt iv : HexBytes) (lawful : lib.Lawful) {wk₀ : WalletKey} {k : Slice}
    (holds : wk₀.prvKey = some k) (nonempty : k.bytes ≠ []) :
    ∃ wk, wk₀.lockWith lib p salt iv = .ok wk ∧ Seals lib wk k.bytes p salt iv ∧
      wk.address = wk₀.address := by
  simp only [lockWith, holds, sealKey_eq lawful nonempty]
  exact ⟨_, rfl, ⟨rfl, rfl, rfl, rfl⟩, rfl⟩

section

variable {k : Slice} (p salt : HexBytes) {iv : HexBytes} (lawful : lib.Lawful) (nonempty : k.bytes ≠ [])
  (vector : iv.length = aesBlockSize)

include lawful nonempty vector

/-- A new wallet unlocks rightly exactly if its address is that of the key and every passphrase finds
nothing in it or a key of this address. -/
theorem newWallet_rightly_iff :
    (∃ wk k', newWalletKeyWith lib k (some p) salt iv = .ok (wk, k') ∧
        UnlocksRightly lib wk k.bytes p) ↔
      ∀ s key, opened lib k.bytes p salt iv s = .ok key →
        lib.address key.bytes = lib.address (addressedKey k) := by
  obtain ⟨wk, k', made, seals, addressed⟩ := newWalletKeyWith_seals p salt iv lawful nonempty
  rw [← addressed, ← seals.unlocksRightly_iff lawful vector]
  constructor
  · rintro ⟨wk', k'', made', rightly⟩
    cases made.symm.trans made'
    exact rightly
  · intro rightly
    exact ⟨wk, k', made, rightly⟩

/-- So does a wallet that is locked again, with the address that it had. -/
theorem lockedWallet_rightly_iff {wk₀ : WalletKey} (holds : wk₀.prvKey = some k) :
    (∃ wk, wk₀.lockWith lib p salt iv = .ok wk ∧ UnlocksRightly lib wk k.bytes p) ↔
      ∀ s key, opened lib k.bytes p salt iv s = .ok key →
        lib.address key.bytes = wk₀.address := by
  obtain ⟨wk, locked, seals, addressed⟩ := lockWith_seals p salt iv lawful holds nonempty
  rw [← addressed, ← seals.unlocksRightly_iff lawful vector]
  constructor
  · rintro ⟨wk', locked', rightly⟩
    cases locked.symm.trans locked'
    exact rightly
  · intro rightly
    exact ⟨wk, locked, rightly⟩

/-- **Unlocking.**  Suppose that no passphrase that derives another key decrypts to a validly padded
text.  Then a new wallet unlocks rightly exactly if the caller's key had no room for the padding (or
zeros have the key's address), and a wallet that is locked again exactly if it has the key's address.
But for every passphrase that derives another key, and every padded text of the right length with a
key of another address, there are libraries with the same laws that differ only in the cipher under
the key of that passphrase, and with which no such wallet unlocks rightly. -/
theorem unlocking_rightly :
    ((∀ s, secretKey lib (newDkParams salt) s ≠ secretKey lib (newDkParams salt) p →
        ¬ ValidlyPadded aesBlockSize (decrypted lib k.bytes p salt iv s)) →
      ((∃ wk k', newWalletKeyWith lib k (some p) salt iv = .ok (wk, k') ∧
          UnlocksRightly lib wk k.bytes p) ↔
        (k.spare < padLength k.bytes aesBlockSize ∨
          lib.address (zeroBytes k.bytes.length) = lib.address k.bytes)) ∧
      ∀ wk₀ : WalletKey, wk₀.prvKey = some k →
        ((∃ wk, wk₀.lockWith lib p salt iv = .ok wk ∧ UnlocksRightly lib wk k.bytes p) ↔
          lib.address k.bytes = wk₀.address)) ∧
    ∀ s key n, secretKey lib (newDkParams salt) s ≠ secretKey lib (newDkParams salt) p →
      0 < n → n ≤ aesBlockSize → key.length + n = (padded k.bytes).length →
      lib.address key ≠ lib.address k.bytes →
      ∃ lib' : WalletLib, lib'.Lawful ∧
        lib.AgreesBut lib' (secretKey lib (newDkParams salt) s) ∧
        (¬ ∃ wk k', newWalletKeyWith lib' k (some p) salt iv = .ok (wk, k') ∧
          UnlocksRightly lib' wk k.bytes p) ∧
        ∀ wk₀ : WalletKey, wk₀.prvKey = some k →
          ¬ ∃ wk, wk₀.lockWith lib' p salt iv = .ok wk ∧ UnlocksRightly lib' wk k.bytes p := by
  constructor
  · intro unpadded
    -- what is found at all is found under the right key, and is the key
    have found (address : Address) : (∀ s key, opened lib k.bytes p salt iv s = .ok key →
        lib.address key.bytes = address) ↔ lib.address k.bytes = address := by
      have right : opened lib k.bytes p salt iv p = _ := opened_same lawful
      refine ⟨fun agree => ?_, fun same s key found => ?_⟩
      · have own := agree p _ right
        exact own
      · by_cases derived : secretKey lib (newDkParams salt) s = secretKey lib (newDkParams salt) p
        · rw [opened, decrypted, derived] at found
          cases found.symm.trans right
          exact same
        · exact absurd (validlyPadded_of_ok found) (unpadded s derived)
    refine ⟨?_, fun wk₀ holds => ?_⟩
    · rw [newWallet_rightly_iff p salt lawful nonempty vector, found]
      unfold addressedKey
      by_cases fits : padLength k.bytes aesBlockSize ≤ k.spare
      · rw [if_pos fits, eq_comm]
        exact ⟨.inr, fun same => same.resolve_left (not_lt.mpr fits)⟩
      · rw [if_neg fits]
        exact iff_of_true rfl (.inl (not_le.mp fits))
    · rw [lockedWallet_rightly_iff p salt lawful nonempty vector holds, found]
  · intro s key n derived some' atMost length other
    obtain ⟨lib', lawful', agrees, finds⟩ :=
      exists_opened iv lawful derived some' atMost length
    -- the wallet would have the address of the key that was found, and of the right one
    have never (address : Address) : ¬ ∀ s key, opened lib' k.bytes p salt iv s = .ok key →
        lib'.address key.bytes = address := by
      intro agree
      have wrong := (agree s _ finds).trans (agree p _ (opened_same lawful')).symm
      simp only [WalletLib.address, agrees.pubKey, agrees.pubBytes2Addr] at wrong
      exact other wrong
    exact ⟨lib', lawful', agrees, mt (newWallet_rightly_iff p salt lawful' nonempty vector).mp (never _),
      fun wk₀ holds => mt (lockedWallet_rightly_iff p salt lawful' nonempty vector holds).mp (never _)⟩

end

end Making

/-! ## A cipher to try it with -/

/-- A cipher that adds to every byte a number that depends on the first byte of the passphrase. -/
def shifting (shift : UInt8 → UInt8) : WalletLib where
  pbkdf2 pass _ _ keyLen := List.replicate keyLen (pass.headD 0)
  encrypt sk _ plaintext := plaintext.map (· + shift (sk.headD 0))
  decrypt sk _ ciphertext := ciphertext.map (· - shift (sk.headD 0))
  pubKey key := key
  pubBytes2Addr key := key

theorem lawful_shifting (shift : UInt8 → UInt8) : (shifting shift).Lawful where
  pbkdf2_length pass salt iter keyLen := List.length_replicate
  encrypt_length sk iv plaintext := List.length_map _
  decrypt_encrypt sk iv plaintext _ := by
    simp only [shifting, List.map_map]
    exact List.map_id'' (fun b => UInt8.add_sub_cancel b _) plaintext
  decrypt_length sk iv ciphertext := List.length_map _

/-- Thirty-two ones. -/
def someKey : HexBytes := List.replicate 32 1

/-- A shift by none or by a hundred, which no padding survives. -/
def coarse (b : UInt8) : UInt8 := if b = 0 then 0 else 100

/-- A passphrase that derives another key decrypts to bytes of which the last is 172. -/
theorem decrypted_coarse {s : HexBytes}
    (derived : secretKey (shifting coarse) (newDkParams (zeroBytes 32)) s ≠
      secretKey (shifting coarse) (newDkParams (zeroBytes 32)) [0]) :
    ¬ ValidlyPadded aesBlockSize
      (decrypted (shifting coarse) someKey [0] (zeroBytes 32) (zeroBytes 16) s) := by
  have nonzero : s.headD 0 ≠ 0 := fun zero => derived (congrArg (List.replicate 32) zero)
  have shifted : decrypted (shifting coarse) someKey [0] (zeroBytes 32) (zeroBytes 16) s =
      (padded someKey).map (· - coarse (s.headD 0)) := rfl
  rw [shifted, coarse, if_neg nonzero]
  rintro ⟨b, n, some', atMost, same⟩
  have last := congrArg List.getLast? same
  rw [List.getLast?_append, List.getLast?_replicate, if_neg some'.ne'] at last
  have byte : n % 256 = 172 := congrArg UInt8.toNat (Option.some.inj last.symm)
  simp only [aesBlockSize] at atMost
  omega

/-- A key without room is found again with the passphrase that locked it only; but some other cipher
under the key of the passphrase 1 would give another key. -/
theorem unlocking_rightly_coarse :
    (∃ wk k', newWalletKeyWith (shifting coarse) ⟨someKey, 15⟩ (some [0]) (zeroBytes 32)
        (zeroBytes 16) = .ok (wk, k') ∧ UnlocksRightly (shifting coarse) wk someKey [0]) ∧
    ∃ lib' : WalletLib, lib'.Lawful ∧
      (shifting coarse).AgreesBut lib'
        (secretKey (shifting coarse) (newDkParams (zeroBytes 32)) [1]) ∧
      ¬ ∃ wk k', newWalletKeyWith lib' ⟨someKey, 15⟩ (some [0]) (zeroBytes 32) (zeroBytes 16) =
        .ok (wk, k') ∧ UnlocksRightly lib' wk someKey [0] := by
  obtain ⟨enough, never⟩ := unlocking_rightly [0] (zeroBytes 32) (lawful_shifting coarse)
    (by decide : (⟨someKey, 15⟩ : Slice).bytes ≠ []) (rfl : (zeroBytes 16).length = aesBlockSize)
  refine ⟨(enough fun s derived => decrypted_coarse derived).1.mpr (.inl (by decide)), ?_⟩
  obtain ⟨lib', lawful, agrees, wrong, -⟩ := never [1] (List.replicate 47 1) 1 (by decide)
    (by decide) (by decide) (by decide) (by decide)
  exact ⟨lib', lawful, agrees, wrong⟩

/-- A wrong passphrase is accepted where the decrypted bytes happen to end with a one, and gives a
key of another address; and a key whose array has room for the padding is cleared before the address
is computed, so that not even the right passphrase gives a key of the wallet's address. -/
theorem wrong_passphrase_unlocks :
    (∃ wk k' wk' key,
      newWalletKeyWith (shifting id) ⟨someKey, 0⟩ (some [0]) (zeroBytes 32) (zeroBytes 16) =
        .ok (wk, k') ∧ wk.unlock (shifting id) (some [15]) = .ok (.ok (), wk') ∧
      wk'.prvKey = some key ∧ (shifting id).address key.bytes ≠ wk.address) ∧
    ∃ wk k' wk',
      newWalletKeyWith (shifting id) ⟨someKey, 16⟩ (some [0]) (zeroBytes 32) (zeroBytes 16) =
        .ok (wk, k') ∧ wk.unlock (shifting id) (some [0]) = .ok (.ok (), wk') ∧
      wk'.prvKey = some ⟨someKey, 16⟩ ∧ (shifting id).address someKey ≠ wk.address :=
  ⟨⟨_, _, _, _, rfl, rfl, rfl, by decide⟩, ⟨_, _, _, rfl, rfl, rfl, by decide⟩⟩

end WalletKey

end Rigo
