import Rigo.Ctrlers.Types.Trx

/-!
# Encoding transactions

A client writes a transaction as protobuf (`Trx.Encode`) and signs its RLP encoding; the
node reads the protobuf (`Trx.Decode`) and checks the signature against the RLP encoding
of what it has read.  The two hand-written codecs of the envelope and of the payloads
have to agree, and the RLP encoding has to tell every two transactions apart.

`decodeRLP_encodeRLP` is the round trip through RLP, from which it follows that the signed
text determines the transaction (`preImageToSignTrxRLP_injective`);
`decode_encode` is the round trip through protobuf.

`InRange` says that the numbers of a transaction are values of the Go types of its fields.
Protobuf is a library (`TrxMarshal`); that it loses nothing is the assumption `Lossless`.
-/

namespace Rigo

open Foundation

/-! ## Values of the Go types -/

/-- The range of `int64`. -/
def IsInt64 (x : Int) : Prop := -2 ^ 63 ≤ x ∧ x < 2 ^ 63

/-- The range of `int32`. -/
def IsInt32 (x : Int) : Prop := -2 ^ 31 ≤ x ∧ x < 2 ^ 31

instance (x : Int) : Decidable (IsInt64 x) := inferInstanceAs (Decidable (_ ∧ _))

instance (x : Int) : Decidable (IsInt32 x) := inferInstanceAs (Decidable (_ ∧ _))

theorem i64_uint64OfInt {x : Int} (range : IsInt64 x) : i64 (uint64OfInt x) = x := by
  obtain ⟨low, high⟩ := range
  exact bmod_toNat_emod (m := 2 ^ 64) (by omega) (by omega)

theorem i32_uint32OfInt {x : Int} (range : IsInt32 x) : i32 (uint32OfInt x) = x := by
  obtain ⟨low, high⟩ := range
  exact bmod_toNat_emod (m := 2 ^ 32) (by omega) (by omega)

theorem uint64OfInt_lt (x : Int) : uint64OfInt x < 2 ^ 64 := by
  unfold uint64OfInt
  omega

theorem uint32OfInt_lt (x : Int) : uint32OfInt x < 2 ^ 32 := by
  unfold uint32OfInt
  omega

/-- The numbers of a payload are values of the Go types of its fields. -/
def TrxPayload.InRange : TrxPayload → Prop
  | .proposal payload =>
    IsInt64 payload.startVotingHeight ∧ IsInt64 payload.votingPeriodBlocks ∧
      IsInt64 payload.applyingHeight ∧ IsInt32 payload.optType
  | .voting payload => IsInt32 payload.choice
  | _ => True

/-- The numbers of a transaction are values of the Go types of its fields. -/
structure Trx.InRange (tx : Trx) : Prop where
  version : tx.version < 2 ^ 32
  time : IsInt64 tx.time
  nonce : tx.nonce < 2 ^ 64
  gas : tx.gas < 2 ^ 64
  payload : tx.payload.InRange

namespace Trx

/-! ## Reading RLP -/

/-- `Stream.Bytes`. -/
def bytesOfRlp : Rlp.Item → Option HexBytes
  | .bytes bz => some bz
  | .list _ => none

/-- A number of at most `size` bytes, without leading zeros. -/
def uintOfRlp (size : Nat) : Rlp.Item → Option Nat
  | .bytes bz =>
    if bz.length ≤ size ∧ bz.head? ≠ some 0 then some (natOfBytes bz) else none
  | .list _ => none

/-- The type of a transaction, cast to `int32`. -/
def typeOfRlp (item : Rlp.Item) : Option TrxType :=
  match uintOfRlp 8 item with
  | none => none
  | some n => TrxType.ofCode (i32 n)

/-- The `DecodeRLP` methods of the payloads, chosen by the type.  Without bytes there is no
payload; the methods of transfers and stakings read nothing, so that any bytes are left
over, which `rlp.DecodeBytes` refuses. -/
def decodePayloadRLP (bz : HexBytes) (type : TrxType) : Option TrxPayload :=
  if bz = [] then some .none
  else
    match type, Rlp.decode bz with
    | .unstaking, some item => (bytesOfRlp item).map .unstaking
    | .withdraw, some item => (bytesOfRlp item).map fun bz => .withdraw (Uint256.ofBytes bz)
    | .contract, some item => (bytesOfRlp item).map .contract
    | .setDoc, some (.list [name, url]) => do
        return .setDoc { name := ← bytesOfRlp name, url := ← bytesOfRlp url }
    | .voting, some (.list [txHash, choice]) => do
        return .voting { txHash := ← bytesOfRlp txHash, choice := i32 (← uintOfRlp 4 choice) }
    | .proposal, some (.list [message, start, period, applying, optType, .list options]) => do
        return .proposal {
          message := ← bytesOfRlp message
          startVotingHeight := i64 (← uintOfRlp 8 start)
          votingPeriodBlocks := i64 (← uintOfRlp 8 period)
          applyingHeight := i64 (← uintOfRlp 8 applying)
          optType := i32 (← uintOfRlp 4 optType)
          options := ← options.mapM bytesOfRlp }
    | _, _ => none

/-- `Trx.DecodeRLP`.  The number of no type is refused here; the source keeps it when there
is no payload. -/
def decodeRLP (bz : HexBytes) : Option Trx :=
  match Rlp.decode bz with
  | some (.list [version, time, nonce, fromAddr, toAddr, amount, gas, gasPrice, type, payload,
      sig]) => do
      let type ← typeOfRlp type
      return {
        version := (← uintOfRlp 8 version) % 2 ^ 32
        time := i64 (← uintOfRlp 8 time)
        nonce := ← uintOfRlp 8 nonce
        fromAddr := ← bytesOfRlp fromAddr
        toAddr := ← bytesOfRlp toAddr
        amount := Uint256.ofBytes (← bytesOfRlp amount)
        gas := ← uintOfRlp 8 gas
        gasPrice := Uint256.ofBytes (← bytesOfRlp gasPrice)
        type
        payload := ← decodePayloadRLP (← bytesOfRlp payload) type
        sig := ← bytesOfRlp sig }
  | _ => none

theorem uintOfRlp_rlpUint {size n : Nat} (small : n < 256 ^ size) (fits : size ≤ 8) :
    uintOfRlp size (rlpUint n) = some n := by
  have fits' : n < 256 ^ 8 := lt_of_lt_of_le small (Nat.pow_le_pow_right (by norm_num) fits)
  rw [rlpUint, uintOfRlp, if_pos ⟨length_bytesOfNat_le_of_lt 8 n size small,
    head?_bytesOfNat 8 n fits'⟩, natOfBytes_bytesOfNat 8 n fits']

theorem mapM_bytesOfRlp (options : List HexBytes) :
    options.mapM (bytesOfRlp ∘ Rlp.Item.bytes) = some options := by
  induction options with
  | nil => rfl
  | cons bz options ih => simp [bytesOfRlp, ih]

/-- The bytes of a payload are read back as that payload. -/
theorem decodePayloadRLP_encodePayloadRLP {tx : Trx} (typed : tx.WellTyped)
    (range : tx.payload.InRange) (small : (encodePayloadRLP tx.payload).length < 2 ^ 64) :
    decodePayloadRLP (encodePayloadRLP tx.payload) tx.type = some tx.payload := by
  have written : ∀ item : Rlp.Item, Rlp.encode item ≠ [] := fun item empty => by
    have := Rlp.length_encode_pos item
    rw [empty] at this
    exact absurd this (by simp)
  obtain ⟨_, _, _, _, _, _, _, _, type, payload, _⟩ := tx
  cases type <;> cases payload <;> first | exact typed.elim | skip
  case transfer.none | staking.none => rfl
  case unstaking.unstaking txHash =>
      simp only [encodePayloadRLP] at small ⊢
      simp [decodePayloadRLP, written, Rlp.decode_encode small, bytesOfRlp]
  case withdraw.withdraw reqAmt =>
      simp only [encodePayloadRLP] at small ⊢
      simp [decodePayloadRLP, written, Rlp.decode_encode small, bytesOfRlp]
  case contract.contract data =>
      simp only [encodePayloadRLP] at small ⊢
      simp [decodePayloadRLP, written, Rlp.decode_encode small, bytesOfRlp]
  case setDoc.setDoc payload =>
      simp only [encodePayloadRLP] at small ⊢
      simp [decodePayloadRLP, written, Rlp.decode_encode small, bytesOfRlp]
  case voting.voting payload =>
      have choice : uintOfRlp 4 (rlpUint (uint32OfInt payload.choice)) = some _ :=
        uintOfRlp_rlpUint (lt_of_lt_of_eq (uint32OfInt_lt _) (by norm_num)) (by norm_num)
      simp only [encodePayloadRLP] at small ⊢
      simp [decodePayloadRLP, written, Rlp.decode_encode small, bytesOfRlp, choice,
        i32_uint32OfInt range]
  case proposal.proposal payload =>
      obtain ⟨start, period, applying, kind⟩ := range
      have height : ∀ x : Int, uintOfRlp 8 (rlpUint (uint64OfInt x)) = some (uint64OfInt x) :=
        fun x => uintOfRlp_rlpUint (lt_of_lt_of_eq (uint64OfInt_lt x) (by norm_num)) le_rfl
      have optType : uintOfRlp 4 (rlpUint (uint32OfInt payload.optType)) = some _ :=
        uintOfRlp_rlpUint (lt_of_lt_of_eq (uint32OfInt_lt _) (by norm_num)) (by norm_num)
      simp only [encodePayloadRLP] at small ⊢
      simp [decodePayloadRLP, written, Rlp.decode_encode small, bytesOfRlp, optType, height,
        mapM_bytesOfRlp, i64_uint64OfInt start, i64_uint64OfInt period, i64_uint64OfInt applying,
        i32_uint32OfInt kind]

theorem typeOfRlp_code (type : TrxType) :
    typeOfRlp (rlpUint (uint64OfInt type.code)) = some type := by
  rw [typeOfRlp, uintOfRlp_rlpUint (lt_of_lt_of_eq (uint64OfInt_lt _) (by norm_num)) le_rfl]
  cases type <;> rfl

/-- A transaction written in RLP is read back. -/
theorem decodeRLP_encodeRLP {tx : Trx} (typed : tx.WellTyped) (range : tx.InRange)
    (small : (encodeRLP tx).length < 2 ^ 64) : decodeRLP (encodeRLP tx) = some tx := by
  rw [encodeRLP] at small ⊢
  have uint64 : ∀ n : Nat, n < 2 ^ 64 → uintOfRlp 8 (rlpUint n) = some n :=
    fun n fits => uintOfRlp_rlpUint (lt_of_lt_of_eq fits (by norm_num)) le_rfl
  have version : tx.version < 2 ^ 64 := lt_trans range.version (by norm_num)
  have payload : (encodePayloadRLP tx.payload).length < 2 ^ 64 := by
    refine lt_of_le_of_lt ((Rlp.length_encodeBytes _).1.trans ?_) small
    rw [← Rlp.encode]
    exact Rlp.length_encode_le_of_mem (by simp)
  have wrapped : tx.version % 2 ^ 32 = tx.version := Nat.mod_eq_of_lt range.version
  rw [decodeRLP, Rlp.decode_encode small]
  simp [bytesOfRlp, uint64 _ version, uint64 _ (uint64OfInt_lt _), uint64 _ range.nonce,
    uint64 _ range.gas, typeOfRlp_code, i64_uint64OfInt range.time, -Nat.reducePow, wrapped,
    decodePayloadRLP_encodePayloadRLP typed range.payload payload]

/-! ## The signed text -/

theorem utf8Bytes_append (s t : String) : utf8Bytes (s ++ t) = utf8Bytes s ++ utf8Bytes t := by
  simp [utf8Bytes]

/-- A number is written in digits, which are bytes below 192. -/
theorem lt_of_mem_utf8Bytes_toString {n : Nat} {b : UInt8} (mem : b ∈ utf8Bytes (toString n)) :
    b.toNat < 192 := by
  rw [utf8Bytes, Nat.toString_eq_ofList_toDigits] at mem
  obtain ⟨c, digit, mem⟩ : ∃ c ∈ Nat.toDigits 10 n, b ∈ String.utf8EncodeChar c := by
    simpa [List.utf8Encode] using mem
  have isDigit := Nat.isDigit_of_mem_toDigits (by norm_num) le_rfl digit
  have high : c.val.toNat ≤ 57 := (Char.isDigit_iff_toNat.mp isDigit).2
  have single : c.utf8Size = 1 := by
    rw [Char.utf8Size, if_pos]
    rw [UInt32.le_iff_toNat_le]
    exact high.trans (by decide)
  rw [String.utf8EncodeChar_eq_singleton single, List.mem_singleton] at mem
  subst mem
  rw [UInt32.toNat_toUInt8]
  omega

/-- The signed text: a prefix, the length of the RLP encoding in digits, and the encoding. -/
theorem preImageToSignTrxRLP_eq (tx : Trx) (chainId : String) :
    preImageToSignTrxRLP tx chainId =
      utf8Bytes ("\x19RIGO(" ++ chainId ++ ") Signed Message:\n") ++
        (utf8Bytes (toString (encodeRLP { tx with sig := [] }).length) ++
          encodeRLP { tx with sig := [] }) := by
  rw [preImageToSignTrxRLP, utf8Bytes_append, List.append_assoc]

/-- Digits in front of an RLP list can be told from the list. -/
theorem dropWhile_digits {tx : Trx} (n : Nat) (small : (encodeRLP tx).length < 2 ^ 64) :
    (utf8Bytes (toString n) ++ encodeRLP tx).dropWhile (·.toNat < 192) = encodeRLP tx := by
  rw [List.dropWhile_append_of_pos fun b mem =>
    decide_eq_true (lt_of_mem_utf8Bytes_toString mem)]
  obtain ⟨b, bz, encoded, low⟩ := Rlp.exists_encode_list small
  rw [encodeRLP, encoded]
  exact List.dropWhile_cons_of_neg (by simpa using low)

theorem length_unsigned_lt {tx : Trx} {chainId : String}
    (small : (preImageToSignTrxRLP tx chainId).length < 2 ^ 63) :
    (encodeRLP { tx with sig := [] }).length < 2 ^ 64 := by
  rw [preImageToSignTrxRLP_eq] at small
  simp only [List.length_append] at small
  omega

/-- What was encoded for signing is read back. -/
theorem decodeRLP_unsigned {tx : Trx} {chainId : String} (typed : tx.WellTyped)
    (range : tx.InRange) (small : (preImageToSignTrxRLP tx chainId).length < 2 ^ 63) :
    decodeRLP (encodeRLP { tx with sig := [] }) = some { tx with sig := [] } := by
  have unsigned : ({ tx with sig := [] } : Trx).InRange :=
    ⟨range.version, range.time, range.nonce, range.gas, range.payload⟩
  exact decodeRLP_encodeRLP typed unsigned (length_unsigned_lt small)

/-- Two transactions with the same signed text differ in their signatures only. -/
theorem preImageToSignTrxRLP_injective (chainId : String) {tx tx' : Trx}
    (typed : tx.WellTyped) (typed' : tx'.WellTyped) (range : tx.InRange) (range' : tx'.InRange)
    (small : (preImageToSignTrxRLP tx chainId).length < 2 ^ 63)
    (same : preImageToSignTrxRLP tx chainId = preImageToSignTrxRLP tx' chainId) :
    { tx with sig := [] } = { tx' with sig := [] } := by
  have small' : (preImageToSignTrxRLP tx' chainId).length < 2 ^ 63 := same ▸ small
  have encoded : encodeRLP { tx with sig := [] } = encodeRLP { tx' with sig := [] } := by
    have tails := same
    rw [preImageToSignTrxRLP_eq, preImageToSignTrxRLP_eq, List.append_cancel_left_eq] at tails
    rw [← dropWhile_digits _ (length_unsigned_lt small), tails,
      dropWhile_digits _ (length_unsigned_lt small')]
  have read := decodeRLP_unsigned typed range small
  rw [encoded, decodeRLP_unsigned typed' range' small'] at read
  exact (Option.some.inj read).symm

/-- A vote with the choice `-1`. -/
def sampleVote (sig : HexBytes) : Trx where
  version := 1
  time := -1
  nonce := 7
  fromAddr := List.replicate 20 1
  toAddr := zeroAddress
  amount := 0
  gas := 4000
  gasPrice := Uint256.newInt 250000000000
  type := .voting
  payload := .voting { txHash := List.replicate 32 200, choice := -1 }
  sig := sig

theorem sampleVote_inRange (sig : HexBytes) : (sampleVote sig).InRange where
  version := by norm_num [sampleVote]
  time := by norm_num [sampleVote, IsInt64]
  nonce := by norm_num [sampleVote]
  gas := by norm_num [sampleVote]
  payload := by norm_num [sampleVote, TrxPayload.InRange, IsInt32]

theorem preImageToSignTrxRLP_injective_sampleVote :
    { sampleVote [1, 2, 3] with sig := [] } = { sampleVote [4] with sig := [] } :=
  preImageToSignTrxRLP_injective "rigo" trivial trivial (sampleVote_inRange [1, 2, 3])
    (sampleVote_inRange [4]) (by decide +kernel) rfl

/-! ## Protobuf -/

end Trx

/-- The bytes of some text. -/
def IsUtf8 (s : GoString) : Prop := ∃ text : String, utf8Bytes text = s

/-- The strings of a payload are valid. -/
def TrxPayload.ValidStrings : TrxPayload → Prop
  | .proposal payload => IsUtf8 payload.message
  | .setDoc payload => IsUtf8 payload.name ∧ IsUtf8 payload.url
  | _ => True

/-- `proto.Marshal` of the messages that `TrxLib` unmarshals. -/
structure TrxMarshal where
  marshalTrx : TrxProto → Except String HexBytes
  marshalUnstaking : HexBytes → Except String HexBytes
  marshalWithdraw : HexBytes → Except String HexBytes
  marshalProposal : TrxPayloadProposal → Except String HexBytes
  marshalVoting : TrxPayloadVoting → Except String HexBytes
  marshalContract : HexBytes → Except String HexBytes
  marshalSetDoc : TrxPayloadSetDoc → Except String HexBytes

/-- A message is marshalled and the bytes are unmarshalled to it. -/
def RoundTrips {α : Type} (marshal : α → Except String HexBytes)
    (unmarshal : HexBytes → Except String α) (message : α) : Prop :=
  ∃ bz, marshal message = .ok bz ∧ unmarshal bz = .ok message

/-- The numbers of a message are values of the types its fields are declared with. -/
structure TrxProto.InRange (pm : TrxProto) : Prop where
  version : pm.version < 2 ^ 32
  time : IsInt64 pm.time
  nonce : pm.nonce < 2 ^ 64
  gas : pm.gas < 2 ^ 64
  type : IsInt32 pm.type

/-- Protobuf loses nothing of messages whose fields have values of their declared types. -/
structure Lossless (lib : TrxLib) (enc : TrxMarshal) : Prop where
  trx : ∀ pm : TrxProto, pm.InRange → RoundTrips enc.marshalTrx lib.unmarshalTrx pm
  unstaking : ∀ txHash, RoundTrips enc.marshalUnstaking lib.unmarshalUnstaking txHash
  withdraw : ∀ reqAmt, RoundTrips enc.marshalWithdraw lib.unmarshalWithdraw reqAmt
  proposal : ∀ payload, (TrxPayload.proposal payload).InRange →
    (TrxPayload.proposal payload).ValidStrings →
      RoundTrips enc.marshalProposal lib.unmarshalProposal payload
  voting : ∀ payload, (TrxPayload.voting payload).InRange →
    RoundTrips enc.marshalVoting lib.unmarshalVoting payload
  contract : ∀ data, RoundTrips enc.marshalContract lib.unmarshalContract data
  setDoc : ∀ payload, (TrxPayload.setDoc payload).ValidStrings →
    RoundTrips enc.marshalSetDoc lib.unmarshalSetDoc payload

namespace Trx

/-- The `Encode` methods of the payloads. -/
def encodePayload (enc : TrxMarshal) : TrxPayload → Except String HexBytes
  | .none => .ok []
  | .unstaking txHash => enc.marshalUnstaking txHash
  | .withdraw reqAmt => enc.marshalWithdraw reqAmt.toBytes
  | .proposal payload => enc.marshalProposal payload
  | .voting payload => enc.marshalVoting payload
  | .contract data => enc.marshalContract data
  | .setDoc payload => enc.marshalSetDoc payload

/-- `Trx.toProto`. -/
def toProto (enc : TrxMarshal) (tx : Trx) : Except XError TrxProto :=
  match encodePayload enc tx.payload with
  | .error err => .error (.fromErr err)
  | .ok xPayload => .ok {
      version := tx.version
      time := tx.time
      nonce := tx.nonce
      fromAddr := tx.fromAddr
      toAddr := tx.toAddr
      xAmount := tx.amount.toBytes
      gas := tx.gas
      xGasPrice := tx.gasPrice.toBytes
      type := tx.type.code
      xPayload
      sig := tx.sig }

/-- `Trx.Encode`. -/
def encode (enc : TrxMarshal) (tx : Trx) : Except XError HexBytes :=
  match toProto enc tx with
  | .error err => .error (.fromErr err.error)
  | .ok pm =>
    match enc.marshalTrx pm with
    | .error err => .error (.fromErr err)
    | .ok bz => .ok bz

/-- The `Encode` and `Decode` methods of the payloads are inverse to each other. -/
theorem encodePayload_ok {lib : TrxLib} {enc : TrxMarshal} (lossless : Lossless lib enc) {tx : Trx}
    (typed : tx.WellTyped) (range : tx.payload.InRange) (strings : tx.payload.ValidStrings) :
    ∃ bz, encodePayload enc tx.payload = .ok bz ∧
      decodePayload lib bz tx.type = .ok tx.payload := by
  obtain ⟨_, _, _, _, _, _, _, _, type, payload, _⟩ := tx
  cases type <;> cases payload <;> first | exact typed.elim | skip
  case transfer.none | staking.none => exact ⟨[], rfl, rfl⟩
  case unstaking.unstaking txHash =>
      obtain ⟨bz, written, read⟩ := lossless.unstaking txHash
      exact ⟨bz, written, by simp [decodePayload, read, Except.map]⟩
  case withdraw.withdraw reqAmt =>
      obtain ⟨bz, written, read⟩ := lossless.withdraw reqAmt.toBytes
      exact ⟨bz, written, by simp [decodePayload, read, Except.map]⟩
  case proposal.proposal payload =>
      obtain ⟨bz, written, read⟩ := lossless.proposal payload range strings
      exact ⟨bz, written, by simp [decodePayload, read, Except.map]⟩
  case voting.voting payload =>
      obtain ⟨bz, written, read⟩ := lossless.voting payload range
      exact ⟨bz, written, by simp [decodePayload, read, Except.map]⟩
  case contract.contract data =>
      obtain ⟨bz, written, read⟩ := lossless.contract data
      exact ⟨bz, written, by simp [decodePayload, read, Except.map]⟩
  case setDoc.setDoc payload =>
      obtain ⟨bz, written, read⟩ := lossless.setDoc payload strings
      exact ⟨bz, written, by simp [decodePayload, read, Except.map]⟩

/-- A transaction written in protobuf is read back. -/
theorem decode_encode {lib : TrxLib} {enc : TrxMarshal} (lossless : Lossless lib enc) {tx : Trx}
    (typed : tx.WellTyped) (range : tx.InRange) (strings : tx.payload.ValidStrings) :
    ∃ bz, encode enc tx = .ok bz ∧ decode lib bz = .ok tx := by
  obtain ⟨xPayload, payloadWritten, payloadRead⟩ :=
    encodePayload_ok lossless typed range.payload strings
  have known : TrxType.ofCode tx.type.code = some tx.type := by cases tx.type <;> rfl
  have code : IsInt32 tx.type.code := by cases tx.type <;> decide
  obtain ⟨bz, written, read⟩ := lossless.trx {
    version := tx.version, time := tx.time, nonce := tx.nonce, fromAddr := tx.fromAddr,
    toAddr := tx.toAddr, xAmount := tx.amount.toBytes, gas := tx.gas,
    xGasPrice := tx.gasPrice.toBytes, type := tx.type.code, xPayload, sig := tx.sig }
    ⟨range.version, range.time, range.nonce, range.gas, code⟩
  refine ⟨bz, by simp [encode, toProto, payloadWritten, written], ?_⟩
  simp [decode, read, fromProto, known, payloadRead]

/-- Sending a transaction changes nothing: the node reads the transaction the client has
written, whose signed text, and hence whose signature check, is the client's; and the RLP
encoding is read back to the same transaction. -/
theorem transport_preserves {lib : TrxLib} {enc : TrxMarshal} (lossless : Lossless lib enc)
    {tx : Trx} (typed : tx.WellTyped) (range : tx.InRange) (strings : tx.payload.ValidStrings)
    (small : (encodeRLP tx).length < 2 ^ 63) :
    (∃ bz received, encode enc tx = .ok bz ∧ decode lib bz = .ok received ∧ received = tx ∧
      ∀ chainId, preImageToSignTrxRLP received chainId = preImageToSignTrxRLP tx chainId ∧
        verifyTrxRLP lib received chainId = verifyTrxRLP lib tx chainId) ∧
    decodeRLP (encodeRLP tx) = some tx := by
  obtain ⟨bz, written, read⟩ := decode_encode lossless typed range strings
  exact ⟨⟨bz, tx, written, read, rfl, fun _ => ⟨rfl, rfl⟩⟩,
    decodeRLP_encodeRLP typed range (lt_trans small (by norm_num))⟩

/-! A concrete lossless codec: a message is numbered, and its number is written in unary. -/

section Numbered

variable {α : Type} [Encodable α]

def marshalNumbered (message : α) : Except String HexBytes :=
  .ok (List.replicate (Encodable.encode message) 0)

-- irreducible, so that no unifier starts to decode
@[irreducible] def unmarshalNumbered (bz : HexBytes) : Except String α :=
  match Encodable.decode bz.length with
  | none => .error "no message"
  | some message => .ok message

theorem roundTrips_numbered (message : α) :
    RoundTrips marshalNumbered unmarshalNumbered message :=
  ⟨_, rfl, by simp [unmarshalNumbered]⟩

end Numbered

instance : Encodable UInt8 := .ofLeftInverse UInt8.toNat UInt8.ofNat (by simp)

instance : Encodable TrxProto :=
  .ofLeftInverse
    (fun pm => (pm.version, pm.time, pm.nonce, pm.fromAddr, pm.toAddr, pm.xAmount, pm.gas,
      pm.xGasPrice, pm.type, pm.xPayload, pm.sig))
    (fun (version, time, nonce, fromAddr, toAddr, xAmount, gas, xGasPrice, type, xPayload, sig) =>
      ⟨version, time, nonce, fromAddr, toAddr, xAmount, gas, xGasPrice, type, xPayload, sig⟩)
    fun _ => rfl

instance : Encodable TrxPayloadProposal :=
  .ofLeftInverse
    (fun payload => (payload.message, payload.startVotingHeight, payload.votingPeriodBlocks,
      payload.applyingHeight, payload.optType, payload.options))
    (fun (message, start, period, applying, optType, options) =>
      ⟨message, start, period, applying, optType, options⟩)
    fun _ => rfl

instance : Encodable TrxPayloadVoting :=
  .ofLeftInverse (fun payload => (payload.txHash, payload.choice))
    (fun (txHash, choice) => ⟨txHash, choice⟩) fun _ => rfl

instance : Encodable TrxPayloadSetDoc :=
  .ofLeftInverse (fun payload => (payload.name, payload.url)) (fun (name, url) => ⟨name, url⟩)
    fun _ => rfl

def numberedMarshal : TrxMarshal where
  marshalTrx := marshalNumbered
  marshalUnstaking := marshalNumbered
  marshalWithdraw := marshalNumbered
  marshalProposal := marshalNumbered
  marshalVoting := marshalNumbered
  marshalContract := marshalNumbered
  marshalSetDoc := marshalNumbered

def numberedLib : TrxLib where
  unmarshalTrx := unmarshalNumbered
  unmarshalUnstaking := unmarshalNumbered
  unmarshalWithdraw := unmarshalNumbered
  unmarshalProposal := unmarshalNumbered
  unmarshalVoting := unmarshalNumbered
  unmarshalContract := unmarshalNumbered
  unmarshalSetDoc := unmarshalNumbered
  txHash bz := bz
  sha256 bz := bz
  sigToPub _ sig := .ok sig
  compressPubkey pub := pub
  pubBytes2Addr pubKey := pubKey

theorem numbered_lossless : Lossless numberedLib numberedMarshal where
  trx pm _ := roundTrips_numbered pm
  unstaking := roundTrips_numbered
  withdraw := roundTrips_numbered
  proposal payload _ _ := roundTrips_numbered payload
  voting payload _ := roundTrips_numbered payload
  contract := roundTrips_numbered
  setDoc payload _ := roundTrips_numbered payload

theorem transport_preserves_sampleVote :
    (∃ bz received, encode numberedMarshal (sampleVote [5]) = .ok bz ∧
      decode numberedLib bz = .ok received ∧ received = sampleVote [5] ∧
      ∀ chainId, preImageToSignTrxRLP received chainId =
          preImageToSignTrxRLP (sampleVote [5]) chainId ∧
        verifyTrxRLP numberedLib received chainId =
          verifyTrxRLP numberedLib (sampleVote [5]) chainId) ∧
    decodeRLP (encodeRLP (sampleVote [5])) = some (sampleVote [5]) :=
  transport_preserves numbered_lossless trivial (sampleVote_inRange [5]) trivial
    (by decide +kernel)

end Trx

end Rigo
