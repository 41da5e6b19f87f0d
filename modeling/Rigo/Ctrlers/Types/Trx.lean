import Rigo.Ledger.Tree

/-!
# Transactions

`ctrlers/types/trx.go` and the payload files beside it.  A transaction arrives as
protobuf bytes; `decode` turns them into a `Trx` whose payload is of the kind its
type asks for (`decode_wellTyped`).  The text that is signed is the RLP encoding of
the transaction without its signature, behind a prefix with the chain id.

Unmarshalling protobuf, hashing and recovering the signer are the work of
libraries (`TrxLib`).
-/

namespace Rigo

/-- The transaction types. -/
inductive TrxType where
  | transfer
  | staking
  | unstaking
  | proposal
  | voting
  | contract
  | setDoc
  | withdraw
  deriving DecidableEq, Repr

namespace TrxType

/-- The number of a type. -/
def code : TrxType → Int
  | transfer => 1
  | staking => 2
  | unstaking => 3
  | proposal => 4
  | voting => 5
  | contract => 6
  | setDoc => 7
  | withdraw => 8

/-- The type with a number. -/
def ofCode : Int → Option TrxType
  | 1 => some transfer
  | 2 => some staking
  | 3 => some unstaking
  | 4 => some proposal
  | 5 => some voting
  | 6 => some contract
  | 7 => some setDoc
  | 8 => some withdraw
  | _ => none

end TrxType

/-- `TrxPayloadProposal`. -/
structure TrxPayloadProposal where
  message : GoString
  startVotingHeight : Int
  votingPeriodBlocks : Int
  applyingHeight : Int
  optType : Int
  options : List HexBytes
  deriving DecidableEq

/-- `TrxPayloadVoting`. -/
structure TrxPayloadVoting where
  txHash : HexBytes
  choice : Int
  deriving DecidableEq

/-- `TrxPayloadSetDoc`. -/
structure TrxPayloadSetDoc where
  name : GoString
  url : GoString
  deriving DecidableEq

/-- `ITrxPayload`; transfers and stakings carry none. -/
inductive TrxPayload where
  | none
  | unstaking (txHash : HexBytes)
  | withdraw (reqAmt : Uint256)
  | proposal (payload : TrxPayloadProposal)
  | voting (payload : TrxPayloadVoting)
  | contract (data : HexBytes)
  | setDoc (payload : TrxPayloadSetDoc)
  deriving DecidableEq

/-- `types.Trx`. -/
structure Trx where
  version : Nat
  time : Int
  nonce : Nat
  fromAddr : Address
  toAddr : Address
  amount : Uint256
  gas : Nat
  gasPrice : Uint256
  type : TrxType
  payload : TrxPayload
  sig : HexBytes
  deriving DecidableEq

/-- `TrxProto`. -/
structure TrxProto where
  version : Nat
  time : Int
  nonce : Nat
  fromAddr : HexBytes
  toAddr : HexBytes
  xAmount : HexBytes
  gas : Nat
  xGasPrice : HexBytes
  type : Int
  xPayload : HexBytes
  sig : HexBytes
  deriving DecidableEq

/-- The libraries a transaction goes through: `proto.Unmarshal` of the messages,
Tendermint's transaction hash, `sha256`, geth's `SigToPub` and `CompressPubkey`, and
the address Tendermint gives a compressed public key. -/
structure TrxLib where
  unmarshalTrx : HexBytes → Except String TrxProto
  unmarshalUnstaking : HexBytes → Except String HexBytes
  unmarshalWithdraw : HexBytes → Except String HexBytes
  unmarshalProposal : HexBytes → Except String TrxPayloadProposal
  unmarshalVoting : HexBytes → Except String TrxPayloadVoting
  unmarshalContract : HexBytes → Except String HexBytes
  unmarshalSetDoc : HexBytes → Except String TrxPayloadSetDoc
  txHash : HexBytes → HexBytes
  sha256 : HexBytes → HexBytes
  sigToPub : HexBytes → HexBytes → Except String HexBytes
  compressPubkey : HexBytes → HexBytes
  pubBytes2Addr : HexBytes → Address

namespace TrxLib

/-- `crypto.DefaultHash`. -/
def defaultHash (lib : TrxLib) (datas : List HexBytes) : HexBytes := lib.sha256 datas.flatten

/-- `crypto.Pub2Addr`. -/
def pub2Addr (lib : TrxLib) (pub : HexBytes) : Address :=
  lib.pubBytes2Addr (lib.compressPubkey pub)

/-- `crypto.Sig2Addr`: the address and the public key of a signer. -/
def sig2Addr (lib : TrxLib) (msg sig : HexBytes) : Except String (Address × HexBytes) :=
  (lib.sigToPub (lib.defaultHash [msg]) sig).map fun pub =>
    (lib.pub2Addr pub, lib.compressPubkey pub)

/-- The address of a signer is that of its public key. -/
theorem sig2Addr_ok {lib : TrxLib} {msg sig : HexBytes} {addr : Address} {pubKey : HexBytes}
    (recovered : lib.sig2Addr msg sig = .ok (addr, pubKey)) : lib.pubBytes2Addr pubKey = addr := by
  unfold sig2Addr at recovered
  cases found : lib.sigToPub (lib.defaultHash [msg]) sig with
  | error err => rw [found] at recovered; cases recovered
  | ok pub => rw [found] at recovered; cases recovered; rfl

end TrxLib

namespace Trx

open Foundation

/-! ## Decoding -/

/-- The `Decode` methods of the payloads, chosen by the type. -/
def decodePayload (lib : TrxLib) (bz : HexBytes) : TrxType → Except String TrxPayload
  | .transfer => .ok .none
  | .staking => .ok .none
  | .unstaking => (lib.unmarshalUnstaking bz).map .unstaking
  | .withdraw => (lib.unmarshalWithdraw bz).map fun reqAmt => .withdraw (Uint256.ofBytes reqAmt)
  | .proposal => (lib.unmarshalProposal bz).map .proposal
  | .voting => (lib.unmarshalVoting bz).map .voting
  | .contract => (lib.unmarshalContract bz).map .contract
  | .setDoc => (lib.unmarshalSetDoc bz).map .setDoc

/-- `Trx.fromProto`. -/
def fromProto (lib : TrxLib) (pm : TrxProto) : Except XError Trx :=
  match TrxType.ofCode pm.type with
  | none => .error .errInvalidTrxPayloadType
  | some type =>
    match decodePayload lib pm.xPayload type with
    | .error err => .error (.fromErr err)
    | .ok payload => .ok {
        version := pm.version
        time := pm.time
        nonce := pm.nonce
        fromAddr := pm.fromAddr
        toAddr := pm.toAddr
        amount := Uint256.ofBytes pm.xAmount
        gas := pm.gas
        gasPrice := Uint256.ofBytes pm.xGasPrice
        type
        payload
        sig := pm.sig }

/-- `Trx.Decode`. -/
def decode (lib : TrxLib) (bz : HexBytes) : Except XError Trx :=
  match lib.unmarshalTrx bz with
  | .error err => .error (.fromErr err)
  | .ok pm => fromProto lib pm

/-- The payload is of the kind the type asks for. -/
def WellTyped (tx : Trx) : Prop :=
  match tx.type, tx.payload with
  | .transfer, .none => True
  | .staking, .none => True
  | .unstaking, .unstaking _ => True
  | .withdraw, .withdraw _ => True
  | .proposal, .proposal _ => True
  | .voting, .voting _ => True
  | .contract, .contract _ => True
  | .setDoc, .setDoc _ => True
  | _, _ => False

theorem decode_wellTyped {lib : TrxLib} {bz : HexBytes} {tx : Trx}
    (decoded : decode lib bz = .ok tx) : tx.WellTyped := by
  unfold decode at decoded
  split at decoded
  · cases decoded
  · unfold fromProto at decoded
    split at decoded
    · cases decoded
    · next type known =>
      split at decoded
      · cases decoded
      · next payload read =>
        cases decoded
        cases type with
        | transfer | staking =>
          cases read
          trivial
        | unstaking | withdraw | proposal | voting | contract | setDoc =>
          simp only [decodePayload, Except.map] at read
          split at read
          · cases read
          · cases read
            trivial

/-! ## The signed text -/

/-- A `uint64` or a `uint32` in RLP. -/
def rlpUint (n : Nat) : Rlp.Item := .bytes (bytesOfNat 8 n)

/-- The `EncodeRLP` methods of the payloads; those of transfers and stakings write nothing. -/
def encodePayloadRLP : TrxPayload → HexBytes
  | .none => []
  | .unstaking txHash => Rlp.encode (.bytes txHash)
  | .withdraw reqAmt => Rlp.encode (.bytes reqAmt.toBytes)
  | .contract data => Rlp.encode (.bytes data)
  | .setDoc payload => Rlp.encode (.list [.bytes payload.name, .bytes payload.url])
  | .voting payload =>
    Rlp.encode (.list [.bytes payload.txHash, rlpUint (uint32OfInt payload.choice)])
  | .proposal payload =>
    Rlp.encode (.list [.bytes payload.message, rlpUint (uint64OfInt payload.startVotingHeight),
      rlpUint (uint64OfInt payload.votingPeriodBlocks),
      rlpUint (uint64OfInt payload.applyingHeight), rlpUint (uint32OfInt payload.optType),
      .list (payload.options.map .bytes)])

/-- `Trx.EncodeRLP`. -/
def encodeRLP (tx : Trx) : HexBytes :=
  Rlp.encode (.list [rlpUint tx.version, rlpUint (uint64OfInt tx.time), rlpUint tx.nonce,
    .bytes tx.fromAddr, .bytes tx.toAddr, .bytes tx.amount.toBytes, rlpUint tx.gas,
    .bytes tx.gasPrice.toBytes, rlpUint (uint64OfInt tx.type.code),
    .bytes (encodePayloadRLP tx.payload), .bytes tx.sig])

/-- `PreImageToSignTrxRLP`. -/
def preImageToSignTrxRLP (tx : Trx) (chainId : String) : HexBytes :=
  let bz := encodeRLP { tx with sig := [] }
  let head := "\x19RIGO(" ++ chainId ++ ") Signed Message:\n" ++ toString bz.length
  utf8Bytes head ++ bz

/-- `VerifyTrxRLP`: the address and the public key of the signer. -/
def verifyTrxRLP (lib : TrxLib) (tx : Trx) (chainId : String) :
    Except XError (Address × HexBytes) :=
  match lib.sig2Addr (preImageToSignTrxRLP tx chainId) tx.sig with
  | .error err => .error (XError.errInvalidTrxSig.wrap (.fromErr err))
  | .ok (addr, pubKey) =>
    if addr ≠ tx.fromAddr then
      .error (XError.errInvalidTrxSig.wrapf ("wrong address or sig - expected: " ++
        HexBytes.toHex tx.fromAddr ++ ", actual: " ++ HexBytes.toHex addr))
    else .ok (addr, pubKey)

end Trx

end Rigo
