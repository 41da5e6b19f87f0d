import Rigo.Node.App

/-!
# Concrete third-party code

The application is generic in the libraries it calls.  To run it on concrete inputs
they are replaced here by tables: a transaction is a list of one byte, its index in a
table of decoded transactions, and proposals, votes and option texts are looked up in
the same way.  A signature is the address of its signer, a public key the address it
belongs to.  `evm` stands for geth on the chains whose transactions do not reach it;
`plainEvm` is geth without contracts.
-/

namespace Rigo

namespace Concrete

/-- An address. -/
def addr (n : UInt8) : Address := zeroBytes 19 ++ [n]

/-- One coin. -/
def coin : Uint256 := amountPerPower

/-- geth's `IntrinsicGas` since Istanbul. -/
def intrinsicGas (data : HexBytes) (creation : Bool) : Nat :=
  (if creation then 53000 else 21000) + (data.map fun b => if b = 0 then 4 else 16).sum

/-- An EVM that knows no accounts. -/
def evm : EvmLib where
  State := Unit
  new _ := ()
  snapshot _ := 0
  setAccount state _ _ _ := state
  account _ _ := (0, 0)
  applyMessage state _ gasPool :=
    .done (.error "insufficient funds for gas * price + value") state gasPool
  finalise state := state
  commit _ := []
  intrinsicGas data creation := .ok (intrinsicGas data creation)
  createAddress sender _ := sender

/-- The nonces and the balances of a `StateDB`. -/
abbrev Balances := Address → Nat × Uint256

namespace Balances

def pay (state : Balances) (payer payee : Address) (amount : Uint256) : Balances :=
  let paid := Function.update state payer ((state payer).1, (state payer).2 - amount)
  Function.update paid payee ((paid payee).1, (paid payee).2 + amount)

/-- The nonce of an account counted up. -/
def count (state : Balances) (addr : Address) : Balances :=
  Function.update state addr (((state addr).1 + 1) % 2 ^ 64, (state addr).2)

/-- After a message that used `gas`: its sender has paid the amount and the gas, and its nonce is
counted up. -/
def settle (state : Balances) (msg : EvmMessage) (gas : Nat) : Balances :=
  ((state.pay msg.fromAddr (msg.toAddr.getD msg.fromAddr) msg.amount).pay msg.fromAddr msg.coinbase
    (BitVec.ofNat 256 (gas * msg.gasPrice.toNat))).count msg.fromAddr

end Balances

/-- An EVM without contracts: a message does nothing but pay. -/
def plainEvm : EvmLib where
  State := Balances
  new _ _ := (0, 0)
  snapshot _ := 0
  setAccount state addr nonce balance := Function.update state addr (nonce, balance)
  account state addr := state addr
  applyMessage state msg gasPool :=
    let gas := intrinsicGas msg.data msg.toAddr.isNone
    .done (if msg.gas < gas then .error "intrinsic gas too low" else .ok ⟨gas, none, []⟩)
      (state.settle msg gas) (gasPool - gas)
  finalise state := state
  commit _ := []
  intrinsicGas data creation := .ok (intrinsicGas data creation)
  createAddress sender _ := sender

/-- What the libraries decode. -/
structure Tables where
  txs : List TrxProto
  proposals : List TrxPayloadProposal
  votes : List TrxPayloadVoting
  options : List (HexBytes × GovParamsText)

/-- The entry whose index is a single byte. -/
def entry {α : Type} (table : List α) : HexBytes → Except String α
  | [b] =>
    match table[b.toNat]? with
    | some x => .ok x
    | none => .error "proto: cannot parse invalid wire-format data"
  | _ => .error "proto: cannot parse invalid wire-format data"

def trxLib (tables : Tables) : TrxLib where
  unmarshalTrx := entry tables.txs
  unmarshalUnstaking bz := .ok bz
  unmarshalWithdraw bz := .ok bz
  unmarshalProposal := entry tables.proposals
  unmarshalVoting := entry tables.votes
  unmarshalContract bz := .ok bz
  unmarshalSetDoc _ := .ok ⟨[], []⟩
  txHash bz := List.replicate 31 1 ++ bz
  sha256 bz := bz
  sigToPub _ sig := .ok sig
  compressPubkey pub := pub
  pubBytes2Addr pubKey := pubKey

def paramsJSON (tables : Tables) : ParamsJSON where
  unmarshal bz :=
    match tables.options.find? fun option => option.1 == bz with
    | some option => .ok option.2
    | none => .error "unexpected end of JSON input"
  fromDecimal text :=
    match text.toNat? with
    | some n => if n < 2 ^ 256 then .ok (BitVec.ofNat 256 n) else .error "hex number > 256 bits"
    | none => .error "invalid decimal string"

def external (tables : Tables) : External where
  trx := trxLib tables
  json := paramsJSON tables
  sort := .stable
  evm := evm
  rootHash _ log := [UInt8.ofNat log.length]

/-- A transaction signed by its sender, with enough gas for the default parameters. -/
def trx (type : TrxType) (sender receiver : UInt8) (nonce : Nat) (amount : Uint256)
    (payload : HexBytes) : TrxProto where
  version := 1
  time := 0
  nonce := nonce
  fromAddr := addr sender
  toAddr := addr receiver
  xAmount := amount.toBytes
  gas := 4000
  xGasPrice := GovParams.defaultGovParams.gasPrice.toBytes
  type := type.code
  xPayload := payload
  sig := addr sender

/-- A block in which everybody signed. -/
def block (height : Int) : BlockInfo where
  height := height
  time := 0
  proposer := some (addr 1)
  votes := []
  byzantines := []

/-- A chain with the default parameters, and validators that own one coin each. -/
def genesis (validators : List (UInt8 × Int)) : Genesis where
  chainID := "rigo"
  params := GovParams.defaultGovParams
  assetHolders := validators.map fun val => (addr val.1, coin)
  validators := validators.map fun val => (addr val.1, val.2)

/-! ## A chain that grows -/

/-- Three validators, and an account that can become the fourth. -/
def growingGenesis : Genesis :=
  { genesis [(1, 10000000), (2, 10000000), (3, 10000000)] with
    assetHolders := [1, 2, 3, 4].map fun n => (addr n, 10000000 * coin) }

/-- The validators stake one more coin each, the fourth account stakes too, and the first validator
stakes again. -/
def growing : External :=
  external ⟨[trx .staking 1 1 0 coin [], trx .staking 2 2 0 coin [], trx .staking 3 3 0 coin [],
    trx .staking 4 4 0 (8000000 * coin) [], trx .staking 1 1 1 coin []], [], [], []⟩

def growingStart : App growing.evm :=
  (RigoApp.start growing growingGenesis).toOption.get (by decide +kernel)

/-- Two blocks: everybody stakes in the second. -/
def growingCalls : List RigoApp.ConsensusCall :=
  [.beginBlock (block 1), .endBlock, .commit, .beginBlock (block 2), .deliverTx [0],
    .deliverTx [1], .deliverTx [2], .deliverTx [3], .endBlock]

end Concrete

end Rigo
