import Rigo.Ctrlers.Types.Account
import Rigo.Ctrlers.Types.Trx
import Rigo.Ctrlers.Stake.Limiter
import Rigo.Ctrlers.Stake.Reward
import Rigo.Ctrlers.Gov.Proposal

/-!
# What the controllers work on

The controllers of the application share seven ledgers, the stake limiter and the
EVM.  Their code is written here as programs over the operations on these, so that
one program is both what `CheckTx` runs on the simulation mode of the ledgers and
what `DeliverTx` runs on the finality mode; which mode is meant is decided by
`TrxContext.Exec` in the source and by the handler here.  Most of the code works on
the ledgers only and is a `LedgerProg`; a `Ctrler` may use the limiter and the EVM.

The EVM is geth's.  It is a parameter (`EvmLib`): an execution is a tree of the
calls geth makes to the `StateDBWrapper` of this repository and ends in an outcome.
-/

namespace Rigo

open Foundation

/-! ## The ledgers -/

/-- The ledgers of the three controllers. -/
inductive LedgerId where
  | params
  | proposals
  | frozenProposals
  | accounts
  | delegatees
  | frozenStakes
  | rewards
  deriving DecidableEq, Repr

namespace LedgerId

/-- What a ledger holds. -/
@[reducible] def Item : LedgerId → Type
  | params => GovParams
  | proposals => GovProposal
  | frozenProposals => GovProposal
  | accounts => Account
  | delegatees => Delegatee
  | frozenStakes => Stake
  | rewards => Reward

instance item : (l : LedgerId) → LedgerItem l.Item
  | params => inferInstanceAs (LedgerItem GovParams)
  | proposals => inferInstanceAs (LedgerItem GovProposal)
  | frozenProposals => inferInstanceAs (LedgerItem GovProposal)
  | accounts => inferInstanceAs (LedgerItem Account)
  | delegatees => inferInstanceAs (LedgerItem Delegatee)
  | frozenStakes => inferInstanceAs (LedgerItem Stake)
  | rewards => inferInstanceAs (LedgerItem Reward)

end LedgerId

/-! ## The EVM -/

/-- The message `execVM` hands to geth, with the block context set by `BeginBlock`. -/
structure EvmMessage where
  fromAddr : Address
  toAddr : Option Address
  nonce : Nat
  gas : Nat
  gasPrice : Uint256
  amount : Uint256
  data : HexBytes
  coinbase : Address
  blockNumber : Int
  time : Int
  deriving DecidableEq

/-- geth's `ExecutionResult`. -/
structure ExecutionResult where
  usedGas : Nat
  err : Option String
  returnData : HexBytes
  deriving DecidableEq

/-- What geth does to the `StateDBWrapper` while it applies a message: it puts an
address on the access list (and goes on with the nonce and the balance of the
account if the address was not on it), takes a snapshot, goes back to one, or ends
with its result, its state and the gas left in the pool. -/
inductive EvmRun (S : Type) where
  | access (addr : Address) (next : Option (Nat × Uint256) → EvmRun S)
  | snapshot (id : Nat) (next : EvmRun S)
  | revert (id : Nat) (next : EvmRun S)
  | done (result : Except String ExecutionResult) (state : S) (gasPool : Nat)

/-- geth.  A state is one of its `StateDB`s; `new` opens the one with a root hash,
whose trie nodes are in the database under their own hashes. -/
structure EvmLib where
  State : Type
  new : HexBytes → State
  snapshot : State → Nat
  setAccount : State → Address → Nat → Uint256 → State
  account : State → Address → Nat × Uint256
  applyMessage : State → EvmMessage → Nat → EvmRun State
  finalise : State → State
  commit : State → HexBytes
  intrinsicGas : HexBytes → Bool → Except String Nat
  createAddress : Address → Nat → Address

/-- The fields of `EVMCtrler` that change: `stateDB` is the state inside the
`StateDBWrapper`, which is nil until the first block begins. -/
structure EvmMem (E : EvmLib) where
  stateDB : Option E.State
  blockGasPool : Nat
  coinbase : Address
  blockNumber : Int
  time : Int
  lastRootHash : HexBytes
  lastBlockHeight : Int

/-! ## Operations -/

/-- What the code of the controllers does to the ledgers. -/
inductive LedgerOp : Type → Type where
  | get (l : LedgerId) (k : LedgerKey) : LedgerOp (Except XError l.Item)
  | set (l : LedgerId) (x : l.Item) : LedgerOp Unit
  | del (l : LedgerId) (k : LedgerKey) : LedgerOp (Except XError l.Item)
  | cancelSet (l : LedgerId) (k : LedgerKey) : LedgerOp Unit
  | readAll (l : LedgerId) : LedgerOp (Except XError (List l.Item))
  | immutableAt (l : LedgerId) (n : Int) : LedgerOp (Except XError (ItemMap l.Item))

/-- Code that works on the ledgers only. -/
abbrev LedgerProg (α : Type) := Prog LedgerOp Fault α

namespace LedgerProg

/-- `Get` or `GetFinality`. -/
def get (l : LedgerId) (k : LedgerKey) : LedgerProg (Except XError l.Item) :=
  Prog.perform (.get l k)

/-- `Set` or `SetFinality`, which never fails. -/
def set (l : LedgerId) (x : l.Item) : LedgerProg Unit := Prog.perform (.set l x)

/-- `Del` or `DelFinality`. -/
def del (l : LedgerId) (k : LedgerKey) : LedgerProg (Except XError l.Item) :=
  Prog.perform (.del l k)

/-- `CancelSet` or `CancelSetFinality`. -/
def cancelSet (l : LedgerId) (k : LedgerKey) : LedgerProg Unit := Prog.perform (.cancelSet l k)

/-- The items `IterateReadAllItems` and `IterateReadAllFinalityItems` go through. -/
def readAll (l : LedgerId) : LedgerProg (Except XError (List l.Item)) :=
  Prog.perform (.readAll l)

/-- `ImmutableLedgerAt`. -/
def immutableAt (l : LedgerId) (n : Int) : LedgerProg (Except XError (ItemMap l.Item)) :=
  Prog.perform (.immutableAt l n)

end LedgerProg

/-- What the code of the controllers does to the limiter and the EVM. -/
inductive CtrlerOp (E : EvmLib) : Type → Type where
  | getLimiter : CtrlerOp E StakeLimiter
  | setLimiter (sl : StakeLimiter) : CtrlerOp E Unit
  | getEvm : CtrlerOp E (EvmMem E)
  | setEvm (m : EvmMem E) : CtrlerOp E Unit

/-- The operations of the controllers. -/
abbrev TrxOp (E : EvmLib) (β : Type) := LedgerOp β ⊕ CtrlerOp E β

/-- The code of a controller. -/
abbrev Ctrler (E : EvmLib) (α : Type) := Prog (TrxOp E) Fault α

namespace Ctrler

variable {E : EvmLib}

/-- Code that works on the ledgers only. -/
def ledger {α : Type} (p : LedgerProg α) : Ctrler E α := p.lift Sum.inl

def getLimiter : Ctrler E StakeLimiter := Prog.perform (.inr .getLimiter)

def setLimiter (sl : StakeLimiter) : Ctrler E Unit := Prog.perform (.inr (.setLimiter sl))

def getEvm : Ctrler E (EvmMem E) := Prog.perform (.inr .getEvm)

def setEvm (m : EvmMem E) : Ctrler E Unit := Prog.perform (.inr (.setEvm m))

end Ctrler

/-! ## Contexts -/

/-- The validators as `StakeHandler` reports them: `lastValidators`. -/
abbrev Validators := List Delegatee

/-- `TrxContext`.  The sender and the receiver are the accounts under the keys of
`tx.fromAddr` and `tx.toAddr`; `params` and `validators` are what the handlers in
the context return while the transaction is executed. -/
structure TrxContext where
  height : Int
  txHash : HexBytes
  tx : Trx
  exec : Bool
  chainID : String
  params : GovParams
  validators : Validators

/-- What the execution of a transaction leaves in its context, and the error of an
EVM execution that failed: such a transaction may leave data too. -/
structure TrxResult where
  gasUsed : Nat
  retData : HexBytes
  failed : Option XError
  deriving DecidableEq

/-- A vote on the last block. -/
structure VoteInfo where
  address : Address
  power : Int
  signedLastBlock : Bool
  deriving DecidableEq

/-- The parts of `RequestBeginBlock` the application reads. -/
structure BlockInfo where
  height : Int
  time : Int
  proposer : Option Address
  votes : List VoteInfo
  byzantines : List Address
  deriving DecidableEq

/-- `ValidatorUpdate`. -/
structure ValidatorUpdate where
  pubKey : HexBytes
  power : Int
  deriving DecidableEq

end Rigo
