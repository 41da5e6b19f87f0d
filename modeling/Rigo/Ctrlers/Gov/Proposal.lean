import Rigo.Ctrlers.Stake.Delegatee

/-!
# Governance proposals

`ctrlers/gov/proposal`.  A proposal holds its voters with their power and choice,
and its options with the votes they received.  When voting ends the options are
sorted by votes, and the first becomes the major option if it has enough of them.

The voters are a Go map from the hexadecimal address, that is, at most one voter
for an address; here they are a list searched by address.  Several options may
have the same votes, and then their order is that of `sort.Sort`, which is not
stable; `OptionSort` says no more than that it sorts.
-/

namespace Rigo

open Foundation

/-- `PROPOSAL_GOVPARAMS`. -/
def proposalGovParams : Int := 0x0101

/-- `NOT_CHOICE`. -/
def notChoice : Int := -1

/-- `proposal.Voter`. -/
structure Voter where
  addr : Address
  power : Int
  choice : Int
  deriving DecidableEq

/-- `voteOption`. -/
structure VoteOption where
  option : HexBytes
  votes : Int
  deriving DecidableEq

/-- What `sort.Sort` does to the options. -/
structure OptionSort where
  sort : List VoteOption → List VoteOption
  perm : ∀ opts, (sort opts).Perm opts
  sorted : ∀ opts, (sort opts).Pairwise fun opt opt' => opt'.votes ≤ opt.votes

/-- A sort that leaves options with as many votes in their order. -/
def OptionSort.stable : OptionSort where
  sort opts := opts.insertionSort fun opt opt' => opt'.votes ≤ opt.votes
  perm _ := List.perm_insertionSort _ _
  sorted opts := by
    have total : Std.Total fun opt opt' : VoteOption => opt'.votes ≤ opt.votes :=
      ⟨fun opt opt' => Int.le_total opt'.votes opt.votes⟩
    have trans : IsTrans VoteOption fun opt opt' => opt'.votes ≤ opt.votes :=
      ⟨fun _ _ _ first second => Int.le_trans second first⟩
    exact List.pairwise_insertionSort _ opts

/-- `GovProposal` with its header. -/
structure GovProposal where
  txHash : HexBytes
  startVotingHeight : Int
  endVotingHeight : Int
  applyingHeight : Int
  totalVotingPower : Int
  majorityPower : Int
  voters : List Voter
  optType : Int
  options : List VoteOption
  majorOption : Option VoteOption
  deriving DecidableEq

/-! ## Stored proposals -/

/-- The JSON of a voter. -/
structure VoterJSON where
  address : JsonToken
  power : Int
  choice : Int
  deriving DecidableEq

/-- The struct an option is written as. -/
structure VoteOptionJSON where
  option : HexBytes
  votes : Int
  deriving DecidableEq

/-- The JSON of the header of a proposal; `votes` are the voters under their map keys. -/
structure GovProposalHeaderJSON where
  txHash : JsonToken
  startVotingHeight : Int
  endVotingHeight : Int
  applyingHeight : Int
  totalVotingPower : Int
  majorityPower : Int
  votes : List (String × VoterJSON)
  optType : Int
  deriving DecidableEq

/-- The JSON of a proposal; without a major option there is a `null`. -/
structure GovProposalJSON where
  header : GovProposalHeaderJSON
  options : List VoteOptionJSON
  majorOption : Option VoteOptionJSON
  deriving DecidableEq

namespace Voter

/-- `json.Marshal` of an entry of the map of voters. -/
def marshal (v : Voter) : String × VoterJSON :=
  (v.addr.toHex, ⟨HexBytes.marshalJSON v.addr, v.power, v.choice⟩)

/-- `json.Unmarshal` of an entry.  Its key is the text of its address, by which
`GetVoter` finds it; see `GovProposal.votes_find?`. -/
def unmarshal (entry : String × VoterJSON) : Except String Voter := do
  let addr ← HexBytes.unmarshalJSON entry.2.address
  return ⟨addr, entry.2.power, entry.2.choice⟩

theorem lossless : Restores marshal unmarshal := by
  intro v
  simp only [unmarshal, marshal, HexBytes.lossless_json _]
  rfl

end Voter

namespace VoteOption

def marshalJSON (opt : VoteOption) : VoteOptionJSON where
  option := opt.option
  votes := opt.votes

def unmarshalJSON (tmp : VoteOptionJSON) : Except String VoteOption :=
  .ok { option := tmp.option, votes := tmp.votes }

theorem lossless : Restores marshalJSON unmarshalJSON := fun _ => rfl

end VoteOption

namespace GovProposal

/-- `json.Marshal` of a proposal. -/
def marshal (prop : GovProposal) : GovProposalJSON where
  header :=
    { txHash := HexBytes.marshalJSON prop.txHash
      startVotingHeight := prop.startVotingHeight
      endVotingHeight := prop.endVotingHeight
      applyingHeight := prop.applyingHeight
      totalVotingPower := prop.totalVotingPower
      majorityPower := prop.majorityPower
      votes := prop.voters.map Voter.marshal
      optType := prop.optType }
  options := prop.options.map VoteOption.marshalJSON
  majorOption := prop.majorOption.map VoteOption.marshalJSON

/-- `json.Unmarshal` into a new proposal. -/
def unmarshal (js : GovProposalJSON) : Except String GovProposal := do
  let txHash ← HexBytes.unmarshalJSON js.header.txHash
  let voters ← js.header.votes.mapM Voter.unmarshal
  let options ← js.options.mapM VoteOption.unmarshalJSON
  let majorOption ← decodeOption VoteOption.unmarshalJSON js.majorOption
  return {
    txHash
    startVotingHeight := js.header.startVotingHeight
    endVotingHeight := js.header.endVotingHeight
    applyingHeight := js.header.applyingHeight
    totalVotingPower := js.header.totalVotingPower
    majorityPower := js.header.majorityPower
    voters
    optType := js.header.optType
    options
    majorOption }

theorem lossless : Restores marshal unmarshal := by
  intro prop
  simp only [unmarshal, marshal, HexBytes.lossless_json _, Voter.lossless.list _,
    VoteOption.lossless.list _, VoteOption.lossless.option _]
  rfl

instance : LedgerItem GovProposal where
  Encoded := GovProposalJSON
  key prop := toLedgerKey prop.txHash
  encode := marshal
  decode js := (unmarshal js).mapError .fromErr
  decode_encode := lossless.mapError XError.fromErr

/-! ## Voting -/

/-- Two thirds of a power. -/
def majorityOf (totalVotingPower : Int) : Int := (i64 (totalVotingPower * 2)).tdiv 3

/-- `NewGovProposal`. -/
def newGovProposal (txHash : HexBytes) (optType startHeight votingBlocks totalVotingPower
    applyingHeight : Int) (voters : List Voter) (options : List HexBytes) : GovProposal where
  txHash := txHash
  startVotingHeight := startHeight
  endVotingHeight := i64 (startHeight + votingBlocks)
  applyingHeight := applyingHeight
  totalVotingPower := totalVotingPower
  majorityPower := majorityOf totalVotingPower
  voters := voters
  optType := optType
  options := options.map fun option => ⟨option, 0⟩
  majorOption := none

/-- The voter with an address. -/
def findVoter (prop : GovProposal) (addr : Address) : Option Voter :=
  prop.voters.find? fun v => v.addr == addr

def isVoter (prop : GovProposal) (addr : Address) : Bool := (prop.findVoter addr).isSome

/-- Store a changed voter. -/
def putVoter (prop : GovProposal) (voter : Voter) : GovProposal :=
  { prop with voters := prop.voters.map fun v => if v.addr = voter.addr then voter else v }

/-- Change the votes of the option with an index; an index out of range is a panic. -/
def addVotes {Op : Type → Type} (prop : GovProposal) (choice power : Int) :
    Prog Op Fault GovProposal :=
  if 0 ≤ choice ∧ choice < prop.options.length then
    .pure { prop with
      options := prop.options.modify choice.toNat fun opt =>
        { opt with votes := i64 (opt.votes + power) } }
  else crash .outOfRange

/-- `cancelVote`, with the voter as it leaves it. -/
def cancelVote {Op : Type → Type} (prop : GovProposal) (voter : Voter) :
    Prog Op Fault (GovProposal × Voter) :=
  if voter.choice ≥ 0 then do
    let prop ← prop.addVotes voter.choice (-voter.power)
    return (prop, { voter with choice := -1 })
  else return (prop, voter)

/-- `doVote`. -/
def doVote {Op : Type → Type} (prop : GovProposal) (voter : Voter) (choice : Int) :
    Prog Op Fault (GovProposal × Voter) :=
  if choice ≥ 0 then do
    let prop ← prop.addVotes choice voter.power
    return (prop, { voter with choice := choice })
  else return (prop, voter)

/-- `DoVote`. -/
def vote {Op : Type → Type} (prop : GovProposal) (addr : Address) (choice : Int) :
    Prog Op Fault GovProposal :=
  match prop.findVoter addr with
  | none => throwX (.newOrdinary "not found voter")
  | some voter => do
      let (prop, voter) ← prop.cancelVote voter
      let (prop, voter) ← prop.doVote voter choice
      return prop.putVoter voter

/-- The power a voter loses to a slash, computed with 256-bit words. -/
def slashingPower (power ratio : Int) : Int :=
  Uint256.int64 (Uint256.newInt (uint64OfInt power) * Uint256.newInt (uint64OfInt ratio) / 100)

/-- The part of `DoPunish` after the power of the voter was cut: a voter without power
is removed, and another votes again. -/
def voteAgain {Op : Type → Type} (prop : GovProposal) (voter : Voter) (choice : Int) :
    Prog Op Fault GovProposal :=
  if voter.power ≤ 0 then
    return { prop with voters := prop.voters.filter fun v => v.addr ≠ voter.addr }
  else do
    let (prop, voter) ← prop.doVote voter choice
    return prop.putVoter voter

/-- `DoPunish`; the slashed power and the punished proposal. -/
def doPunish {Op : Type → Type} (prop : GovProposal) (addr : Address) (ratio : Int) :
    Prog Op Fault (Int × GovProposal) :=
  match prop.findVoter addr with
  | none => throwX .errNotFoundVoter
  | some voter => do
      let choice := voter.choice
      let (prop, voter) ← prop.cancelVote voter
      let slashing := slashingPower voter.power ratio
      let prop ← prop.voteAgain { voter with power := i64 (voter.power - slashing) } choice
      let total := i64 (prop.totalVotingPower - slashing)
      return (slashing, { prop with totalVotingPower := total, majorityPower := majorityOf total })

/-- `UpdateMajorOption`; a proposal without options panics. -/
def updateMajorOption {Op : Type → Type} (sort : OptionSort) (prop : GovProposal) :
    Prog Op Fault GovProposal :=
  match sort.sort prop.options with
  | [] => crash .outOfRange
  | first :: rest =>
    .pure { prop with
      options := first :: rest
      majorOption := if first.votes ≥ prop.majorityPower then some first else prop.majorOption }

end GovProposal

end Rigo
