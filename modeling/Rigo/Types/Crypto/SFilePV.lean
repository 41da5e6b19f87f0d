import Rigo.Foundation.Interruption
import Rigo.Foundation.Triple
import Rigo.Types.XError

/-!
# The validator's signer

`types/crypto/sfile_pv.go`.  A validator signs proposals, prevotes and precommits.  Two
different messages signed for one height, round and step are punished, so the signer
remembers the last height, round and step with the bytes it has signed and the signature,
in memory and in a state file that survives a crash.  It refuses to go back, and asked
again for the last height, round and step it returns the stored signature, for a message
that is the same up to its timestamp.

The methods are programs over the memory, the state file and the key (`PVOp`).  A crash
stops such a program before any of its operations and loses the memory; `LoadSFilePV` then
reads the state file.  `noDoubleSigning` is about every sequence of requests and crashes.

The bytes that are signed are Tendermint's encoding of the canonical message (`SignCodec`).
-/

namespace Rigo

open Foundation

variable {differ : HexBytes → HexBytes → Except SignFault (Int × Bool)} {height round : Int}
  {past : List Release} {request : Message} {s s' t : PVState} {lss : SFilePVLastSignState}
  {fault : SignFault}

/-! ## Messages -/

def stepNone : Int := 0
def stepPropose : Int := 1
def stepPrevote : Int := 2
def stepPrecommit : Int := 3

/-- `tmproto.SignedMsgType`. -/
inductive SignedMsgType where
  | unknown
  | prevote
  | precommit
  | proposal
  deriving DecidableEq

/-- `tmproto.BlockID`. -/
structure BlockID where
  hash : HexBytes
  partsTotal : Nat
  partsHash : HexBytes
  deriving DecidableEq

/-- `tmproto.Vote`; times are nanoseconds. -/
structure Vote where
  type : SignedMsgType
  height : Int
  round : Int
  blockID : BlockID
  timestamp : Int
  signature : HexBytes
  deriving DecidableEq

/-- `tmproto.Proposal`. -/
structure SignedProposal where
  height : Int
  round : Int
  polRound : Int
  blockID : BlockID
  timestamp : Int
  signature : HexBytes
  deriving DecidableEq

/-- `tmproto.CanonicalVote`. -/
structure CanonicalVote where
  type : SignedMsgType
  height : Int
  round : Int
  blockID : Option BlockID
  timestamp : Int
  chainID : GoString
  deriving DecidableEq

/-- `tmproto.CanonicalProposal`. -/
structure CanonicalProposal where
  height : Int
  round : Int
  polRound : Int
  blockID : Option BlockID
  timestamp : Int
  chainID : GoString
  deriving DecidableEq

/-- `tmtypes.CanonicalizeBlockID`: the zero block is left out. -/
def canonicalizeBlockID (id : BlockID) : Option BlockID :=
  if id.hash = [] ∧ id.partsTotal = 0 ∧ id.partsHash = [] then none else some id

/-- `tmtypes.CanonicalizeVote`. -/
def canonicalizeVote (chainID : GoString) (vote : Vote) : CanonicalVote where
  type := vote.type
  height := vote.height
  round := vote.round
  blockID := canonicalizeBlockID vote.blockID
  timestamp := vote.timestamp
  chainID := chainID

/-- `tmtypes.CanonicalizeProposal`. -/
def canonicalizeProposal (chainID : GoString) (proposal : SignedProposal) : CanonicalProposal where
  height := proposal.height
  round := proposal.round
  polRound := proposal.polRound
  blockID := canonicalizeBlockID proposal.blockID
  timestamp := proposal.timestamp
  chainID := chainID

/-- `protoio.MarshalDelimited` and `UnmarshalDelimited` of canonical messages, which lose
nothing. -/
structure SignCodec where
  marshalVote : CanonicalVote → HexBytes
  unmarshalVote : HexBytes → Except String CanonicalVote
  marshalProposal : CanonicalProposal → HexBytes
  unmarshalProposal : HexBytes → Except String CanonicalProposal
  unmarshalVote_marshalVote : ∀ vote, unmarshalVote (marshalVote vote) = .ok vote
  unmarshalProposal_marshalProposal : ∀ proposal,
    unmarshalProposal (marshalProposal proposal) = .ok proposal

deriving instance Countable for SignedMsgType, BlockID, CanonicalVote, CanonicalProposal

/-- There are such codecs: canonical messages can be numbered. -/
instance : Nonempty SignCodec := by
  obtain ⟨voteNumber, votes⟩ := exists_injective_nat CanonicalVote
  obtain ⟨proposalNumber, proposals⟩ := exists_injective_nat CanonicalProposal
  classical
  exact ⟨{
    marshalVote := fun vote => List.replicate (voteNumber vote) 0
    unmarshalVote := fun bz =>
      if known : ∃ vote, voteNumber vote = bz.length then .ok known.choose else .error "no vote"
    marshalProposal := fun proposal => List.replicate (proposalNumber proposal) 0
    unmarshalProposal := fun bz =>
      if known : ∃ proposal, proposalNumber proposal = bz.length then .ok known.choose
      else .error "no proposal"
    unmarshalVote_marshalVote := fun vote => by
      have known : ∃ vote', voteNumber vote' = voteNumber vote := ⟨vote, rfl⟩
      simp only [List.length_replicate, known, dite_true]
      exact congrArg Except.ok (votes known.choose_spec)
    unmarshalProposal_marshalProposal := fun proposal => by
      have known : ∃ proposal', proposalNumber proposal' = proposalNumber proposal :=
        ⟨proposal, rfl⟩
      simp only [List.length_replicate, known, dite_true]
      exact congrArg Except.ok (proposals known.choose_spec) }⟩

/-- A returned error, or a panic. -/
inductive SignFault where
  | err (err : XError)
  | panic (text : String)
  deriving DecidableEq

/-- `voteToStep`. -/
def voteToStep (type : SignedMsgType) : Except SignFault Int :=
  match type with
  | .prevote => .ok stepPrevote
  | .precommit => .ok stepPrecommit
  | _ => .error (.panic "Unknown vote type")

/-! ## The last sign state -/

/-- A height, round and step, in lexicographic order. -/
abbrev HRS := Int ×ₗ Int ×ₗ Int

def hrs (height round step : Int) : HRS := toLex (height, toLex (round, step))

/-- `SFilePVLastSignState`. -/
structure SFilePVLastSignState where
  height : Int
  round : Int
  step : Int
  signature : Option HexBytes
  signBytes : Option HexBytes
  deriving DecidableEq

namespace SFilePVLastSignState

/-- The height, round and step that were signed last. -/
def last (lss : SFilePVLastSignState) : HRS := hrs lss.height lss.round lss.step

/-- `CheckHRS`: whether the stored signature is to be used again. -/
def checkHRS (lss : SFilePVLastSignState) (height round step : Int) : Except SignFault Bool :=
  if height < lss.height then
    .error (.err (.fromErr ("height regression. Got " ++ toString height ++ ", last height " ++
      toString lss.height)))
  else if lss.height = height then
    if round < lss.round then
      .error (.err (.fromErr ("round regression at height " ++ toString height ++ ". Got " ++
        toString round ++ ", last round " ++ toString lss.round)))
    else if lss.round = round then
      if step < lss.step then
        .error (.err (.fromErr ("step regression at height " ++ toString height ++ " round " ++
          toString round ++ ". Got " ++ toString step ++ ", last step " ++ toString lss.step)))
      else if lss.step = step then
        match lss.signBytes, lss.signature with
        | some _, none => .error (.panic "pv: Signature is nil but SignBytes is not!")
        | some _, some _ => .ok true
        | none, _ => .error (.err (.newOrdinary "no SignBytes found"))
      else .ok false
    else .ok false
  else .ok false

/-- What is left of a sign state that is written as JSON and read again: empty bytes are
omitted. -/
def viaJSON (lss : SFilePVLastSignState) : SFilePVLastSignState where
  height := lss.height
  round := lss.round
  step := lss.step
  signature := lss.signature.filter (· ≠ [])
  signBytes := lss.signBytes.filter (· ≠ [])

theorem lt_of_checkHRS_false {step : Int}
    (checked : lss.checkHRS height round step = .ok false) : lss.last < hrs height round step := by
  rw [last, hrs, hrs, Prod.Lex.toLex_lt_toLex, Prod.Lex.toLex_lt_toLex]
  grind [checkHRS]

theorem eq_of_checkHRS_true {step : Int}
    (checked : lss.checkHRS height round step = .ok true) :
    lss.last = hrs height round step ∧
      ∃ bz sig, lss.signBytes = some bz ∧ lss.signature = some sig := by
  grind [checkHRS, last, hrs]

end SFilePVLastSignState

/-! ## Signing -/

/-- The operations of the signer: the last sign state in memory, the atomic write of the
state file, and the private key. -/
inductive PVOp : Type → Type where
  | lastSignState : PVOp SFilePVLastSignState
  | setLastSignState (lss : SFilePVLastSignState) : PVOp Unit
  | writeFileAtomic (lss : SFilePVLastSignState) : PVOp Unit
  | sign (signBytes : HexBytes) : PVOp (Except String HexBytes)

/-- A method of the signer. -/
abbrev PVProg (α : Type) := Prog PVOp SignFault α

namespace SFilePV

/-- The outcome of a computation without effects. -/
def ofExcept {α : Type} : Except SignFault α → PVProg α
  | .ok value => .pure value
  | .error fault => .fail fault

/-- `saveSigned`: the memory first, then the file. -/
def saveSigned (lss : SFilePVLastSignState) : PVProg Unit := do
  .perform (.setLastSignState lss)
  .perform (.writeFileAtomic lss)

/-- What signing sets in a message: the signature, and the timestamp when the stored one is
used. -/
structure Signed where
  signature : HexBytes
  timestamp : Option Int

/-- The stored signature, for a message that differs from the stored one in the timestamp
at most. -/
def reuse (lss : SFilePVLastSignState) (signBytes : HexBytes)
    (onlyDifferByTimestamp : HexBytes → HexBytes → Except SignFault (Int × Bool)) :
    Except SignFault Signed :=
  if signBytes = lss.signBytes.getD [] then
    .ok { signature := lss.signature.getD [], timestamp := none }
  else
    match onlyDifferByTimestamp (lss.signBytes.getD []) signBytes with
    | .error fault => .error fault
    | .ok (timestamp, true) =>
      .ok { signature := lss.signature.getD [], timestamp := some timestamp }
    | .ok (_, false) => .error (.err (.fromErr "conflicting data"))

/-- A new signature; it is saved before it is returned. -/
def signNew (height round step : Int) (signBytes : HexBytes) : PVProg Signed := do
  match ← .perform (.sign signBytes) with
  | .error text => .fail (.err (.plain text))
  | .ok sig =>
    saveSigned { height, round, step, signature := some sig, signBytes := some signBytes }
    return { signature := sig, timestamp := none }

/-- The body that `signVote` and `signProposal` share. -/
def signMessage (height round step : Int) (signBytes : HexBytes)
    (onlyDifferByTimestamp : HexBytes → HexBytes → Except SignFault (Int × Bool)) :
    PVProg Signed := do
  let lss ← .perform .lastSignState
  match lss.checkHRS height round step with
  | .error fault => .fail fault
  | .ok true => ofExcept (reuse lss signBytes onlyDifferByTimestamp)
  | .ok false => signNew height round step signBytes

variable (codec : SignCodec)

/-- `checkVotesOnlyDifferByTimestamp`: the last timestamp, and whether it is the only
difference. -/
def checkVotesOnlyDifferByTimestamp (lastSignBytes newSignBytes : HexBytes) :
    Except SignFault (Int × Bool) :=
  match codec.unmarshalVote lastSignBytes, codec.unmarshalVote newSignBytes with
  | .error text, _ =>
    .error (.panic ("LastSignBytes cannot be unmarshalled into vote: " ++ text))
  | .ok _, .error text => .error (.panic ("signBytes cannot be unmarshalled into vote: " ++ text))
  | .ok lastVote, .ok newVote =>
    .ok (lastVote.timestamp,
      decide ({ newVote with timestamp := 0 } = { lastVote with timestamp := 0 }))

/-- `checkProposalsOnlyDifferByTimestamp`. -/
def checkProposalsOnlyDifferByTimestamp (lastSignBytes newSignBytes : HexBytes) :
    Except SignFault (Int × Bool) :=
  match codec.unmarshalProposal lastSignBytes, codec.unmarshalProposal newSignBytes with
  | .error text, _ =>
    .error (.panic ("LastSignBytes cannot be unmarshalled into proposal: " ++ text))
  | .ok _, .error text =>
    .error (.panic ("signBytes cannot be unmarshalled into proposal: " ++ text))
  | .ok lastProposal, .ok newProposal =>
    .ok (lastProposal.timestamp,
      decide ({ newProposal with timestamp := 0 } = { lastProposal with timestamp := 0 }))

/-- `tmtypes.VoteSignBytes`. -/
def voteSignBytes (chainID : GoString) (vote : Vote) : HexBytes :=
  codec.marshalVote (canonicalizeVote chainID vote)

/-- `tmtypes.ProposalSignBytes`. -/
def proposalSignBytes (chainID : GoString) (proposal : SignedProposal) : HexBytes :=
  codec.marshalProposal (canonicalizeProposal chainID proposal)

/-- `signVote`: the vote with its signature. -/
def signVote (chainID : GoString) (vote : Vote) : PVProg Vote := do
  let step ← ofExcept (voteToStep vote.type)
  let signed ← signMessage vote.height vote.round step (voteSignBytes codec chainID vote)
    (checkVotesOnlyDifferByTimestamp codec)
  return { vote with
    signature := signed.signature
    timestamp := signed.timestamp.getD vote.timestamp }

/-- `signProposal`: the proposal with its signature. -/
def signProposal (chainID : GoString) (proposal : SignedProposal) : PVProg SignedProposal := do
  let signed ← signMessage proposal.height proposal.round stepPropose
    (proposalSignBytes codec chainID proposal) (checkProposalsOnlyDifferByTimestamp codec)
  return { proposal with
    signature := signed.signature
    timestamp := signed.timestamp.getD proposal.timestamp }

/-- A returned error under a new text; panics pass. -/
def withText {α : Type} (text : String) (p : PVProg α) : PVProg α := do
  match ← p.attempt (fun | .err err => some err | .panic _ => none) with
  | .ok value => return value
  | .error err => .fail (.err (.fromErr (text ++ err.error)))

/-- `SignVote`. -/
def SignVote (chainID : GoString) (vote : Vote) : PVProg Vote :=
  withText "error signing vote: " (signVote codec chainID vote)

/-- `SignProposal`. -/
def SignProposal (chainID : GoString) (proposal : SignedProposal) : PVProg SignedProposal :=
  withText "error signing proposal: " (signProposal codec chainID proposal)

/-! ## Requests, crashes and what is released -/

/-- The memory and the state file of the signer, and how often its key was used. -/
structure PVState where
  memory : SFilePVLastSignState
  file : SFilePVLastSignState
  made : Nat

/-- The operations, with what the key answers. -/
def pvHandler (key : HexBytes → Except String HexBytes) : Handler PVOp PVState where
  step op s :=
    match op with
    | .lastSignState => (s.memory, s)
    | .setLastSignState lss => ((), { s with memory := lss })
    | .writeFileAtomic lss => ((), { s with file := lss.viaJSON })
    | .sign signBytes => (key signBytes, { s with made := s.made + 1 })

/-- A message that is to be signed, or that is signed. -/
inductive Message where
  | vote (chainID : GoString) (vote : Vote)
  | proposal (chainID : GoString) (proposal : SignedProposal)

namespace Message

/-- The height, round and step of a message. -/
def hrs : Message → HRS
  | .vote _ v => Rigo.hrs v.height v.round ((voteToStep v.type).toOption.getD stepNone)
  | .proposal _ p => Rigo.hrs p.height p.round stepPropose

def timestamp : Message → Int
  | .vote _ v => v.timestamp
  | .proposal _ p => p.timestamp

def signature : Message → HexBytes
  | .vote _ v => v.signature
  | .proposal _ p => p.signature

/-- The bytes a signature of the message is over. -/
def signBytes : Message → HexBytes
  | .vote chainID v => voteSignBytes codec chainID v
  | .proposal chainID p => proposalSignBytes codec chainID p

/-- What is signed, without the timestamp. -/
def content : Message → CanonicalVote ⊕ CanonicalProposal
  | .vote chainID v => .inl { canonicalizeVote chainID v with timestamp := 0 }
  | .proposal chainID p => .inr { canonicalizeProposal chainID p with timestamp := 0 }

/-- A request to sign the message. -/
def sign : Message → PVProg Message
  | .vote chainID v => do return .vote chainID (← SignVote codec chainID v)
  | .proposal chainID p => do return .proposal chainID (← SignProposal codec chainID p)

end Message

/-- What happens to a signer: a request is answered; or the process crashes while it works
on a request, before its operation `k`, and starts again. -/
inductive Event where
  | request (key : HexBytes → Except String HexBytes) (message : Message)
  | crash (key : HexBytes → Except String HexBytes) (message : Message) (k : Nat)

/-- A signed message that was returned, with the message of the request and whether the
key was used. -/
structure Release where
  request : Message
  message : Message
  isNew : Bool

/-- `LoadSFilePV`. -/
def loadSFilePV (s : PVState) : PVState := { s with memory := s.file }

/-- The release, if there is one, and the state after an event. -/
def Event.step : Event → PVState → Option Release × PVState
  | .request key message, s =>
    match run (pvHandler key) (message.sign codec) s with
    | (.ok signed, s') => (some ⟨message, signed, decide (s'.made ≠ s.made)⟩, s')
    | (.error _, s') => (none, s')
  | .crash key message k, s =>
    (none, loadSFilePV (runUpTo (pvHandler key) (fun _ => true) k (message.sign codec) s))

/-- Everything that is released in a sequence of events. -/
def releases : List Event → PVState → List Release
  | [], _ => []
  | event :: events, s =>
    (event.step codec s).1.toList ++ releases events (event.step codec s).2

/-- A signer that was loaded from a state file. -/
def start (file : SFilePVLastSignState) : PVState := { memory := file, file, made := 0 }

/-! ## One request -/

variable {codec} {key : HexBytes → Except String HexBytes}

@[simp] theorem run_ofExcept {α : Type} (r : Except SignFault α) (s : PVState) :
    run (pvHandler key) (ofExcept r) s = (r, s) := by
  cases r <;> rfl

/-- The state after a new signature. -/
def afterSigning (height round step : Int) (signBytes sig : HexBytes) (s : PVState) : PVState :=
  let lss : SFilePVLastSignState :=
    { height, round, step, signature := some sig, signBytes := some signBytes }
  { memory := lss, file := lss.viaJSON, made := s.made + 1 }

theorem run_signNew (height round step : Int) (signBytes : HexBytes) (s : PVState) :
    run (pvHandler key) (signNew height round step signBytes) s =
      match key signBytes with
      | .error text => (.error (.err (.plain text)), { s with made := s.made + 1 })
      | .ok sig => (.ok { signature := sig, timestamp := none },
          afterSigning height round step signBytes sig s) := by
  have signed : (pvHandler key).step (.sign signBytes) s =
      (key signBytes, { s with made := s.made + 1 }) := rfl
  simp only [signNew, Prog.bind_eq, run_bind, run_perform, signed, andThen_ok]
  cases key signBytes <;> rfl

/-- A crash while a new signature is made: the file has the old or the new sign state. -/
theorem runUpTo_signNew (height round step : Int) (signBytes : HexBytes) (s : PVState) (k : Nat) :
    let t := runUpTo (pvHandler key) (fun _ => true) k (signNew height round step signBytes) s
    t.file = s.file ∨
      ∃ lss : SFilePVLastSignState, lss.last = hrs height round step ∧ t.file = lss.viaJSON := by
  intro t
  cases k with
  | zero => exact .inl rfl
  | succ k =>
    -- the key has been used, and the rest depends on its answer
    have signed : (pvHandler key).step (.sign signBytes) s =
        (key signBytes, { s with made := s.made + 1 }) := rfl
    have rest : t = runUpTo (pvHandler key) (fun _ => true) (k + 1)
        (signNew height round step signBytes) s := rfl
    rw [signNew, Prog.bind_eq, Prog.perform, Prog.call_bind, runUpTo_call_succ rfl, signed] at rest
    rw [rest]
    cases key signBytes with
    | error text => exact .inl rfl
    | ok sig =>
      -- the memory is set, the file is written, and nothing is left to do
      match k with
      | 0 => exact .inl rfl
      | 1 => exact .inl rfl
      | k + 2 => exact .inr ⟨_, rfl, rfl⟩

theorem run_signMessage (height round step : Int) (signBytes : HexBytes)
    (differ : HexBytes → HexBytes → Except SignFault (Int × Bool)) (s : PVState) :
    run (pvHandler key) (signMessage height round step signBytes differ) s =
      match s.memory.checkHRS height round step with
      | .error fault => (.error fault, s)
      | .ok true => (reuse s.memory signBytes differ, s)
      | .ok false => run (pvHandler key) (signNew height round step signBytes) s := by
  have read : (pvHandler key).step .lastSignState s = (s.memory, s) := rfl
  simp only [signMessage, Prog.bind_eq, run_bind, run_perform, read, andThen_ok]
  split
  · rfl
  · exact run_ofExcept _ _
  · rfl

/-- A crash leaves the file with the old sign state or with a later one. -/
theorem runUpTo_signMessage (height round step : Int) (signBytes : HexBytes)
    (differ : HexBytes → HexBytes → Except SignFault (Int × Bool)) (s : PVState) (k : Nat) :
    let t := runUpTo (pvHandler key) (fun _ => true) k
      (signMessage height round step signBytes differ) s
    t.file = s.file ∨ s.memory.last < hrs height round step ∧
      ∃ lss : SFilePVLastSignState, lss.last = hrs height round step ∧ t.file = lss.viaJSON := by
  intro t
  cases k with
  | zero => exact .inl rfl
  | succ k =>
    have rest : t = runUpTo (pvHandler key) (fun _ => true) (k + 1)
        (signMessage height round step signBytes differ) s := rfl
    have read : (pvHandler key).step .lastSignState s = (s.memory, s) := rfl
    rw [signMessage, Prog.bind_eq, Prog.perform, Prog.call_bind, runUpTo_call_succ rfl, read,
      Prog.pure_bind] at rest
    rw [rest]
    split
    · exact .inl rfl
    · left
      cases reuse s.memory signBytes differ <;> rfl
    · next checked =>
      have later := SFilePVLastSignState.lt_of_checkHRS_false checked
      exact (runUpTo_signNew height round step signBytes s k).imp_right fun written =>
        ⟨later, written⟩

theorem run_withText_ok {α : Type} {text : String} {p : PVProg α} {value : α}
    (ran : run (pvHandler key) (withText text p) s = (.ok value, t)) :
    run (pvHandler key) p s = (.ok value, t) := by
  simp only [withText, Prog.bind_eq, run_bind, run_attempt] at ran
  generalize run (pvHandler key) p s = r at ran ⊢
  obtain ⟨outcome, t'⟩ := r
  match outcome with
  | .ok value' => exact ran
  | .error (.err err) => cases ran
  | .error (.panic reason) => cases ran

theorem run_withText_error {α : Type} {text : String} {p : PVProg α}
    (ran : run (pvHandler key) (withText text p) s = (.error fault, t)) :
    ∃ fault', run (pvHandler key) p s = (.error fault', t) := by
  simp only [withText, Prog.bind_eq, run_bind, run_attempt] at ran
  generalize run (pvHandler key) p s = r at ran ⊢
  obtain ⟨outcome, t'⟩ := r
  match outcome with
  | .ok value' => cases ran
  | .error (.err err) =>
    cases ran
    exact ⟨_, rfl⟩
  | .error (.panic reason) =>
    cases ran
    exact ⟨_, rfl⟩

theorem runUpTo_withText {α : Type} (text : String) (p : PVProg α) (s : PVState) (k : Nat) :
    runUpTo (pvHandler key) (fun _ => true) k (withText text p) s =
      runUpTo (pvHandler key) (fun _ => true) k p s := by
  rw [withText, Prog.bind_eq, runUpTo_bind_of_silent, runUpTo_attempt]
  intro outcome
  cases outcome with
  | ok value => exact .inl ⟨value, rfl⟩
  | error err => exact .inr ⟨_, rfl⟩

/-- The bytes are an encoding of what is signed for the message. -/
def Reads (codec : SignCodec) (bz : HexBytes) : Message → Prop
  | .vote chainID v => codec.unmarshalVote bz = .ok (canonicalizeVote chainID v)
  | .proposal chainID p => codec.unmarshalProposal bz = .ok (canonicalizeProposal chainID p)

theorem reads_signBytes (message : Message) : Reads codec (message.signBytes codec) message := by
  cases message with
  | vote chainID v => exact codec.unmarshalVote_marshalVote _
  | proposal chainID p => exact codec.unmarshalProposal_marshalProposal _

/-- Messages for one height, round and step that are read from the same bytes agree. -/
theorem Reads.agree {bz : HexBytes} {first second : Message} (reads : Reads codec bz first)
    (reads' : Reads codec bz second) (same : first.hrs = second.hrs) :
    second.signBytes codec = first.signBytes codec ∧ second.content = first.content ∧
      second.timestamp = first.timestamp := by
  -- the step tells votes from proposals
  have kinds : ∀ (v : Vote) (p : SignedProposal) (chainID chainID' : GoString),
      (Message.vote chainID v).hrs ≠ (Message.proposal chainID' p).hrs := by
    intro v p chainID chainID' same
    have steps : (voteToStep v.type).toOption.getD stepNone = stepPropose :=
      congrArg (fun x => (ofLex (ofLex x).2).2) same
    cases kind : v.type <;> rw [kind] at steps <;> exact absurd steps (by decide)
  cases first with
  | vote chainID v =>
    cases second with
    | proposal chainID' p => exact absurd same (kinds v p chainID chainID')
    | vote chainID' v' =>
      have canonical : canonicalizeVote chainID' v' = canonicalizeVote chainID v :=
        Except.ok.inj (reads'.symm.trans reads)
      refine ⟨congrArg codec.marshalVote canonical, ?_, congrArg CanonicalVote.timestamp canonical⟩
      simp only [Message.content, canonical]
  | proposal chainID p =>
    cases second with
    | vote chainID' v => exact absurd same.symm (kinds v p chainID' chainID)
    | proposal chainID' p' =>
      have canonical : canonicalizeProposal chainID' p' = canonicalizeProposal chainID p :=
        Except.ok.inj (reads'.symm.trans reads)
      refine ⟨congrArg codec.marshalProposal canonical, ?_,
        congrArg CanonicalProposal.timestamp canonical⟩
      simp only [Message.content, canonical]

/-- What a request that is answered has done: the stored sign state is about the message
that is returned, and it is the old one or a later one. -/
structure Answered (codec : SignCodec) (request message : Message) (s s' : PVState) : Prop where
  hrs : message.hrs = request.hrs
  content : message.content = request.content
  last : s'.memory.last = request.hrs
  signature : s'.memory.signature = some message.signature
  signBytes : ∃ bz, s'.memory.signBytes = some bz ∧ Reads codec bz message
  moved : s' = s ∨
    s.memory.last < request.hrs ∧ s'.file = s'.memory.viaJSON ∧ s'.made ≠ s.made

/-- The two ways in which `signMessage` succeeds. -/
theorem signMessage_ok {step : Int} {signBytes : HexBytes}
    {signed : Signed}

    (ran : run (pvHandler key) (signMessage height round step signBytes differ) s =
      (.ok signed, s')) :
    (s = s' ∧ s.memory.last = hrs height round step ∧
      s.memory.signature = some signed.signature ∧ ∃ old, s.memory.signBytes = some old ∧
        (old = signBytes ∧ signed.timestamp = none ∨
          ∃ time, differ old signBytes = .ok (time, true) ∧ signed.timestamp = some time)) ∨
    (s.memory.last < hrs height round step ∧ signed.timestamp = none ∧
      s' = afterSigning height round step signBytes signed.signature s) := by
  rw [run_signMessage] at ran
  split at ran
  · cases ran
  · next checked =>
    obtain ⟨last, old, sig, bytes, signature⟩ :=
      SFilePVLastSignState.eq_of_checkHRS_true checked
    obtain ⟨reused, rfl⟩ := Prod.mk.inj ran
    rw [reuse, bytes, signature, Option.getD_some, Option.getD_some] at reused
    refine .inl ⟨rfl, last, ?_⟩
    split at reused
    · next same =>
      cases reused
      exact ⟨signature, old, bytes, .inl ⟨same.symm, rfl⟩⟩
    · split at reused
      · cases reused
      · next time differs =>
        cases reused
        exact ⟨signature, old, bytes, .inr ⟨time, differs, rfl⟩⟩
      · cases reused
  · next checked =>
    rw [run_signNew] at ran
    split at ran
    · cases ran
    · cases ran
      exact .inr ⟨SFilePVLastSignState.lt_of_checkHRS_false checked, rfl, rfl⟩

theorem signMessage_error {step : Int} {signBytes : HexBytes}
    (ran : run (pvHandler key) (signMessage height round step signBytes differ) s =
      (.error fault, s')) : s'.memory = s.memory ∧ s'.file = s.file := by
  rw [run_signMessage] at ran
  split at ran
  · cases ran
    exact ⟨rfl, rfl⟩
  · obtain ⟨-, rfl⟩ := Prod.mk.inj ran
    exact ⟨rfl, rfl⟩
  · rw [run_signNew] at ran
    split at ran
    · cases ran
      exact ⟨rfl, rfl⟩
    · cases ran

/-- From the common body to a kind of message: `stamp` puts signature and timestamp in. -/
theorem Answered.of_signMessage {step : Int}
    {signed : Signed}
    (stamp : Signed → Message)
    (isHrs : request.hrs = Rigo.hrs height round step)
    (hrs : (stamp signed).hrs = request.hrs) (content : (stamp signed).content = request.content)
    (signature : (stamp signed).signature = signed.signature)
    (unstamped : signed.timestamp = none →
      Reads codec (request.signBytes codec) (stamp signed))
    (stamped : ∀ old time, differ old (request.signBytes codec) = .ok (time, true) →
      signed.timestamp = some time → Reads codec old (stamp signed))
    (ran : run (pvHandler key)
      (signMessage height round step (request.signBytes codec) differ) s = (.ok signed, s')) :
    Answered codec request (stamp signed) s s' := by
  obtain ⟨rfl, last, stored, old, bytes, reads⟩ | ⟨later, untimed, rfl⟩ := signMessage_ok ran
  · refine ⟨hrs, content, last.trans isHrs.symm, by rw [stored, signature], ⟨old, bytes, ?_⟩,
      .inl rfl⟩
    obtain ⟨rfl, untimed⟩ | ⟨time, differs, timed⟩ := reads
    · exact unstamped untimed
    · exact stamped old time differs timed
  · refine ⟨hrs, content, isHrs.symm, congrArg some signature.symm,
      ⟨_, rfl, unstamped untimed⟩, .inr ⟨isHrs ▸ later, rfl, ?_⟩⟩
    exact Nat.succ_ne_self s.made

theorem checkVotes_true {last new : HexBytes} {time : Int} {vote : CanonicalVote}
    (reads : codec.unmarshalVote new = .ok vote)
    (differs : checkVotesOnlyDifferByTimestamp codec last new = .ok (time, true)) :
    codec.unmarshalVote last = .ok { vote with timestamp := time } := by
  rw [checkVotesOnlyDifferByTimestamp, reads] at differs
  cases unmarshalled : codec.unmarshalVote last with
  | error text =>
    rw [unmarshalled] at differs
    cases differs
  | ok lastVote =>
    rw [unmarshalled] at differs
    simp only [Except.ok.injEq, Prod.mk.injEq, decide_eq_true_eq] at differs
    obtain ⟨rfl, same⟩ := differs
    cases vote
    cases lastVote
    simp_all

theorem checkProposals_true {last new : HexBytes} {time : Int} {proposal : CanonicalProposal}
    (reads : codec.unmarshalProposal new = .ok proposal)
    (differs : checkProposalsOnlyDifferByTimestamp codec last new = .ok (time, true)) :
    codec.unmarshalProposal last = .ok { proposal with timestamp := time } := by
  rw [checkProposalsOnlyDifferByTimestamp, reads] at differs
  cases unmarshalled : codec.unmarshalProposal last with
  | error text =>
    rw [unmarshalled] at differs
    cases differs
  | ok lastProposal =>
    rw [unmarshalled] at differs
    simp only [Except.ok.injEq, Prod.mk.injEq, decide_eq_true_eq] at differs
    obtain ⟨rfl, same⟩ := differs
    cases proposal
    cases lastProposal
    simp_all

theorem signVote_ok {chainID : GoString} {v v' : Vote}
    (ran : run (pvHandler key) (signVote codec chainID v) s = (.ok v', s')) :
    Answered codec (.vote chainID v) (.vote chainID v') s s' := by
  obtain ⟨step, t, found, rest⟩ := run_bind_ok ran
  rw [run_ofExcept] at found
  obtain ⟨isStep, rfl⟩ := Prod.mk.inj found
  obtain ⟨signed, t, signs, stamped⟩ := run_bind_ok rest
  cases stamped
  refine Answered.of_signMessage (fun signed => .vote chainID { v with
    signature := signed.signature, timestamp := signed.timestamp.getD v.timestamp })
    ?_ rfl rfl rfl ?_ ?_ signs
  · rw [Message.hrs, isStep]
    rfl
  · intro untimed
    simp only [untimed, Option.getD_none]
    exact reads_signBytes (.vote chainID v)
  · intro old time differs timed
    simp only [timed, Option.getD_some]
    exact checkVotes_true (reads_signBytes (.vote chainID v)) differs

theorem signProposal_ok {chainID : GoString} {p p' : SignedProposal}
    (ran : run (pvHandler key) (signProposal codec chainID p) s = (.ok p', s')) :
    Answered codec (.proposal chainID p) (.proposal chainID p') s s' := by
  obtain ⟨signed, t, ran, stamped⟩ := run_bind_ok ran
  cases stamped
  refine Answered.of_signMessage (fun signed => .proposal chainID { p with
    signature := signed.signature, timestamp := signed.timestamp.getD p.timestamp })
    rfl rfl rfl rfl ?_ ?_ ran
  · intro untimed
    simp only [untimed, Option.getD_none]
    exact reads_signBytes (.proposal chainID p)
  · intro old time differs timed
    simp only [timed, Option.getD_some]
    exact checkProposals_true (reads_signBytes (.proposal chainID p)) differs

theorem sign_ok {message : Message}
    (ran : run (pvHandler key) (request.sign codec) s = (.ok message, s')) :
    Answered codec request message s s' := by
  cases request with
  | vote chainID v =>
    obtain ⟨v', t, ran, returned⟩ := run_bind_ok ran
    cases returned
    exact signVote_ok (run_withText_ok ran)
  | proposal chainID p =>
    obtain ⟨p', t, ran, returned⟩ := run_bind_ok ran
    cases returned
    exact signProposal_ok (run_withText_ok ran)

theorem sign_error (ran : run (pvHandler key) (request.sign codec) s = (.error fault, s')) :
    s'.memory = s.memory ∧ s'.file = s.file := by
  cases request with
  | vote chainID v =>
    obtain failed | ⟨v', t, -, returned⟩ := run_bind_error ran
    · obtain ⟨fault', failed⟩ := run_withText_error failed
      obtain unknown | ⟨step, t, found, rest⟩ := run_bind_error failed
      · rw [run_ofExcept] at unknown
        cases (Prod.mk.inj unknown).2
        exact ⟨rfl, rfl⟩
      · rw [run_ofExcept] at found
        cases (Prod.mk.inj found).2
        obtain failed | ⟨signed, t, -, stamped⟩ := run_bind_error rest
        · exact signMessage_error failed
        · cases stamped
    · cases returned
  | proposal chainID p =>
    obtain failed | ⟨p', t, -, returned⟩ := run_bind_error ran
    · obtain ⟨fault', failed⟩ := run_withText_error failed
      obtain failed | ⟨signed, t, -, stamped⟩ := run_bind_error failed
      · exact signMessage_error failed
      · cases stamped
    · cases returned

theorem sign_crash (request : Message) (s : PVState) (k : Nat) :
    let t := runUpTo (pvHandler key) (fun _ => true) k (request.sign codec) s
    t.file = s.file ∨ s.memory.last < request.hrs ∧
      ∃ lss : SFilePVLastSignState, lss.last = request.hrs ∧ t.file = lss.viaJSON := by
  have returning : ∀ {α β : Type} (p : PVProg α) (f : α → β),
      runUpTo (pvHandler key) (fun _ => true) k (p.bind fun value => .pure (f value)) s =
        runUpTo (pvHandler key) (fun _ => true) k p s :=
    fun p f => runUpTo_bind_of_silent (fun value => .inl ⟨f value, rfl⟩) s k
  cases request with
  | vote chainID v =>
    simp only [Message.sign, SignVote, signVote, Prog.bind_eq, Prog.pure_eq, returning,
      runUpTo_withText]
    cases isStep : voteToStep v.type with
    | error fault => exact .inl rfl
    | ok step =>
      have isHrs : (Message.vote chainID v).hrs = hrs v.height v.round step := by
        rw [Message.hrs, isStep]
        rfl
      simp only [isHrs, ofExcept, Prog.pure_bind, returning]
      exact runUpTo_signMessage _ _ _ _ _ s k
  | proposal chainID p =>
    simp only [Message.sign, SignProposal, signProposal, Prog.bind_eq, Prog.pure_eq, returning,
      runUpTo_withText]
    exact runUpTo_signMessage _ _ _ _ _ s k

/-! ## Every sequence of events -/

/-- What holds between a release and every later one: for the same height, round and step
the messages differ in the timestamp at most, and signature, timestamp and signed bytes of
the first are returned again; and a new signature is for a later height, round and step. -/
def Sound (codec : SignCodec) (first second : Release) : Prop :=
  (second.request.hrs = first.request.hrs →
    second.request.content = first.request.content ∧
    second.message.signature = first.message.signature ∧
    second.message.timestamp = first.message.timestamp ∧
    second.message.signBytes codec = first.message.signBytes codec) ∧
  (second.isNew → first.request.hrs < second.request.hrs)

/-- The sign state `lss` is that of `lss'`, perhaps without bytes. -/
def Follows (lss lss' : SFilePVLastSignState) : Prop :=
  lss.last = lss'.last ∧ (∀ bz, lss.signBytes = some bz → lss'.signBytes = some bz) ∧
    ∀ sig, lss.signature = some sig → lss'.signature = some sig

theorem follows_viaJSON (lss : SFilePVLastSignState) : Follows lss.viaJSON lss := by
  refine ⟨rfl, fun bz kept => ?_, fun sig kept => ?_⟩
  · exact (Option.filter_eq_some_iff.mp kept).1
  · exact (Option.filter_eq_some_iff.mp kept).1

/-- The released messages are not later than the sign state, and the stored bytes are those
of the messages released for its height, round and step. -/
structure Covers (codec : SignCodec) (lss : SFilePVLastSignState) (past : List Release) : Prop where
  le : ∀ r ∈ past, r.request.hrs ≤ lss.last
  stored : ∀ r ∈ past, r.request.hrs = lss.last →
    (∀ bz, lss.signBytes = some bz → Reads codec bz r.message) ∧
      ∀ sig, lss.signature = some sig → r.message.signature = sig

theorem Covers.follows {lss' : SFilePVLastSignState}
    (covers : Covers codec lss' past) (follows : Follows lss lss') : Covers codec lss past where
  le r mem := follows.1 ▸ covers.le r mem
  stored r mem same := by
    obtain ⟨bytes, signature⟩ := covers.stored r mem (same.trans follows.1)
    exact ⟨fun bz kept => bytes bz (follows.2.1 bz kept),
      fun sig kept => signature sig (follows.2.2 sig kept)⟩

/-- A later sign state covers what an earlier one covered. -/
theorem Covers.later {lss' : SFilePVLastSignState}
    (covers : Covers codec lss past) (later : lss.last < lss'.last) : Covers codec lss' past where
  le r mem := (covers.le r mem).trans later.le
  stored r mem same := absurd (covers.le r mem) (not_le_of_gt (same ▸ later))

/-- The invariant: the state covers what was released, also when it is read from the file,
and all of it is sound. -/
structure Inv (codec : SignCodec) (s : PVState) (past : List Release) : Prop where
  follows : Follows s.file s.memory
  covers : Covers codec s.memory past
  released : ∀ r ∈ past, r.message.hrs = r.request.hrs ∧ r.message.content = r.request.content
  sound : past.Pairwise (Sound codec)

theorem inv_start (file : SFilePVLastSignState) : Inv codec (start file) [] where
  follows := ⟨rfl, fun _ kept => kept, fun _ kept => kept⟩
  covers := ⟨by simp, by simp⟩
  released := by simp
  sound := .nil

/-- A crash loses nothing of the invariant. -/
theorem Inv.crash  (inv : Inv codec s past)
    (file : t.file = s.file ∨ ∃ lss : SFilePVLastSignState,
      s.memory.last < lss.last ∧ t.file = lss.viaJSON) :
    Inv codec (loadSFilePV t) past := by
  refine ⟨⟨rfl, fun _ kept => kept, fun _ kept => kept⟩, ?_, inv.released, inv.sound⟩
  obtain same | ⟨lss, later, written⟩ := file
  · change Covers codec t.file past
    rw [same]
    exact inv.covers.follows inv.follows
  · change Covers codec t.file past
    rw [written]
    exact (inv.covers.later later).follows (follows_viaJSON lss)

/-- A release is sound with everything released before it, and the invariant goes on. -/
theorem Inv.release  {message : Message}
    (inv : Inv codec s past) (answered : Answered codec request message s s') :
    Inv codec s' (past ++ [⟨request, message, decide (s'.made ≠ s.made)⟩]) := by
  obtain ⟨bz, bytes, reads⟩ := answered.signBytes
  have covers : Covers codec s'.memory past := by
    obtain rfl | ⟨later, -⟩ := answered.moved
    · exact inv.covers
    · exact inv.covers.later (answered.last.symm ▸ later)
  refine ⟨?_, ⟨?_, ?_⟩, ?_, ?_⟩
  · obtain rfl | ⟨-, file, -⟩ := answered.moved
    · exact inv.follows
    · rw [file]
      exact follows_viaJSON _
  · intro r mem
    obtain mem | rfl := List.mem_append.mp mem |>.imp_right List.mem_singleton.mp
    · exact covers.le r mem
    · exact answered.last.ge
  · intro r mem same
    obtain mem | rfl := List.mem_append.mp mem |>.imp_right List.mem_singleton.mp
    · exact covers.stored r mem same
    · refine ⟨fun bz' stored => ?_, fun sig stored => ?_⟩
      · cases stored.symm.trans bytes
        exact reads
      · exact Option.some.inj (answered.signature.symm.trans stored)
  · intro r mem
    obtain mem | rfl := List.mem_append.mp mem |>.imp_right List.mem_singleton.mp
    · exact inv.released r mem
    · exact ⟨answered.hrs, answered.content⟩
  · refine List.pairwise_append.mpr ⟨inv.sound, List.pairwise_singleton _ _, ?_⟩
    intro r mem second isSecond
    obtain rfl := List.mem_singleton.mp isSecond
    obtain ⟨hrs, content⟩ := inv.released r mem
    refine ⟨fun same => ?_, fun isNew => ?_⟩
    · obtain ⟨bytes', signature⟩ := covers.stored r mem (same.symm.trans answered.last.symm)
      obtain ⟨sameBytes, sameContent, sameTime⟩ :=
        (bytes' bz bytes).agree reads (hrs.trans (same.symm.trans answered.hrs.symm))
      exact ⟨answered.content.symm.trans (sameContent.trans content),
        (signature _ answered.signature).symm, sameTime, sameBytes⟩
    · obtain rfl | ⟨later, -⟩ := answered.moved
      · simp at isNew
      · exact lt_of_le_of_lt (inv.covers.le r mem) later

/-- One event. -/
theorem Inv.step  (inv : Inv codec s past) (event : Event) :
    Inv codec (event.step codec s).2 (past ++ (event.step codec s).1.toList) := by
  cases event with
  | request key message =>
    rw [Event.step]
    generalize ran : run (pvHandler key) (message.sign codec) s = r
    obtain ⟨outcome, s'⟩ := r
    cases outcome with
    | ok signed => exact inv.release (sign_ok ran)
    | error fault =>
      obtain ⟨memory, file⟩ := sign_error ran
      simp only [Option.toList_none, List.append_nil]
      exact ⟨by rw [memory, file]; exact inv.follows, by rw [memory]; exact inv.covers,
        inv.released, inv.sound⟩
  | crash key message k =>
    simp only [Event.step, Option.toList_none, List.append_nil]
    refine inv.crash ((sign_crash message s k).imp_right ?_)
    rintro ⟨later, lss, last, written⟩
    exact ⟨lss, last.symm ▸ later, written⟩

theorem Inv.releases  (inv : Inv codec s past)
    (events : List Event) : (past ++ releases codec events s).Pairwise (Sound codec) := by
  induction events generalizing s past with
  | nil => simpa [SFilePV.releases] using inv.sound
  | cons event events ih =>
    have rest := ih (inv.step event)
    rw [List.append_assoc] at rest
    exact rest

/-- In every sequence of requests and crashes, from every state file, no two releases are a
double signature. -/
theorem noDoubleSigning (codec : SignCodec) (file : SFilePVLastSignState) (events : List Event) :
    (releases codec events (start file)).Pairwise (Sound codec) :=
  (inv_start file).releases events

end SFilePV

end Rigo
