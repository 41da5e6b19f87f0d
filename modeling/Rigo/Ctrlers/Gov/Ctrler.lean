import Rigo.Ctrlers.Types.Ledgers

/-!
# The governance controller

`ctrlers/gov/ctrler.go`.  A proposal is checked and stored by a transaction, voted
on in its voting period, frozen when the period is over if one of its options has
the majority, and applied at its applying height.  Freezing and applying happen in
`EndBlock` and go through the proposals committed by the last block.

An option of a proposal for new parameters is parsed twice: by `validateTrx` when
the proposal is made, and by `applyProposal`, which rewrites texts that end in a
certain way (`hotfix`) before it parses them.
-/

namespace Rigo

open LedgerProg

namespace GovCtrler

/-! ## Evidence -/

/-- The proposals in which somebody may vote, by key, as of the last commit. -/
def targetPropsKeys (target : Address) (props : List GovProposal) : List LedgerKey :=
  (props.filter fun prop => prop.isVoter target).map LedgerItem.key

/-- One round of the loop of `doPunish`. -/
def punishProposal (slashRatio : Int) (target : Address) (k : LedgerKey) : LedgerProg Int := do
  match ← get .proposals k with
  | .error _ => crash .nilDereference
  | .ok prop =>
    match ← tryXError (GovProposal.doPunish prop target slashRatio) with
    | .ok (slashed, prop') =>
      set .proposals prop'
      return slashed
    | .error _ =>
      set .proposals prop
      return 0

/-- `doPunish`; the slashed powers are only reported in an event. -/
def doPunish (slashRatio : Int) (target : Address) : LedgerProg Unit := do
  match ← readAll .proposals with
  | .error _ => return ()
  | .ok props => (targetPropsKeys target props).forM fun k => do
      let _ ← punishProposal slashRatio target k

/-- `GovCtrler.BeginBlock`. -/
def beginBlock (params : GovParams) (info : BlockInfo) : LedgerProg Unit :=
  info.byzantines.forM (doPunish params.slashRatio)

/-! ## Transactions -/

/-- Every option of a proposal for new parameters parses. -/
def checkOptions (json : ParamsJSON) : List HexBytes → Except XError Unit
  | [] => .ok ()
  | option :: rest =>
    match GovParams.unmarshalJSON json option with
    | .error err => .error (XError.errInvalidTrxPayloadParams.wrap (.plain err))
    | .ok _ => checkOptions json rest

/-- `IsValidator`. -/
def isValidator (validators : Validators) (addr : Address) : Bool :=
  validators.any fun v => v.addr == addr

/-- The checks of `ValidateTrx` on the payload of a proposal, after the lookups. -/
def checkProposal (json : ParamsJSON) (ctx : TrxContext) (payload : TrxPayloadProposal) :
    Except XError Unit := do
  if payload.startVotingHeight ≤ ctx.height then throw .errInvalidTrxPayloadParams
  if payload.votingPeriodBlocks > ctx.params.maxVotingPeriodBlocks ∨
      payload.votingPeriodBlocks < ctx.params.minVotingPeriodBlocks then
    throw .errInvalidTrxPayloadParams
  if payload.optType = proposalGovParams then checkOptions json payload.options
  let endVotingHeight := i64 (payload.startVotingHeight + payload.votingPeriodBlocks)
  let minApplyingHeight := i64 (endVotingHeight + ctx.params.lazyApplyingBlocks)
  if payload.startVotingHeight > endVotingHeight then
    throw (XError.errInvalidTrxPayloadParams.wrapf ("overflow occurs: startHeight:" ++
      toString payload.startVotingHeight ++ ", endVotingHeight:" ++ toString endVotingHeight))
  if payload.applyingHeight < minApplyingHeight ∨ endVotingHeight > payload.applyingHeight then
    throw (XError.errInvalidTrxPayloadParams.wrapf ("wrong applyingHeight: must be set equal to " ++
      "or higher than minApplyingHeight. ApplyingHeight:" ++ toString payload.applyingHeight ++
      ", minApplyingHeight:" ++ toString minApplyingHeight ++ ", endVotingHeight:" ++
      toString endVotingHeight ++ ", lazyApplyingBlocks:" ++
      toString ctx.params.lazyApplyingBlocks))
  if payload.options = [] then
    throw (XError.errInvalidTrxPayloadParams.wrapf "wrong options: must have at least one value")

/-- `GovCtrler.ValidateTrx` for `TRX_PROPOSAL`. -/
def validateProposal (json : ParamsJSON) (ctx : TrxContext) : LedgerProg Unit := do
  ensure (ctx.tx.toAddr == zeroAddress) (XError.errInvalidTrx.wrapf
    "wrong address: the 'to' field in TRX_PROPOSAL should be zero address")
  ensure (isValidator ctx.validators ctx.tx.fromAddr) .errNoRight
  match ctx.tx.payload with
  | .proposal payload =>
    match ← get .proposals (toLedgerKey ctx.txHash) with
    | .ok _ => throwX .errDuplicatedKey
    | .error e =>
      ensure (e == .errNotFoundResult) e
      ofExcept (checkProposal json ctx payload)
  | _ => throwX .errInvalidTrxPayloadType

/-- `GovCtrler.ValidateTrx` for `TRX_VOTING`. -/
def validateVoting (ctx : TrxContext) : LedgerProg Unit := do
  ensure (ctx.tx.toAddr == zeroAddress) (XError.errInvalidTrxPayloadParams.wrapf
    "wrong address: the 'to' field in TRX_VOTING should be zero address")
  match ctx.tx.payload with
  | .voting payload => do
      let prop ← ofExcept (← get .proposals (toLedgerKey payload.txHash))
      ensure (GovProposal.isVoter prop ctx.tx.fromAddr) .errNoRight
      ensure (decide (0 ≤ payload.choice ∧ payload.choice < prop.options.length))
        .errInvalidTrxPayloadParams
      ensure (decide (ctx.height ≤ prop.endVotingHeight ∧ prop.startVotingHeight ≤ ctx.height))
        .errNotVotingPeriod
  | _ => throwX .errInvalidTrxPayloadType

/-- `GovCtrler.ValidateTrx`. -/
def validateTrx (json : ParamsJSON) (ctx : TrxContext) : LedgerProg Unit :=
  match ctx.tx.type with
  | .proposal => validateProposal json ctx
  | .voting => validateVoting ctx
  | _ => throwX .errUnknownTrxType

/-- The voters of a new proposal, and their power. -/
def votersOf (validators : Validators) : List Voter × Int :=
  (validators.map fun v => ⟨v.addr, v.totalPower, notChoice⟩,
    validators.foldl (fun total v => i64 (total + v.totalPower)) 0)

/-- `execProposing`. -/
def execProposing (ctx : TrxContext) : LedgerProg Unit :=
  match ctx.tx.payload with
  | .proposal payload =>
    let (voters, totalVotingPower) := votersOf ctx.validators
    set .proposals (GovProposal.newGovProposal ctx.txHash payload.optType
      payload.startVotingHeight payload.votingPeriodBlocks totalVotingPower
      payload.applyingHeight voters payload.options)
  | _ => crash .nilDereference

/-- `execVoting`. -/
def execVoting (ctx : TrxContext) : LedgerProg Unit :=
  match ctx.tx.payload with
  | .voting payload => do
      let prop ← ofExcept (← get .proposals (toLedgerKey payload.txHash))
      let prop ← GovProposal.vote prop ctx.tx.fromAddr payload.choice
      set .proposals prop
  | _ => crash .nilDereference

/-- `GovCtrler.ExecuteTrx`. -/
def executeTrx (ctx : TrxContext) : LedgerProg Unit :=
  match ctx.tx.type with
  | .proposal => execProposing ctx
  | .voting => execVoting ctx
  | _ => throwX .errUnknownTrxType

/-! ## The end of a block -/

/-- One round of the loop of `freezeProposals`. -/
def freezeProposal (sort : OptionSort) (height : Int) (prop : GovProposal) : LedgerProg Unit :=
  if prop.endVotingHeight < height then do
    let _ ← ofExcept (← del .proposals (LedgerItem.key prop))
    let prop ← prop.updateMajorOption sort
    match prop.majorOption with
    | some _ => set .frozenProposals prop
    | none => return ()
  else return ()

/-- `freezeProposals`. -/
def freezeProposals (sort : OptionSort) (height : Int) : LedgerProg Unit := do
  let props ← ofExcept (← readAll .proposals)
  props.forM (freezeProposal sort height)

/-- The text `""}`. -/
def doubledQuotes : HexBytes := [0x22, 0x22, 0x7d]

/-- `strings.ReplaceAll(text, "\"\"}", "\"}")`. -/
def replaceAll : HexBytes → HexBytes
  | 0x22 :: 0x22 :: 0x7d :: rest => 0x22 :: 0x7d :: replaceAll rest
  | b :: rest => b :: replaceAll rest
  | [] => []

/-- What `applyProposals` does to the text of an option before it parses it. -/
def hotfix (option : HexBytes) : HexBytes :=
  if doubledQuotes.isSuffixOf option then replaceAll option else option

/-- The parameters an option stands for when it is applied. -/
def decodeOption (json : ParamsJSON) (option : HexBytes) : Except String GovParams :=
  GovParams.unmarshalJSON json (hotfix option)

/-- One round of the loop of `applyProposals`; `newParams` is the field
`newGovParams` before and after the round. -/
def applyProposal (json : ParamsJSON) (params : GovParams) (height : Int)
    (newParams : Option GovParams) (prop : GovProposal) : LedgerProg (Option GovParams) :=
  if prop.applyingHeight ≤ height then do
    let _ ← ofExcept (← del .frozenProposals (LedgerItem.key prop))
    match prop.majorOption with
    | none => return newParams
    | some opt =>
      if prop.optType = proposalGovParams then
        match decodeOption json opt.option with
        | .error err => throwX (.fromErr err)
        | .ok new =>
          let merged := GovParams.mergeGovParams params new
          set .params merged
          return some merged
      else return newParams
  else return newParams

/-- `applyProposals`. -/
def applyProposals (json : ParamsJSON) (params : GovParams) (newParams : Option GovParams)
    (height : Int) : LedgerProg (Option GovParams) := do
  let props ← ofExcept (← readAll .frozenProposals)
  props.foldlM (applyProposal json params height) newParams

/-- `GovCtrler.EndBlock`, with the field `newGovParams` it leaves. -/
def endBlock (json : ParamsJSON) (sort : OptionSort) (params : GovParams)
    (newParams : Option GovParams) (height : Int) : LedgerProg (Option GovParams) := do
  freezeProposals sort height
  applyProposals json params newParams height

/-- `GovCtrler.InitLedger`. -/
def initLedger (params : GovParams) : LedgerProg Unit := set .params params

end GovCtrler

end Rigo
