import Rigo.Ctrlers.Types.GovParams
import Rigo.Types.Json

/-!
# Stakes and delegatees

`ctrlers/stake/stake.go`, `block_marker.go` and `delegatee.go`.  A delegatee keeps
the stakes delegated to it together with two running sums, `totalPower` and
`selfPower`, and the heights of the blocks it did not sign.  A stake that is
withdrawn moves to the ledger of frozen stakes, where its key is its `txHash`.

The sums are `int64` and are updated in place.
-/

namespace Rigo

open Foundation

/-! ## Stakes -/

/-- `stake.Stake`. -/
structure Stake where
  fromAddr : Address
  toAddr : Address
  txHash : HexBytes
  startHeight : Int
  refundHeight : Int
  power : Int
  deriving DecidableEq

/-- The JSON of a stake. -/
structure StakeJSON where
  owner : JsonToken
  to' : JsonToken
  txhash : JsonToken
  startHeight : Int
  refundHeight : Int
  power : Int
  deriving DecidableEq

namespace Stake

/-- `json.Marshal` of a stake. -/
def marshal (s : Stake) : StakeJSON where
  owner := HexBytes.marshalJSON s.fromAddr
  to' := HexBytes.marshalJSON s.toAddr
  txhash := HexBytes.marshalJSON s.txHash
  startHeight := s.startHeight
  refundHeight := s.refundHeight
  power := s.power

/-- `json.Unmarshal` into a new stake. -/
def unmarshal (js : StakeJSON) : Except String Stake := do
  let fromAddr ← HexBytes.unmarshalJSON js.owner
  let toAddr ← HexBytes.unmarshalJSON js.to'
  let txHash ← HexBytes.unmarshalJSON js.txhash
  return {
    fromAddr, toAddr, txHash
    startHeight := js.startHeight
    refundHeight := js.refundHeight
    power := js.power }

theorem lossless : Restores marshal unmarshal := by
  intro s
  simp only [unmarshal, marshal, HexBytes.lossless_json _]
  rfl

instance : LedgerItem Stake where
  Encoded := StakeJSON
  key s := toLedgerKey s.txHash
  encode := marshal
  decode js := (unmarshal js).mapError .fromErr
  decode_encode := lossless.mapError XError.fromErr

/-- `NewStakeWithPower`. -/
def newStakeWithPower (owner to' : Address) (power startHeight : Int) (txHash : HexBytes) :
    Stake where
  fromAddr := owner
  toAddr := to'
  txHash := txHash
  startHeight := startHeight
  refundHeight := 0
  power := power

def isSelfStake (s : Stake) : Bool := s.fromAddr == s.toAddr

end Stake

/-- The sum of the powers of some stakes. -/
def sumPower (stakes : List Stake) : Int := (stakes.map Stake.power).sum

@[simp] theorem sumPower_nil : sumPower [] = 0 := rfl

@[simp] theorem sumPower_cons (s : Stake) (stakes : List Stake) :
    sumPower (s :: stakes) = s.power + sumPower stakes := by
  simp [sumPower]

@[simp] theorem sumPower_append (stakes stakes' : List Stake) :
    sumPower (stakes ++ stakes') = sumPower stakes + sumPower stakes' := by
  simp [sumPower]

theorem sumPower_nonneg {stakes : List Stake} (nonneg : ∀ s ∈ stakes, 0 ≤ s.power) :
    0 ≤ sumPower stakes := by
  apply List.sum_nonneg
  intro power member
  obtain ⟨s, present, rfl⟩ := List.mem_map.mp member
  exact nonneg s present

/-! ## Heights that were not signed -/

/-- `BlockMarker`. -/
structure BlockMarker where
  blockHeights : List Int
  deriving DecidableEq

namespace BlockMarker

def mark (bm : BlockMarker) (height : Int) : Except XError BlockMarker :=
  match bm.blockHeights.getLast? with
  | some last =>
    if last ≥ height then .error (.fromErr "height must bigger than last marked height")
    else .ok ⟨bm.blockHeights ++ [height]⟩
  | none => .ok ⟨bm.blockHeights ++ [height]⟩

/-- The loop of `CountInWindow`: the count, and the index of the last height before
the window. -/
def countFrom (h0 h1 : Int) : Nat → List Int → Nat × Int → Nat × Int
  | _, [], result => result
  | i, h :: rest, (count, preIdx) =>
    let preIdx := if h < h0 then (i : Int) else preIdx
    let count := if h ≥ h0 ∧ h ≤ h1 then count + 1 else count
    if h ≥ h1 then (count, preIdx) else countFrom h0 h1 (i + 1) rest (count, preIdx)

/-- `CountInWindow`.  With `rewin` the heights before the window are dropped if there
are at least two of them. -/
def countInWindowRewin (bm : BlockMarker) (h0 h1 : Int) (rewin : Bool) : Nat × BlockMarker :=
  if h0 > h1 then (0, bm)
  else
    match countFrom h0 h1 0 bm.blockHeights (0, -1) with
    | (count, preIdx) =>
      (count, if rewin ∧ preIdx > 0 then ⟨bm.blockHeights.drop (preIdx.toNat + 1)⟩ else bm)

/-- `CountInWindow` with `rewin`, as the controller calls it. -/
def countInWindow (bm : BlockMarker) (h0 h1 : Int) : Nat × BlockMarker :=
  bm.countInWindowRewin h0 h1 true

theorem countInWindow_eq (bm : BlockMarker) (h0 h1 : Int) : bm.countInWindow h0 h1 =
    if h0 > h1 then (0, bm)
    else ((countFrom h0 h1 0 bm.blockHeights (0, -1)).1,
      if (countFrom h0 h1 0 bm.blockHeights (0, -1)).2 > 0 then
        ⟨bm.blockHeights.drop ((countFrom h0 h1 0 bm.blockHeights (0, -1)).2.toNat + 1)⟩
      else bm) := by
  simp [countInWindow, countInWindowRewin]

end BlockMarker

/-! ## Delegatees -/

/-- `stake.Delegatee`. -/
structure Delegatee where
  addr : Address
  pubKey : HexBytes
  selfPower : Int
  totalPower : Int
  slashedPower : Int
  stakes : List Stake
  notSignedHeights : BlockMarker
  deriving DecidableEq

/-- The JSON of a delegatee.  That of a `BlockMarker` is its heights. -/
structure DelegateeJSON where
  address : JsonToken
  pubKey : JsonToken
  selfPower : Int
  totalPower : Int
  slashedPower : Int
  stakes : List StakeJSON
  notSignedHeights : List Int
  deriving DecidableEq

namespace Delegatee

/-- `json.Marshal` of a delegatee. -/
def marshal (d : Delegatee) : DelegateeJSON where
  address := HexBytes.marshalJSON d.addr
  pubKey := HexBytes.marshalJSON d.pubKey
  selfPower := d.selfPower
  totalPower := d.totalPower
  slashedPower := d.slashedPower
  stakes := d.stakes.map Stake.marshal
  notSignedHeights := d.notSignedHeights.blockHeights

/-- `json.Unmarshal` into a new delegatee. -/
def unmarshal (js : DelegateeJSON) : Except String Delegatee := do
  let addr ← HexBytes.unmarshalJSON js.address
  let pubKey ← HexBytes.unmarshalJSON js.pubKey
  let stakes ← js.stakes.mapM Stake.unmarshal
  return {
    addr, pubKey
    selfPower := js.selfPower
    totalPower := js.totalPower
    slashedPower := js.slashedPower
    stakes
    notSignedHeights := ⟨js.notSignedHeights⟩ }

theorem lossless : Restores marshal unmarshal := by
  intro d
  simp only [unmarshal, marshal, HexBytes.lossless_json _, Stake.lossless.list _]
  rfl

instance : LedgerItem Delegatee where
  Encoded := DelegateeJSON
  key d := toLedgerKey d.addr
  encode := marshal
  decode js := (unmarshal js).mapError .fromErr
  decode_encode := lossless.mapError XError.fromErr

/-- `NewDelegatee`. -/
def newDelegatee (addr : Address) (pubKey : HexBytes) : Delegatee where
  addr := addr
  pubKey := pubKey
  selfPower := 0
  totalPower := 0
  slashedPower := 0
  stakes := []
  notSignedHeights := ⟨[]⟩

/-- `AddStake` of one stake. -/
def addStake (d : Delegatee) (s : Stake) : Delegatee :=
  { d with
    stakes := d.stakes ++ [s]
    selfPower := if s.isSelfStake then i64 (d.selfPower + s.power) else d.selfPower
    totalPower := i64 (d.totalPower + s.power) }

/-- `FindStake`: the first stake with a hash. -/
def findStake (d : Delegatee) (txHash : HexBytes) : Option Stake :=
  d.stakes.find? fun s => s.txHash == txHash

/-- `delStakeByHash` on the list of stakes: the first stake with the hash goes. -/
def delStakeByHash (stakes : List Stake) (txHash : HexBytes) : List Stake :=
  stakes.eraseP fun s => s.txHash == txHash

/-- `DelStake`. -/
def delStake (d : Delegatee) (txHash : HexBytes) : Delegatee :=
  match d.findStake txHash with
  | none => d
  | some s =>
    { d with
      stakes := delStakeByHash d.stakes txHash
      selfPower := if s.isSelfStake then i64 (d.selfPower - s.power) else d.selfPower
      totalPower := i64 (d.totalPower - s.power) }

/-- `DelAllStakes`; the stakes it returns are those of `d`.  `selfPower` is left as it is. -/
def delAllStakes (d : Delegatee) : Delegatee :=
  { d with
    stakes := []
    totalPower := d.stakes.foldl (fun total s => i64 (total - s.power)) d.totalPower }

/-- `sumPowerOf`; without an address all stakes count. -/
def sumPowerOf (stakes : List Stake) (addr : Option Address) : Int :=
  stakes.foldl
    (fun power s =>
      if addr.isNone || addr == some s.fromAddr then i64 (power + s.power) else power) 0

/-- `SelfStakeRatio`.  The division panics if the divisor is zero. -/
def selfStakeRatio {Op : Type → Type} (d : Delegatee) (added : Int) :
    Prog Op Fault Int :=
  if i64 (d.totalPower + added) = 0 then crash .divisionByZero
  else .pure (i64 ((i64 (d.selfPower * 100)).tdiv (i64 (d.totalPower + added))))

/-- `ProcessNotSignedBlock`, whose error is ignored. -/
def processNotSignedBlock (d : Delegatee) (height : Int) : Delegatee :=
  match d.notSignedHeights.mark height with
  | .ok marker => { d with notSignedHeights := marker }
  | .error _ => d

/-- `GetNotSignedBlockCount`. -/
def getNotSignedBlockCount (d : Delegatee) (h0 h1 : Int) : Nat × Delegatee :=
  match d.notSignedHeights.countInWindow h0 h1 with
  | (count, marker) => (count, { d with notSignedHeights := marker })

/-- The power a stake loses to a slash. -/
def slashOf (ratio : Int) (s : Stake) : Int := i64 ((i64 (s.power * ratio)).tdiv 100)

/-- A stake after the first loop of `doSlashAll`: one that would lose less than one
power is left to be removed. -/
def slashStake (ratio : Int) (s : Stake) : Stake :=
  if slashOf ratio s < 1 then s else { s with power := i64 (s.power - slashOf ratio s) }

/-- The stakes after `doSlashAll`. -/
def slashedStakes (ratio : Int) (stakes : List Stake) : List Stake :=
  ((stakes.filter fun s => slashOf ratio s < 1).map Stake.txHash).foldl delStakeByHash
    (stakes.map (slashStake ratio))

/-- The power `doSlashAll` reports as slashed; that of the removed stakes is not counted. -/
def sumSlashedPower (ratio : Int) (stakes : List Stake) : Int :=
  stakes.foldl
    (fun sum s => if slashOf ratio s < 1 then sum else i64 (sum + slashOf ratio s)) 0

/-- The delegatee after `DoSlash`, that is `doSlashAll`. -/
def doSlash (d : Delegatee) (ratio : Int) : Delegatee :=
  { d with
    stakes := slashedStakes ratio d.stakes
    selfPower := sumPowerOf (slashedStakes ratio d.stakes) (some d.addr)
    totalPower := sumPowerOf (slashedStakes ratio d.stakes) none }

/-! ## Orders -/

/-- `PowerOrderDelegatees.Less`. -/
def powerLess (d d' : Delegatee) : Bool :=
  if d.totalPower ≠ d'.totalPower then d.totalPower > d'.totalPower
  else if d.stakes.length ≠ d'.stakes.length then d.stakes.length > d'.stakes.length
  else compare d.addr d'.addr == .gt

/-- `AddressOrderDelegatees.Less`. -/
def addrLess (d d' : Delegatee) : Bool := compare d.addr d'.addr == .lt

end Delegatee

/-- `sort.Sort` with a `Less` that orders the elements of the slice strictly. -/
def sortBy {α : Type} (less : α → α → Bool) (list : List α) : List α :=
  list.insertionSort fun x y => less y x = false

theorem sortBy_perm {α : Type} (less : α → α → Bool) (list : List α) :
    (sortBy less list).Perm list := List.perm_insertionSort _ _

end Rigo
