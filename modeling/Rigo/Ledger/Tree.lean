import Rigo.Foundation.KeyedMap
import Rigo.Types.XError

/-!
# The committed tree of a ledger

A ledger keeps its committed items in an IAVL tree, a third-party versioned map.
An item enters the tree as the bytes of its `Encode` and leaves it through
`Decode`; here the tree holds the item the bytes were made from, and every read
goes through `decode (encode x)`, as in the source.

The root hash of an IAVL tree depends on the order of the operations that built
it, so the tree also keeps the sequence of its operations.  Two trees with the
same sequence have the same root hash, whatever the hash function.
-/

namespace Rigo

open Foundation

/-- `ledger.ILedgerItem`.  `Encoded` are the bytes of an item, up to the lossless
protobuf and JSON libraries; decoding undoes encoding. -/
class LedgerItem (T : Type) where
  Encoded : Type
  key : T → LedgerKey
  encode : T → Encoded
  decode : Encoded → Except XError T
  decode_encode : ∀ x : T, decode (encode x) = .ok x

/-- Items under their own keys: a Go `map[LedgerKey]T`, or the contents of a tree. -/
abbrev ItemMap (T : Type) [LedgerItem T] := KeyedMap LedgerKey T LedgerItem.key

/-- An operation on an IAVL tree. -/
inductive TreeOp (E : Type) where
  | set (key : LedgerKey) (value : E)
  | remove (key : LedgerKey)
  | saveVersion

/-- A versioned IAVL tree: the working contents, the saved versions (the oldest
first), and the operations since the tree was created. -/
structure Tree (T : Type) [LedgerItem T] where
  contents : ItemMap T
  versions : List (ItemMap T)
  log : List (TreeOp (LedgerItem.Encoded T))

/-! ## Reading items back -/

/-- An item found, or the error a lookup returns when there is none. -/
def found {T : Type} : Option T → Except XError T
  | some x => .ok x
  | none => .error .errNotFoundResult

@[simp] theorem found_some {T : Type} (x : T) : found (some x) = .ok x := rfl

@[simp] theorem found_none {T : Type} :
    found (none : Option T) = .error .errNotFoundResult := rfl

theorem found_eq_ok {T : Type} {o : Option T} {x : T} : found o = .ok x ↔ o = some x := by
  cases o <;> simp [found]

section Read

variable {T : Type} [LedgerItem T]

/-- Decode the bytes found under a key and check that they belong there. -/
def decodeAt (k : LedgerKey) (x : T) : Except XError T :=
  match LedgerItem.decode (LedgerItem.encode x) with
  | .error e => .error (.fromErr e.error)
  | .ok y =>
    if LedgerItem.key y ≠ k then
      .error (.newOrdinary ("simple_ledger: the key is compromised - the requested key " ++
        "is not equal to the key encoded in value"))
    else .ok y

/-- `SimpleLedger.read` on the contents of a tree. -/
def ItemMap.read (m : ItemMap T) (k : LedgerKey) : Except XError T :=
  match m.find? k with
  | none => .error .errNotFoundResult
  | some x => decodeAt k x

theorem decodeAt_key (x : T) : decodeAt (LedgerItem.key x) x = .ok x := by
  simp [decodeAt, LedgerItem.decode_encode]

/-- Reading never fails on an item that is in the tree. -/
@[simp] theorem ItemMap.read_eq (m : ItemMap T) (k : LedgerKey) :
    ItemMap.read m k = found (m.find? k) := by
  unfold ItemMap.read
  cases present : m.find? k with
  | none => rfl
  | some x =>
    obtain rfl := KeyedMap.key_of_find? present
    exact decodeAt_key x

/-- The items `IterateReadAllItems` hands to its callback, in key order. -/
def ItemMap.readAll (m : ItemMap T) : Except XError (List T) :=
  m.items.mapM fun x => decodeAt (LedgerItem.key x) x

/-- Iterating never fails either. -/
@[simp] theorem ItemMap.readAll_eq (m : ItemMap T) : ItemMap.readAll m = .ok m.items := by
  unfold ItemMap.readAll
  simp only [decodeAt_key]
  induction m.items with
  | nil => rfl
  | cons head tail ih => simp [List.mapM_cons, ih, bind, Except.bind, pure, Except.pure]

end Read

/-! ## Tree operations -/

namespace Tree

variable {T : Type} [LedgerItem T]

/-- A tree in a fresh database. -/
def empty : Tree T where
  contents := KeyedMap.empty
  versions := []
  log := []

/-- `MutableTree.Set` of an item under its key. -/
def set (t : Tree T) (x : T) : Tree T where
  contents := t.contents.insert x
  versions := t.versions
  log := t.log ++ [.set (LedgerItem.key x) (LedgerItem.encode x)]

/-- `MutableTree.Remove`. -/
def remove (t : Tree T) (k : LedgerKey) : Tree T where
  contents := t.contents.erase k
  versions := t.versions
  log := t.log ++ [.remove k]

/-- `MutableTree.SaveVersion`. -/
def saveVersion (t : Tree T) : Tree T where
  contents := t.contents
  versions := t.versions ++ [t.contents]
  log := t.log ++ [.saveVersion]

/-- `MutableTree.Version`: the number of the last saved version. -/
def version (t : Tree T) : Int := t.versions.length

/-- The contents of the last saved version. -/
def lastSaved (t : Tree T) : ItemMap T := t.versions.getLast?.getD KeyedMap.empty

/-- `MutableTree.LazyLoadVersion`: a target that is not positive means the latest version. -/
def lazyLoadVersion (t : Tree T) (target : Int) : Except XError (ItemMap T) :=
  if t.version < target then
    .error (.fromErr ("wanted to load target " ++ toString target ++ " but only found up to " ++
      toString t.version))
  else if target ≤ 0 then .ok t.lastSaved
  else .ok (t.versions.getD (target.toNat - 1) KeyedMap.empty)

/-- `MutableTree.Load` in a new process: the working contents are the last saved ones. -/
def load (t : Tree T) : Tree T := { t with contents := t.lastSaved }

@[simp] theorem contents_set (t : Tree T) (x : T) : (t.set x).contents = t.contents.insert x :=
  rfl

@[simp] theorem contents_remove (t : Tree T) (k : LedgerKey) :
    (t.remove k).contents = t.contents.erase k := rfl

@[simp] theorem contents_saveVersion (t : Tree T) : t.saveVersion.contents = t.contents := rfl

@[simp] theorem versions_set (t : Tree T) (x : T) : (t.set x).versions = t.versions := rfl

@[simp] theorem versions_remove (t : Tree T) (k : LedgerKey) :
    (t.remove k).versions = t.versions := rfl

@[simp] theorem versions_saveVersion (t : Tree T) :
    t.saveVersion.versions = t.versions ++ [t.contents] := rfl

end Tree

end Rigo
