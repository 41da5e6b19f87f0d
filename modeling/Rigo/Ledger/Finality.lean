import Rigo.Ledger.Tree

/-!
# The finality ledger

`ledger/mem_items.go`, `ledger/simple_ledger.go` and `ledger/finality_ledger.go`.
A ledger keeps two sets of uncommitted items beside its committed tree: the
`cachedItems` of the simulation mode (`Get`, `Set`, `Del`), which `CheckTx` uses,
and the `finalityItems` (`GetFinality`, `SetFinality`, `DelFinality`), which are
written to the tree by `Commit`.  Both are `memItems`: the items read or written
so far, the items written, and the keys removed.

The two modes run the same code on their own `memItems`, so each pair of methods
is one function here (`fetch`, `put`, `drop`, …) applied to either.

The items read so far are a cache.  A ledger carries the proof that both caches
are coherent (`Coherent`): a cached item that was not written is the one the tree
holds, under a key that was not removed.
-/

namespace Rigo

open Foundation

variable {T : Type} [LedgerItem T]

/-! ## Uncommitted items -/

/-- `memItems`. -/
structure MemItems (T : Type) [LedgerItem T] where
  gotItems : ItemMap T
  updatedItems : ItemMap T
  removedKeys : List LedgerKey

namespace MemItems

/-- `newMemItems`, and the state after `reset`. -/
def new : MemItems T := ⟨KeyedMap.empty, KeyedMap.empty, []⟩

def appendRemovedKey (m : MemItems T) (k : LedgerKey) : MemItems T :=
  { m with removedKeys := m.removedKeys ++ [k] }

def isRemovedKey (m : MemItems T) (k : LedgerKey) : Bool := m.removedKeys.contains k

def setGotItem (m : MemItems T) (x : T) : MemItems T :=
  { m with gotItems := m.gotItems.insert x }

def setUpdatedItem (m : MemItems T) (x : T) : MemItems T :=
  { m with updatedItems := m.updatedItems.insert x }

def delGotItem (m : MemItems T) (k : LedgerKey) : MemItems T :=
  { m with gotItems := m.gotItems.erase k }

def delUpdatedItem (m : MemItems T) (k : LedgerKey) : MemItems T :=
  { m with updatedItems := m.updatedItems.erase k }

/-- Removes the first occurrence of the key only. -/
def delRemovedKey (m : MemItems T) (k : LedgerKey) : MemItems T :=
  { m with removedKeys := m.removedKeys.erase k }

/-- After a commit the written items count as read, and nothing as written. -/
def refresh (m : MemItems T) : MemItems T :=
  ⟨m.gotItems.overlay m.updatedItems, KeyedMap.empty, []⟩

/-- `SimpleLedger.get` and `FinalityLedger.getFinality`. -/
def fetch (tree : Tree T) (m : MemItems T) (k : LedgerKey) : Except XError T × MemItems T :=
  if m.isRemovedKey k then (.error .errNotFoundResult, m)
  else
    match m.gotItems.find? k with
    | some x => (.ok x, m)
    | none =>
      match ItemMap.read tree.contents k with
      | .error e => (.error e, m)
      | .ok x => (.ok x, m.setGotItem x)

/-- `SimpleLedger.Set` and `FinalityLedger.SetFinality`. -/
def put (m : MemItems T) (x : T) : MemItems T := (m.setUpdatedItem x).setGotItem x

/-- `SimpleLedger.CancelSet` and `FinalityLedger.CancelSetFinality`. -/
def cancelPut (m : MemItems T) (k : LedgerKey) : MemItems T := (m.delUpdatedItem k).delGotItem k

/-- `SimpleLedger.del`, and the part of `FinalityLedger.DelFinality` on its own items. -/
def drop (tree : Tree T) (m : MemItems T) (k : LedgerKey) : Except XError T × MemItems T :=
  match m.fetch tree k with
  | (.error e, m') => (.error e, m')
  | (.ok x, m') => (.ok x, ((m'.delGotItem k).delUpdatedItem k).appendRemovedKey k)

/-- The cached items agree with the written items and with the tree. -/
structure Coherent (tree : Tree T) (m : MemItems T) : Prop where
  updated : ∀ {k : LedgerKey} {x : T}, m.updatedItems.find? k = some x →
    m.gotItems.find? k = some x
  cached : ∀ {k : LedgerKey} {x : T}, m.gotItems.find? k = some x →
    m.updatedItems.find? k = none → k ∉ m.removedKeys ∧ tree.contents.find? k = some x

namespace Coherent

variable {tree : Tree T} {m : MemItems T}

theorem new (tree : Tree T) : Coherent tree (MemItems.new : MemItems T) where
  updated present := by simp [MemItems.new] at present
  cached present := by simp [MemItems.new] at present

theorem put (coherent : Coherent tree m) (x : T) : Coherent tree (m.put x) where
  updated {k y} present := by
    simp only [MemItems.put, setUpdatedItem, setGotItem, KeyedMap.find?_insert] at present ⊢
    split at present
    · next same => rw [if_pos same, present]
    · next other => rw [if_neg other]; exact coherent.updated present
  cached {k y} present missing := by
    simp only [MemItems.put, setUpdatedItem, setGotItem, KeyedMap.find?_insert] at present missing ⊢
    split at missing
    · cases missing
    · next other =>
      rw [if_neg other] at present
      exact coherent.cached present missing

theorem cancelPut (coherent : Coherent tree m) (k : LedgerKey) :
    Coherent tree (m.cancelPut k) where
  updated {k' y} present := by
    simp only [MemItems.cancelPut, delUpdatedItem, delGotItem, KeyedMap.find?_erase] at present ⊢
    split at present
    · cases present
    · next other => rw [if_neg other]; exact coherent.updated present
  cached {k' y} present missing := by
    simp only [MemItems.cancelPut, delUpdatedItem, delGotItem, KeyedMap.find?_erase]
      at present missing ⊢
    split at present
    · cases present
    · next other =>
      rw [if_neg other] at missing
      exact coherent.cached present missing

theorem delRemovedKey (coherent : Coherent tree m) (k : LedgerKey) :
    Coherent tree (m.delRemovedKey k) where
  updated present := coherent.updated present
  cached present missing := by
    obtain ⟨kept, inTree⟩ := coherent.cached present missing
    exact ⟨fun member => kept (List.mem_of_mem_erase member), inTree⟩

theorem appendRemovedKey (coherent : Coherent tree m) {k : LedgerKey}
    (dropped : m.gotItems.find? k = none) : Coherent tree (m.appendRemovedKey k) where
  updated present := coherent.updated present
  cached {k' y} present missing := by
    obtain ⟨kept, inTree⟩ := coherent.cached present missing
    refine ⟨fun member => ?_, inTree⟩
    simp only [MemItems.appendRemovedKey, List.mem_append, List.mem_singleton] at member
    rcases member with member | rfl
    · exact kept member
    · have absent : m.gotItems.find? k' = some y := present
      rw [dropped] at absent
      cases absent

/-- Caching an item that was just read from the tree keeps the cache coherent. -/
theorem setGotItem (coherent : Coherent tree m) {x : T}
    (kept : LedgerItem.key x ∉ m.removedKeys)
    (uncached : m.gotItems.find? (LedgerItem.key x) = none)
    (inTree : tree.contents.find? (LedgerItem.key x) = some x) :
    Coherent tree (m.setGotItem x) where
  updated {k y} present := by
    have cachedToo := coherent.updated present
    simp only [MemItems.setGotItem, KeyedMap.find?_insert]
    split
    · next same =>
      subst same
      rw [uncached] at cachedToo
      cases cachedToo
    · exact cachedToo
  cached {k y} present missing := by
    simp only [MemItems.setGotItem, KeyedMap.find?_insert] at present
    split at present
    · next same =>
      subst same
      obtain rfl : x = y := Option.some.inj present
      exact ⟨kept, inTree⟩
    · exact coherent.cached present missing

end Coherent

/-! ## What the lookups return -/

/-- What a lookup sees: nothing under a removed key, otherwise the written item,
otherwise the committed one. -/
def seen (tree : Tree T) (updated : ItemMap T) (removed : List LedgerKey) (k : LedgerKey) :
    Option T :=
  if k ∈ removed then none else (updated.find? k).or (tree.contents.find? k)

variable {tree : Tree T} {m : MemItems T}

theorem fetch_fst (coherent : Coherent tree m) (k : LedgerKey) :
    (m.fetch tree k).1 = found (seen tree m.updatedItems m.removedKeys k) := by
  unfold fetch seen
  by_cases removed : k ∈ m.removedKeys
  · simp [isRemovedKey, removed]
  · simp only [isRemovedKey, List.contains_iff_mem, removed, if_false]
    cases got : m.gotItems.find? k with
    | some x =>
      cases written : m.updatedItems.find? k with
      | some y =>
        obtain rfl : y = x := Option.some.inj ((coherent.updated written).symm.trans got)
        rfl
      | none =>
        obtain ⟨_, inTree⟩ := coherent.cached got written
        simp [inTree]
    | none =>
      have unwritten : m.updatedItems.find? k = none := by
        cases written : m.updatedItems.find? k with
        | none => rfl
        | some y =>
          have present := coherent.updated written
          rw [got] at present
          cases present
      simp only [ItemMap.read_eq, unwritten, Option.none_or]
      cases tree.contents.find? k <;> rfl

/-- A lookup changes the cache only. -/
theorem fetch_snd (tree : Tree T) (m : MemItems T) (k : LedgerKey) :
    (m.fetch tree k).2.updatedItems = m.updatedItems ∧
      (m.fetch tree k).2.removedKeys = m.removedKeys := by
  unfold fetch
  split
  · exact ⟨rfl, rfl⟩
  · split
    · exact ⟨rfl, rfl⟩
    · split <;> exact ⟨rfl, rfl⟩

theorem Coherent.fetch (coherent : Coherent tree m) (k : LedgerKey) :
    Coherent tree (m.fetch tree k).2 := by
  unfold MemItems.fetch
  split
  · exact coherent
  · next kept =>
    split
    · exact coherent
    · next uncached =>
      split
      · exact coherent
      · next x read =>
        rw [ItemMap.read_eq, found_eq_ok] at read
        obtain rfl := KeyedMap.key_of_find? read
        exact coherent.setGotItem (by simpa [isRemovedKey] using kept) uncached read

theorem Coherent.drop (coherent : Coherent tree m) (k : LedgerKey) :
    Coherent tree (m.drop tree k).2 := by
  have fetched := coherent.fetch k
  unfold MemItems.drop
  split
  · next e m' result => rwa [result] at fetched
  · next x m' result =>
    rw [result] at fetched
    exact (fetched.cancelPut k).appendRemovedKey (by simp [MemItems.cancelPut, MemItems.delGotItem])

theorem Coherent.refresh {committed : Tree T} (coherent : Coherent tree m)
    (written : ∀ k, committed.contents.find? k =
      (m.updatedItems.find? k).or (if k ∈ m.removedKeys then none else tree.contents.find? k)) :
    Coherent committed m.refresh where
  updated present := by simp [MemItems.refresh] at present
  cached {k x} present _ := by
    refine ⟨by simp [MemItems.refresh], ?_⟩
    rw [written]
    simp only [MemItems.refresh, KeyedMap.find?_overlay] at present
    cases updated : m.updatedItems.find? k with
    | some y => simpa [updated] using present
    | none =>
      obtain ⟨kept, inTree⟩ := coherent.cached (by simpa [updated] using present) updated
      simp [kept, inTree]

end MemItems

/-! ## The ledger -/

/-- `FinalityLedger`, with its two coherent caches. -/
structure FinalityLedger (T : Type) [LedgerItem T] where
  tree : Tree T
  cachedItems : MemItems T
  finalityItems : MemItems T
  cachedCoherent : cachedItems.Coherent tree
  finalityCoherent : finalityItems.Coherent tree

namespace FinalityLedger

/-- `NewFinalityLedger` over a database: the tree is loaded at its latest version. -/
def new (stored : Tree T) : FinalityLedger T where
  tree := stored.load
  cachedItems := MemItems.new
  finalityItems := MemItems.new
  cachedCoherent := .new _
  finalityCoherent := .new _

/-! ### Simulation mode -/

/-- `SimpleLedger.Set`. -/
def set (l : FinalityLedger T) (x : T) : FinalityLedger T :=
  { l with cachedItems := l.cachedItems.put x, cachedCoherent := l.cachedCoherent.put x }

/-- `SimpleLedger.CancelSet`. -/
def cancelSet (l : FinalityLedger T) (k : LedgerKey) : FinalityLedger T :=
  { l with
    cachedItems := l.cachedItems.cancelPut k
    cachedCoherent := l.cachedCoherent.cancelPut k }

/-- `SimpleLedger.Get`. -/
def get (l : FinalityLedger T) (k : LedgerKey) : Except XError T × FinalityLedger T :=
  ((l.cachedItems.fetch l.tree k).1,
    { l with
      cachedItems := (l.cachedItems.fetch l.tree k).2
      cachedCoherent := l.cachedCoherent.fetch k })

/-- `SimpleLedger.Del`. -/
def del (l : FinalityLedger T) (k : LedgerKey) : Except XError T × FinalityLedger T :=
  ((l.cachedItems.drop l.tree k).1,
    { l with
      cachedItems := (l.cachedItems.drop l.tree k).2
      cachedCoherent := l.cachedCoherent.drop k })

/-- `SimpleLedger.CancelDel`. -/
def cancelDel (l : FinalityLedger T) (k : LedgerKey) : FinalityLedger T :=
  { l with
    cachedItems := l.cachedItems.delRemovedKey k
    cachedCoherent := l.cachedCoherent.delRemovedKey k }

/-- `SimpleLedger.Read`: the committed item, past both caches. -/
def read (l : FinalityLedger T) (k : LedgerKey) : Except XError T :=
  ItemMap.read l.tree.contents k

/-! ### Finality mode -/

/-- `FinalityLedger.SetFinality`.  The list of removed keys is left as it is. -/
def setFinality (l : FinalityLedger T) (x : T) : FinalityLedger T :=
  { l with finalityItems := l.finalityItems.put x, finalityCoherent := l.finalityCoherent.put x }

/-- `FinalityLedger.CancelSetFinality`. -/
def cancelSetFinality (l : FinalityLedger T) (k : LedgerKey) : FinalityLedger T :=
  { l with
    finalityItems := l.finalityItems.cancelPut k
    finalityCoherent := l.finalityCoherent.cancelPut k }

/-- `FinalityLedger.GetFinality`. -/
def getFinality (l : FinalityLedger T) (k : LedgerKey) : Except XError T × FinalityLedger T :=
  ((l.finalityItems.fetch l.tree k).1,
    { l with
      finalityItems := (l.finalityItems.fetch l.tree k).2
      finalityCoherent := l.finalityCoherent.fetch k })

/-- `FinalityLedger.DelFinality`: the item is removed in simulation mode too, and
whether that succeeds is ignored. -/
def delFinality (l : FinalityLedger T) (k : LedgerKey) : Except XError T × FinalityLedger T :=
  ((l.finalityItems.drop l.tree k).1,
    { (l.del k).2 with
      finalityItems := (l.finalityItems.drop l.tree k).2
      finalityCoherent := l.finalityCoherent.drop k })

/-- `FinalityLedger.CancelDelFinality`. -/
def cancelDelFinality (l : FinalityLedger T) (k : LedgerKey) : FinalityLedger T :=
  { l with
    finalityItems := l.finalityItems.delRemovedKey k
    finalityCoherent := l.finalityCoherent.delRemovedKey k }

/-! ### Commit -/

/-- The tree `Commit` saves: the removed keys are taken out first, in the order of
their removal, and then the written items are set in descending order of their
keys (`LedgerKeyList.Less`). -/
def committedTree (tree : Tree T) (updated : ItemMap T) (removed : List LedgerKey) : Tree T :=
  (updated.items.reverse.foldl Tree.set (removed.foldl Tree.remove tree)).saveVersion

theorem contents_foldl_remove (tree : Tree T) (removed : List LedgerKey) :
    (removed.foldl Tree.remove tree).contents = tree.contents.eraseAll removed := by
  induction removed generalizing tree with
  | nil => rfl
  | cons head tail ih =>
    rw [List.foldl_cons, ih, KeyedMap.eraseAll, KeyedMap.eraseAll, List.foldl_cons]
    rfl

theorem contents_foldl_set (tree : Tree T) (items : List T) :
    (items.foldl Tree.set tree).contents = tree.contents.insertAll items := by
  induction items generalizing tree with
  | nil => rfl
  | cons head tail ih =>
    rw [List.foldl_cons, ih, KeyedMap.insertAll, KeyedMap.insertAll, List.foldl_cons]
    rfl

/-- What is committed under a key: the written item, or what was there unless the
key was removed. -/
theorem find?_committedTree (tree : Tree T) (updated : ItemMap T) (removed : List LedgerKey)
    (k : LedgerKey) :
    (committedTree tree updated removed).contents.find? k =
      (updated.find? k).or (if k ∈ removed then none else tree.contents.find? k) := by
  rw [committedTree, Tree.contents_saveVersion, contents_foldl_set, contents_foldl_remove,
    KeyedMap.find?_insertAll_items updated (List.reverse_perm _), KeyedMap.find?_eraseAll]

/-- `FinalityLedger.Commit`.  The root hash is a function of the operations on the
tree (`Tree.log`), and the version is that of the saved tree. -/
def commit (l : FinalityLedger T) : FinalityLedger T where
  tree := committedTree l.tree l.finalityItems.updatedItems l.finalityItems.removedKeys
  cachedItems := MemItems.new
  finalityItems := l.finalityItems.refresh
  cachedCoherent := .new _
  finalityCoherent := l.finalityCoherent.refresh (find?_committedTree _ _ _)

end FinalityLedger

end Rigo
