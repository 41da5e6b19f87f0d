import Rigo.Ledger.Finality

/-!
# The finality ledger without its caches

A `Store` is what the finality mode of a ledger amounts to: the committed tree,
the items written since the last commit and the keys removed since then.  It has
no cache of read items and no simulation mode.

`FinalityLedger.store` forgets the rest.  Every finality operation of the ledger
answers as the store does and leads to the store's next state, and the operations
of the simulation mode leave the store as it is; so whatever is proved of the
store holds of the ledger, whatever its caches contain.

The contents of a store as one finite map are its `view`.  A store is `Clean` if
no removed key was written again; on clean stores the operations are those of a
map, and a commit does not change the view.
-/

namespace Rigo

open Foundation

/-- The committed tree with the uncommitted writes and removals of the finality mode. -/
structure Store (T : Type) [LedgerItem T] where
  tree : Tree T
  updated : ItemMap T
  removed : List LedgerKey

namespace Store

variable {T : Type} [LedgerItem T]

/-- The state after opening a database. -/
def new (stored : Tree T) : Store T := ⟨stored.load, KeyedMap.empty, []⟩

/-- The item a lookup sees under a key. -/
def lookup (s : Store T) (k : LedgerKey) : Option T :=
  MemItems.seen s.tree s.updated s.removed k

def get (s : Store T) (k : LedgerKey) : Except XError T := found (s.lookup k)

def set (s : Store T) (x : T) : Store T := { s with updated := s.updated.insert x }

def cancelSet (s : Store T) (k : LedgerKey) : Store T := { s with updated := s.updated.erase k }

/-- The state after deleting `k`; nothing changes if there is no item under it. -/
def erase (s : Store T) (k : LedgerKey) : Store T :=
  match s.lookup k with
  | none => s
  | some _ => { s with updated := s.updated.erase k, removed := s.removed ++ [k] }

def del (s : Store T) (k : LedgerKey) : Except XError T × Store T := (s.get k, s.erase k)

def cancelDel (s : Store T) (k : LedgerKey) : Store T := { s with removed := s.removed.erase k }

def commit (s : Store T) : Store T :=
  ⟨FinalityLedger.committedTree s.tree s.updated s.removed, KeyedMap.empty, []⟩

theorem lookup_eq (s : Store T) (k : LedgerKey) :
    s.lookup k =
      if k ∈ s.removed then none else (s.updated.find? k).or (s.tree.contents.find? k) := rfl

end Store

/-! ## The ledger behaves as its store -/

namespace FinalityLedger

variable {T : Type} [LedgerItem T]

/-- Forget the caches and the simulation mode. -/
def store (l : FinalityLedger T) : Store T :=
  ⟨l.tree, l.finalityItems.updatedItems, l.finalityItems.removedKeys⟩

/-- What the simulation mode sees, as a store of its own. -/
def simulated (l : FinalityLedger T) : Store T :=
  ⟨l.tree, l.cachedItems.updatedItems, l.cachedItems.removedKeys⟩

@[simp] theorem store_new (stored : Tree T) : (new stored).store = Store.new stored := rfl

theorem drop_fst {tree : Tree T} {m : MemItems T} (coherent : m.Coherent tree) (k : LedgerKey) :
    (m.drop tree k).1 = (Store.get ⟨tree, m.updatedItems, m.removedKeys⟩ k) := by
  have fetched := MemItems.fetch_fst coherent k
  unfold MemItems.drop
  split
  · next result => rw [result] at fetched; exact fetched
  · next result => rw [result] at fetched; exact fetched

theorem drop_snd {tree : Tree T} {m : MemItems T} (coherent : m.Coherent tree) (k : LedgerKey) :
    (⟨tree, (m.drop tree k).2.updatedItems, (m.drop tree k).2.removedKeys⟩ : Store T) =
      Store.erase ⟨tree, m.updatedItems, m.removedKeys⟩ k := by
  have fetched := MemItems.fetch_fst coherent k
  obtain ⟨updated, removed⟩ := MemItems.fetch_snd tree m k
  unfold MemItems.drop Store.erase
  cases here : Store.lookup ⟨tree, m.updatedItems, m.removedKeys⟩ k with
  | none =>
    have missing : MemItems.seen tree m.updatedItems m.removedKeys k = none := here
    rw [missing] at fetched
    split
    · next e m' result =>
      rw [result] at updated removed
      exact congrArg₂ (Store.mk tree) updated removed
    · next x m' result =>
      rw [result] at fetched
      cases fetched
  | some x =>
    have present : MemItems.seen tree m.updatedItems m.removedKeys k = some x := here
    rw [present] at fetched
    split
    · next e m' result =>
      rw [result] at fetched
      cases fetched
    · next y m' result =>
      rw [result] at updated removed
      exact congrArg₂ (fun u r => Store.mk tree (KeyedMap.erase u k) (r ++ [k])) updated removed

variable (l : FinalityLedger T)

/-! ### Finality mode -/

theorem getFinality_fst (k : LedgerKey) : (l.getFinality k).1 = l.store.get k :=
  MemItems.fetch_fst l.finalityCoherent k

@[simp] theorem store_getFinality (k : LedgerKey) : (l.getFinality k).2.store = l.store := by
  obtain ⟨updated, removed⟩ := MemItems.fetch_snd l.tree l.finalityItems k
  simp only [store, getFinality, updated, removed]

@[simp] theorem store_setFinality (x : T) : (l.setFinality x).store = l.store.set x := rfl

@[simp] theorem store_cancelSetFinality (k : LedgerKey) :
    (l.cancelSetFinality k).store = l.store.cancelSet k := rfl

theorem delFinality_fst (k : LedgerKey) : (l.delFinality k).1 = (l.store.del k).1 :=
  drop_fst l.finalityCoherent k

@[simp] theorem store_delFinality (k : LedgerKey) :
    (l.delFinality k).2.store = (l.store.del k).2 :=
  drop_snd l.finalityCoherent k

@[simp] theorem store_cancelDelFinality (k : LedgerKey) :
    (l.cancelDelFinality k).store = l.store.cancelDel k := rfl

@[simp] theorem store_commit : l.commit.store = l.store.commit := rfl

/-! ### Simulation mode -/

theorem get_fst (k : LedgerKey) : (l.get k).1 = l.simulated.get k :=
  MemItems.fetch_fst l.cachedCoherent k

@[simp] theorem store_get (k : LedgerKey) : (l.get k).2.store = l.store := rfl

@[simp] theorem store_set (x : T) : (l.set x).store = l.store := rfl

@[simp] theorem store_cancelSet (k : LedgerKey) : (l.cancelSet k).store = l.store := rfl

@[simp] theorem store_del (k : LedgerKey) : (l.del k).2.store = l.store := rfl

@[simp] theorem store_cancelDel (k : LedgerKey) : (l.cancelDel k).store = l.store := rfl

/-- After a commit the simulation mode sees the committed items. -/
@[simp] theorem simulated_commit : l.commit.simulated = l.store.commit := rfl

end FinalityLedger

/-! ## The contents of a store as one map -/

namespace Store

variable {T : Type} [LedgerItem T]

/-- The items a store holds, as one finite map. -/
def view (s : Store T) : ItemMap T := (s.tree.contents.overlay s.updated).eraseAll s.removed

@[simp] theorem find?_view (s : Store T) (k : LedgerKey) : s.view.find? k = s.lookup k := by
  rw [view, KeyedMap.find?_eraseAll, KeyedMap.find?_overlay, lookup_eq]

theorem key_of_lookup {s : Store T} {k : LedgerKey} {x : T} (present : s.lookup k = some x) :
    LedgerItem.key x = k := by
  rw [← find?_view] at present
  exact KeyedMap.key_of_find? present

theorem not_mem_removed {s : Store T} {k : LedgerKey} {x : T} (present : s.lookup k = some x) :
    k ∉ s.removed := by
  intro gone
  rw [lookup_eq, if_pos gone] at present
  cases present

theorem lookup_set (s : Store T) (x : T) (k : LedgerKey) :
    (s.set x).lookup k =
      if LedgerItem.key x = k ∧ k ∉ s.removed then some x else s.lookup k := by
  simp only [lookup_eq, set, KeyedMap.find?_insert]
  by_cases gone : k ∈ s.removed
  · simp [gone]
  · by_cases same : LedgerItem.key x = k <;> simp [gone, same]

theorem lookup_erase (s : Store T) (k k' : LedgerKey) :
    (s.erase k).lookup k' = if k = k' then none else s.lookup k' := by
  unfold erase
  cases present : s.lookup k with
  | none =>
    by_cases same : k = k'
    · subst same
      simp [present]
    · simp [same]
  | some x =>
    simp only [lookup_eq, List.mem_append, List.mem_singleton, KeyedMap.find?_erase]
    by_cases same : k = k'
    · simp [same]
    · simp [same, Ne.symm same]

theorem mem_removed_erase (s : Store T) (k k' : LedgerKey) :
    k' ∈ (s.erase k).removed ↔ k' ∈ s.removed ∨ (k' = k ∧ (s.lookup k).isSome) := by
  unfold erase
  cases s.lookup k <;> simp

theorem lookup_commit (s : Store T) (k : LedgerKey) :
    s.commit.lookup k =
      (s.updated.find? k).or (if k ∈ s.removed then none else s.tree.contents.find? k) := by
  simp [lookup_eq, commit, FinalityLedger.find?_committedTree]

/-- A commit adds its contents to the saved versions. -/
theorem versions_commit (s : Store T) :
    s.commit.tree.versions = s.tree.versions ++ [s.commit.tree.contents] := by
  have kept (items : List T) (tree : Tree T) :
      (items.foldl Tree.set tree).versions = tree.versions := by
    induction items generalizing tree with
    | nil => rfl
    | cons head tail ih => exact ih (tree.set head)
  have kept' (keys : List LedgerKey) (tree : Tree T) :
      (keys.foldl Tree.remove tree).versions = tree.versions := by
    induction keys generalizing tree with
    | nil => rfl
    | cons head tail ih => exact ih (tree.remove head)
  change (FinalityLedger.committedTree s.tree s.updated s.removed).versions = _
  rw [FinalityLedger.committedTree, Tree.versions_saveVersion, kept, kept']
  rfl

theorem version_commit (s : Store T) : s.commit.tree.version = s.tree.version + 1 := by
  simp [Tree.version, versions_commit]

/-- No removed key has been written again. -/
def Clean (s : Store T) : Prop := ∀ k ∈ s.removed, s.updated.find? k = none

theorem clean_new (stored : Tree T) : (new stored).Clean := by
  intro k member
  cases member

theorem clean_commit (s : Store T) : s.commit.Clean := by
  intro k member
  cases member

theorem Clean.set {s : Store T} (clean : s.Clean) {x : T}
    (kept : LedgerItem.key x ∉ s.removed) : (s.set x).Clean := by
  intro k member
  have other : LedgerItem.key x ≠ k := fun same => kept (same ▸ member)
  simpa only [Store.set, KeyedMap.find?_insert_of_ne _ other] using clean k member

theorem Clean.erase {s : Store T} (clean : s.Clean) (k : LedgerKey) : (s.erase k).Clean := by
  unfold Store.erase
  split
  · exact clean
  · intro k' member
    simp only [List.mem_append, List.mem_singleton] at member
    by_cases same : k = k'
    · subst same
      exact KeyedMap.find?_erase_self _ _
    · rw [KeyedMap.find?_erase_of_ne _ same]
      rcases member with member | rfl
      · exact clean k' member
      · exact absurd rfl same

theorem view_set {s : Store T} {x : T} (kept : LedgerItem.key x ∉ s.removed) :
    (s.set x).view = s.view.insert x := by
  ext1 k
  rw [find?_view, lookup_set, KeyedMap.find?_insert, find?_view]
  by_cases same : LedgerItem.key x = k
  · subst same
    simp [kept]
  · simp [same]

@[simp] theorem view_erase (s : Store T) (k : LedgerKey) : (s.erase k).view = s.view.erase k := by
  ext1 k'
  rw [find?_view, lookup_erase, KeyedMap.find?_erase, find?_view]

/-- A commit of a clean store does not change what it holds. -/
theorem view_commit {s : Store T} (clean : s.Clean) : s.commit.view = s.view := by
  ext1 k
  rw [find?_view, lookup_commit, find?_view, lookup_eq]
  by_cases gone : k ∈ s.removed
  · simp [gone, clean k gone]
  · simp [gone]

end Store

end Rigo
