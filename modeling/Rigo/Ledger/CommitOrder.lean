import Rigo.Ledger.Simulation

/-!
# The order of the operations of a commit

The root hash of a tree depends on the order of its operations.  `Commit` gets the keys it writes
from a Go map, which is iterated in any order, and sorts them with `sort.Sort`, of which only is used
that the result is sorted.  A `CommitKeys` is one outcome of the two.

The order on the keys is strict and total, so there is one outcome only (`CommitKeys.sorted_eq`), and
the tree is that of `FinalityLedger.commit` (`committedIn_eq`).  The operations also determine what was
written: `updated_of_commit`.
-/

namespace Rigo

open Foundation

variable {T : Type} [LedgerItem T]

/-- `LedgerKeyList.Less`. -/
def LedgerKey.less (k k' : LedgerKey) : Bool := compare k k' == .gt

theorem LedgerKey.gt_of_not_less {k k' : LedgerKey} (ordered : k'.less k = false) (other : k ≠ k') :
    compare k k' = .gt := by
  cases compared : compare k k' with
  | lt =>
    have back := Std.OrientedCmp.gt_of_lt compared
    rw [less, back] at ordered
    cases ordered
  | eq => exact absurd (Std.LawfulEqOrd.eq_of_compare compared) other
  | gt => rfl

/-- The keys of the written items, as the loop of `Commit` collects them and as `sort.Sort` leaves
them. -/
structure CommitKeys (updated : ItemMap T) where
  ranged : List LedgerKey
  sorted : List LedgerKey
  once : ranged.Nodup
  all : ∀ k, k ∈ ranged ↔ (updated.find? k).isSome
  permuted : sorted.Perm ranged
  ordered : sorted.Pairwise fun k k' => k'.less k = false

namespace CommitKeys

variable {updated : ItemMap T}

/-- The keys in descending order, which is one outcome. -/
def descending (updated : ItemMap T) : CommitKeys updated where
  ranged := updated.items.map LedgerItem.key
  sorted := (updated.items.map LedgerItem.key).reverse
  once := updated.nodup_map_key_items
  all k := by
    rw [List.mem_map]
    constructor
    · rintro ⟨x, member, rfl⟩
      rw [KeyedMap.mem_items.mp member]
      rfl
    · intro present
      obtain ⟨x, found⟩ := Option.isSome_iff_exists.mp present
      exact ⟨x, KeyedMap.mem_items_of_find? found, KeyedMap.key_of_find? found⟩
  permuted := List.reverse_perm _
  ordered := by
    rw [List.pairwise_reverse, List.pairwise_map]
    refine updated.pairwise_items.imp fun {x y} ascending => ?_
    rw [LedgerKey.less, ascending]
    rfl

/-- The sorted keys are strictly descending. -/
theorem pairwise_gt (keys : CommitKeys updated) :
    keys.sorted.Pairwise fun k k' => compare k k' = .gt := by
  have distinct : keys.sorted.Nodup := keys.permuted.nodup_iff.mpr keys.once
  exact keys.ordered.imp₂ (fun _ _ => LedgerKey.gt_of_not_less) distinct

/-- There is one outcome of the sorting only. -/
theorem sorted_eq (keys : CommitKeys updated) :
    keys.sorted = (updated.items.map LedgerItem.key).reverse := by
  have same (k : LedgerKey) : k ∈ keys.sorted ↔ k ∈ (descending updated).sorted := by
    rw [keys.permuted.mem_iff, (descending updated).permuted.mem_iff, keys.all,
      (descending updated).all]
  have permuted : keys.sorted.Perm (descending updated).sorted :=
    (List.perm_ext_iff_of_nodup (keys.permuted.nodup_iff.mpr keys.once)
      ((descending updated).permuted.nodup_iff.mpr (descending updated).once)).mpr same
  refine permuted.eq_of_pairwise (fun k k' _ _ first second => ?_) keys.pairwise_gt
    (descending updated).pairwise_gt
  have back := Std.OrientedCmp.lt_of_gt first
  rw [second] at back
  cases back

end CommitKeys

namespace FinalityLedger

/-- The tree that `Commit` saves if it sets the items under the keys in some order. -/
def committedIn (tree : Tree T) (updated : ItemMap T) (removed keys : List LedgerKey) : Tree T :=
  ((keys.filterMap updated.find?).foldl Tree.set (removed.foldl Tree.remove tree)).saveVersion

/-- Whatever the order of the iteration, `Commit` saves the same tree. -/
theorem committedIn_eq {updated : ItemMap T} (keys : CommitKeys updated) (tree : Tree T)
    (removed : List LedgerKey) :
    committedIn tree updated removed keys.sorted = committedTree tree updated removed := by
  have items : (updated.items.map LedgerItem.key).filterMap updated.find? = updated.items := by
    rw [List.filterMap_map]
    refine (List.filterMap_congr fun x member => ?_).trans List.filterMap_some
    exact KeyedMap.mem_items.mp member
  rw [committedIn, committedTree, keys.sorted_eq, List.filterMap_reverse, items]

/-! ## The operations -/

theorem log_foldl_set (tree : Tree T) (items : List T) :
    (items.foldl Tree.set tree).log =
      tree.log ++ items.map fun x => .set (LedgerItem.key x) (LedgerItem.encode x) := by
  induction items generalizing tree with
  | nil => simp
  | cons x rest ih => simp [ih, Tree.set]

theorem log_foldl_remove (tree : Tree T) (removed : List LedgerKey) :
    (removed.foldl Tree.remove tree).log = tree.log ++ removed.map .remove := by
  induction removed generalizing tree with
  | nil => simp
  | cons k rest ih => simp [ih, Tree.remove]

/-- The operations of a commit. -/
theorem log_committedTree (tree : Tree T) (updated : ItemMap T) (removed : List LedgerKey) :
    (committedTree tree updated removed).log = tree.log ++ removed.map .remove ++
      (updated.items.reverse.map fun x => .set (LedgerItem.key x) (LedgerItem.encode x)) ++
        [.saveVersion] := by
  rw [committedTree, Tree.saveVersion, log_foldl_set, log_foldl_remove]

/-- Commits with the same operations wrote under the same keys. -/
theorem updated_of_commit {tree : Tree T} {updated updated' : ItemMap T} {removed : List LedgerKey}
    (same : (committedTree tree updated removed).log = (committedTree tree updated' removed).log)
    (k : LedgerKey) : (updated.find? k).isSome = (updated'.find? k).isSome := by
  rw [log_committedTree, log_committedTree, List.append_cancel_right_eq,
    List.append_cancel_left_eq] at same
  have keys : updated.items.reverse.map LedgerItem.key =
      updated'.items.reverse.map LedgerItem.key := by
    have projected := congrArg (List.filterMap fun op : TreeOp (LedgerItem.Encoded T) =>
      match op with
      | .set k _ => some k
      | _ => none) same
    simpa [List.filterMap_map, Function.comp_def] using projected
  rw [List.map_reverse, List.map_reverse, List.reverse_inj] at keys
  have member := (CommitKeys.descending updated).all k
  have member' := (CommitKeys.descending updated').all k
  rw [Bool.eq_iff_iff, ← member, ← member']
  change k ∈ updated.items.map LedgerItem.key ↔ k ∈ updated'.items.map LedgerItem.key
  rw [keys]

end FinalityLedger

end Rigo
