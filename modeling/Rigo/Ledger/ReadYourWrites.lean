import Rigo.Ctrlers.Types.Account

/-!
# Reading one's own writes

The finality ledger is meant to be a map: `GetFinality` returns the item set last
under a key, unless the key was deleted since.  `ReadsItsWrites` states this for
the ledger reached by a sequence of calls.

It holds of a sequence and all its prefixes exactly if no item is set under a key
that was deleted since the last `Commit` (`readsItsWrites_iff`).  Such an item is
not seen until the next `Commit`, because `SetFinality` leaves the key in the list
of removed keys and `getFinality` looks there first; `Commit` then writes it, as
the comment on issue #58 asks for.
-/

namespace Rigo

open Foundation
open FinalityLedger Store

namespace ReadYourWrites

variable {T : Type} [LedgerItem T]

/-- The calls of the finality mode. -/
inductive Call (T : Type) where
  | setFinality (x : T)
  | getFinality (k : LedgerKey)
  | delFinality (k : LedgerKey)
  | commit

/-- The ledger after one call. -/
def Call.apply (l : FinalityLedger T) : Call T → FinalityLedger T
  | setFinality x => l.setFinality x
  | getFinality k => (l.getFinality k).2
  | delFinality k => (l.delFinality k).2
  | commit => l.commit

/-- The ledger after a sequence of calls on an empty ledger. -/
def after (calls : List (Call T)) : FinalityLedger T :=
  calls.foldl Call.apply (FinalityLedger.new Tree.empty)

/-! ## The map the ledger stands for -/

/-- How one call changes the item held under `k`. -/
def hold (k : LedgerKey) (held : Option T) : Call T → Option T
  | .setFinality x => if LedgerItem.key x = k then some x else held
  | .delFinality k' => if k' = k then none else held
  | .getFinality _ => held
  | .commit => held

/-- The item of the last `SetFinality` under `k` that no `DelFinality` of `k` follows. -/
def lastSet (calls : List (Call T)) (k : LedgerKey) : Option T := calls.foldl (hold k) none

/-- What the calls answer on the ledger reached by `calls`. -/
structure ReadsItsWrites (calls : List (Call T)) : Prop where
  getFinality : ∀ k, ((after calls).getFinality k).1 = found (lastSet calls k)
  delFinality : ∀ k,
    ((after calls).delFinality k).1.isOk = ((after calls).getFinality k).1.isOk
  read : ∀ k, (after calls).commit.read k = found (lastSet calls k)
  get : ∀ k, ((after calls).commit.get k).1 = found (lastSet calls k)
  getFinality_commit : ∀ k, ((after calls).commit.getFinality k).1 = found (lastSet calls k)

/-- A `DelFinality` found an item under `k`, and no `Commit` came after it. -/
def DeletedSinceCommit (calls : List (Call T)) (k : LedgerKey) : Prop :=
  ∃ before since, calls = before ++ .delFinality k :: since ∧
    (lastSet before k).isSome ∧ Call.commit ∉ since

/-- An item is set under a key that was deleted since the last `Commit`. -/
def RecreatedBeforeCommit (calls : List (Call T)) : Prop :=
  ∃ before x rest, calls = before ++ .setFinality x :: rest ∧
    DeletedSinceCommit before (LedgerItem.key x)

@[simp] theorem lastSet_snoc (calls : List (Call T)) (call : Call T) (k : LedgerKey) :
    lastSet (calls ++ [call]) k = hold k (lastSet calls k) call := by
  simp [lastSet]

@[simp] theorem after_snoc (calls : List (Call T)) (call : Call T) :
    after (calls ++ [call]) = call.apply (after calls) := by
  simp [after]

theorem not_deletedSinceCommit_nil (k : LedgerKey) :
    ¬ DeletedSinceCommit ([] : List (Call T)) k := by
  rintro ⟨before, since, same, -, -⟩
  simp at same

theorem deletedSinceCommit_snoc (calls : List (Call T)) (call : Call T) (k : LedgerKey) :
    DeletedSinceCommit (calls ++ [call]) k ↔
      (call = .delFinality k ∧ (lastSet calls k).isSome) ∨
        (call ≠ .commit ∧ DeletedSinceCommit calls k) := by
  constructor
  · rintro ⟨before, since, same, present, kept⟩
    rcases List.eq_nil_or_concat since with rfl | ⟨since, last, rfl⟩
    · obtain ⟨rfl, one⟩ := List.append_inj' same rfl
      cases one
      exact Or.inl ⟨rfl, present⟩
    · rw [List.concat_eq_append, ← List.cons_append, ← List.append_assoc] at same
      obtain ⟨rfl, one⟩ := List.append_inj' same rfl
      cases one
      simp only [List.concat_eq_append, List.mem_append, List.mem_singleton, not_or] at kept
      exact Or.inr ⟨Ne.symm kept.2, before, since, rfl, present, kept.1⟩
  · rintro (⟨rfl, present⟩ | ⟨other, before, since, rfl, present, kept⟩)
    · exact ⟨calls, [], rfl, present, by simp⟩
    · refine ⟨before, since ++ [call], by simp, present, ?_⟩
      simp [kept, Ne.symm other]

theorem recreatedBeforeCommit_snoc (calls : List (Call T)) (call : Call T) :
    RecreatedBeforeCommit (calls ++ [call]) ↔
      RecreatedBeforeCommit calls ∨
        ∃ x, call = .setFinality x ∧ DeletedSinceCommit calls (LedgerItem.key x) := by
  constructor
  · rintro ⟨before, x, rest, same, deleted⟩
    rcases List.eq_nil_or_concat rest with rfl | ⟨rest, last, rfl⟩
    · obtain ⟨rfl, one⟩ := List.append_inj' same rfl
      cases one
      exact Or.inr ⟨x, rfl, deleted⟩
    · rw [List.concat_eq_append, ← List.cons_append, ← List.append_assoc] at same
      obtain ⟨rfl, one⟩ := List.append_inj' same rfl
      exact Or.inl ⟨before, x, rest, rfl, deleted⟩
  · rintro (⟨before, x, rest, rfl, deleted⟩ | ⟨x, rfl, deleted⟩)
    · exact ⟨before, x, rest ++ [call], by simp, deleted⟩
    · exact ⟨calls, x, [], rfl, deleted⟩

/-! ## What the ledger keeps track of -/

/-- The store after `calls` holds the items of the map, its list of removed keys
is the keys deleted since the last commit, and none of them was written again. -/
structure Tracks (calls : List (Call T)) : Prop where
  lookup : ∀ k, (after calls).store.lookup k = lastSet calls k
  removed : ∀ k, k ∈ (after calls).store.removed ↔ DeletedSinceCommit calls k
  clean : (after calls).store.Clean

theorem tracks_nil : Tracks ([] : List (Call T)) where
  lookup k := by simp [after, lookup_eq, Store.new, Tree.load, Tree.empty, Tree.lastSaved,
    lastSet]
  removed k := by simp [after, Store.new, not_deletedSinceCommit_nil]
  clean := clean_new _

variable {calls : List (Call T)}

theorem Tracks.setFinality (tracks : Tracks calls) {x : T}
    (kept : ¬ DeletedSinceCommit calls (LedgerItem.key x)) :
    Tracks (calls ++ [.setFinality x]) where
  lookup k := by
    have free : LedgerItem.key x ∉ (after calls).store.removed := by rwa [tracks.removed]
    simp only [after_snoc, Call.apply, store_setFinality, lookup_set,
      lastSet_snoc, hold, tracks.lookup]
    by_cases same : LedgerItem.key x = k
    · subst same
      simp [free]
    · simp [same]
  removed k := by
    simp only [after_snoc, Call.apply, store_setFinality, Store.set,
      tracks.removed, deletedSinceCommit_snoc]
    simp
  clean := by
    simp only [after_snoc, Call.apply, store_setFinality]
    apply tracks.clean.set
    rwa [tracks.removed]

theorem Tracks.getFinality (tracks : Tracks calls) (k : LedgerKey) :
    Tracks (calls ++ [.getFinality k]) where
  lookup k' := by simpa [Call.apply, hold] using tracks.lookup k'
  removed k' := by simpa [Call.apply, deletedSinceCommit_snoc] using tracks.removed k'
  clean := by simpa [Call.apply] using tracks.clean

theorem Tracks.delFinality (tracks : Tracks calls) (k : LedgerKey) :
    Tracks (calls ++ [.delFinality k]) where
  lookup k' := by
    simp [Call.apply, Store.del, lookup_erase, hold, tracks.lookup]
  removed k' := by
    simp only [after_snoc, Call.apply, store_delFinality, Store.del,
      mem_removed_erase, tracks.removed, tracks.lookup, deletedSinceCommit_snoc]
    constructor
    · rintro (deleted | ⟨rfl, present⟩)
      · exact Or.inr ⟨by simp, deleted⟩
      · exact Or.inl ⟨rfl, present⟩
    · rintro (⟨same, present⟩ | ⟨-, deleted⟩)
      · cases same
        exact Or.inr ⟨rfl, present⟩
      · exact Or.inl deleted
  clean := by
    simp only [after_snoc, Call.apply, store_delFinality]
    exact tracks.clean.erase k

theorem lookup_commit_of_tracks (tracks : Tracks calls) (k : LedgerKey) :
    (after calls).store.commit.lookup k = lastSet calls k := by
  rw [← find?_view, view_commit tracks.clean, find?_view, tracks.lookup]

theorem Tracks.commit (tracks : Tracks calls) :
    Tracks (calls ++ [.commit]) where
  lookup k := by
    simpa [Call.apply, hold] using lookup_commit_of_tracks tracks k
  removed k := by simp [Call.apply, Store.commit, deletedSinceCommit_snoc]
  clean := by simpa [Call.apply] using clean_commit _

theorem tracks_of_not_recreated (calls : List (Call T))
    (never : ¬ RecreatedBeforeCommit calls) : Tracks calls := by
  induction calls using List.reverseRecOn with
  | nil => exact tracks_nil
  | append_singleton calls call ih =>
    rw [recreatedBeforeCommit_snoc, not_or] at never
    have tracks := ih never.1
    cases call with
    | setFinality x => exact tracks.setFinality fun deleted => never.2 ⟨x, rfl, deleted⟩
    | getFinality k => exact tracks.getFinality k
    | delFinality k => exact tracks.delFinality k
    | commit => exact tracks.commit

/-! ## The two directions -/

theorem delFinality_isOk (l : FinalityLedger T) (k : LedgerKey) :
    (l.delFinality k).1.isOk = (l.getFinality k).1.isOk := by
  rw [delFinality_fst, getFinality_fst, Store.del]

theorem readsItsWrites_of_tracks (tracks : Tracks calls) :
    ReadsItsWrites calls where
  getFinality k := by
    rw [getFinality_fst, Store.get, tracks.lookup]
  delFinality k := delFinality_isOk _ k
  read k := by
    have committed := lookup_commit_of_tracks tracks k
    simpa [FinalityLedger.read, FinalityLedger.commit, lookup_eq, Store.commit,
      store] using congrArg found committed
  get k := by
    rw [get_fst, simulated_commit, Store.get,
      lookup_commit_of_tracks tracks]
  getFinality_commit k := by
    rw [getFinality_fst, store_commit, Store.get,
      lookup_commit_of_tracks tracks]

/-- An item set under a key deleted since the last commit is not found. -/
theorem not_readsItsWrites_of_deleted {x : T} (tracks : Tracks calls)
    (deleted : DeletedSinceCommit calls (LedgerItem.key x)) :
    ¬ ReadsItsWrites (calls ++ [.setFinality x]) := by
  intro reads
  have gone : LedgerItem.key x ∈ (after calls).store.removed := by rwa [tracks.removed]
  have answer := reads.getFinality (LedgerItem.key x)
  have missing : (after calls).store.lookup (LedgerItem.key x) = none := by
    simp [lookup_eq, gone]
  simp [getFinality_fst, Store.get, Call.apply, lookup_set, gone, hold,
    missing] at answer

/-- The ledger is a map with read-your-writes along a sequence of calls exactly if
no item is set under a key that was deleted since the last `Commit`. -/
theorem readsItsWrites_iff (calls : List (Call T)) :
    (∀ initial, initial <+: calls → ReadsItsWrites initial) ↔ ¬ RecreatedBeforeCommit calls := by
  constructor
  · intro reads
    induction calls using List.reverseRecOn with
    | nil =>
      rintro ⟨before, x, rest, same, -⟩
      simp at same
    | append_singleton calls call ih =>
      have never := ih fun initial first => reads initial (first.trans (List.prefix_append _ _))
      rw [recreatedBeforeCommit_snoc]
      rintro (recreated | ⟨x, rfl, deleted⟩)
      · exact never recreated
      · exact not_readsItsWrites_of_deleted (tracks_of_not_recreated calls never) deleted
          (reads _ (List.prefix_refl _))
  · rintro never initial ⟨rest, rfl⟩
    apply readsItsWrites_of_tracks
    apply tracks_of_not_recreated
    rintro ⟨before, x, between, rfl, deleted⟩
    exact never ⟨before, x, between ++ rest, by simp, deleted⟩

/-- An account that is committed, deleted and set again is not found. -/
theorem getFinality_recreated_account :
    let acct := Account.newAccount zeroAddress
    let calls := [Call.setFinality acct, .commit, .delFinality (LedgerItem.key acct),
      .setFinality acct]
    lastSet calls (LedgerItem.key acct) = some acct ∧
      ((after calls).getFinality (LedgerItem.key acct)).1 = .error .errNotFoundResult := by
  decide +kernel

end ReadYourWrites

end Rigo
