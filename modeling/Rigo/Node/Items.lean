import Rigo.Node.Footprint

/-!
# What code keeps of the items of a ledger

`Keeps l P p` says that the code `p` deletes nothing from the ledger `l` and sets only
items of which `P` holds, counting on `P` for the items it reads; `P k found` speaks of
what is found under the key `k`.  So `p` keeps `P` of everything that is found in `l`.

Code that does not write `l` keeps everything of it (`Calm.keeps`), so that only the
functions that write `l` need a lemma for a given `P`.
-/

namespace Rigo

open Foundation

variable {l' : LedgerId} {ls : Stores}

/-- `P`, if the ledger is `l`. -/
def OnLedger (l : LedgerId) (P : LedgerKey → Option l.Item → Prop) (l' : LedgerId) (k : LedgerKey)
    (found : Option l'.Item) : Prop :=
  ∀ same : l' = l, P k (same ▸ found)

/-- What is found in `l` satisfies `P`, and is filed under its key. -/
def keeping (l : LedgerId) (P : LedgerKey → Option l.Item → Prop) : Contract LedgerOp where
  asks op :=
    match op with
    | .set l' x => OnLedger l P l' (LedgerItem.key x) (some x)
    | .del l' _ => l' ≠ l
    | .cancelSet l' _ => l' ≠ l
    | .get _ _ => True
    | .readAll _ => True
    | .immutableAt _ _ => True
  grants op answer :=
    match op, answer with
    | .get l' k, answer =>
      OnLedger l P l' k answer.toOption ∧ ∀ x, answer = .ok x → LedgerItem.key x = k
    | .set _ _, _ => True
    | .del _ _, _ => True
    | .cancelSet _ _, _ => True
    | .readAll _, _ => True
    | .immutableAt _ _, _ => True

/-- `P` holds of everything in `l`, and nothing was deleted there since the last commit. -/
def Holds (l : LedgerId) (P : LedgerKey → Option l.Item → Prop) (ls : Stores) : Prop :=
  (ls l).removed = [] ∧ ∀ k, P k ((ls l).lookup k)

/-- The code keeps `P` of what is found in `l`. -/
def Keeps {α : Type} (l : LedgerId) (P : LedgerKey → Option l.Item → Prop) (p : LedgerProg α) :
    Prop :=
  Obeys (keeping l P) (fun _ => True) p

section

variable {l : LedgerId} {P : LedgerKey → Option l.Item → Prop}

theorem Store.lookup_set_of_removed {T : Type} [LedgerItem T] {s : Store T}
    (removed : s.removed = []) (x : T) (k : LedgerKey) :
    (s.set x).lookup k = if LedgerItem.key x = k then some x else s.lookup k := by
  simp [Store.lookup_set, removed]

theorem Holds.put (holds : Holds l P ls) {x : l'.Item}
    (kept : OnLedger l P l' (LedgerItem.key x) (some x)) : Holds l P (ls.put l' x) := by
  by_cases same : l' = l
  · subst same
    refine ⟨by rw [Stores.put_self]; exact holds.1, fun k => ?_⟩
    rw [Stores.put_self, Store.lookup_set_of_removed holds.1]
    split
    · next here => exact here ▸ kept rfl
    · exact holds.2 k
  · unfold Holds
    rw [Stores.put_of_ne _ _ (Ne.symm same)]
    exact holds

theorem Holds.update (holds : Holds l P ls) (other : l' ≠ l)
    (store : Store l'.Item) : Holds l P (Function.update ls l' store) := by
  unfold Holds
  rw [Function.update_of_ne (Ne.symm other)]
  exact holds

/-- The stores honour the contract. -/
theorem honours_keeping {β : Type} (op : LedgerOp β) (holds : Holds l P ls)
    (asks : (keeping l P).asks op) :
    (keeping l P).grants op (ledgerStep storeImpl op ls).1 ∧
      Holds l P (ledgerStep storeImpl op ls).2 := by
  cases op with
  | get l' k =>
    refine ⟨⟨?_, ?_⟩, ?_⟩
    · rintro rfl
      have same : (found ((ls l').lookup k)).toOption = (ls l').lookup k := by
        cases (ls l').lookup k <;> rfl
      exact same.symm ▸ holds.2 k
    · intro x found
      exact Store.key_of_lookup (found_eq_ok.mp found)
    · simp only [ledgerStep, storeImpl, Function.update_eq_self]
      exact holds
  | set l' x => exact ⟨trivial, holds.put asks⟩
  | del l' k => exact ⟨trivial, holds.update asks _⟩
  | cancelSet l' k => exact ⟨trivial, holds.update asks _⟩
  | readAll l' => exact ⟨trivial, holds⟩
  | immutableAt l' n => exact ⟨trivial, holds⟩

/-- Code that keeps to the contract keeps `P`, and ends as it guarantees. -/
theorem Holds.exec {α : Type} {post : Except Fault α → Prop} {p : LedgerProg α}
    (holds : Holds l P ls) (obeys : Obeys (keeping l P) post p) :
    post (run (ledgerHandler storeImpl) p ls).1 ∧
      Holds l P (run (ledgerHandler storeImpl) p ls).2 :=
  Obeys.run (ledgerHandler storeImpl) (fun op _ holds asks => honours_keeping op holds asks)
    obeys holds

theorem Holds.of_exec {α : Type} {p : LedgerProg α} {ls' : Stores} {outcome : Except Fault α}
    (holds : Holds l P ls) (keeps : Keeps l P p) (ran : Rigo.exec p ls = (outcome, ls')) :
    Holds l P ls' := by
  have kept := (holds.exec keeps).2
  rwa [show run (ledgerHandler storeImpl) p ls = (outcome, ls') from ran] at kept

theorem Store.lookup_commit_of_removed {T : Type} [LedgerItem T] {s : Store T}
    (removed : s.removed = []) (k : LedgerKey) : s.commit.lookup k = s.lookup k := by
  rw [Store.lookup_commit, Store.lookup_eq, removed]
  rfl

/-- What holds before a commit holds after it. -/
theorem Holds.commit (holds : Holds l P ls) : Holds l P fun l => (ls l).commit := by
  refine ⟨rfl, fun k => ?_⟩
  rw [Store.lookup_commit_of_removed holds.1]
  exact holds.2 k

/-! ## Rules -/

variable {α β : Type}

/-- Code that does not write the ledger keeps everything of it. -/
theorem Calm.keeping {S : LedgerId → Prop} {fine : Panic → Prop} {p : LedgerProg α}
    (calm : Calm (writing S S) fine p) (other : ¬ S l) : Calm (keeping l P) fine p := by
  refine Obeys.weaken calm (fun op asks => ?_) fun _ _ _ => trivial
  have differs {l' : LedgerId} (allowed : S l') : l' ≠ l := by
    rintro rfl
    exact other allowed
  cases op with
  | set l' x => exact fun same => absurd same (differs asks)
  | del l' k => exact differs asks
  | cancelSet l' k => exact differs asks
  | get _ _ => trivial
  | readAll _ => trivial
  | immutableAt _ _ => trivial

theorem Calm.keeps {S : LedgerId → Prop} {p : LedgerProg α}
    (writes : Calm (writing S S) (fun _ => True) p) (other : ¬ S l) : Keeps l P p :=
  (writes.keeping other).mono fun _ _ => trivial

/-- Setting an item of which `P` holds. -/
theorem keeps_set {x : l.Item} (kept : P (LedgerItem.key x) (some x)) :
    Keeps l P (LedgerProg.set l x) := ⟨fun _ => kept, fun _ _ => trivial⟩

/-- Setting an item of another ledger. -/
theorem keeps_set_of_ne (other : l' ≠ l) (x : l'.Item) :
    Keeps l P (LedgerProg.set l' x) := ⟨fun same => absurd same other, fun _ _ => trivial⟩

/-- What is known of an item that was read. -/
theorem returns_get (k : LedgerKey) :
    Returns (keeping l P)
      (fun answer => P k answer.toOption ∧ ∀ x, answer = .ok x → LedgerItem.key x = k)
      (LedgerProg.get l k) := by
  refine ⟨trivial, fun answer granted answer' same => ?_⟩
  cases same
  exact ⟨granted.1 rfl, granted.2⟩

end

end Rigo
