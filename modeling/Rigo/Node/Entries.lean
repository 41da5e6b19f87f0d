import Rigo.Node.Items
import Rigo.Node.State

/-!
# What holds of every item of a ledger

`Everywhere l P ls` says that `P` holds of every item of the ledger `l`: of those written since
the last commit, of the committed ones and of those in every saved version.  Unlike `Holds` it
says nothing of what is missing, so items may be deleted.

`Files mayDelete l P p` says that the code `p` sets only items of which `P` holds, counting on `P`
for the items it reads, and that it deletes none, unless it may.
-/

namespace Rigo

open Foundation
open Store

/-- `P`, if the ledger is `l`. -/
def OnItem (l : LedgerId) (P : l.Item → Prop) (l' : LedgerId) (x : l'.Item) : Prop :=
  ∀ same : l' = l, P (same ▸ x)

/-- Every item of a map satisfies `P`. -/
def ItemMap.All {T : Type} [LedgerItem T] (P : T → Prop) (m : ItemMap T) : Prop :=
  ∀ k x, m.find? k = some x → P x

/-- The items set and read in `l` satisfy `P`; they are deleted only if that is allowed. -/
def filing (mayDelete : Prop) (l : LedgerId) (P : l.Item → Prop) : Contract LedgerOp where
  asks op :=
    match op with
    | .set l' x => OnItem l P l' x
    | .get _ _ => True
    | .del l' _ => l' = l → mayDelete
    | .cancelSet _ _ => True
    | .readAll _ => True
    | .immutableAt _ _ => True
  grants op answer :=
    match op, answer with
    | .get l' k, answer =>
      (∀ x, answer = .ok x → OnItem l P l' x) ∧ ∀ x, answer = .ok x → LedgerItem.key x = k
    | .del l' _, answer => ∀ x, answer = .ok x → OnItem l P l' x
    | .readAll l', answer => ∀ items, answer = .ok items → ∀ x ∈ items, OnItem l P l' x
    | .immutableAt l' _, answer => ∀ m, answer = .ok m → ItemMap.All (OnItem l P l') m
    | .set _ _, _ => True
    | .cancelSet _ _, _ => True

/-- Every item of a store satisfies `P`. -/
structure Store.All {T : Type} [LedgerItem T] (P : T → Prop) (s : Store T) : Prop where
  updated : ItemMap.All P s.updated
  committed : ItemMap.All P s.tree.contents
  saved : ∀ m ∈ s.tree.versions, ItemMap.All P m

/-- `P` holds of every item of the ledger `l`. -/
def Everywhere (l : LedgerId) (P : l.Item → Prop) (ls : Stores) : Prop := (ls l).All P

/-- The code sets only items of `l` of which `P` holds. -/
def Files {α : Type} (mayDelete : Prop) (l : LedgerId) (P : l.Item → Prop) (p : LedgerProg α) :
    Prop :=
  Obeys (filing mayDelete l P) (fun _ => True) p

/-! ## Stores -/

section

variable {T : Type} [LedgerItem T] {P : T → Prop} {s : Store T}

theorem ItemMap.All.empty : ItemMap.All P (KeyedMap.empty : ItemMap T) := by
  intro k x present
  simp at present

theorem ItemMap.All.insert {m : ItemMap T} (all : ItemMap.All P m) {x : T} (holds : P x) :
    ItemMap.All P (m.insert x) := by
  intro k y present
  rw [KeyedMap.find?_insert] at present
  split at present
  · cases present
    exact holds
  · exact all k y present

theorem ItemMap.All.erase {m : ItemMap T} (all : ItemMap.All P m) (k : LedgerKey) :
    ItemMap.All P (m.erase k) := by
  intro k' y present
  rw [KeyedMap.find?_erase] at present
  split at present
  · cases present
  · exact all k' y present

theorem Store.All.lookup (all : s.All P) {k : LedgerKey} {x : T} (present : s.lookup k = some x) :
    P x := by
  rw [lookup_eq] at present
  split at present
  · cases present
  · rcases Option.or_eq_some_iff.mp present with updated | ⟨-, committed⟩
    · exact all.updated k x updated
    · exact all.committed k x committed

theorem Store.All.mono {Q : T → Prop} (all : s.All P) (weaker : ∀ x, P x → Q x) : s.All Q where
  updated k x present := weaker x (all.updated k x present)
  committed k x present := weaker x (all.committed k x present)
  saved m member k x present := weaker x (all.saved m member k x present)

theorem Store.All.set (all : s.All P) {x : T} (holds : P x) : (s.set x).All P :=
  ⟨all.updated.insert holds, all.committed, all.saved⟩

theorem Store.All.cancelSet (all : s.All P) (k : LedgerKey) : (s.cancelSet k).All P :=
  ⟨all.updated.erase k, all.committed, all.saved⟩

theorem Store.All.erase (all : s.All P) (k : LedgerKey) : (s.erase k).All P := by
  unfold Store.erase
  split
  · exact all
  · exact ⟨all.updated.erase k, all.committed, all.saved⟩

theorem Store.All.load (all : s.All P) (n : Int) :
    ∀ m, s.tree.lazyLoadVersion n = .ok m → ItemMap.All P m := by
  intro m loaded
  unfold Tree.lazyLoadVersion at loaded
  split at loaded
  · cases loaded
  · split at loaded
    · cases loaded
      unfold Tree.lastSaved
      cases last : s.tree.versions.getLast? with
      | none => exact ItemMap.All.empty
      | some m => exact all.saved m (List.mem_of_getLast? last)
    · cases loaded
      rw [List.getD_eq_getElem?_getD]
      cases here : s.tree.versions[n.toNat - 1]? with
      | none => exact ItemMap.All.empty
      | some m => exact all.saved m (List.mem_of_getElem? here)

theorem Store.All.commit (all : s.All P) : s.commit.All P := by
  have contents : ItemMap.All P s.commit.tree.contents := by
    intro k x present
    have seen : s.commit.lookup k = some x := present
    rw [lookup_commit] at seen
    rcases Option.or_eq_some_iff.mp seen with updated | ⟨-, committed⟩
    · exact all.updated k x updated
    · split at committed
      · cases committed
      · exact all.committed k x committed
  refine ⟨ItemMap.All.empty, contents, fun m member => ?_⟩
  rw [versions_commit, List.mem_append, List.mem_singleton] at member
  rcases member with old | rfl
  · exact all.saved m old
  · exact contents

end

/-! ## Ledgers -/

section

variable {mayDelete : Prop} {l : LedgerId} {P : l.Item → Prop} {α β : Type}

variable {ls : Stores}

theorem Everywhere.update (holds : Everywhere l P ls) (l' : LedgerId)
    {store : Store l'.Item} (kept : ∀ same : l' = l, (same ▸ store).All P) :
    Everywhere l P (Function.update ls l' store) := by
  unfold Everywhere
  by_cases same : l' = l
  · subst same
    rw [Function.update_self]
    exact kept rfl
  · rw [Function.update_of_ne (Ne.symm same)]
    exact holds

/-- The stores honour the contract. -/
theorem honours_filing {β : Type} (op : LedgerOp β) (holds : Everywhere l P ls)
    (asks : (filing mayDelete l P).asks op) :
    (filing mayDelete l P).grants op (ledgerStep storeImpl op ls).1 ∧
      Everywhere l P (ledgerStep storeImpl op ls).2 := by
  cases op with
  | get l' k =>
    refine ⟨⟨?_, ?_⟩, ?_⟩
    · rintro x present rfl
      exact All.lookup holds (found_eq_ok.mp present)
    · intro x present
      exact key_of_lookup (found_eq_ok.mp present)
    · simp only [ledgerStep, storeImpl, Function.update_eq_self]
      exact holds
  | set l' x =>
    refine ⟨trivial, holds.update l' ?_⟩
    rintro rfl
    exact All.set holds (asks rfl)
  | del l' k =>
    refine ⟨?_, holds.update l' ?_⟩
    · rintro x present rfl
      exact All.lookup holds (found_eq_ok.mp present)
    · rintro rfl
      exact All.erase holds k
  | cancelSet l' k =>
    refine ⟨trivial, holds.update l' ?_⟩
    rintro rfl
    exact All.cancelSet holds k
  | readAll l' =>
    refine ⟨?_, holds⟩
    rintro items read x member rfl
    have all : items = (ls l').tree.contents.items := by
      have read' := (ItemMap.readAll_eq _).symm.trans read
      exact (Except.ok.inj read').symm
    rw [all] at member
    exact holds.committed _ x (KeyedMap.mem_items.mp member)
  | immutableAt l' n =>
    refine ⟨?_, holds⟩
    rintro m loaded k x present rfl
    exact All.load holds n m loaded k x present

variable {p : LedgerProg α}

/-- Code that keeps to the contract keeps `P`. -/
theorem Everywhere.exec (holds : Everywhere l P ls)
    (files : Files True l P p) : Everywhere l P (Rigo.exec p ls).2 :=
  (Obeys.run (ledgerHandler storeImpl) (fun op _ holds asks => honours_filing op holds asks)
    files holds).2

theorem Everywhere.of_exec {ls ls' : Stores} {outcome : Except Fault α}
    (holds : Everywhere l P ls) (files : Files True l P p)
    (ran : Rigo.exec p ls = (outcome, ls')) : Everywhere l P ls' := by
  have kept := holds.exec files
  rwa [ran] at kept

theorem Everywhere.commit (holds : Everywhere l P ls) :
    Everywhere l P fun l => (ls l).commit := All.commit holds

/-- `P` holds of every item of the ledger `l`, and none was deleted since the last commit. -/
structure Intact (l : LedgerId) (P : l.Item → Prop) (ls : Stores) : Prop where
  all : Everywhere l P ls
  removed : (ls l).removed = []

/-- An operation that may not delete. -/
theorem ledgerStep_removed {β : Type} {op : LedgerOp β} (asks : (filing False l P).asks op)
    (ls : Stores) : ((ledgerStep storeImpl op ls).2 l).removed = (ls l).removed := by
  have put (l' : LedgerId) (store : Store l'.Item) (same : l' = l → store.removed = (ls l').removed) :
      (Function.update ls l' store l).removed = (ls l).removed := by
    by_cases here : l' = l
    · subst here
      rw [Function.update_self]
      exact same rfl
    · rw [Function.update_of_ne (Ne.symm here)]
  cases op with
  | get l' k => exact put l' _ fun _ => rfl
  | set l' x => exact put l' _ fun _ => rfl
  | del l' k => exact put l' _ fun same => (asks same).elim
  | cancelSet l' k => exact put l' _ fun _ => rfl
  | readAll l' => rfl
  | immutableAt l' n => rfl

theorem honours_intact {β : Type} (op : LedgerOp β) (intact : Intact l P ls)
    (asks : (filing False l P).asks op) :
    (filing False l P).grants op (ledgerStep storeImpl op ls).1 ∧
      Intact l P (ledgerStep storeImpl op ls).2 := by
  obtain ⟨granted, all⟩ := honours_filing op intact.all asks
  exact ⟨granted, all, (ledgerStep_removed asks ls).trans intact.removed⟩

theorem Intact.of_exec {ls ls' : Stores} {outcome : Except Fault α}
    (intact : Intact l P ls) (files : Files False l P p)
    (ran : Rigo.exec p ls = (outcome, ls')) : Intact l P ls' := by
  have kept := (Obeys.run (ledgerHandler storeImpl)
    (fun op _ intact asks => honours_intact op intact asks) files intact).2
  rwa [show run (ledgerHandler storeImpl) p ls = (outcome, ls') from ran] at kept

theorem Intact.put (intact : Intact l P ls) {x : l.Item} (holds : P x) :
    Intact l P (ls.put l x) := by
  refine ⟨?_, ?_⟩
  · rw [Everywhere, Stores.put_self]
    exact All.set intact.all holds
  · rw [Stores.put_self]
    exact intact.removed

theorem Intact.commit (intact : Intact l P ls) :
    Intact l P fun l => (ls l).commit := ⟨intact.all.commit, rfl⟩

/-! ## Rules -/

theorem fetches_get (k : LedgerKey) :
    Returns (filing mayDelete l P) (fun answer => ∀ x, answer = .ok x → P x) (LedgerProg.get l k) := by
  refine ⟨trivial, fun answer granted answer' same => ?_⟩
  cases same
  exact fun x present => granted.1 x present rfl

theorem files_set {x : l.Item} (holds : P x) : Files mayDelete l P (LedgerProg.set l x) :=
  ⟨fun _ => holds, fun _ _ => trivial⟩

theorem files_del {l' : LedgerId} (allowed : l' = l → mayDelete) (k : LedgerKey) :
    Files mayDelete l P (LedgerProg.del l' k) := ⟨allowed, fun _ _ => trivial⟩

/-- Code that keeps `P` of the items that are found. -/
theorem Obeys.files {post : Except Fault α → Prop}
    (keeps : Obeys (keeping l fun _ found => ∀ x, found = some x → P x) post p) :
    Obeys (filing mayDelete l P) post p := by
  refine Obeys.weaken keeps (fun op asks => ?_) fun op answer granted => ?_
  · cases op with
    | set l' x =>
      rintro rfl
      exact asks rfl x rfl
    | del l' k => exact fun same => absurd same asks
    | cancelSet _ _ => trivial
    | get _ _ => trivial
    | readAll _ => trivial
    | immutableAt _ _ => trivial
  · cases op with
    | get l' k =>
      refine ⟨?_, granted.2⟩
      rintro rfl x found
      cases answer with
      | error e => cases found
      | ok y =>
        cases found
        exact granted.1 x rfl rfl
    | set _ _ => trivial
    | del _ _ => trivial
    | cancelSet _ _ => trivial
    | readAll _ => trivial
    | immutableAt _ _ => trivial

/-- Code that does not write the ledger. -/
theorem Calm.files {S : LedgerId → Prop} (writes : Calm (writing S S) (fun _ => True) p)
    (other : ¬ S l) : Files mayDelete l P p := Obeys.files (writes.keeps other)

end

/-! ## Controllers -/

section

variable {E : EvmLib} {mayDelete : Prop} {l : LedgerId} {P : l.Item → Prop} {α β : Type}

/-- The contract for code that uses more than the ledgers. -/
def filingTrx (E : EvmLib) (mayDelete : Prop) (l : LedgerId) (P : l.Item → Prop) :
    Contract (TrxOp E) where
  asks op :=
    match op with
    | .inl op => (filing mayDelete l P).asks op
    | .inr _ => True
  grants op answer :=
    match op, answer with
    | .inl op, answer => (filing mayDelete l P).grants op answer
    | .inr _, _ => True

/-- The code of a controller sets only items of `l` of which `P` holds. -/
def FilesTrx (mayDelete : Prop) (l : LedgerId) (P : l.Item → Prop) (p : Ctrler E α) : Prop :=
  Obeys (filingTrx E mayDelete l P) (fun _ => True) p

theorem obeys_filingTrx {post : Except Fault α → Prop} {p : LedgerProg α} :
    Obeys (filingTrx E mayDelete l P) post (Ctrler.ledger p) ↔ Obeys (filing mayDelete l P) post p :=
  obeys_lift _ p

theorem filesTrx_ledger {p : LedgerProg α} (files : Files mayDelete l P p) :
    FilesTrx mayDelete l P (Ctrler.ledger p : Ctrler E α) := obeys_filingTrx.mpr files

/-- Code on the ledgers whose result is used by a controller. -/
theorem filesTrx_bind {result : β → Prop} {p : LedgerProg β} {f : β → Ctrler E α}
    (first : Returns (filing mayDelete l P) result p)
    (next : ∀ v, result v → FilesTrx mayDelete l P (f v)) :
    FilesTrx mayDelete l P (Ctrler.ledger p >>= f) :=
  Obeys.bind (obeys_filingTrx.mpr first) (fun v returned => next v (returned v rfl))
    fun _ _ => trivial

theorem filesTrx_setEvm (m : EvmMem E) : FilesTrx mayDelete l P (Ctrler.setEvm m) :=
  ⟨trivial, fun _ _ => trivial⟩

/-- A controller that keeps to the contract keeps `P`, and deletes nothing. -/
theorem Intact.run {p : Ctrler E α} {r : Workspace E} (intact : Intact l P r.ledgers)
    (files : FilesTrx False l P p) :
    Intact l P (run (trxHandler storeImpl) p r).2.ledgers := by
  refine (Obeys.run (trxHandler storeImpl) (I := fun r => Intact l P r.ledgers) ?_ files intact).2
  intro β op r intact asks
  cases op with
  | inl op => exact honours_intact op intact asks
  | inr op => cases op <;> exact ⟨trivial, intact⟩

end

end Rigo
