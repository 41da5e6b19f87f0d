import Rigo.Ctrlers.Types.Interface

/-!
# Running code on the ledgers

A ledger has three implementations: the finality mode and the simulation mode of the
`FinalityLedger` of the source, and the `Store` that the finality mode behaves as.
`ledgerHandler` runs the code of the controllers on any of them.

`exec` runs code on stores.  The lemmas about it rewrite each operation to its
effect, so that the effect of a controller is computed by `simp`; the type of an
answer is not indexed, because at a given ledger it is unfolded.
-/

namespace Rigo

open Foundation

/-! ## Implementations of the ledgers -/

/-- The operations on ledgers, for one mode of them. -/
structure LedgerImpl (L : LedgerId → Type) where
  get : (l : LedgerId) → LedgerKey → L l → Except XError l.Item × L l
  set : (l : LedgerId) → l.Item → L l → L l
  del : (l : LedgerId) → LedgerKey → L l → Except XError l.Item × L l
  cancelSet : (l : LedgerId) → LedgerKey → L l → L l
  commit : (l : LedgerId) → L l → L l
  tree : (l : LedgerId) → L l → Tree l.Item

/-- The finality mode of the ledgers. -/
def finalityImpl : LedgerImpl fun l => FinalityLedger l.Item where
  get _ k l := l.getFinality k
  set _ x l := l.setFinality x
  del _ k l := l.delFinality k
  cancelSet _ k l := l.cancelSetFinality k
  commit _ l := l.commit
  tree _ l := l.tree

/-- The simulation mode of the ledgers. -/
def simulationImpl : LedgerImpl fun l => FinalityLedger l.Item where
  get _ k l := l.get k
  set _ x l := l.set x
  del _ k l := l.del k
  cancelSet _ k l := l.cancelSet k
  commit _ l := l.commit
  tree _ l := l.tree

/-- The stores. -/
def storeImpl : LedgerImpl fun l => Store l.Item where
  get _ k s := (s.get k, s)
  set _ x s := s.set x
  del _ k s := s.del k
  cancelSet _ k s := s.cancelSet k
  commit _ s := s.commit
  tree _ s := s.tree

/-! ## Running programs -/

section

variable {L : LedgerId → Type}

/-- One operation on the ledgers. -/
def ledgerStep (impl : LedgerImpl L) {β : Type} :
    LedgerOp β → ((l : LedgerId) → L l) → β × ((l : LedgerId) → L l)
  | .get l k, ls => ((impl.get l k (ls l)).1, Function.update ls l (impl.get l k (ls l)).2)
  | .set l x, ls => ((), Function.update ls l (impl.set l x (ls l)))
  | .del l k, ls => ((impl.del l k (ls l)).1, Function.update ls l (impl.del l k (ls l)).2)
  | .cancelSet l k, ls => ((), Function.update ls l (impl.cancelSet l k (ls l)))
  | .readAll l, ls => (ItemMap.readAll (impl.tree l (ls l)).contents, ls)
  | .immutableAt l n, ls => ((impl.tree l (ls l)).lazyLoadVersion n, ls)

/-- Run code that works on the ledgers only. -/
def ledgerHandler (impl : LedgerImpl L) : Handler LedgerOp ((l : LedgerId) → L l) where
  step op ls := ledgerStep impl op ls

end

/-! ## Ending early -/

section

variable {Op : Type → Type} {σ α : Type} (h : Handler Op σ)

@[simp] theorem run_throwX (e : XError) (s : σ) :
    run h (throwX e : Prog Op Fault α) s = (.error (.xerr e), s) := rfl

@[simp] theorem run_crash (p : Panic) (s : σ) :
    run h (crash p : Prog Op Fault α) s = (.error (.panic p), s) := rfl

@[simp] theorem run_ofExcept (result : Except XError α) (s : σ) :
    run h (ofExcept result) s = (result.mapError .xerr, s) := by
  cases result <;> rfl

@[simp] theorem run_ensure (condition : Bool) (e : XError) (s : σ) :
    run h (ensure condition e) s = (if condition then .ok () else .error (.xerr e), s) := by
  cases condition <;> rfl

@[simp] theorem run_tryXError (p : Prog Op Fault α) (s : σ) :
    run h (tryXError p) s = attempted Fault.xerr? (run h p s) :=
  run_attempt h Fault.xerr? p s

variable {h} {β : Type}

theorem run_ensure_ok {condition : Bool} {e : XError} {f : Unit → Prog Op Fault α} {s t : σ}
    {value : α} (ran : run h (ensure condition e >>= f) s = (.ok value, t)) :
    condition = true ∧ run h (f ()) s = (.ok value, t) := by
  cases condition with
  | false => cases ran
  | true => exact ⟨rfl, ran⟩

theorem ensure_ok {condition : Bool} {e : XError} {s t : σ}
    (ran : run h (ensure condition e) s = (.ok (), t)) : condition = true := by
  cases condition with
  | false => cases ran
  | true => rfl

theorem ofExcept_ok {result : Except XError β} {s t : σ} {value : β}
    (ran : run h (ofExcept result) s = (.ok value, t)) : result = .ok value := by
  cases result with
  | error e => cases ran
  | ok v =>
    cases ran
    rfl

theorem run_ofExcept_ok {result : Except XError β} {f : β → Prog Op Fault α} {s t : σ}
    {value : α} (ran : run h (ofExcept result >>= f) s = (.ok value, t)) :
    ∃ v, result = .ok v ∧ run h (f v) s = (.ok value, t) := by
  cases result with
  | error e => cases ran
  | ok v => exact ⟨v, rfl, ran⟩

end

/-! ## Stores -/

/-- A store for every ledger. -/
abbrev Stores := (l : LedgerId) → Store l.Item

namespace Stores

/-- The stores after an item was set. -/
def put (ls : Stores) (l : LedgerId) (x : l.Item) : Stores := Function.update ls l ((ls l).set x)

/-- The stores after an item was deleted. -/
def remove (ls : Stores) (l : LedgerId) (k : LedgerKey) : Stores :=
  Function.update ls l ((ls l).erase k)

@[simp] theorem put_self (ls : Stores) (l : LedgerId) (x : l.Item) :
    ls.put l x l = (ls l).set x := Function.update_self ..

@[simp] theorem put_of_ne (ls : Stores) {l l' : LedgerId} (x : l.Item) (other : l' ≠ l) :
    ls.put l x l' = ls l' := Function.update_of_ne other ..

@[simp] theorem remove_self (ls : Stores) (l : LedgerId) (k : LedgerKey) :
    ls.remove l k l = (ls l).erase k := Function.update_self ..

@[simp] theorem remove_of_ne (ls : Stores) {l l' : LedgerId} (k : LedgerKey) (other : l' ≠ l) :
    ls.remove l k l' = ls l' := Function.update_of_ne other ..

end Stores

/-- Run code on stores. -/
abbrev exec {α : Type} (p : LedgerProg α) (ls : Stores) : Except Fault α × Stores :=
  run (ledgerHandler storeImpl) p ls

theorem exec_bind {α β : Type} (p : LedgerProg β) (f : β → LedgerProg α) (ls : Stores) :
    exec (p >>= f) ls = andThen (fun value ls' => exec (f value) ls') (exec p ls) :=
  run_bind ..

namespace LedgerProg

@[simp] theorem exec_get (l : LedgerId) (k : LedgerKey) (ls : Stores) :
    exec (α := no_index (Except XError l.Item)) (get l k) ls = (.ok ((ls l).get k), ls) := by
  simp [get, ledgerHandler, ledgerStep, storeImpl]

@[simp] theorem exec_set (l : LedgerId) (x : l.Item) (ls : Stores) :
    exec (set l x) ls = (.ok (), ls.put l x) := rfl

@[simp] theorem exec_del (l : LedgerId) (k : LedgerKey) (ls : Stores) :
    exec (α := no_index (Except XError l.Item)) (del l k) ls =
      (.ok ((ls l).get k), ls.remove l k) := rfl

@[simp] theorem exec_readAll (l : LedgerId) (ls : Stores) :
    exec (α := no_index (Except XError (List l.Item))) (readAll l) ls =
      (.ok (.ok (ls l).tree.contents.items), ls) := by
  simp [readAll, ledgerHandler, ledgerStep, storeImpl]

@[simp] theorem exec_immutableAt (l : LedgerId) (n : Int) (ls : Stores) :
    exec (α := no_index (Except XError (ItemMap l.Item))) (immutableAt l n) ls =
      (.ok ((ls l).tree.lazyLoadVersion n), ls) := rfl

/-! ### Taking runs apart -/

section

variable {α : Type} {l : LedgerId} {ls ls' : Stores} {value : α}

theorem run_get_ok {k : LedgerKey} {f : Except XError l.Item → LedgerProg α}
    (ran : exec (get l k >>= f) ls = (.ok value, ls')) :
    exec (f ((ls l).get k)) ls = (.ok value, ls') := by
  rwa [exec_bind, exec_get] at ran

theorem run_del_ok {k : LedgerKey} {f : Except XError l.Item → LedgerProg α}
    (ran : exec (del l k >>= f) ls = (.ok value, ls')) :
    exec (f ((ls l).get k)) (ls.remove l k) = (.ok value, ls') := ran

theorem run_readAll_ok {f : Except XError (List l.Item) → LedgerProg α}
    (ran : exec (readAll l >>= f) ls = (.ok value, ls')) :
    exec (f (.ok (ls l).tree.contents.items)) ls = (.ok value, ls') := by
  rwa [exec_bind, exec_readAll] at ran

end

end LedgerProg

end Rigo
