import Rigo.Ledger.Store

/-!
# Simulation calls between finality calls

The finality mode and the simulation mode of a ledger are used in turn: the consensus
engine calls `SetFinality`, `GetFinality`, … and `Commit`, and in between the mempool calls
`Set`, `Get`, … on the same ledger.  `answers` are the answers to the finality calls of such
a sequence, with the tree that each `Commit` saves.

The answers depend on the store of the ledger only (`FinalityOp.answer_store`), and no
simulation call changes the store (`SimulationOp.store_run`).  So the answers are those of
the sequence without its simulation calls, and right after each `Commit` the simulation mode
reads what was committed (`simulation_invisible`).
-/

namespace Rigo

namespace Simulation

/-- The calls of the finality mode. -/
inductive FinalityOp (T : Type) where
  | setFinality (x : T)
  | getFinality (k : LedgerKey)
  | delFinality (k : LedgerKey)
  | cancelSetFinality (k : LedgerKey)
  | cancelDelFinality (k : LedgerKey)
  | commit

/-- The calls of the simulation mode. -/
inductive SimulationOp (T : Type) where
  | set (x : T)
  | get (k : LedgerKey)
  | del (k : LedgerKey)
  | cancelSet (k : LedgerKey)
  | cancelDel (k : LedgerKey)
  | read (k : LedgerKey)
  | iterateReadAllItems

/-- A call of either mode. -/
inductive Call (T : Type) where
  | finality (op : FinalityOp T)
  | simulation (op : SimulationOp T)

variable {T : Type} [LedgerItem T]

/-- What a call returns: nothing, an item or an error, the items handed to the callback, or
the tree that was saved, which determines the root hash and the version `Commit` returns. -/
inductive Answer (T : Type) [LedgerItem T] where
  | done
  | item (result : Except XError T)
  | items (result : Except XError (List T))
  | saved (tree : Tree T)

/-- The answer to a finality call, and the ledger after it. -/
def FinalityOp.run (l : FinalityLedger T) : FinalityOp T → Answer T × FinalityLedger T
  | setFinality x => (.done, l.setFinality x)
  | getFinality k => (.item (l.getFinality k).1, (l.getFinality k).2)
  | delFinality k => (.item (l.delFinality k).1, (l.delFinality k).2)
  | cancelSetFinality k => (.done, l.cancelSetFinality k)
  | cancelDelFinality k => (.done, l.cancelDelFinality k)
  | commit => (.saved l.commit.tree, l.commit)

/-- The answer to a simulation call, and the ledger after it. -/
def SimulationOp.run (l : FinalityLedger T) : SimulationOp T → Answer T × FinalityLedger T
  | set x => (.done, l.set x)
  | get k => (.item (l.get k).1, (l.get k).2)
  | del k => (.item (l.del k).1, (l.del k).2)
  | cancelSet k => (.done, l.cancelSet k)
  | cancelDel k => (.done, l.cancelDel k)
  | read k => (.item (l.read k), l)
  | iterateReadAllItems => (.items (ItemMap.readAll l.tree.contents), l)

/-- The ledger after a call. -/
def Call.after (l : FinalityLedger T) : Call T → FinalityLedger T
  | finality op => (op.run l).2
  | simulation op => (op.run l).2

/-- The ledger after a sequence of calls. -/
def ledgerAfter (calls : List (Call T)) (l : FinalityLedger T) : FinalityLedger T :=
  calls.foldl Call.after l

/-- The answers to the finality calls of a sequence. -/
def answers : List (Call T) → FinalityLedger T → List (Answer T)
  | [], _ => []
  | .finality op :: rest, l => (op.run l).1 :: answers rest (op.run l).2
  | .simulation op :: rest, l => answers rest (op.run l).2

/-- The finality calls of a sequence alone. -/
def withoutSimulation : List (Call T) → List (Call T)
  | [] => []
  | .finality op :: rest => .finality op :: withoutSimulation rest
  | .simulation _ :: rest => withoutSimulation rest

/-! ## What the calls do to the store -/

/-- A simulation call does not change the store. -/
theorem SimulationOp.store_run (op : SimulationOp T) (l : FinalityLedger T) :
    (op.run l).2.store = l.store := by
  cases op with
  | set x => exact l.store_set x
  | get k => exact l.store_get k
  | del k => exact l.store_del k
  | cancelSet k => exact l.store_cancelSet k
  | cancelDel k => exact l.store_cancelDel k
  | read k => rfl
  | iterateReadAllItems => rfl

/-- Two ledgers with the same store answer a finality call alike. -/
theorem FinalityOp.answer_store (op : FinalityOp T) {l l' : FinalityLedger T}
    (same : l.store = l'.store) : (op.run l).1 = (op.run l').1 := by
  cases op with
  | setFinality x => rfl
  | getFinality k =>
    have answer := l.getFinality_fst k
    rw [same, ← l'.getFinality_fst k] at answer
    exact congrArg Answer.item answer
  | delFinality k =>
    have answer := l.delFinality_fst k
    rw [same, ← l'.delFinality_fst k] at answer
    exact congrArg Answer.item answer
  | cancelSetFinality k => rfl
  | cancelDelFinality k => rfl
  | commit =>
    have saved := l.store_commit
    rw [same, ← l'.store_commit] at saved
    exact congrArg (fun s => Answer.saved s.tree) saved

/-- And they have the same store after it. -/
theorem FinalityOp.store_run (op : FinalityOp T) {l l' : FinalityLedger T}
    (same : l.store = l'.store) : (op.run l).2.store = (op.run l').2.store := by
  cases op with
  | setFinality x => exact congrArg (Store.set · x) same
  | getFinality k =>
    have after := l.store_getFinality k
    rw [same, ← l'.store_getFinality k] at after
    exact after
  | delFinality k =>
    have after := l.store_delFinality k
    rw [same, ← l'.store_delFinality k] at after
    exact after
  | cancelSetFinality k => exact congrArg (Store.cancelSet · k) same
  | cancelDelFinality k => exact congrArg (Store.cancelDel · k) same
  | commit => exact congrArg Store.commit same

/-! ## Whole sequences -/

theorem answers_withoutSimulation (calls : List (Call T)) {l l' : FinalityLedger T}
    (same : l.store = l'.store) : answers calls l = answers (withoutSimulation calls) l' := by
  induction calls generalizing l l' with
  | nil => rfl
  | cons call rest ih =>
    cases call with
    | simulation op =>
      have unchanged := op.store_run l
      exact ih (unchanged.trans same)
    | finality op =>
      have answer := op.answer_store same
      have onward := ih (op.store_run same)
      exact congrArg₂ List.cons answer onward

/-- After a commit the simulation mode looks up what is in the tree. -/
theorem get_commit (l : FinalityLedger T) (k : LedgerKey) :
    (l.commit.get k).1 = l.commit.read k := by
  rw [FinalityLedger.get_fst, FinalityLedger.simulated_commit, FinalityLedger.read,
    ItemMap.read_eq, Store.get, Store.lookup_eq]
  rfl

/-- Simulation calls between the finality calls change neither their answers nor the saved
trees, and right after any sequence that ends with a `Commit` `Get` agrees with `Read`. -/
theorem simulation_invisible (l : FinalityLedger T) (calls : List (Call T)) :
    answers calls l = answers (withoutSimulation calls) l ∧
      ∀ k, ((ledgerAfter (calls ++ [.finality .commit]) l).get k).1 =
        (ledgerAfter (calls ++ [.finality .commit]) l).read k := by
  refine ⟨answers_withoutSimulation calls rfl, ?_⟩
  intro k
  have committed : ledgerAfter (calls ++ [.finality .commit]) l =
      (ledgerAfter calls l).commit := by
    simp only [ledgerAfter, List.foldl_append, List.foldl_cons, List.foldl_nil]
    rfl
  rw [committed]
  exact get_commit _ k

end Simulation

end Rigo
