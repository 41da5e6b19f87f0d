import Rigo.Foundation.Checkpoints
import Rigo.Ctrlers.Evm.Ctrler

/-!
# The accounts of geth and the account ledger

`ctrlers/vm/evm/statedb.go`.  While a contract is executed, geth changes the nonces and balances in
its own `StateDB`, takes snapshots and goes back to them.  The `StateDBWrapper` copies an account
into the `StateDB` when its address is put on the access list, and `Finish` copies those accounts
back into the account ledger.  Which addresses were copied in is not part of geth's journal: each
is kept with one more than the number of the last snapshot, and going back to a snapshot drops
those with a larger number.

A `Journal` is what is assumed of geth.  `Spec` performs the same operations directly on the
accounts of the ledger, with all of them saved at a snapshot and restored when it is reverted.  Both
lead to the same accounts (`finish_refines`).
-/

namespace Rigo

open Foundation
open Stores

variable {accessed : Accessed} {addr : Address} {E : EvmLib} {ls : Stores}

/-- `common.Address`. -/
abbrev CommonAddress := { addr : Address // addr.length = addrSize }

/-- The nonce and the balance under an address; those of a missing account are zero. -/
def Stores.standing (ls : Stores) (addr : Address) : Nat × Uint256 :=
  match ls.account addr with
  | some acct => (acct.nonce, acct.balance)
  | none => (0, 0)

namespace EvmCtrler

/-! ## geth -/

/-- `AddBalance`, `SubBalance` and `SetNonce`.  Balances are taken as words of 256 bits: `Finish`
panics if one is not. -/
inductive Change where
  | addBalance (amt : Uint256)
  | subBalance (amt : Uint256)
  | setNonce (nonce : Nat)
  deriving DecidableEq

def Change.apply : Change → Nat × Uint256 → Nat × Uint256
  | .addBalance amt, (nonce, balance) => (nonce, balance + amt)
  | .subBalance amt, (nonce, balance) => (nonce, balance - amt)
  | .setNonce nonce, (_, balance) => (nonce, balance)

/-- A `StateDB` that journals every change: its accounts and its valid revisions are a value with
checkpoints, and its snapshots are numbered in increasing order. -/
structure Journal (E : EvmLib) where
  view : E.State → Checkpoints (Address → Nat × Uint256)
  takeSnapshot : E.State → E.State
  revertToSnapshot : E.State → Nat → E.State
  perform : E.State → Address → Change → E.State
  account : ∀ state, E.account state = (view state).current
  view_setAccount : ∀ state addr nonce balance, view (E.setAccount state addr nonce balance) =
    (view state).change fun accounts => Function.update accounts addr (nonce, balance)
  view_perform : ∀ state addr change, view (perform state addr change) =
    (view state).change fun accounts => Function.update accounts addr (change.apply (accounts addr))
  view_takeSnapshot : ∀ state, view (takeSnapshot state) = (view state).snapshot (E.snapshot state)
  view_revert : ∀ state id c, (view state).revert id = some c →
    view (revertToSnapshot state id) = c
  valid_lt : ∀ state, ∀ entry ∈ (view state).saved, entry.1 < E.snapshot state
  setAccount_le : ∀ state addr nonce balance,
    E.snapshot state ≤ E.snapshot (E.setAccount state addr nonce balance)
  perform_le : ∀ state addr change, E.snapshot state ≤ E.snapshot (perform state addr change)
  takeSnapshot_lt : ∀ state, E.snapshot state < E.snapshot (takeSnapshot state)
  revert_le : ∀ state id, E.snapshot state ≤ E.snapshot (revertToSnapshot state id)

/-! ## The wrapper -/

/-- The operations on the wrapper within one execution.  `revert n` goes back to the snapshot that
was taken as the `n`th one; `PrepareAccessList` is a sequence of `access`. -/
inductive Op where
  | snapshot
  | access (addr : CommonAddress)
  | change (addr : CommonAddress) (change : Change)
  | revert (n : Nat)
  deriving DecidableEq

/-- `StateDBWrapper`, and the numbers that its `Snapshot` has returned in this execution. -/
structure Wrapper (E : EvmLib) where
  state : E.State
  accessed : Accessed
  snapshot : Nat
  numbers : List Nat

namespace Wrapper

variable {E : EvmLib} (J : Journal E)

/-- The wrapper after the snapshot with which `ExecuteTrx` begins. -/
def start (state : E.State) : Wrapper E where
  state := J.takeSnapshot state
  accessed := []
  snapshot := E.snapshot state
  numbers := [E.snapshot state]

def perform (w : Wrapper E) : Op → LedgerProg (Wrapper E)
  | .snapshot => return { w with
      state := J.takeSnapshot w.state
      snapshot := E.snapshot w.state
      numbers := w.numbers ++ [E.snapshot w.state] }
  | .access addr => do
      let (state, accessed) ← load w.accessed w.snapshot w.state addr
      return { w with state, accessed }
  | .change addr change => return { w with state := J.perform w.state addr change }
  | .revert n =>
    match w.numbers[n]? with
    | none => crash (.explicit ("revision id " ++ toString n ++ " cannot be reverted"))
    | some id => return { w with
        state := J.revertToSnapshot w.state id
        accessed := revertAccessedObjAddr w.accessed id }

def run : List Op → Wrapper E → LedgerProg (Wrapper E)
  | [], w => return w
  | op :: rest, w => do run rest (← w.perform J op)

end Wrapper

/-! ## The operations on the ledger -/

/-- The nonces and balances, and the addresses that are loaded. -/
structure Standing where
  accounts : CommonAddress → Nat × Uint256
  loaded : List CommonAddress

namespace Standing

def load (v : Standing) (addr : CommonAddress) : Standing :=
  if addr ∈ v.loaded then v else { v with loaded := v.loaded ++ [addr] }

def change (v : Standing) (addr : CommonAddress) (change : Change) : Standing :=
  { v with accounts := Function.update v.accounts addr (change.apply (v.accounts addr)) }

end Standing

/-- The ledger with saved states, and the number of snapshots that were taken. -/
structure Spec where
  points : Checkpoints Standing
  taken : Nat

namespace Spec

/-- The ledger at the beginning, with the snapshot of `ExecuteTrx`. -/
def start (ls : Stores) : Spec where
  points := (⟨⟨fun addr => ls.standing addr, []⟩, []⟩ : Checkpoints Standing).snapshot 0
  taken := 1

/-- An operation; only loaded accounts may be changed, and only valid snapshots reverted. -/
def perform (spec : Spec) : Op → Option Spec
  | .snapshot => some ⟨spec.points.snapshot spec.taken, spec.taken + 1⟩
  | .access addr => some { spec with points := spec.points.change (·.load addr) }
  | .change addr change =>
    if addr ∈ spec.points.current.loaded then
      some { spec with points := spec.points.change (·.change addr change) }
    else none
  | .revert n => (spec.points.revert n).map fun points => { spec with points }

def run : List Op → Spec → Option Spec
  | [], spec => some spec
  | op :: rest, spec => (spec.perform op).bind (run rest)

end Spec

/-! ## The ledger is not changed before the end -/

theorem standing_withAccount (ls : Stores) (addr other : Address) :
    (ls.withAccount addr).standing other = ls.standing other := by
  unfold standing
  cases found : ls.account other with
  | some acct => rw [account_withAccount found]
  | none =>
    unfold withAccount
    cases here : ls.account addr with
    | some acct => rw [found]
    | none =>
      simp only [account] at found ⊢
      rw [put_self, Store.lookup_set]
      split
      · next same =>
        split at same
        · cases same
          rfl
        · rw [found] at same
          cases same
      · rfl

theorem removed_withAccount (ls : Stores) (addr : Address) :
    ((ls.withAccount addr) .accounts).removed = (ls .accounts).removed := by
  unfold withAccount
  cases ls.account addr with
  | some acct => rfl
  | none =>
    simp only [put_self]
    rfl

theorem standing_getD (ls : Stores) (addr : Address) :
    (((ls.account addr).getD (Account.newAccount addr)).nonce,
      ((ls.account addr).getD (Account.newAccount addr)).balance) = ls.standing addr := by
  unfold standing
  cases ls.account addr <;> rfl

/-- Loading an address that is known changes nothing. -/
theorem exec_load_known (known : addr ∈ accessed.map Prod.fst) (snapshot : Nat) (state : E.State)
    (ls : Stores) :
    exec (load accessed snapshot state addr) ls = (.ok (state, accessed), ls) := by
  have here : accessed.any (fun entry => entry.1 == addr) = true := by
    obtain ⟨entry, member, rfl⟩ := List.mem_map.mp known
    exact List.any_eq_true.mpr ⟨entry, member, BEq.rfl⟩
  simp only [load, addAccessedObjAddr, here, if_true]
  rfl

/-- An address that is new is loaded as it stands in the ledger. -/
theorem exec_load_new (new : addr ∉ accessed.map Prod.fst) (snapshot : Nat) (state : E.State)
    (ls : Stores) :
    exec (load accessed snapshot state addr) ls =
      (.ok (E.setAccount state addr (ls.standing addr).1 (ls.standing addr).2,
        accessed ++ [(addr, snapshot + 1)]), ls.withAccount addr) := by
  have absent : accessed.any (fun entry => entry.1 == addr) = false := by
    refine List.any_eq_false.mpr fun entry member same => new ?_
    exact List.mem_map.mpr ⟨entry, member, eq_of_beq same⟩
  rw [← standing_getD]
  simp only [load, addAccessedObjAddr, absent, Bool.false_eq_true, if_false, exec_bind,
    AcctCtrler.exec_findOrNewAccount, andThen_ok]
  rfl

/-! ## Refinement -/

/-- The accounts of geth stand for those of the ledger: a loaded account is in geth, and one that is
not loaded is as it was at the beginning. -/
structure Mirrors (ls₀ : Stores) (v : Standing) (accounts : Address → Nat × Uint256) : Prop where
  inside : ∀ addr ∈ v.loaded, accounts addr = v.accounts addr
  outside : ∀ addr ∉ v.loaded, v.accounts addr = ls₀.standing addr

/-- The addresses that were loaded before the snapshot with a number. -/
def loadedBefore (accessed : Accessed) (id : Nat) : Accessed :=
  accessed.filter fun entry => entry.2 ≤ id

/-- A saved state of the ledger and a revision of geth. -/
structure SavedAs (ls₀ : Stores) (numbers : List Nat) (accessed : Accessed)
    (x : Nat × Standing) (y : Nat × (Address → Nat × Uint256)) : Prop where
  number : numbers[x.1]? = some y.1
  mirrors : Mirrors ls₀ x.2 y.2
  loaded : (loadedBefore accessed y.1).map Prod.fst = x.2.loaded.map Subtype.val

/-- The wrapper and the ledger as it should be, in the middle of an execution. -/
structure Refines {E : EvmLib} (J : Journal E) (ls₀ : Stores)
    (old : List (Nat × (Address → Nat × Uint256))) (w : Wrapper E) (ls : Stores) (spec : Spec) :
    Prop where
  ledger : ∀ addr, ls.standing addr = ls₀.standing addr
  removed : (ls .accounts).removed = []
  loaded : w.accessed.map Prod.fst = spec.points.current.loaded.map Subtype.val
  distinct : (w.accessed.map Prod.fst).Nodup
  tagged : ∀ entry ∈ w.accessed, entry.2 ≤ w.snapshot + 1
  taken : w.numbers.length = spec.taken
  increasing : w.numbers.Pairwise (· < ·)
  last : ∀ id ∈ w.numbers, id ≤ w.snapshot
  next : w.snapshot < E.snapshot w.state
  earlier : ∀ entry ∈ old, ∀ id ∈ w.numbers, entry.1 < id
  simulates : Checkpoints.Simulates (Mirrors ls₀) (SavedAs ls₀ w.numbers w.accessed) old
    spec.points (J.view w.state)

section

variable {E : EvmLib} {J : Journal E} {ls₀ ls : Stores}
  {old : List (Nat × (Address → Nat × Uint256))} {w : Wrapper E} {spec spec' : Spec}

theorem refines_start (J : Journal E) (state : E.State)
    (removed : (ls .accounts).removed = []) :
    Refines J ls (J.view state).saved (Wrapper.start J state) ls (Spec.start ls) where
  ledger _ := rfl
  removed := removed
  loaded := rfl
  distinct := List.nodup_nil
  tagged entry member := absurd member List.not_mem_nil
  taken := rfl
  increasing := List.pairwise_singleton _ _
  last id member := (List.mem_singleton.mp member).le
  next := J.takeSnapshot_lt state
  earlier entry member id number := by
    rw [List.mem_singleton.mp number]
    exact J.valid_lt state entry member
  simulates := by
    have mirrors : Mirrors ls ⟨fun addr => ls.standing addr, []⟩ (J.view state).current :=
      ⟨fun addr member => absurd member List.not_mem_nil, fun addr _ => rfl⟩
    rw [Wrapper.start, J.view_takeSnapshot]
    refine Checkpoints.Simulates.snapshot ⟨mirrors, [], (List.append_nil _).symm, .nil⟩ ?_
    exact ⟨rfl, mirrors, rfl⟩

theorem Refines.mem_loaded (refines : Refines J ls₀ old w ls spec) (addr : CommonAddress) :
    addr ∈ spec.points.current.loaded ↔ addr.1 ∈ w.accessed.map Prod.fst := by
  rw [refines.loaded, List.mem_map]
  exact ⟨fun member => ⟨addr, member, rfl⟩, fun ⟨addr', member, same⟩ => Subtype.ext same ▸ member⟩

/-- All addresses were loaded before a snapshot that is taken now. -/
theorem Refines.loadedBefore_next (refines : Refines J ls₀ old w ls spec) :
    loadedBefore w.accessed (E.snapshot w.state) = w.accessed := by
  refine List.filter_eq_self.mpr fun entry member => decide_eq_true ?_
  have tagged := refines.tagged entry member
  have next := refines.next
  omega

theorem Refines.snapshot (refines : Refines J ls₀ old w ls spec)
    (specified : spec.perform .snapshot = some spec') :
    ∃ w', exec (w.perform J .snapshot) ls = (.ok w', ls) ∧ Refines J ls₀ old w' ls spec' := by
  cases specified
  refine ⟨_, rfl, ?_⟩
  have next := refines.next
  have last := refines.last
  refine { refines with
    tagged := fun entry member => ?_
    taken := ?_
    increasing := ?_
    last := fun id member => ?_
    next := J.takeSnapshot_lt w.state
    earlier := fun entry member id number => ?_
    simulates := ?_ }
  · have tagged := refines.tagged entry member
    simp only
    omega
  · rw [List.length_append, refines.taken]
    rfl
  · refine List.pairwise_append.mpr ⟨refines.increasing, List.pairwise_singleton _ _, ?_⟩
    intro id member id' member'
    rw [List.mem_singleton.mp member']
    exact (last id member).trans_lt next
  · rcases List.mem_append.mp member with before | here
    · exact (last id before).trans next.le
    · exact (List.mem_singleton.mp here).le
  · rcases List.mem_append.mp number with before | here
    · exact refines.earlier entry member id before
    · -- a revision of geth that was valid before this execution
      obtain ⟨mine, same, -⟩ := refines.simulates.saved
      rw [List.mem_singleton.mp here]
      exact J.valid_lt w.state entry (same ▸ List.mem_append_left _ member)
  · simp only [J.view_takeSnapshot]
    have grown := refines.simulates.imp
      (T := SavedAs ls₀ (w.numbers ++ [E.snapshot w.state]) w.accessed) fun x _ y saved => by
        refine ⟨?_, saved.mirrors, saved.loaded⟩
        obtain ⟨inside, here⟩ := List.getElem?_eq_some_iff.mp saved.number
        rw [List.getElem?_append_left inside, saved.number]
    refine grown.snapshot ⟨?_, refines.simulates.current, ?_⟩
    · rw [← refines.taken, List.getElem?_concat_length]
    · rw [refines.loadedBefore_next]
      exact refines.loaded

theorem Refines.access (refines : Refines J ls₀ old w ls spec) (addr : CommonAddress)
    (specified : spec.perform (.access addr) = some spec') :
    ∃ w' ls', exec (w.perform J (.access addr)) ls = (.ok w', ls') ∧
      Refines J ls₀ old w' ls' spec' := by
  cases specified
  by_cases known : addr ∈ spec.points.current.loaded
  · -- nothing happens
    refine ⟨w, ls, ?_, ?_⟩
    · have same := exec_load_known ((refines.mem_loaded addr).mp known) w.snapshot w.state ls
      rw [Wrapper.perform, exec_bind, same, andThen_ok]
      rfl
    · have same : spec.points.change (·.load addr) = spec.points := by
        simp only [Checkpoints.change, Standing.load, if_pos known]
      simp only [same]
      exact refines
  · have new : addr.1 ∉ w.accessed.map Prod.fst := fun member => known ((refines.mem_loaded addr).mpr member)
    refine ⟨{ w with
        state := E.setAccount w.state addr (ls.standing addr).1 (ls.standing addr).2
        accessed := w.accessed ++ [(addr.1, w.snapshot + 1)] }, ls.withAccount addr, ?_, ?_⟩
    · rw [Wrapper.perform, exec_bind, exec_load_new new, andThen_ok]
      rfl
    have loads : (spec.points.current.load addr) =
        { spec.points.current with loaded := spec.points.current.loaded ++ [addr] } := if_neg known
    refine { refines with
      ledger := fun other => (standing_withAccount ls addr other).trans (refines.ledger other)
      removed := (removed_withAccount ls addr).trans refines.removed
      loaded := ?_
      distinct := ?_
      tagged := fun entry member => ?_
      next := refines.next.trans_le (J.setAccount_le _ _ _ _)
      simulates := ?_ }
    · simp only [Checkpoints.change, loads, List.map_append, refines.loaded]
      rfl
    · rw [List.map_append, List.nodup_append]
      refine ⟨refines.distinct, List.nodup_singleton _, ?_⟩
      rintro other member other' member' rfl
      obtain rfl : other = addr.1 := List.mem_singleton.mp member'
      exact new member
    · rcases List.mem_append.mp member with before | here
      · exact refines.tagged entry before
      · exact (congrArg Prod.snd (List.mem_singleton.mp here)).le
    · simp only [J.view_setAccount]
      have grown := refines.simulates.imp
        (T := SavedAs ls₀ w.numbers (w.accessed ++ [(addr.1, w.snapshot + 1)])) fun x _ y saved => by
          -- the new address has a larger number than all snapshots
          have taken := refines.last y.1 (List.mem_of_getElem? saved.number)
          refine ⟨saved.number, saved.mirrors, ?_⟩
          have later : ¬ w.snapshot + 1 ≤ y.1 := by omega
          rw [loadedBefore, List.filter_append, List.filter_singleton, decide_eq_false later,
            Bool.cond_false, List.append_nil]
          exact saved.loaded
      refine grown.change ?_
      simp only [loads]
      have current := refines.simulates.current
      refine ⟨fun other member => ?_, fun other absent => ?_⟩
      · rcases List.mem_append.mp member with before | here
        · have differs : other.1 ≠ addr.1 := fun same => known (Subtype.ext same ▸ before)
          rw [Function.update_of_ne differs]
          exact current.inside other before
        · rw [List.mem_singleton.mp here, Function.update_self, refines.ledger]
          exact (current.outside addr known).symm
      · exact current.outside other fun before => absent (List.mem_append_left _ before)

theorem Refines.change (refines : Refines J ls₀ old w ls spec) (addr : CommonAddress)
    (change : Change) (specified : spec.perform (.change addr change) = some spec') :
    ∃ w', exec (w.perform J (.change addr change)) ls = (.ok w', ls) ∧
      Refines J ls₀ old w' ls spec' := by
  rw [Spec.perform] at specified
  split at specified
  · next known =>
    cases specified
    refine ⟨_, rfl, { refines with
      next := refines.next.trans_le (J.perform_le _ _ _)
      simulates := ?_ }⟩
    simp only [J.view_perform]
    have current := refines.simulates.current
    refine refines.simulates.change ⟨fun other member => ?_, fun other absent => ?_⟩
    · by_cases same : other = addr
      · subst same
        simp only [Standing.change, Function.update_self]
        rw [current.inside other member]
      · have differs : other.1 ≠ addr.1 := fun equal => same (Subtype.ext equal)
        simp only [Standing.change, Function.update_of_ne same, Function.update_of_ne differs]
        exact current.inside other member
    · have differs : other ≠ addr := fun same => absent (same ▸ known)
      simp only [Standing.change, Function.update_of_ne differs]
      exact current.outside other absent
  · cases specified

/-- The numbers of the snapshots have the order of the snapshots. -/
theorem Refines.order (refines : Refines J ls₀ old w ls spec) {n m id id' : Nat}
    (number : w.numbers[n]? = some id) (number' : w.numbers[m]? = some id') :
    (n = m ↔ id = id') ∧ (n < m ↔ id < id') := by
  obtain ⟨inside, rfl⟩ := List.getElem?_eq_some_iff.mp number
  obtain ⟨inside', rfl⟩ := List.getElem?_eq_some_iff.mp number'
  have rising := List.pairwise_iff_getElem.mp refines.increasing
  rcases lt_trichotomy n m with less | rfl | more
  · have less' := rising n m inside inside' less
    omega
  · omega
  · have more' := rising m n inside' inside more
    omega

theorem loadedBefore_revert {id id' : Nat} (less : id ≤ id') (accessed : Accessed) :
    loadedBefore (revertAccessedObjAddr accessed id') id = loadedBefore accessed id := by
  rw [loadedBefore, revertAccessedObjAddr, List.filter_filter]
  refine List.filter_congr fun entry _ => ?_
  rw [Bool.eq_iff_iff, Bool.and_eq_true, decide_eq_true_iff, decide_eq_true_iff]
  omega

theorem Refines.revert (refines : Refines J ls₀ old w ls spec) (n : Nat)
    (specified : spec.perform (.revert n) = some spec') :
    ∃ w', exec (w.perform J (.revert n)) ls = (.ok w', ls) ∧ Refines J ls₀ old w' ls spec' := by
  obtain ⟨points, reverted, rfl⟩ := Option.map_eq_some_iff.mp specified
  obtain ⟨saved, kept⟩ := Checkpoints.revert_eq_some reverted
  -- the number that geth gave to this snapshot
  obtain ⟨⟨id, accounts⟩, savedAs⟩ := refines.simulates.related saved
  have number : w.numbers[n]? = some id := savedAs.number
  have member : id ∈ w.numbers := List.mem_of_getElem? number
  obtain ⟨points', reverted', simulates⟩ := refines.simulates.revert
    (fun x y here => refines.order here.number number) (fun x y here _ => here.mirrors)
    (fun entry before => refines.earlier entry before id member) reverted
  refine ⟨{ w with
      state := J.revertToSnapshot w.state id
      accessed := revertAccessedObjAddr w.accessed id }, ?_, ?_⟩
  · simp only [Wrapper.perform, number]
    rfl
  have fewer : (revertAccessedObjAddr w.accessed id).Sublist w.accessed := List.filter_sublist
  refine { refines with
    loaded := ?_
    distinct := refines.distinct.sublist (fewer.map _)
    tagged := fun entry here => refines.tagged entry (fewer.subset here)
    next := refines.next.trans_le (J.revert_le _ _)
    simulates := ?_ }
  · have same : revertAccessedObjAddr w.accessed id = loadedBefore w.accessed id := by
      refine List.filter_congr fun entry _ => ?_
      rw [decide_eq_decide]
      exact not_lt
    rw [same]
    exact savedAs.loaded
  · simp only [J.view_revert w.state id points' reverted']
    refine simulates.imp fun x here y savedAs' => ⟨savedAs'.number, savedAs'.mirrors, ?_⟩
    have before : x.1 < n := by
      rw [kept] at here
      have satisfied := List.mem_takeWhile_imp here
      exact of_decide_eq_true satisfied
    have less := (refines.order savedAs'.number number).2.mp before
    rw [loadedBefore_revert less.le]
    exact savedAs'.loaded

/-- An operation that is allowed succeeds, and keeps the refinement. -/
theorem Refines.perform (refines : Refines J ls₀ old w ls spec) (op : Op)
    (specified : spec.perform op = some spec') :
    ∃ w' ls', exec (w.perform J op) ls = (.ok w', ls') ∧ Refines J ls₀ old w' ls' spec' := by
  cases op with
  | snapshot =>
    obtain ⟨w', ran, refines'⟩ := refines.snapshot specified
    exact ⟨w', ls, ran, refines'⟩
  | access addr => exact refines.access addr specified
  | change addr change =>
    obtain ⟨w', ran, refines'⟩ := refines.change addr change specified
    exact ⟨w', ls, ran, refines'⟩
  | revert n =>
    obtain ⟨w', ran, refines'⟩ := refines.revert n specified
    exact ⟨w', ls, ran, refines'⟩

theorem Refines.run (refines : Refines J ls₀ old w ls spec) (ops : List Op)
    (specified : spec.run ops = some spec') :
    ∃ w' ls', exec (Wrapper.run J ops w) ls = (.ok w', ls') ∧
      Refines J ls₀ old w' ls' spec' := by
  induction ops generalizing w ls spec with
  | nil =>
    cases specified
    exact ⟨w, ls, rfl, refines⟩
  | cons op rest ih =>
    obtain ⟨spec₁, first, later⟩ := Option.bind_eq_some_iff.mp specified
    obtain ⟨w₁, ls₁, ran, refines₁⟩ := refines.perform op first
    obtain ⟨w', ls', ran', refines'⟩ := ih refines₁ later
    refine ⟨w', ls', ?_, refines'⟩
    rw [Wrapper.run, exec_bind, ran, andThen_ok]
    exact ran'

end

/-! ## The end of an execution -/

/-- An account that is set stands in the ledger. -/
theorem standing_put (removed : (ls .accounts).removed = []) (acct : Account)
    (addr : Address) : (put ls .accounts acct).standing addr =
      if LedgerItem.key acct = toLedgerKey addr then (acct.nonce, acct.balance)
      else ls.standing addr := by
  unfold standing account
  rw [put_self, Store.lookup_set, removed]
  by_cases same : LedgerItem.key acct = toLedgerKey addr <;> simp [same]

theorem key_getD (ls : Stores) (addr : Address) :
    LedgerItem.key ((ls.account addr).getD (Account.newAccount addr)) = toLedgerKey addr := by
  cases found : ls.account addr with
  | none => rfl
  | some acct => exact Store.key_of_lookup found

theorem common_eq_of_key {other : Address} (sized : addr.length = addrSize)
    (sized' : other.length = addrSize) (same : toLedgerKey addr = toLedgerKey other) :
    addr = other := by
  refine toLedgerKey_injOn ?_ (sized.trans sized'.symm) same
  rw [sized]
  decide

/-- `Finish` copies the accounts that were loaded, and leaves the others. -/
theorem exec_finish (state : E.State)
    (sized : ∀ entry ∈ accessed, entry.1.length = addrSize)
    (removed : (ls .accounts).removed = []) :
    ∃ ls', exec (finish state accessed) ls = (.ok (), ls') ∧
      ∀ addr : CommonAddress, ls'.standing addr =
        if addr.1 ∈ accessed.map Prod.fst then E.account state addr else ls.standing addr := by
  induction accessed generalizing ls with
  | nil => exact ⟨ls, rfl, fun addr => rfl⟩
  | cons head tail ih =>
    let acct : Account := { (ls.account head.1).getD (Account.newAccount head.1) with
      nonce := (E.account state head.1).1
      balance := (E.account state head.1).2 }
    have created := (removed_withAccount ls head.1).trans removed
    have stored : (put (ls.withAccount head.1) .accounts acct .accounts).removed = [] := by
      rw [put_self]
      exact created
    obtain ⟨ls', ran, standing⟩ := ih
      (fun entry member => sized entry (List.mem_cons_of_mem _ member)) stored
    refine ⟨ls', ?_, fun addr => ?_⟩
    · change exec ((AcctCtrler.findOrNewAccount head.1 >>= _) >>= fun _ => finish state tail) ls =
        _
      rw [exec_bind, exec_bind, AcctCtrler.exec_findOrNewAccount]
      exact ran
    · have key : LedgerItem.key acct = toLedgerKey head.1 := key_getD ls head.1
      rw [standing addr, standing_put created, standing_withAccount, key, List.map_cons]
      by_cases here : head.1 = addr.1
      · rw [if_pos (congrArg toLedgerKey here), if_pos (List.mem_cons.mpr (.inl here.symm)), ← here]
        split <;> rfl
      · have differs : toLedgerKey head.1 ≠ toLedgerKey addr.1 := fun same =>
          here (common_eq_of_key (sized head List.mem_cons_self) addr.2 same)
        simp only [if_neg differs, List.mem_cons, Ne.symm here, false_or]

/-- Any sequence of operations of geth, within one execution and ending in `Finish`, leaves the
nonces and balances that the same operations on the ledger itself would leave. -/
theorem finish_refines {E : EvmLib} (J : Journal E) (state : E.State) {ls : Stores}
    (removed : (ls .accounts).removed = []) (ops : List Op) {spec : Spec}
    (specified : (Spec.start ls).run ops = some spec) :
    ∃ w ls₁ ls₂, exec (Wrapper.run J ops (Wrapper.start J state)) ls = (.ok w, ls₁) ∧
      exec (finish w.state w.accessed) ls₁ = (.ok (), ls₂) ∧
      w.accessed.map Prod.fst = spec.points.current.loaded.map Subtype.val ∧
      (∀ addr : CommonAddress, ls₂.standing addr = spec.points.current.accounts addr) ∧
      ∀ addr : CommonAddress, addr ∉ spec.points.current.loaded →
        ls₂.standing addr = ls.standing addr := by
  obtain ⟨w, ls₁, ran, refines⟩ := (refines_start J state removed).run ops specified
  have sized : ∀ entry ∈ w.accessed, entry.1.length = addrSize := by
    intro entry member
    have loaded : entry.1 ∈ spec.points.current.loaded.map Subtype.val :=
      refines.loaded ▸ List.mem_map_of_mem member
    obtain ⟨addr, -, same⟩ := List.mem_map.mp loaded
    rw [← same]
    exact addr.2
  obtain ⟨ls₂, finished, standing⟩ := exec_finish w.state sized refines.removed
  have mirrors := refines.simulates.current
  have unloaded (addr : CommonAddress) (absent : addr ∉ spec.points.current.loaded) :
      ls₂.standing addr = ls.standing addr := by
    rw [standing addr, if_neg fun here => absent ((refines.mem_loaded addr).mpr here), refines.ledger]
  refine ⟨w, ls₁, ls₂, ran, finished, refines.loaded, fun addr => ?_, unloaded⟩
  by_cases known : addr ∈ spec.points.current.loaded
  · rw [standing addr, if_pos ((refines.mem_loaded addr).mp known), J.account]
    exact mirrors.inside addr known
  · rw [unloaded addr known]
    exact (mirrors.outside addr known).symm

/-! ### A journal -/

/-- A `StateDB` that keeps a copy of all accounts for each snapshot. -/
structure Copies where
  points : Checkpoints (Address → Nat × Uint256)
  next : Nat
  valid : ∀ entry ∈ points.saved, entry.1 < next

namespace Copies

def change (s : Copies) (f : (Address → Nat × Uint256) → Address → Nat × Uint256) : Copies where
  points := s.points.change f
  next := s.next
  valid := s.valid

def snapshot (s : Copies) : Copies where
  points := s.points.snapshot s.next
  next := s.next + 1
  valid entry member := by
    rcases List.mem_append.mp member with before | here
    · exact (s.valid entry before).trans (Nat.lt_succ_self _)
    · rw [List.mem_singleton.mp here]
      exact Nat.lt_succ_self _

def revert (s : Copies) (id : Nat) : Copies :=
  match reverted : s.points.revert id with
  | none => s
  | some points =>
    { points
      next := s.next
      valid := fun entry member => by
        rw [(Checkpoints.revert_eq_some reverted).2] at member
        exact s.valid entry ((List.takeWhile_sublist _).subset member) }

/-- An EVM on such a `StateDB` that executes nothing. -/
def evm : EvmLib where
  State := Copies
  new _ := ⟨⟨fun _ => (0, 0), []⟩, 0, fun _ member => absurd member List.not_mem_nil⟩
  snapshot s := s.next
  setAccount s addr nonce balance :=
    s.change fun accounts => Function.update accounts addr (nonce, balance)
  account s := s.points.current
  applyMessage s _ gasPool := .done (.error "intrinsic gas too low") s gasPool
  finalise s := s
  commit _ := []
  intrinsicGas _ _ := .ok 21000
  createAddress sender _ := sender

def journal : Journal evm where
  view := Copies.points
  takeSnapshot := snapshot
  revertToSnapshot := revert
  perform s addr change :=
    s.change fun accounts => Function.update accounts addr (change.apply (accounts addr))
  account _ := rfl
  view_setAccount _ _ _ _ := rfl
  view_perform _ _ _ := rfl
  view_takeSnapshot _ := rfl
  view_revert s id c reverted := by
    unfold revert
    split
    · next none =>
      rw [none] at reverted
      cases reverted
    · next points same => exact Option.some.inj (same.symm.trans reverted)
  valid_lt s := s.valid
  setAccount_le _ _ _ _ := le_rfl
  perform_le _ _ _ := le_rfl
  takeSnapshot_lt s := Nat.lt_succ_self s.next
  revert_le s id := by
    change s.next ≤ (revert s id).next
    unfold revert
    split <;> exact le_rfl

end Copies

/-- An address that ends in a byte. -/
def common (n : UInt8) : CommonAddress := ⟨zeroBytes 19 ++ [n], by simp [zeroBytes, addrSize]⟩

/-- A call that loads an account, pays it and is reverted, and another one that pays it less. -/
def revertedCall : List Op :=
  [.access (common 1), .snapshot, .access (common 2), .change (common 2) (.addBalance 5),
    .change (common 1) (.setNonce 3), .revert 1, .access (common 2),
    .change (common 2) (.addBalance 2)]

/-- The payment that was reverted does not reach the ledger. -/
theorem finish_refines_revertedCall :
    ∃ (w : Wrapper Copies.evm) (ls₁ ls₂ : Stores),
      exec (Wrapper.run Copies.journal revertedCall
        (Wrapper.start Copies.journal (Copies.evm.new []))) (fun _ => Store.new Tree.empty) =
          (.ok w, ls₁) ∧
      exec (finish w.state w.accessed) ls₁ = (.ok (), ls₂) ∧
      ls₂.standing (common 1) = (0, 0) ∧ ls₂.standing (common 2) = (0, 2) := by
  have allowed : ((Spec.start fun _ => Store.new Tree.empty).run revertedCall).isSome := by
    decide +kernel
  obtain ⟨spec, specified⟩ := Option.isSome_iff_exists.mp allowed
  obtain ⟨w, ls₁, ls₂, ran, finished, -, standing, -⟩ :=
    finish_refines Copies.journal (Copies.evm.new []) rfl revertedCall specified
  have expected : ∀ spec ∈ (Spec.start fun _ => Store.new Tree.empty).run revertedCall,
      spec.points.current.accounts (common 1) = (0, 0) ∧
        spec.points.current.accounts (common 2) = (0, 2) := by decide +kernel
  refine ⟨w, ls₁, ls₂, ran, finished, ?_⟩
  rw [standing, standing]
  exact expected spec specified

end EvmCtrler

end Rigo
