import Rigo.Ledger.CommitOrder
import Rigo.Node.Failures
import Rigo.Node.NoReplay

/-!
# Writes in any order

The operations on a tree come from two Go maps, whose iteration order is random: the written items of a
ledger (`CommitKeys`), and the addresses that `StateDBWrapper.Finish` copies back.

**The ledger.**  Items that are set under different keys are written in the same order whichever was
set first.

**Finish.**  The addresses it iterates over are distinct and of one size, so they have different keys,
and every round writes under the key of its own address what it finds there (`writeBack_comm`).  Every
address has an account by then: it was created when the address was loaded, so that no account is made
from the loop variable.
-/

namespace Rigo

open Foundation
open AcctCtrler EvmCtrler FinalityLedger RigoApp

variable {accessed : Accessed} {ls : Stores}

/-! ## Items under different keys -/

namespace FinalityLedger

variable {T : Type} [LedgerItem T]

theorem store_foldl_setFinality (items : List T) (l : FinalityLedger T) :
    (items.foldl setFinality l).store =
      { l.store with updated := l.store.updated.insertAll items } := by
  induction items generalizing l with
  | nil => rfl
  | cons x rest ih =>
    rw [List.foldl_cons, ih]
    rfl

/-- The order in which items are set under different keys does not matter. -/
theorem store_foldl_perm {items items' : List T} (permuted : items.Perm items')
    (distinct : (items.map LedgerItem.key).Nodup) (l : FinalityLedger T) :
    (items.foldl setFinality l).store = (items'.foldl setFinality l).store := by
  rw [store_foldl_setFinality, store_foldl_setFinality,
    KeyedMap.insertAll_perm _ permuted distinct]

end FinalityLedger

namespace Stores

/-- A second write under a key replaces the first. -/
theorem put_put {l : LedgerId} (ls : Stores) {x y : l.Item}
    (same : LedgerItem.key x = LedgerItem.key y) : (ls.put l x).put l y = ls.put l y := by
  unfold put
  rw [Function.update_self, Function.update_idem, Store.set, Store.set, Store.set]
  simp only [KeyedMap.insert_insert _ same]

/-- Writes under different keys can be exchanged. -/
theorem put_comm {l : LedgerId} (ls : Stores) {x y : l.Item}
    (other : LedgerItem.key x ≠ LedgerItem.key y) :
    (ls.put l x).put l y = (ls.put l y).put l x := by
  unfold put
  rw [Function.update_self, Function.update_self, Function.update_idem, Function.update_idem,
    Store.set, Store.set, Store.set, Store.set]
  simp only [KeyedMap.insert_comm _ other]

end Stores

/-! ## Finish -/

namespace EvmCtrler

variable {E : EvmLib}

/-- The account that `Finish` writes for an address. -/
def written (state : E.State) (ls : Stores) (addr : Address) : Account :=
  { (ls.account addr).getD (Account.newAccount addr) with
    nonce := (E.account state addr).1
    balance := (E.account state addr).2 }

/-- One round of `Finish`. -/
def writeBack (state : E.State) (ls : Stores) (entry : Address × Nat) : Stores :=
  ls.put .accounts (written state ls entry.1)

/-- What is written has the key of the address. -/
theorem key_written (state : E.State) (ls : Stores) (addr : Address) :
    LedgerItem.key (written state ls addr) = toLedgerKey addr := by
  unfold written
  cases found : ls.account addr with
  | none => rfl
  | some acct =>
    have key : LedgerItem.key acct = toLedgerKey addr := Store.key_of_lookup found
    exact key

theorem put_withAccount (ls : Stores) (addr : Address) {acct : Account}
    (key : LedgerItem.key acct = toLedgerKey addr) :
    (ls.withAccount addr).put .accounts acct = ls.put .accounts acct := by
  unfold Stores.withAccount
  cases ls.account addr with
  | some _ => rfl
  | none => exact ls.put_put key.symm

theorem exec_finish_eq (state : E.State) (accessed : Accessed) (ls : Stores) :
    exec (finish state accessed) ls = (.ok (), accessed.foldl (writeBack state) ls) := by
  induction accessed generalizing ls with
  | nil => rfl
  | cons entry rest ih =>
    change exec ((findOrNewAccount entry.1 >>= _) >>= fun _ => finish state rest) ls = _
    rw [exec_bind, exec_bind, exec_findOrNewAccount]
    refine (ih _).trans ?_
    rw [List.foldl_cons, writeBack, ← put_withAccount ls entry.1 (key_written state ls entry.1)]
    rfl

/-- Rounds for addresses with different keys can be exchanged. -/
theorem writeBack_comm (state : E.State) (ls : Stores) {entry entry' : Address × Nat}
    (other : toLedgerKey entry.1 ≠ toLedgerKey entry'.1) :
    writeBack state (writeBack state ls entry) entry' =
      writeBack state (writeBack state ls entry') entry := by
  -- a round does not change what another one reads
  have reads {entry entry' : Address × Nat} (other : toLedgerKey entry.1 ≠ toLedgerKey entry'.1) :
      written state (writeBack state ls entry) entry'.1 = written state ls entry'.1 := by
    have same : (writeBack state ls entry).account entry'.1 = ls.account entry'.1 :=
      Stores.account_put_of_ne ((key_written state ls entry.1).trans_ne other)
    rw [written, same, written]
  have round (ls : Stores) (entry : Address × Nat) :
    writeBack state ls entry = ls.put .accounts (written state ls entry.1) := rfl
  rw [round (writeBack state ls entry), reads other, round (writeBack state ls entry'),
    reads other.symm, round, round]
  refine Stores.put_comm ls ?_
  rw [key_written, key_written]
  exact other

/-- The order in which `Finish` iterates over distinct addresses does not matter. -/
theorem exec_finish_perm (state : E.State) {accessed' : Accessed}
    (permuted : accessed'.Perm accessed) (distinct : (accessed.map Prod.fst).Nodup)
    (sized : AllIn (fun addr => addr.length = addrSize) accessed) (ls : Stores) :
    exec (finish state accessed') ls = exec (finish state accessed) ls := by
  rw [exec_finish_eq, exec_finish_eq]
  congr 1
  refine permuted.foldl_eq' (fun entry member entry' member' ls => ?_) ls
  have member := permuted.mem_iff.mp member
  have member' := permuted.mem_iff.mp member'
  by_cases same : entry.1 = entry'.1
  · rw [List.inj_on_of_nodup_map distinct member member' same]
  · refine writeBack_comm state ls fun keys => same ?_
    have size : entry.1.length = addrSize := sized entry member
    have size' : entry'.1.length = addrSize := sized entry' member'
    exact toLedgerKey_injOn (by rw [size]; decide) (size.trans size'.symm) keys

/-! ### The addresses that were loaded -/

/-- Addresses of geth. -/
abbrev IsCommon (addr : Address) : Prop := addr.length = addrSize

/-- The addresses that were copied in: each one once, as addresses of geth, and, if no account was
removed, with an account. -/
structure LoadedIn (removed : List LedgerKey) (accessed : Accessed) (ls : Stores) : Prop where
  distinct : (accessed.map Prod.fst).Nodup
  sized : AllIn IsCommon accessed
  kept : (ls .accounts).removed = removed
  present : removed = [] → ∀ entry ∈ accessed, (ls.account entry.1).isSome

section

variable {removed : List LedgerKey}

theorem LoadedIn.revert  (loaded : LoadedIn removed accessed ls)
    (snapshot : Nat) : LoadedIn removed (revertAccessedObjAddr accessed snapshot) ls where
  distinct := loaded.distinct.sublist (List.filter_sublist.map _)
  sized := loaded.sized.revert snapshot
  kept := loaded.kept
  present none entry member := loaded.present none entry (List.mem_of_mem_filter member)

/-- An address is loaded once, and an account is created for it. -/
theorem LoadedIn.add  (loaded : LoadedIn removed accessed ls)
    (snapshot : Nat) {addr : Address} (size : IsCommon addr) :
    ∃ answer accessed' ls', exec (addAccessedObjAddr accessed snapshot addr) ls =
      (.ok (answer, accessed'), ls') ∧ LoadedIn removed accessed' ls' := by
  unfold addAccessedObjAddr
  split
  · exact ⟨none, accessed, ls, rfl, loaded⟩
  · next new =>
    rw [exec_bind, exec_findOrNewAccount]
    refine ⟨_, _, _, rfl, ?_, ?_, (removed_withAccount ls addr).trans loaded.kept, ?_⟩
    · rw [List.map_append, List.nodup_append]
      refine ⟨loaded.distinct, List.nodup_singleton _, ?_⟩
      rintro known member _ added rfl
      obtain ⟨entry, member', rfl⟩ := List.mem_map.mp member
      rw [List.map_singleton, List.mem_singleton] at added
      exact new (List.any_eq_true.mpr ⟨entry, member', beq_iff_eq.mpr added⟩)
    · intro entry member
      rcases List.mem_append.mp member with old | added
      · exact loaded.sized entry old
      · rw [List.mem_singleton.mp added]
        exact size
    · intro none entry member
      rcases List.mem_append.mp member with old | added
      · obtain ⟨acct, found⟩ := Option.isSome_iff_exists.mp (loaded.present none entry old)
        rw [Stores.account_withAccount found]
        rfl
      · rw [List.mem_singleton.mp added]
        obtain ⟨acct, found⟩ := Stores.account_withAccount_self (loaded.kept.trans none) addr
        rw [found]
        rfl

theorem LoadedIn.runEvm {tree : EvmRun E.State} (visits : tree.Visits IsCommon)
     (loaded : LoadedIn removed accessed ls) (snapshot : Nat) :
    ∃ applied ls', exec (runEvm tree accessed snapshot) ls = (.ok applied, ls') ∧
      LoadedIn removed applied.accessed ls' := by
  induction tree generalizing accessed ls snapshot with
  | access addr next ih =>
    obtain ⟨answer, accessed', ls', ran, loaded'⟩ := loaded.add snapshot visits.1
    obtain ⟨applied, ls'', ran', loaded''⟩ := ih answer (visits.2 answer) loaded' snapshot
    refine ⟨applied, ls'', ?_, loaded''⟩
    rw [runEvm, exec_bind, ran, andThen_ok]
    exact ran'
  | snapshot id next ih => exact ih visits loaded id
  | revert id next ih => exact ih visits (loaded.revert id) snapshot
  | done result state gasPool => exact ⟨_, ls, rfl, loaded⟩

theorem LoadedIn.load  (loaded : LoadedIn removed accessed ls)
    (snapshot : Nat) (state : E.State) {addr : Address} (size : IsCommon addr) :
    ∃ state' accessed' ls', exec (load accessed snapshot state addr) ls =
      (.ok (state', accessed'), ls') ∧ LoadedIn removed accessed' ls' := by
  obtain ⟨answer, accessed', ls', ran, loaded'⟩ := loaded.add snapshot size
  unfold EvmCtrler.load
  rw [exec_bind, ran, andThen_ok]
  cases answer with
  | none => exact ⟨state, accessed', ls', rfl, loaded'⟩
  | some standing => exact ⟨_, accessed', ls', rfl, loaded'⟩

theorem loaded_prepare (state : E.State) (snap : Nat) (sender receiver : Address) (ls : Stores) :
    ∃ prepared accessed ls', exec (prepare state snap sender receiver) ls =
      (.ok (prepared, accessed), ls') ∧ LoadedIn (ls .accounts).removed accessed ls' := by
  have none : LoadedIn (ls .accounts).removed [] ls := ⟨List.nodup_nil, nofun, rfl, nofun⟩
  obtain ⟨state', accessed, ls', ran, loaded⟩ := none.load snap state (array20_length sender)
  unfold prepare
  rw [exec_bind, ran, andThen_ok]
  simp only
  split
  · exact ⟨state', accessed, ls', rfl, loaded⟩
  · exact loaded.load snap state' (array20_length receiver)

/-- When geth has ended, the addresses are loaded. -/
theorem loaded_apply (visits : ∀ (state : E.State) (msg : EvmMessage) (gasPool : Nat),
      (E.applyMessage state msg gasPool).Visits IsCommon)
    (ctx : TrxContext) (m : EvmMem E) (state : E.State) (ls : Stores) :
    ∃ applied ls', exec (apply ctx m state) ls = (.ok applied, ls') ∧
      LoadedIn (ls .accounts).removed applied.accessed ls' := by
  obtain ⟨prepared, accessed, ls₁, ran, loaded⟩ := loaded_prepare state (E.snapshot state)
    ctx.tx.fromAddr ctx.tx.toAddr ls
  unfold apply
  rw [exec_bind, ran, andThen_ok]
  exact loaded.runEvm (visits _ _ _) _

end

/-! ### `ExecuteTrx` with any order of iteration -/

section

variable (shuffle : Accessed → Accessed)

/-- `ExecuteTrx`, with the loop of `Finish` in another order. -/
def executeTrxIn (ctx : TrxContext) : Ctrler E TrxResult :=
  if ctx.exec = false then return ⟨0, [], none⟩
  else do
    let receiver ← Ctrler.ledger (AcctCtrler.accountAt ctx.tx.toAddr)
    if ctx.tx.type ≠ .contract ∧ receiver.code = [] then
      return ⟨0, [], some .errUnknownTrxType⟩
    else
      let m ← Ctrler.getEvm
      match m.stateDB with
      | none => crash .nilDereference
      | some state => do
          let applied ← Ctrler.ledger (apply ctx m state)
          concludeIn shuffle ctx m state applied

variable {shuffle} {removed : List LedgerKey}
  (shuffles : ∀ accessed, (shuffle accessed).Perm accessed)

include shuffles

theorem run_finish_shuffle (state : E.State) {r : Workspace E}
    (loaded : LoadedIn removed accessed r.ledgers) :
    run (trxHandler storeImpl) (Ctrler.ledger (finish state (shuffle accessed)) : Ctrler E Unit) r =
      run (trxHandler storeImpl) (Ctrler.ledger (finish state accessed)) r := by
  have same := exec_finish_perm state (shuffles accessed) loaded.distinct loaded.sized r.ledgers
  rw [run_ledger, run_ledger]
  exact congrArg (fun outcome => (outcome.1, { r with ledgers := outcome.2 })) same

theorem run_undoIn (m : EvmMem E) (state : E.State) (snap : Nat) {applied : Applied E.State}
    {r : Workspace E} (loaded : LoadedIn removed applied.accessed r.ledgers) :
    run (trxHandler storeImpl) (undoIn shuffle m state snap applied) r =
      run (trxHandler storeImpl) (undo m state snap applied) r := by
  unfold undoIn undo
  rw [Prog.bind_eq, run_bind, run_finish_shuffle shuffles state (loaded.revert snap),
    ← run_bind]
  rfl

theorem run_concludeIn (ctx : TrxContext) (m : EvmMem E) (state : E.State)
    {applied : Applied E.State} {r : Workspace E} (loaded : LoadedIn removed applied.accessed r.ledgers) :
    run (trxHandler storeImpl) (concludeIn shuffle ctx m state applied) r =
      run (trxHandler storeImpl) (conclude ctx m state applied) r := by
  have undone : run (trxHandler storeImpl) (undoIn shuffle m state (E.snapshot state) applied) r =
      run (trxHandler storeImpl) (undoIn id m state (E.snapshot state) applied) r :=
    run_undoIn shuffles m state _ loaded
  unfold conclude concludeIn
  cases applied.result with
  | error err =>
    simp only [Prog.bind_eq, run_bind, undone]
  | ok result =>
    cases failed : result.err with
    | some err => simp only [failed, Prog.bind_eq, run_bind, undone]
    | none =>
      simp only [failed]
      rw [Prog.bind_eq, run_bind, run_finish_shuffle shuffles _ loaded,
        ← run_bind]
      rfl

/-- `ExecuteTrx` gives the same result and leaves the same state in whatever order `Finish` iterates. -/
theorem run_executeTrxIn (visits : ∀ (state : E.State) (msg : EvmMessage) (gasPool : Nat),
      (E.applyMessage state msg gasPool).Visits IsCommon) (ctx : TrxContext) (r : Workspace E) :
    run (trxHandler storeImpl) (executeTrxIn shuffle ctx) r =
      run (trxHandler storeImpl) (executeTrx ctx) r := by
  have rest (m : EvmMem E) (state : E.State) (r : Workspace E) :
      run (trxHandler storeImpl) (Ctrler.ledger (apply ctx m state) >>= fun applied =>
        concludeIn shuffle ctx m state applied) r =
      run (trxHandler storeImpl) (execute ctx m state) r := by
    obtain ⟨applied, ls, ran, loaded⟩ := loaded_apply visits ctx m state r.ledgers
    rw [Prog.bind_eq, run_bind, run_ledger_of_exec ran, andThen_ok,
      run_execute ran]
    exact run_concludeIn shuffles ctx m state loaded
  unfold executeTrxIn executeTrx
  split
  · rfl
  · conv_lhs => rw [Prog.bind_eq, run_bind]
    conv_rhs => rw [Prog.bind_eq, run_bind]
    generalize run (trxHandler storeImpl)
      (Ctrler.ledger (accountAt ctx.tx.toAddr)) r = read
    obtain ⟨fault | receiver, r'⟩ := read
    · rfl
    · rw [andThen_ok, andThen_ok]
      split
      · rfl
      · conv_lhs => rw [Prog.bind_eq, run_bind]
        conv_rhs => rw [Prog.bind_eq, run_bind]
        rw [Ctrler.getEvm, run_perform, andThen_ok, andThen_ok]
        simp only [trxHandler, trxStep]
        cases r'.evm.stateDB with
        | none => rfl
        | some state => exact rest r'.evm state r'

end

end EvmCtrler

/-- **Order of writes.**  Items that are set under different keys, in any order, and with any order of
the iteration and any sorting in `Commit`, lead to the same operations on the tree, and so to the same
tree.  `ExecuteTrx` leaves the same state in whatever order `Finish` iterates over the addresses that
were loaded, so the application hash does not depend on it; and each of these has an account when
`Finish` starts. -/
theorem write_order_invisible :
    (∀ (T : Type) [LedgerItem T] (l : FinalityLedger T) (items items' : List T),
      items.Perm items' → (items.map LedgerItem.key).Nodup →
      ∀ (keys : CommitKeys (items.foldl setFinality l).finalityItems.updatedItems)
        (keys' : CommitKeys (items'.foldl setFinality l).finalityItems.updatedItems),
      committedIn (items.foldl setFinality l).tree
          (items.foldl setFinality l).finalityItems.updatedItems
          (items.foldl setFinality l).finalityItems.removedKeys keys.sorted =
        committedIn (items'.foldl setFinality l).tree
          (items'.foldl setFinality l).finalityItems.updatedItems
          (items'.foldl setFinality l).finalityItems.removedKeys keys'.sorted) ∧
    ∀ (X : External) (ctx : TrxContext),
      (∀ (state : X.evm.State) (msg : EvmMessage) (gasPool : Nat),
        (X.evm.applyMessage state msg gasPool).Visits EvmCtrler.IsCommon) →
      (∀ (shuffle : EvmCtrler.Accessed → EvmCtrler.Accessed) (s : Node X.evm)
          (state : X.evm.State), (∀ accessed, (shuffle accessed).Perm accessed) →
        run (trxHandler storeImpl) (executeTrxIn shuffle ctx) s.toResources =
            run (trxHandler storeImpl) (EvmCtrler.executeTrx ctx) s.toResources ∧
          appHashOf X { s with toResources := (run (trxHandler storeImpl)
              (executeTrxIn shuffle ctx) s.toResources).2 } state =
            appHashOf X { s with toResources := (run (trxHandler storeImpl)
              (EvmCtrler.executeTrx ctx) s.toResources).2 } state) ∧
      ∀ (m : EvmMem X.evm) (state : X.evm.State) (ls : Stores), (ls .accounts).removed = [] →
        ∃ applied ls', exec (apply ctx m state) ls = (.ok applied, ls') ∧
          ∀ entry ∈ applied.accessed, (ls'.account entry.1).isSome := by
  refine ⟨?_, fun X ctx visits => ⟨?_, ?_⟩⟩
  · intro T _ l items items' permuted distinct keys keys'
    have same := congrArg Store.commit (store_foldl_perm permuted distinct l)
    rw [committedIn_eq, committedIn_eq]
    exact congrArg Store.tree same
  · intro shuffle s state shuffles
    have same := run_executeTrxIn shuffles visits ctx s.toResources
    rw [same]
    exact ⟨rfl, rfl⟩
  · intro m state ls removed
    obtain ⟨applied, ls', ran, loaded⟩ := loaded_apply visits ctx m state ls
    exact ⟨applied, ls', ran, loaded.present removed⟩

/-- A ledger in which two accounts were set. -/
def twoAccounts (n n' : UInt8) : FinalityLedger Account :=
  [Account.newAccount (Concrete.addr n), Account.newAccount (Concrete.addr n')].foldl
    setFinality (FinalityLedger.new Tree.empty)

/-- A block in which a call is the next transaction. -/
def calling : App transferAndCall.evm :=
  (runCalls transferAndCall finalityImpl
    [.beginBlock (Concrete.block 1), .deliverTx [0]] oneValidator).2

def callContext : TrxContext :=
  TrxExecutor.contextOf transferAndCall.trx
    (deliverSetting calling.mem (calling.mem.nextBlockCtx.get (by decide +kernel))) [1]
    ((Trx.decode transferAndCall.trx [1]).toOption.get (by decide +kernel))

/-- Two accounts that are set in either order, and a call that loads two addresses, succeeds and is
finished in reverse. -/
theorem write_order_invisible_reversed :
    committedIn (twoAccounts 1 2).tree (twoAccounts 1 2).finalityItems.updatedItems
        (twoAccounts 1 2).finalityItems.removedKeys
        (CommitKeys.descending (twoAccounts 1 2).finalityItems.updatedItems).sorted =
      committedIn (twoAccounts 2 1).tree (twoAccounts 2 1).finalityItems.updatedItems
        (twoAccounts 2 1).finalityItems.removedKeys
        (CommitKeys.descending (twoAccounts 2 1).finalityItems.updatedItems).sorted ∧
      (exec (apply callContext (App.node calling).evm
          (stateOf (App.node calling).evm)) (App.node calling).ledgers).1.toOption.map
        (fun applied => applied.accessed.map Prod.fst) = some [Concrete.addr 1, Concrete.addr 2] ∧
      (run (trxHandler storeImpl) (EvmCtrler.executeTrx callContext)
        (App.node calling).toResources).1.toOption = some ⟨21064, [], none⟩ ∧
      run (trxHandler storeImpl) (executeTrxIn List.reverse callContext)
          (App.node calling).toResources =
        run (trxHandler storeImpl) (EvmCtrler.executeTrx callContext)
          (App.node calling).toResources := by
  refine ⟨?_, by decide +kernel, by decide +kernel, ?_⟩
  · exact write_order_invisible.1 Account (FinalityLedger.new Tree.empty)
      [Account.newAccount (Concrete.addr 1), Account.newAccount (Concrete.addr 2)]
      [Account.newAccount (Concrete.addr 2), Account.newAccount (Concrete.addr 1)]
      (List.Perm.swap _ _ _) (by decide) (CommitKeys.descending _) (CommitKeys.descending _)
  · have finished := (write_order_invisible.2 transferAndCall callContext
      fun _ _ _ => trivial).1 List.reverse (App.node calling) (fun _ => (0, 0)) List.reverse_perm
    exact finished.1

end Rigo
