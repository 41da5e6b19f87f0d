import Rigo.Node.Accounts

/-!
# Nonces

A transaction is executed only if its nonce is that of its sender, and a transaction that
is executed counts the nonce of its sender up: in `postRunTrx`, or inside geth, whose nonces
`Finish` copies into the account ledger.  Everything else keeps the nonces.

Of geth it is assumed (`EvmRun.CountsNonce`) that a successful execution counts up the nonce
of the sender and leaves those of the other addresses that belong to a key; that addresses
have 20 bytes; and that snapshots are numbered in ascending order.
-/

namespace Rigo

open Foundation
open AcctCtrler

variable {E : EvmLib} {X : External} {ls : Stores} {addr : Address} {N' : LedgerKey → Nat}
  {r : Workspace X.evm}

/-! ## Nonces in stores -/

/-- The nonce of an address. -/
def Stores.nonce (ls : Stores) (addr : Address) : Nat := nonceIn (ls.account addr)

/-- The nonces of the accounts are `N`, and their codes satisfy `C`. -/
abbrev HasNonce (N : LedgerKey → Nat) (C : LedgerKey → HexBytes → Prop) :
    LedgerKey → Option Account → Prop :=
  OnAccount fun k nonce code => nonce = N k ∧ C k code

/-- The stores have the nonces `N`, and codes that satisfy `C`. -/
abbrev HasNonces (N : LedgerKey → Nat) (C : LedgerKey → HexBytes → Prop) (ls : Stores) : Prop :=
  Holds .accounts (HasNonce N C) ls

/-- The code keeps the nonces `N` and the condition `C` on codes. -/
abbrev KeepsNonces {α : Type} (N : LedgerKey → Nat) (C : LedgerKey → HexBytes → Prop)
    (p : LedgerProg α) : Prop :=
  Keeps .accounts (HasNonce N C) p

/-- The code keeps the nonces `N`, and its value satisfies `result`. -/
abbrev ReturnsNonces {α : Type} (N : LedgerKey → Nat) (C : LedgerKey → HexBytes → Prop)
    (result : α → Prop) (p : LedgerProg α) : Prop :=
  Returns (keeping .accounts (HasNonce N C)) result p

/-- An account that may be set under an address. -/
abbrev Numbered (N : LedgerKey → Nat) (C : LedgerKey → HexBytes → Prop) (addr : Address)
    (acct : Account) : Prop :=
  Filed (HasNonce N C) addr acct

section

variable {N : LedgerKey → Nat} {C : LedgerKey → HexBytes → Prop}

/-- An account set under its address with another nonce. -/
theorem HasNonces.renumber (holds : HasNonces N C ls)
    {acct : Account} (numbered : Numbered N C addr acct) (acct' : Account)
    (code : acct'.code = acct.code) (key : LedgerItem.key acct' = LedgerItem.key acct) :
    HasNonces (Function.update N (toLedgerKey addr) acct'.nonce) C (ls.put .accounts acct') := by
  refine ⟨by rw [Stores.put_self]; exact holds.1, fun k => ?_⟩
  rw [Stores.put_self, Store.lookup_set_of_removed holds.1, key, numbered.key]
  by_cases here : toLedgerKey addr = k
  · subst here
    rw [if_pos rfl]
    refine ⟨by rw [Function.update_self]; rfl, ?_⟩
    change C (toLedgerKey addr) acct'.code
    rw [code]
    exact numbered.holds.2
  · rw [if_neg here]
    obtain ⟨nonce, kept⟩ := holds.2 k
    exact ⟨by rw [Function.update_of_ne (Ne.symm here)]; exact nonce, kept⟩

end

/-! ## geth -/

/-- What geth does to nonces while it applies a message of `sender`, if the nonces in the
account ledger are `nonces`: of the addresses it has accessed and that belong to a key, it
counts up the one of the sender and keeps the others. -/
def EvmRun.CountsNonce {S : Type} (account : S → Address → Nat × Uint256) (owned : Address → Prop)
    (nonces : Address → Nat) (sender : Address) (snap : Nat) :
    EvmRun S → EvmCtrler.Accessed → Nat → Prop
  | .access addr next, accessed, last =>
    addr.length = addrSize ∧
      if accessed.any fun entry => entry.1 == addr then
        (next none).CountsNonce account owned nonces sender snap accessed last
      else ∀ balance,
        (next (some (nonces addr, balance))).CountsNonce account owned nonces sender snap
          (accessed ++ [(addr, last + 1)]) last
  | .snapshot id next, accessed, _ =>
    snap < id ∧ next.CountsNonce account owned nonces sender snap accessed id
  | .revert id next, accessed, last =>
    snap < id ∧ next.CountsNonce account owned nonces sender snap
      (EvmCtrler.revertAccessedObjAddr accessed id) last
  | .done result state _, accessed, _ =>
    ∀ executed, result = .ok executed → executed.err = none → ∀ entry ∈ accessed,
      owned entry.1 → (account state entry.1).1 =
        if entry.1 = sender then (nonces entry.1 + 1) % 2 ^ 64 else nonces entry.1

/-- The state of geth after some accounts were loaded. -/
def EvmLib.loadAll (E : EvmLib) (nonces : Address → Nat) (state : E.State)
    (loaded : List (Address × Uint256)) : E.State :=
  loaded.foldl (fun state entry => E.setAccount state entry.1 (nonces entry.1) entry.2) state

theorem EvmLib.loadAll_append (E : EvmLib) (nonces : Address → Nat) (state : E.State)
    (loaded : List (Address × Uint256)) (entry : Address × Uint256) :
    E.loadAll nonces state (loaded ++ [entry]) =
      E.setAccount (E.loadAll nonces state loaded) entry.1 (nonces entry.1) entry.2 := by
  simp [EvmLib.loadAll]

/-- What is assumed of the libraries: whoever signs has a key, the hash of a transaction is
not empty, and geth counts nonces. -/
structure External.CountsNonces (X : External) (owned : Address → Prop) : Prop where
  signer : ∀ msg sig addr pubKey, X.trx.sig2Addr msg sig = .ok (addr, pubKey) → owned addr
  hash : ∀ txbz, X.trx.txHash txbz ≠ []
  geth : ∀ (state : X.evm.State) (msg : EvmMessage) (gasPool : Nat) (nonces : Address → Nat)
    (loaded : List (Address × Uint256)), msg.fromAddr ∈ loaded.map Prod.fst →
      (X.evm.applyMessage (X.evm.loadAll nonces state loaded) msg gasPool).CountsNonce
        X.evm.account owned nonces msg.fromAddr (X.evm.snapshot state)
        (loaded.map fun entry => (entry.1, X.evm.snapshot state + 1)) (X.evm.snapshot state)

namespace EvmCtrler

variable {E : EvmLib} {N : LedgerKey → Nat} {C : LedgerKey → HexBytes → Prop}

/-- The nonces of addresses. -/
abbrev nonceOf (N : LedgerKey → Nat) (addr : Address) : Nat := N (toLedgerKey addr)

/-- The addresses accessed since the snapshot `snap`, the sender among them. -/
structure Fresh (sender : Address) (snap : Nat) (accessed : Accessed) : Prop where
  later : ∀ entry ∈ accessed, snap < entry.2
  sized : ∀ entry ∈ accessed, entry.1.length = addrSize
  sent : (sender, snap + 1) ∈ accessed

variable {sender : Address} {accessed : Accessed} {snap : Nat}

theorem Fresh.append (fresh : Fresh sender snap accessed)
    (size : addr.length = addrSize)
    {number : Nat} (later : snap < number) : Fresh sender snap (accessed ++ [(addr, number)]) where
  later entry member := by
    rcases List.mem_append.mp member with old | new
    · exact fresh.later entry old
    · cases List.mem_singleton.mp new
      exact later
  sized entry member := by
    rcases List.mem_append.mp member with old | new
    · exact fresh.sized entry old
    · cases List.mem_singleton.mp new
      exact size
  sent := List.mem_append_left _ fresh.sent

theorem Fresh.revert (fresh : Fresh sender snap accessed) {id : Nat} (later : snap < id) :
    Fresh sender snap (revertAccessedObjAddr accessed id) where
  later entry member := fresh.later entry (List.mem_of_mem_filter member)
  sized entry member := fresh.sized entry (List.mem_of_mem_filter member)
  sent := List.mem_filter.mpr ⟨fresh.sent, decide_eq_true (Nat.not_lt.mpr later)⟩

/-- Going back to the snapshot forgets all addresses. -/
theorem Fresh.revert_self (fresh : Fresh sender snap accessed) :
    revertAccessedObjAddr accessed snap = [] := by
  refine List.filter_eq_nil_iff.mpr fun entry member => ?_
  simp [fresh.later entry member]

theorem returns_addAccessedObjAddr (accessed : Accessed) (snapshot : Nat) (addr : Address) :
    ReturnsNonces N C (fun found =>
        if accessed.any fun entry => entry.1 == addr then found = (none, accessed)
        else ∃ balance,
          found = (some (nonceOf N addr, balance), accessed ++ [(addr, snapshot + 1)]))
      (addAccessedObjAddr accessed snapshot addr) := by
  unfold addAccessedObjAddr
  split
  · exact returns_pure rfl
  · refine (returns_findOrNewAccount addr id).trans fun acct numbered => ?_
    exact returns_pure ⟨acct.balance, by rw [show acct.nonce = nonceOf N addr from numbered.holds.1]⟩

/-- What is left of an execution by geth, if it counts nonces. -/
structure Counted (owned : Address → Prop) (N : LedgerKey → Nat) (sender : Address) (snap : Nat)
    (applied : Applied E.State) : Prop where
  fresh : Fresh sender snap applied.accessed
  counted : ∀ executed, applied.result = .ok executed → executed.err = none →
    ∀ entry ∈ applied.accessed, owned entry.1 → (E.account applied.state entry.1).1 =
      if entry.1 = sender then (nonceOf N entry.1 + 1) % 2 ^ 64 else nonceOf N entry.1

theorem returns_runEvm {owned : Address → Prop}
    (tree : EvmRun E.State) {snapshot : Nat}
    (counts : tree.CountsNonce E.account owned (nonceOf N) sender snap accessed snapshot)
    (fresh : Fresh sender snap accessed) (since : snap ≤ snapshot) :
    ReturnsNonces N C (Counted owned N sender snap) (runEvm tree accessed snapshot) := by
  induction tree generalizing accessed snapshot with
  | access addr next ih =>
    obtain ⟨size, counts⟩ := counts
    refine (returns_addAccessedObjAddr accessed snapshot addr).trans fun found loaded => ?_
    split at counts
    · next known =>
      rw [if_pos known] at loaded
      subst loaded
      exact ih _ counts fresh since
    · next unknown =>
      rw [if_neg unknown] at loaded
      obtain ⟨balance, rfl⟩ := loaded
      exact ih _ (counts balance) (fresh.append size (Nat.lt_succ_of_le since)) since
  | snapshot id next ih => exact ih counts.2 fresh counts.1.le
  | revert id next ih => exact ih counts.2 (fresh.revert counts.1) since
  | done result state gasPool => exact returns_pure ⟨fresh, counts⟩

theorem returns_load (snap : Nat) (state : E.State) (loaded : List (Address × Uint256))
    (addr : Address) :
    ReturnsNonces N C (fun found => ∃ loaded' : List (Address × Uint256),
        found = (E.loadAll (nonceOf N) state loaded',
          loaded'.map fun entry => (entry.1, snap + 1)) ∧
        (∀ entry ∈ loaded, entry ∈ loaded') ∧ addr ∈ loaded'.map Prod.fst ∧
        ∀ entry ∈ loaded', entry ∈ loaded ∨ entry.1 = addr)
      (load (loaded.map fun entry => (entry.1, snap + 1)) snap
        (E.loadAll (nonceOf N) state loaded) addr) := by
  refine (returns_addAccessedObjAddr _ snap addr).trans fun found here => ?_
  split at here
  · next known =>
    subst here
    refine returns_pure ⟨loaded, rfl, fun _ member => member, ?_, fun _ => .inl⟩
    simpa using known
  · obtain ⟨balance, rfl⟩ := here
      -- the account is loaded after the others
    refine returns_pure ⟨loaded ++ [(addr, balance)], ?_, ?_, ?_, ?_⟩
    · simp [EvmLib.loadAll_append]
    · exact fun entry member => List.mem_append_left _ member
    · simp
    · intro entry member
      rcases List.mem_append.mp member with old | new
      · exact .inl old
      · cases List.mem_singleton.mp new
        exact .inr rfl

/-- The sender, and the receiver of a call, are loaded before geth starts. -/
theorem returns_prepare (state : E.State) (snap : Nat) (sender receiver : Address) :
    ReturnsNonces N C (fun found => ∃ loaded : List (Address × Uint256),
        found = (E.loadAll (nonceOf N) state loaded,
          loaded.map fun entry => (entry.1, snap + 1)) ∧
        array20 sender ∈ loaded.map Prod.fst ∧ ∀ entry ∈ loaded, entry.1.length = addrSize)
      (prepare state snap sender receiver) := by
  refine (returns_load snap state [] (array20 sender)).trans fun found here => ?_
  obtain ⟨loaded, rfl, -, sent, others⟩ := here
  have sized : ∀ entry ∈ loaded, entry.1.length = addrSize := by
    intro entry member
    rcases others entry member with none | same
    · cases none
    · rw [same]
      exact array20_length sender
  simp only
  split
  · exact returns_pure ⟨loaded, rfl, sent, sized⟩
  · refine (returns_load snap state loaded (array20 receiver)).mono fun outcome here v same => ?_
    obtain ⟨loaded', rfl, kept, -, others'⟩ := here v same
    refine ⟨loaded', rfl, ?_, fun entry member => ?_⟩
    · obtain ⟨entry, member, sender'⟩ := List.mem_map.mp sent
      exact List.mem_map.mpr ⟨entry, kept entry member, sender'⟩
    · rcases others' entry member with old | same
      · exact sized entry old
      · rw [same]
        exact array20_length receiver

theorem fresh_loaded {loaded : List (Address × Uint256)}
    (sent : sender ∈ loaded.map Prod.fst) (sized : ∀ entry ∈ loaded, entry.1.length = addrSize) :
    Fresh sender snap (loaded.map fun entry => (entry.1, snap + 1)) where
  later entry member := by
    obtain ⟨_, _, rfl⟩ := List.mem_map.mp member
    exact Nat.lt_succ_self snap
  sized entry member := by
    obtain ⟨entry', member', rfl⟩ := List.mem_map.mp member
    exact sized entry' member'
  sent := by
    obtain ⟨entry, member, rfl⟩ := List.mem_map.mp sent
    exact List.mem_map.mpr ⟨entry, member, rfl⟩

/-- `Finish` sets the nonces of the accessed addresses and keeps all others. -/
theorem finish_nonces (state : E.State) (accessed : Accessed)
    (holds : HasNonces N C ls) :
    ∃ ls' N', exec (finish state accessed) ls = (.ok (), ls') ∧ HasNonces N' C ls' ∧
      (∀ k, (∀ entry ∈ accessed, toLedgerKey entry.1 ≠ k) → N' k = N k) ∧
      ∀ k n, (∃ entry ∈ accessed, toLedgerKey entry.1 = k) →
        (∀ entry ∈ accessed, toLedgerKey entry.1 = k → (E.account state entry.1).1 = n) →
        N' k = n := by
  induction accessed generalizing N ls with
  | nil => exact ⟨ls, N, rfl, holds, fun _ _ => rfl, fun k n ⟨_, member, _⟩ => by cases member⟩
  | cons head tail ih =>
    obtain ⟨numbered, created⟩ := holds.exec (returns_findOrNewAccount head.1 id)
    rw [show run (ledgerHandler storeImpl) _ ls = _ from
      exec_findOrNewAccount head.1 ls] at numbered created
    have stored := HasNonces.renumber created (numbered _ rfl)
      { (ls.account head.1).getD (Account.newAccount head.1) with
        nonce := (E.account state head.1).1
        balance := (E.account state head.1).2 } rfl rfl
    obtain ⟨ls', N', ran, holds', others, these⟩ := ih stored
    refine ⟨ls', N', ?_, holds', fun k outside => ?_, fun k n ⟨entry, member, same⟩ all => ?_⟩
    · change exec ((findOrNewAccount head.1 >>= _) >>= fun _ => finish state tail) ls =
        _
      rw [exec_bind, exec_bind, exec_findOrNewAccount]
      exact ran
    · rw [others k fun entry member => outside entry (List.mem_cons_of_mem _ member)]
      exact Function.update_of_ne (Ne.symm (outside head List.mem_cons_self)) ..
    · by_cases later : ∃ entry ∈ tail, toLedgerKey entry.1 = k
      · exact these k n later fun entry member => all entry (List.mem_cons_of_mem _ member)
      · simp only [not_exists, not_and] at later
        rw [others k later]
        rcases List.mem_cons.mp member with rfl | inTail
        · subst same
          rw [Function.update_self]
          exact all entry List.mem_cons_self rfl
        · exact absurd same (later entry inTail)

theorem keepsNonces_recordCreation {ctx : TrxContext} (hash : ∀ k, C k ctx.txHash) :
    KeepsNonces N C (recordCreation E ctx) := by
  refine (returns_findAccount _).bind fun found ⟨_, numbered⟩ => ?_
  cases found with
  | none => trivial
  | some acct =>
    have kept := numbered acct rfl
    have recorded : Numbered N C (E.createAddress (array20 ctx.tx.fromAddr) ctx.tx.nonce)
        { acct with code := ctx.txHash } := ⟨⟨kept.holds.1, hash _⟩, kept.key⟩
    exact recorded.set.seq fun _ => trivial

end EvmCtrler

/-! ## Transactions -/

/-- The nonces after a transaction of `sender` was executed. -/
def CountsUp (owned : Address → Prop) (sender : Address) (N N' : LedgerKey → Nat) : Prop :=
  ∀ addr, owned addr → addr.length = addrSize → N' (toLedgerKey addr) =
    if addr = sender then (N (toLedgerKey addr) + 1) % 2 ^ 64 else N (toLedgerKey addr)

/-- No condition on codes. -/
abbrev anyCode (_ : LedgerKey) (_ : HexBytes) : Prop := True

/-- The nonces after a transaction, by how it ended: only one that was executed counts.  An
error of the EVM is not the one that `runTrx` passes over. -/
def Settled (owned : Address → Prop) (sender : Address) (N : LedgerKey → Nat)
    (C : LedgerKey → HexBytes → Prop) : Except Fault TrxResult × Stores → Prop
  | (.error (.panic _), _) => True
  | (.error (.xerr _), ls) => HasNonces N C ls
  | (.ok result, ls) =>
    match result.failed with
    | some e => e ≠ .errUnknownTrxType ∧ HasNonces N C ls
    | none => ∃ N', HasNonces N' C ls ∧ CountsUp owned sender N N'

/-- The outcome of code of a controller, and the stores it leaves. -/
abbrev settling {E : EvmLib} (p : Ctrler E TrxResult) (r : Workspace E) :
    Except Fault TrxResult × Stores :=
  (run (trxHandler storeImpl) p r).map id Resources.ledgers

section

variable {owned : Address → Prop} {sender : Address} {N : LedgerKey → Nat}
  {C : LedgerKey → HexBytes → Prop}

theorem HasNonces.any (holds : HasNonces N C ls) : HasNonces N anyCode ls :=
  ⟨holds.1, fun k => ⟨(holds.2 k).1, trivial⟩⟩

theorem Settled.any {ended : Except Fault TrxResult × Stores}
    (settled : Settled owned sender N C ended) : Settled owned sender N anyCode ended := by
  obtain ⟨outcome, ls⟩ := ended
  cases outcome with
  | error fault =>
    cases fault with
    | panic p => trivial
    | xerr e => exact HasNonces.any settled
  | ok result =>
    obtain ⟨gasUsed, retData, failed⟩ := result
    cases failed with
    | some e => exact ⟨settled.1, settled.2.any⟩
    | none =>
      obtain ⟨N', holds, counts⟩ := settled
      exact ⟨N', holds.any, counts⟩

theorem settled_error (holds : HasNonces N C ls) (fault : Fault) :
    Settled owned sender N C (.error fault, ls) := by
  cases fault with
  | panic p => trivial
  | xerr e => exact holds

/-- Code that keeps the nonces, and what follows it. -/
theorem settled_exec_bind {β : Type} {result : β → Prop} {p : LedgerProg β}
    {f : β → LedgerProg TrxResult} (holds : HasNonces N C ls)
    (first : ReturnsNonces N C result p)
    (next : ∀ v ls', result v → HasNonces N C ls' → Settled owned sender N C (exec (f v) ls')) :
    Settled owned sender N C (exec (p >>= f) ls) := by
  obtain ⟨returned, kept⟩ := holds.exec first
  rw [exec_bind]
  change Settled owned sender N C (andThen _ (run (ledgerHandler storeImpl) p ls))
  generalize run (ledgerHandler storeImpl) p ls = ended at returned kept ⊢
  obtain ⟨outcome, ls'⟩ := ended
  cases outcome with
  | error fault => exact settled_error kept fault
  | ok v => exact next v ls' (returned v rfl) kept

/-- The same for code of a controller. -/
theorem settled_run_bind {β : Type} {result : β → Prop} {p : LedgerProg β}
    {f : β → Ctrler E TrxResult} {r : Workspace E} (holds : HasNonces N C r.ledgers)
    (first : ReturnsNonces N C result p)
    (next : ∀ v ls', result v → HasNonces N C ls' →
      Settled owned sender N C (settling (f v) { r with ledgers := ls' })) :
    Settled owned sender N C (settling (Ctrler.ledger p >>= f) r) := by
  obtain ⟨returned, kept⟩ := holds.exec first
  rw [Prog.bind_eq, settling, run_bind, run_ledger]
  generalize run (ledgerHandler storeImpl) p r.ledgers = ended at returned kept ⊢
  obtain ⟨outcome, ls'⟩ := ended
  cases outcome with
  | error fault => exact settled_error kept fault
  | ok v => exact next v ls' (returned v rfl) kept

theorem settled_ledger {p : LedgerProg TrxResult} {r : Workspace E}
    (settled : Settled owned sender N C (exec p r.ledgers)) :
    Settled owned sender N C (settling (Ctrler.ledger p) r) := by
  rw [settling, run_ledger]
  exact settled

/-! ### Executions by geth -/

namespace EvmCtrler

/-- The nonces that `Finish` writes after a successful execution. -/
theorem Counted.countsUp {snap : Nat} {applied : Applied E.State}
    (counted : Counted owned N sender snap applied) {executed : ExecutionResult}
    (ok : applied.result = .ok executed) (successful : executed.err = none)

    (others : ∀ k, (∀ entry ∈ applied.accessed, toLedgerKey entry.1 ≠ k) → N' k = N k)
    (these : ∀ k n, (∃ entry ∈ applied.accessed, toLedgerKey entry.1 = k) →
      (∀ entry ∈ applied.accessed, toLedgerKey entry.1 = k →
        (E.account applied.state entry.1).1 = n) → N' k = n) :
    CountsUp owned sender N N' := by
  intro addr belongs size
  have same {entry : Address × Nat} (member : entry ∈ applied.accessed)
      (key : toLedgerKey entry.1 = toLedgerKey addr) : entry.1 = addr := by
    have size' := counted.fresh.sized entry member
    exact toLedgerKey_injOn (size'.le.trans (by decide)) (size'.trans size.symm) key
  by_cases accessed : ∃ entry ∈ applied.accessed, toLedgerKey entry.1 = toLedgerKey addr
  · refine these _ _ accessed fun entry member key => ?_
    obtain rfl := same member key
    exact counted.counted executed ok successful entry member belongs
  · have notSender : addr ≠ sender := by
      rintro rfl
      exact accessed ⟨_, counted.fresh.sent, rfl⟩
    rw [if_neg notSender]
    exact others _ fun entry member key => accessed ⟨entry, member, key⟩

/-- An execution by geth that failed leaves the nonces; a successful one counts. -/
theorem settled_execute (laws : X.CountsNonces owned) {ctx : TrxContext}
    {m : EvmMem X.evm} {state : X.evm.State}
    (holds : HasNonces N C r.ledgers) (size : ctx.tx.fromAddr.length = addrSize)
    (hash : ∀ k, C k ctx.txHash) :
    Settled owned ctx.tx.fromAddr N C (settling (execute ctx m state) r) := by
  refine settled_run_bind holds (returns_prepare state _ _ _) fun _ ls₁ ⟨loaded, same, sent, sized⟩
    holds₁ => ?_
  subst same
  have sender : array20 ctx.tx.fromAddr = ctx.tx.fromAddr := array20_of_length size
  rw [sender] at sent
  have counts := laws.geth state (evmMessage ctx m) m.blockGasPool (nonceOf N) loaded
    (by simpa only [evmMessage, sender] using sent)
  simp only [evmMessage, sender] at counts
  refine settled_run_bind holds₁ (returns_runEvm _ (by simpa only [evmMessage, sender] using counts)
    (fresh_loaded sent sized) le_rfl) fun applied ls₂ counted holds₂ => ?_
  have undone := counted.fresh.revert_self
  split
  · simp only [undo, undone]
    exact ⟨by simp [XError.fromErr, XError.errUnknownTrxType, XError.newOrdinary], holds₂⟩
  · next executed ok =>
    split
    · simp only [undo, undone]
      exact ⟨by simp [XError.fromErr, XError.errUnknownTrxType, XError.newOrdinary], holds₂⟩
    · next successful =>
      obtain ⟨ls₃, N', finished, holds₃, others, these⟩ :=
        finish_nonces applied.state applied.accessed holds₂
      have counts' := counted.countsUp ok successful others these
      rw [settling, Prog.bind_eq, run_bind, run_ledger,
        show run (ledgerHandler storeImpl) _ ls₂ = _ from finished, andThen_ok,
        Prog.bind_eq, run_bind, Ctrler.setEvm, run_perform,
        andThen_ok]
      split
      · have recorded := (Holds.exec holds₃ (keepsNonces_recordCreation (E := X.evm) hash)).2
        rw [Prog.bind_eq, run_bind, run_ledger]
        have ran : run (ledgerHandler storeImpl) (recordCreation X.evm ctx) ls₃ = _ :=
          exec_recordCreation X.evm ctx ls₃
        simp only [trxHandler, trxStep, ran] at recorded ⊢
        cases created : ls₃.account (X.evm.createAddress (array20 ctx.tx.fromAddr) ctx.tx.nonce)
        with
        | none => trivial
        | some acct =>
          rw [created] at recorded
          exact ⟨N', recorded, counts'⟩
      · exact ⟨N', holds₃, counts'⟩

end EvmCtrler

namespace TrxExecutor

variable {ctx : TrxContext}

/-- The end of a transaction that the EVM has executed. -/
theorem settled_postRunTrx {result : TrxResult}
    (executed : result.failed = none) (holds : HasNonces N' C ls)
    (counts : CountsUp owned sender N N')
    (evm : ctx.tx.type = .contract ∨
      (ctx.tx.type = .transfer ∧ ∀ code, C (toLedgerKey ctx.tx.toAddr) code → code ≠ [])) :
    Settled owned sender N C (exec (postRunTrx ctx result) ls) := by
  unfold postRunTrx
  rw [exec_bind, exec_accountAt]
  cases found : ls.account ctx.tx.toAddr with
  | none => trivial
  | some receiver =>
    have code : C (toLedgerKey ctx.tx.toAddr) receiver.code := by
      have kept := (holds.2 (toLedgerKey ctx.tx.toAddr)).2
      rw [show (ls .accounts).lookup _ = some receiver from found] at kept
      exact kept
    have paid : ctx.tx.type = .contract ∨ ctx.tx.type = .transfer ∧ receiver.code ≠ [] :=
      evm.imp_right fun ⟨transfer, coded⟩ => ⟨transfer, coded _ code⟩
    simp only [Option.elim_some, andThen_ok, if_pos paid, Prog.pure_eq,
      run_pure, Settled, executed]
    exact ⟨N', holds, counts⟩

/-- A transaction that does not go to the EVM pays its fee and counts the nonce up. -/
theorem settled_runNative {execute : LedgerProg Unit}
    (holds : HasNonces N C ls) (keeps : KeepsNonces N C execute)
    (native : ctx.tx.type ≠ .contract ∧
      (ctx.tx.type = .transfer → ∀ code, C (toLedgerKey ctx.tx.toAddr) code → code = []))
    (size : ctx.tx.fromAddr.length = addrSize) :
    Settled owned ctx.tx.fromAddr N C (exec (runNative ctx execute) ls) := by
  refine settled_exec_bind holds (keeps.mono fun _ _ _ _ => trivial) fun _ ls₁ _ holds₁ =>
    settled_exec_bind holds₁ (returns_accountAt _) fun receiver ls₂ numbered holds₂ => ?_
  have unpaid : ¬ (ctx.tx.type = .contract ∨
      (ctx.tx.type = .transfer ∧ receiver.code ≠ [])) := by
    rintro (contract | ⟨transfer, coded⟩)
    · exact native.1 contract
    · exact coded (native.2 transfer _ numbered.holds.2)
  rw [if_neg unpaid]
  refine settled_exec_bind holds₂ (returns_accountAt _) fun acct ls₃ numbered₃ holds₃ =>
    settled_exec_bind holds₃ (returns_ofExcept _) fun acct' ls₄ taken holds₄ => ?_
  have charged := numbered₃.subBalance taken
  refine ⟨_, HasNonces.renumber holds₄ charged acct'.addNonce rfl rfl, ?_⟩
  intro addr _ size'
  split
  · next same =>
    subst same
    rw [Function.update_self, ← charged.holds.1]
    rfl
  · next other =>
    refine Function.update_of_ne (fun same => other ?_) ..
    exact toLedgerKey_injOn (size'.le.trans (by decide)) (size'.trans size.symm) same

/-- A transaction that goes to the EVM is counted there. -/
theorem settled_runEvmTrx (laws : X.CountsNonces owned)
    (holds : HasNonces N C r.ledgers)
    (size : ctx.tx.fromAddr.length = addrSize) (hash : ∀ k, C k ctx.txHash)
    (delivered : ctx.exec = true)
    (evm : ctx.tx.type = .contract ∨
      (ctx.tx.type = .transfer ∧ ∀ code, C (toLedgerKey ctx.tx.toAddr) code → code ≠ [])) :
    Settled owned ctx.tx.fromAddr N C (settling (runEvmTrx ctx) r) := by
  have executed : Settled owned ctx.tx.fromAddr N C (settling (EvmCtrler.executeTrx ctx) r) := by
    unfold EvmCtrler.executeTrx
    rw [if_neg (by simp [delivered])]
    refine settled_run_bind holds (returns_accountAt _) fun receiver ls₁ numbered holds₁ =>
      ?_
    have coded : ¬ (ctx.tx.type ≠ .contract ∧ receiver.code = []) := by
      rintro ⟨notContract, noCode⟩
      rcases evm with contract | ⟨-, coded⟩
      · exact notContract contract
      · exact coded _ numbered.holds.2 noCode
    rw [if_neg coded, settling, Prog.bind_eq, run_bind, Ctrler.getEvm,
      run_perform, andThen_ok]
    split
    · trivial
    · exact EvmCtrler.settled_execute laws (r := { r with ledgers := ls₁ }) holds₁ size hash
  unfold runEvmTrx
  rw [settling] at executed ⊢
  rw [Prog.bind_eq, run_bind]
  generalize run (trxHandler storeImpl) (EvmCtrler.executeTrx ctx) r = ended at executed ⊢
  obtain ⟨outcome, r'⟩ := ended
  cases outcome with
  | error fault => exact executed
  | ok result =>
    obtain ⟨gasUsed, retData, failed⟩ := result
    cases failed with
    | none =>
      obtain ⟨N', holds', counts⟩ := executed
      exact settled_ledger (r := r') (settled_postRunTrx rfl holds' counts evm)
    | some e =>
      simp only [andThen_ok, if_neg executed.1]
      exact executed

/-- Running a validated transaction counts the nonce of the sender up if it succeeds, and
leaves the nonces if it fails. -/
theorem settled_runTrx (laws : X.CountsNonces owned)
    {pubKey : HexBytes} (holds : HasNonces N anyCode r.ledgers)
    (size : ctx.tx.fromAddr.length = addrSize) (hash : ctx.txHash ≠ [])
    (delivered : ctx.exec = true) :
    Settled owned ctx.tx.fromAddr N anyCode (settling (runTrx ctx pubKey) r) := by
  have native {execute : LedgerProg Unit} (keeps : KeepsNonces N anyCode execute)
      (notContract : ctx.tx.type ≠ .contract) (notTransfer : ctx.tx.type ≠ .transfer) :
      Settled owned ctx.tx.fromAddr N anyCode
        (settling (Ctrler.ledger (runNative ctx execute)) r) :=
    settled_ledger (settled_runNative holds keeps
      ⟨notContract, fun transfer => absurd transfer notTransfer⟩ size)
  unfold runTrx
  cases type : ctx.tx.type with
  | contract =>
    exact settled_runEvmTrx laws holds size (fun _ => trivial) delivered (.inl type)
  | transfer =>
    simp only
    rw [settling, Prog.bind_eq, run_bind, run_ledger,
      show run (ledgerHandler storeImpl) _ r.ledgers = _ from exec_accountAt _ _]
    cases found : Stores.account r.ledgers ctx.tx.toAddr with
    | none => trivial
    | some receiver =>
      -- what is found in the account of the receiver stays there
      have coded (Q : HexBytes → Prop) (here : Q receiver.code) :
          HasNonces N (fun k code => k = toLedgerKey ctx.tx.toAddr → Q code) r.ledgers := by
        refine ⟨holds.1, fun k => ⟨(holds.2 k).1, ?_⟩⟩
        rintro rfl
        rw [show (r.ledgers .accounts).lookup _ = some receiver from found]
        exact here
      simp only [Option.elim_some, andThen_ok]
      split
      · next code =>
        exact (settled_runEvmTrx laws (coded (fun code => code ≠ []) code) size
          (fun _ _ => hash) delivered
          (.inr ⟨type, fun code here => here rfl⟩)).any
      · next noCode =>
        exact (settled_ledger (settled_runNative (coded (fun code => code = [])
          (not_not.mp noCode)) (keeps_executeTrx ctx)
          ⟨by simp [type], fun _ code here => here rfl⟩ size)).any
  | proposal | voting =>
    exact native ((GovCtrler.writes_executeTrx (S := fun l => l ≠ .accounts) (by decide) ctx).keeps
      (not_not.mpr rfl)) (by simp [type]) (by simp [type])
  | setDoc => exact native (keeps_executeTrx ctx) (by simp [type]) (by simp [type])
  | staking | unstaking | withdraw =>
    exact native (StakeCtrler.keeps_executeTrx ctx pubKey) (by simp [type]) (by simp [type])

/-- Executing a transaction counts the nonce of the sender up if it succeeds, and leaves the
nonces if it fails; it succeeds only if the nonces agree and the sender has signed. -/
theorem settled_executeSync (laws : X.CountsNonces owned) (ctx : TrxContext)
    (r : Workspace X.evm) (holds : HasNonces N anyCode r.ledgers) (hash : ctx.txHash ≠ [])
    (delivered : ctx.exec = true) :
    Settled owned ctx.tx.fromAddr N anyCode (settling (executeSync X.trx X.json ctx) r) ∧
      ∀ result r', run (trxHandler storeImpl) (executeSync X.trx X.json ctx) r = (.ok result, r') →
        ctx.tx.fromAddr.length = addrSize ∧ owned ctx.tx.fromAddr ∧
          N (toLedgerKey ctx.tx.fromAddr) = ctx.tx.nonce := by
  have unchanged := ledgers_validateTrx X.trx X.json ctx r
  rw [settling]
  unfold executeSync
  rw [Prog.bind_eq, run_bind]
  generalize validated : run (trxHandler storeImpl) (validateTrx X.trx X.json ctx) r = ended
    at unchanged ⊢
  obtain ⟨outcome, r₁⟩ := ended
  have holds₁ : HasNonces N anyCode r₁.ledgers := unchanged ▸ holds
  cases outcome with
  | error fault => exact ⟨settled_error holds₁ fault, fun _ _ ran => by cases ran⟩
  | ok pubKey =>
    obtain ⟨valid, checked, -⟩ := validateTrx_ok validated
    refine ⟨settled_runTrx laws holds₁ valid.sender hash delivered, fun _ _ _ =>
      ⟨valid.sender, ?_, ?_⟩⟩
    · exact laws.signer _ _ _ _ (verifyTrxRLP_ok (valid.signed delivered)).2
    · obtain ⟨-, sender, found, -, nonce⟩ := commonValidation1_ok checked
      rw [← nonce, ← (holds.2 (toLedgerKey ctx.tx.fromAddr)).1,
        show (r.ledgers .accounts).lookup _ = some sender from found]
      rfl

end TrxExecutor

end

end Rigo
