import Rigo.Node.Items
import Rigo.Node.Reachable

/-!
# Nonces and codes

Most of what is done to an account leaves its nonce and its code.  `OnAccount P` says of what is
found under a key that `P` holds of the key, the nonce and the code; here are the functions of the
account controller and of the stake controller that keep it, whatever `P` is.
-/

namespace Rigo

open Foundation
open AcctCtrler

/-- The nonce of an account that may be missing. -/
def nonceIn (found : Option Account) : Nat := (found.map Account.nonce).getD 0

/-- The code of an account that may be missing. -/
def codeIn (found : Option Account) : HexBytes := (found.map Account.code).getD []

/-- `P` holds of a key, and of the nonce and the code found under it. -/
def OnAccount (P : LedgerKey → Nat → HexBytes → Prop) (k : LedgerKey) (found : Option Account) :
    Prop :=
  P k (nonceIn found) (codeIn found)

/-- An account keeps the property when its balance, its name, its URL or its nonce changes. -/
class Unnumbered (P : LedgerKey → Option Account → Prop) : Prop where
  kept : ∀ {k : LedgerKey} {acct acct' : Account}, acct'.address = acct.address →
    acct'.code = acct.code → P k (some acct) → P k (some acct')

/-- An account keeps the property when its balance, its name or its URL changes. -/
class Lasting (P : LedgerKey → Option Account → Prop) : Prop where
  kept : ∀ {k : LedgerKey} {acct acct' : Account}, acct'.address = acct.address →
    acct'.code = acct.code → acct'.nonce = acct.nonce → P k (some acct) → P k (some acct')

/-- A new account may be set under an address. -/
abbrev Admits (P : LedgerKey → Option Account → Prop) (addr : Address) : Prop :=
  P (toLedgerKey addr) none → P (toLedgerKey addr) (some (Account.newAccount addr))

/-- An account that may be set under an address. -/
structure Filed (P : LedgerKey → Option Account → Prop) (addr : Address) (acct : Account) :
    Prop where
  holds : P (toLedgerKey addr) (some acct)
  key : LedgerItem.key acct = toLedgerKey addr

instance {P : LedgerKey → Option Account → Prop} [Unnumbered P] : Lasting P :=
  ⟨fun address code _ => Unnumbered.kept address code⟩

instance {P : LedgerKey → Nat → HexBytes → Prop} : Lasting (OnAccount P) where
  kept _ code nonce holds := by
    unfold OnAccount nonceIn codeIn at holds ⊢
    rw [Option.map_some, Option.map_some, nonce, code]
    exact holds

section

variable {P : LedgerKey → Option Account → Prop} {addr : Address} {acct acct' : Account}
  {amt : Uint256}

theorem Filed.set (filed : Filed P addr acct) :
    Keeps .accounts P (LedgerProg.set .accounts acct) := by
  refine keeps_set ?_
  rw [filed.key]
  exact filed.holds

theorem Filed.change [Lasting P] (filed : Filed P addr acct)
    (address : acct'.address = acct.address) (code : acct'.code = acct.code)
    (nonce : acct'.nonce = acct.nonce) : Filed P addr acct' := by
  refine ⟨Lasting.kept address code nonce filed.holds, ?_⟩
  rw [Account.key_eq, address]
  exact filed.key

theorem Filed.renumber [Unnumbered P] (filed : Filed P addr acct)
    (address : acct'.address = acct.address) (code : acct'.code = acct.code) :
    Filed P addr acct' := by
  refine ⟨Unnumbered.kept address code filed.holds, ?_⟩
  rw [Account.key_eq, address]
  exact filed.key

theorem Filed.addBalance [Lasting P] (filed : Filed P addr acct)
    (added : acct.addBalance amt = .ok acct') : Filed P addr acct' := by
  unfold Account.addBalance at added
  split at added
  · cases added
  · cases added
    exact filed.change rfl rfl rfl

theorem Filed.subBalance [Lasting P] (filed : Filed P addr acct)
    (taken : acct.subBalance amt = .ok acct') : Filed P addr acct' := by
  obtain ⟨rfl, -, -⟩ := Account.subBalance_ok taken
  exact filed.change rfl rfl rfl

/-- Code that writes no accounts. -/
theorem Calm.onAccount {α : Type} {p : LedgerProg α} (writes : Writes (fun l => l ≠ .accounts) p) :
    Keeps .accounts P p := writes.keeps (not_not.mpr rfl)

/-- An account that was created is found. -/
theorem Stores.account_withAccount_self {ls : Stores} (removed : (ls .accounts).removed = [])
    (addr : Address) : ∃ acct, (ls.withAccount addr).account addr = some acct := by
  unfold Stores.withAccount
  cases found : ls.account addr with
  | some acct => exact ⟨acct, found⟩
  | none =>
    refine ⟨Account.newAccount addr, ?_⟩
    simp only [Stores.account, Stores.put_self]
    rw [Store.lookup_set_of_removed removed]
    exact if_pos rfl

/-! ## The account controller -/

namespace AcctCtrler

/-- What is known of an account that was looked for. -/
theorem returns_findAccount (addr : Address) :
    Returns (keeping .accounts P) (fun found => P (toLedgerKey addr) found ∧
      ∀ acct, found = some acct → Filed P addr acct) (findAccount addr) := by
  refine Obeys.bind (returns_get _) (fun answer granted => ?_) fun _ _ _ failed => by cases failed
  obtain ⟨holds, key⟩ := granted answer rfl
  cases answer with
  | error e => exact returns_pure ⟨holds, fun _ missing => by cases missing⟩
  | ok acct =>
    refine returns_pure ⟨holds, fun acct' found => ?_⟩
    cases found
    exact ⟨holds, key acct rfl⟩

theorem returns_findOrNewAccount (addr : Address) (admits : Admits P addr) :
    Returns (keeping .accounts P) (Filed P addr) (findOrNewAccount addr) := by
  refine (returns_findAccount addr).trans fun found ⟨holds, filed⟩ => ?_
  cases found with
  | some acct => exact returns_pure (filed acct rfl)
  | none =>
    have new : Filed P addr (Account.newAccount addr) := ⟨admits holds, rfl⟩
    exact Obeys.bind new.set (fun _ _ => returns_pure new) fun _ _ _ failed => by cases failed

theorem returns_accountAt (addr : Address) :
    Returns (keeping .accounts P) (Filed P addr) (accountAt addr) := by
  refine (returns_findAccount addr).trans fun found ⟨holds, filed⟩ => ?_
  cases found with
  | some acct => exact returns_pure (filed acct rfl)
  | none => exact fun _ failed => by cases failed

variable [Lasting P]

theorem keeps_reward (receiver : Address) (amt : Uint256) :
    Keeps .accounts P (reward receiver amt) := by
  refine (returns_findAccount receiver).bind fun found ⟨holds, filed⟩ => ?_
  cases found with
  | none => trivial
  | some acct =>
    exact (returns_ofExcept _).bind fun acct' added =>
      ((filed acct rfl).addBalance added).set

theorem keeps_transfer (sender receiver : Address) (amt : Uint256) :
    Keeps .accounts P (transfer sender receiver amt) := by
  refine (returns_accountAt sender).bind fun acct0 filed =>
    (returns_ofExcept _).bind fun acct0' taken => ?_
  have filed' := filed.subBalance taken
  -- a transfer to oneself goes on with the account the amount was taken from
  have received : Returns (keeping .accounts P) (fun acct1 => ∃ addr, Filed P addr acct1)
      (receiverOf sender receiver acct0') := by
    unfold receiverOf
    split
    · exact returns_pure ⟨sender, filed'⟩
    · exact (returns_accountAt receiver).mono fun _ returned v same => ⟨receiver, returned v same⟩
  refine received.bind fun acct1 ⟨addr, filed₁⟩ =>
    (returns_ofExcept _).bind fun acct1' added => ?_
  exact filed'.set.seq fun _ => (filed₁.addBalance added).set

theorem keeps_setDoc (sender receiver : Address) (name url : GoString) :
    Keeps .accounts P (setDoc sender receiver name url) := by
  refine (returns_accountAt sender).bind fun acct filed => ?_
  have renamed : Filed P sender { acct with name := name, docURL := url } :=
    filed.change rfl rfl rfl
  exact renamed.set.seq fun _ => (returns_accountAt receiver).bind fun _ filed₁ => filed₁.set

theorem keeps_executeTrx (ctx : TrxContext) : Keeps .accounts P (executeTrx ctx) := by
  unfold executeTrx
  split
  · exact keeps_transfer _ _ _
  · split
    · exact keeps_setDoc _ _ _ _
    · trivial
  · exact (returns_accountAt _).bind fun _ filed => filed.set.seq fun _ =>
      (returns_accountAt _).bind fun _ filed₁ => filed₁.set

theorem keeps_endBlock {proposer : Option Address} (admits : ∀ addr ∈ proposer, Admits P addr)
    (sumFee : Uint256) : Keeps .accounts P (endBlock proposer sumFee) := by
  unfold endBlock
  split
  · trivial
  · next addr =>
    split
    · refine (returns_findAccount addr).bind fun found ⟨holds, filed⟩ => ?_
      have paid : Filed P addr (found.getD (Account.newAccount addr)) := by
        cases found with
        | none => exact ⟨admits addr rfl holds, rfl⟩
        | some acct => exact filed acct rfl
      exact (returns_ofExcept _).bind fun acct' added => (paid.addBalance added).set
    · trivial

end AcctCtrler

/-! ## The stake controller -/

namespace StakeCtrler

variable [Lasting P]

theorem keeps_executeTrx (ctx : TrxContext) (pubKey : HexBytes) :
    Keeps .accounts P (executeTrx ctx pubKey) := by
  have staked (delegatee : Delegatee) :
      Keeps .accounts P (exeStaking.stakeOn ctx delegatee) := by
    refine (returns_accountAt _).bind fun sender filed =>
      (returns_ofExcept _).bind fun sender' taken => (filed.subBalance taken).set.seq
        fun _ => (Calm.onAccount (calm_amountToPower fun _ => trivial)).seq fun _ =>
          keeps_set_of_ne (by decide) _
  unfold executeTrx
  split
  · refine Obeys.seq (Calm.onAccount (writes_findDelegatee _)) fun found => ?_
    split
    · exact staked _
    · split
      · exact staked _
      · trivial
  · exact Calm.onAccount (writes_exeUnstaking (by decide) (by decide) fun _ => trivial)
  · unfold exeWithdraw
    split
    · refine (Calm.onAccount (writes_get _ _)).seq fun _ =>
        (Calm.onAccount (calm_ofExcept _)).seq fun rwd => Obeys.seq ?_ fun _ => (keeps_set_of_ne (by decide) _).seq fun _ =>
          (keeps_reward _ _).attempted.seq fun paid => ?_
      · unfold Reward.withdraw
        split
        · trivial
        · split <;> trivial
      · split
        · trivial
        · exact (Calm.onAccount (writes_cancelSet (by decide) _)).seq fun _ => trivial
    · trivial
  · trivial

theorem keeps_endBlock (params : GovParams) (allDelegatees : List Delegatee)
    (lastValidators : Validators) (height : Int) :
    Keeps .accounts P (endBlock params allDelegatees lastValidators height) := by
  refine Obeys.seq ?_ fun _ => Obeys.seq ?_ fun _ => trivial
  · refine (Calm.onAccount (writes_readAll _)).seq fun _ =>
      (Calm.onAccount (calm_ofExcept _)).seq fun _ => Obeys.each _ fun s0 => ?_
    unfold unfreezeStake
    split
    · exact (keeps_reward _ _).seq fun _ =>
        (Calm.onAccount (writes_del (by decide) _)).seq fun _ => trivial
    · trivial
  · unfold selectValidators
    split <;> trivial

end StakeCtrler

/-! ## The EVM -/

/-- geth touches addresses in `Q` only. -/
def EvmRun.Visits {S : Type} (Q : Address → Prop) : EvmRun S → Prop
  | .access addr next => Q addr ∧ ∀ loaded, (next loaded).Visits Q
  | .snapshot _ next => next.Visits Q
  | .revert _ next => next.Visits Q
  | .done _ _ _ => True

theorem EvmRun.visits_of_all {S : Type} {Q : Address → Prop} (all : ∀ addr, Q addr)
    (tree : EvmRun S) : tree.Visits Q := by
  induction tree with
  | access addr next ih => exact ⟨all addr, ih⟩
  | snapshot id next ih => exact ih
  | revert id next ih => exact ih
  | done result state gasPool => trivial

namespace EvmCtrler

variable {E : EvmLib} {Q : Address → Prop} {accessed : Accessed}

/-- `Q` holds of all addresses that were copied in. -/
abbrev AllIn (Q : Address → Prop) (accessed : Accessed) : Prop := ∀ entry ∈ accessed, Q entry.1

theorem AllIn.revert (all : AllIn Q accessed) (snapshot : Nat) :
    AllIn Q (revertAccessedObjAddr accessed snapshot) :=
  fun entry member => all entry (List.mem_of_mem_filter member)

variable (admits : ∀ {addr}, Q addr → Admits P addr)

include admits

theorem returns_addAccessed (all : AllIn Q accessed) (snapshot : Nat) (new : Q addr) :
    Returns (keeping .accounts P) (fun found => AllIn Q found.2)
      (addAccessedObjAddr accessed snapshot addr) := by
  unfold addAccessedObjAddr
  split
  · exact returns_pure all
  · refine (returns_findOrNewAccount _ (admits new)).trans fun acct _ => returns_pure ?_
    intro entry member
    rcases List.mem_append.mp member with old | added
    · exact all entry old
    · rw [List.mem_singleton.mp added]
      exact new

theorem returns_visits {tree : EvmRun E.State} (visits : tree.Visits Q) (all : AllIn Q accessed)
    (snapshot : Nat) :
    Returns (keeping .accounts P) (fun applied => AllIn Q applied.accessed)
      (runEvm tree accessed snapshot) := by
  induction tree generalizing accessed snapshot with
  | access addr next ih =>
    refine (returns_addAccessed admits all snapshot visits.1).trans fun found all' => ?_
    exact ih _ (visits.2 _) all' snapshot
  | snapshot id next ih => exact ih visits all id
  | revert id next ih => exact ih visits (all.revert id) snapshot
  | done result state gasPool => exact returns_pure all

theorem returns_loaded (all : AllIn Q accessed) (snapshot : Nat) (state : E.State)
    (new : Q addr) :
    Returns (keeping .accounts P) (fun found => AllIn Q found.2)
      (load accessed snapshot state addr) := by
  refine (returns_addAccessed admits all snapshot new).trans fun found all' => ?_
  obtain ⟨loaded, accessed'⟩ := found
  cases loaded with
  | none => exact returns_pure all'
  | some account => exact returns_pure all'

theorem returns_prepared (arrays : ∀ addr, Q (array20 addr)) (state : E.State) (snap : Nat)
    (sender receiver : Address) :
    Returns (keeping .accounts P) (fun found => AllIn Q found.2)
      (prepare state snap sender receiver) := by
  have none : AllIn Q [] := fun entry member => absurd member List.not_mem_nil
  refine (returns_loaded admits none snap state (arrays sender)).trans fun found all => ?_
  obtain ⟨state', accessed⟩ := found
  simp only
  split
  · exact returns_pure all
  · exact returns_loaded admits all snap state' (arrays receiver)

theorem keeps_finish [Unnumbered P] (state : E.State) (all : AllIn Q accessed) :
    Keeps .accounts P (finish state accessed) := by
  refine Obeys.forM _ trivial fun entry member =>
    (returns_findOrNewAccount _ (admits (all entry member))).bind fun acct filed => ?_
  have copied : Filed P entry.1 { acct with
      nonce := (E.account state entry.1).1
      balance := (E.account state entry.1).2 } := filed.renumber rfl rfl
  exact copied.set

end EvmCtrler

theorem TrxExecutor.keeps_postRunTrx [Unnumbered P] (ctx : TrxContext) (result : TrxResult) :
    Keeps .accounts P (postRunTrx ctx result) := by
  refine (returns_accountAt _).bind fun receiver _ => ?_
  split
  · trivial
  · exact (returns_accountAt _).bind fun sender filed =>
      (returns_ofExcept _).bind fun sender' taken =>
        have counted : Filed P ctx.tx.fromAddr sender'.addNonce :=
          (filed.subBalance taken).renumber rfl rfl
        counted.set.seq fun _ => trivial

/-! ## Blocks -/

namespace RigoApp

variable {X : External} {s t : Node X.evm} {P : LedgerKey → Nat → HexBytes → Prop}

/-- No account has a nonce or a code in the beginning. -/
theorem initChain_onAccount {genesis : Genesis} (fresh : ∀ k, P k 0 [])
    (first : firstNode X = .ok s)
    (ran : InitsChain X genesis s t) :
    Holds .accounts (OnAccount P) t.ledgers := by
  obtain ⟨ls, ls', ls'', held, accounts, staked, rfl⟩ := initChain_ok ran
  have empty : Holds .accounts (OnAccount P) s.ledgers := by
    cases first
    refine ⟨rfl, fun k => ?_⟩
    rw [Store.lookup_eq]
    exact fresh k
  have holders : Keeps .accounts (OnAccount P) (initLedger genesis.assetHolders) :=
    Obeys.each _ fun holder => keeps_set (fresh _)
  have validators : Keeps .accounts (OnAccount P) (validatorAccounts X genesis.validators) :=
    Obeys.each _ fun val => (returns_findOrNewAccount _ id).bind fun _ _ => trivial
  have governed : Holds .accounts (OnAccount P) (Stores.put s.ledgers .params genesis.params) :=
    empty.put fun same => by cases same
  exact ((governed.of_exec holders held).of_exec validators accounts).of_exec
    (Calm.onAccount (StakeCtrler.writes_initLedger (by decide) _)) staked

/-- The beginning of a block leaves the accounts as they are. -/
theorem beginBlock_accounts {info : BlockInfo}
    (ran : BeginsBlock X info s t) :
    t.ledgers .accounts = s.ledgers .accounts := by
  obtain ⟨last, ls, ls', allDelegatees, -, -, -, governed, -, rewarded, rfl⟩ := beginBlock_ok ran
  exact (StakeCtrler.punishAndReward_frame (by decide) rewarded).trans
    (GovCtrler.beginBlock_frame (by decide) governed)

theorem endBlock_onAccount {valUpdates : List ValidatorUpdate}
    (holds : Holds .accounts (OnAccount P) s.ledgers)
    (ran : EndsBlock X s valUpdates t) :
    Holds .accounts (OnAccount P) t.ledgers := by
  obtain ⟨bctx, newGovParams, lastValidators, ls, ls', ls'', -, governed, paid, refunded, rfl⟩ :=
    endBlock_ok ran
  have governs : Keeps .accounts (OnAccount P) (GovCtrler.endBlock X.json X.sort
      s.mem.govParams s.mem.newGovParams bctx.blockInfo.height) :=
    Calm.onAccount (GovCtrler.writes_endBlock (by decide) (by decide) (by decide) _ _ _ _ _)
  exact ((holds.of_exec governs governed).of_exec (keeps_endBlock (fun _ _ => id) _) paid).of_exec
    (StakeCtrler.keeps_endBlock _ _ _ _) refunded

end RigoApp

end

end Rigo
