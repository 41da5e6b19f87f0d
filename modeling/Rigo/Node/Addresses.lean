import Rigo.Node.Accounts
import Rigo.Node.Entries
import Rigo.Node.Runs

/-!
# The addresses of the accounts

An account keeps its address when it is changed, so what holds of the addresses of all accounts
can only be lost where an account is created: in the genesis, for the proposer of a block, for an
address that the EVM touches, and for the receiver of a transaction.  The last is done before the
transaction is validated, and whatever bytes the receiver has.

In a run in which the receivers of the delivered transactions have addresses of 20 bytes, or an
account, so have all accounts (`Run.addresses_wellFormed`).  In general they do not
(`Run.shortAddress`).
-/

namespace Rigo

open Foundation
open AcctCtrler

/-- `Q` holds of the address of an account. -/
abbrev AtAddress (Q : Address → Prop) (acct : Account) : Prop := Q acct.address

/-- The accounts that are found have addresses in `Q`. -/
abbrev AddressIn (Q : Address → Prop) (_ : LedgerKey) (found : Option Account) : Prop :=
  ∀ acct, found = some acct → Q acct.address

/-- The code creates no account whose address is not in `Q`. -/
abbrev Files.Addresses {α : Type} (Q : Address → Prop) (p : LedgerProg α) : Prop :=
  Files False .accounts (AtAddress Q) p

section

variable {Q : Address → Prop}

instance : Unnumbered (AddressIn Q) where
  kept address _ holds acct same := by
    cases same
    rw [address]
    exact holds _ rfl

theorem admits_address {addr : Address} (new : Q addr) : Admits (AddressIn Q) addr := by
  rintro _ _ ⟨⟩
  exact new

/-- Code that keeps the addresses of the accounts that are found. -/
theorem Keeps.addresses {α : Type} {p : LedgerProg α} (keeps : Keeps .accounts (AddressIn Q) p) :
    Files.Addresses Q p := Obeys.files keeps

/-- Code that writes no accounts. -/
theorem Calm.addresses {α : Type} {p : LedgerProg α} (writes : Writes (fun l => l ≠ .accounts) p) :
    Files.Addresses Q p := writes.files (not_not.mpr rfl)

/-! ## The EVM -/

namespace EvmCtrler

variable {E : EvmLib}

theorem addresses_recordCreation (ctx : TrxContext) :
    Files.Addresses Q (recordCreation E ctx) := by
  refine Keeps.addresses ((returns_findAccount _).bind fun found ⟨_, filed⟩ => ?_)
  cases found with
  | none => trivial
  | some acct =>
    exact (keeps_set fun acct' same => by cases same; exact (filed acct rfl).holds acct rfl).seq
      fun _ => trivial

variable (sized : ∀ addr, Q (array20 addr))
  (visits : ∀ (state : E.State) (msg : EvmMessage) (gasPool : Nat),
    (E.applyMessage state msg gasPool).Visits Q)

include sized visits in
theorem addresses_execute (ctx : TrxContext) (m : EvmMem E) (state : E.State) :
    FilesTrx False .accounts (AtAddress Q) (execute ctx m state) := by
  have undone {snap : Nat} {applied : Applied E.State} (all : AllIn Q applied.accessed) :
      FilesTrx False .accounts (AtAddress Q) (undo m state snap applied) :=
    (filesTrx_ledger (keeps_finish admits_address state (all.revert snap)).addresses).seq fun _ =>
      filesTrx_setEvm _
  unfold execute
  refine filesTrx_bind (Obeys.files (returns_prepared admits_address sized _ _ _ _))
    fun ⟨prepared, accessed⟩ all => ?_
  refine filesTrx_bind (Obeys.files (returns_visits admits_address (visits _ _ _) all _))
    fun applied all' => ?_
  split
  · exact (undone all').seq fun _ => trivial
  · split
    · exact (undone all').seq fun _ => trivial
    · refine (filesTrx_ledger (keeps_finish admits_address _ all').addresses).seq fun _ =>
        (filesTrx_setEvm _).seq fun _ => ?_
      split
      · exact (filesTrx_ledger (addresses_recordCreation ctx)).seq fun _ => trivial
      · trivial

include sized visits in
theorem addresses_executeTrx (ctx : TrxContext) :
    FilesTrx False .accounts (AtAddress Q) (executeTrx ctx : Ctrler E TrxResult) := by
  unfold executeTrx
  split
  · trivial
  · refine filesTrx_bind (Obeys.files (returns_accountAt _)) fun receiver _ => ?_
    split
    · trivial
    · refine ⟨trivial, fun m _ => ?_⟩
      simp only [Prog.pure_bind]
      split
      · trivial
      · exact addresses_execute sized visits ctx m _

end EvmCtrler

/-! ## Transactions -/

namespace TrxExecutor

variable {E : EvmLib} (sized : ∀ addr, Q (array20 addr))
  (visits : ∀ (state : E.State) (msg : EvmMessage) (gasPool : Nat),
    (E.applyMessage state msg gasPool).Visits Q)

include sized visits

theorem addresses_runEvmTrx (ctx : TrxContext) :
    FilesTrx False .accounts (AtAddress Q) (runEvmTrx ctx : Ctrler E TrxResult) := by
  refine (EvmCtrler.addresses_executeTrx sized visits ctx).seq fun result => ?_
  split
  · exact filesTrx_ledger ((keeps_postRunTrx _ _).addresses)
  · split
    · exact filesTrx_ledger ((keeps_postRunTrx _ _).addresses)
    · trivial

theorem addresses_runTrx (ctx : TrxContext) (pubKey : HexBytes) :
    FilesTrx False .accounts (AtAddress Q) (runTrx ctx pubKey : Ctrler E TrxResult) := by
  have native {execute : LedgerProg Unit} (files : Files.Addresses Q execute) :
      FilesTrx False .accounts (AtAddress Q)
        (Ctrler.ledger (runNative ctx execute) : Ctrler E TrxResult) :=
    filesTrx_ledger (Obeys.seq files fun _ => (keeps_postRunTrx ctx _).addresses)
  have governed : Files.Addresses Q (GovCtrler.executeTrx ctx) :=
    Calm.addresses (GovCtrler.writes_executeTrx (by decide) ctx)
  unfold runTrx
  split
  · exact addresses_runEvmTrx sized visits ctx
  · exact native governed
  · exact native governed
  · refine filesTrx_bind (Obeys.files (returns_accountAt _)) fun receiver _ => ?_
    split
    · exact addresses_runEvmTrx sized visits ctx
    · exact native (keeps_executeTrx ctx).addresses
  · exact native (keeps_executeTrx ctx).addresses
  · exact native (StakeCtrler.keeps_executeTrx ctx pubKey).addresses
  · exact native (StakeCtrler.keeps_executeTrx ctx pubKey).addresses
  · exact native (StakeCtrler.keeps_executeTrx ctx pubKey).addresses

/-- The execution of a transaction, whether it is valid or not. -/
theorem executeSync_addresses (lib : TrxLib) (json : ParamsJSON) (ctx : TrxContext)
    {r : Workspace E} (intact : Intact .accounts (AtAddress Q) r.ledgers) :
    Intact .accounts (AtAddress Q)
      (run (trxHandler storeImpl) (executeSync lib json ctx) r).2.ledgers := by
  rcases executeSync_cases lib json ctx r with
    ⟨fault, r', failed, ledgers⟩ | ⟨pubKey, r', validated, ledgers, sequence⟩
  · rw [failed]
    simp only [ledgers]
    exact intact
  · rw [sequence]
    exact Intact.run (by rw [ledgers]; exact intact) (addresses_runTrx sized visits ctx pubKey)

end TrxExecutor

end

namespace RigoApp

variable {X : External}

/-! ## Runs -/

/-- The proposer of a block that begins has an address in `Q`, if there is one. -/
def ProposerIn (Q : Address → Prop) (step : Step X.evm) : Prop :=
  match step.call with
  | .beginBlock info => ∀ addr ∈ info.proposer, Q addr
  | _ => True

/-- The receiver of a delivered transaction has an address in `Q`, or an account. -/
def ReceiverIn (X : External) (Q : Address → Prop) (step : Step X.evm) : Prop :=
  match step.call with
  | .deliverTx txbz => ∀ tx ∈ (Trx.decode X.trx txbz).toOption,
      Q tx.toAddr ∨ (Stores.account step.before.ledgers tx.toAddr).isSome
  | _ => True

/-- The accounts have addresses in `Q`, and so has the proposer of the block. -/
structure WellFormed (Q : Address → Prop) (s : Node X.evm) : Prop where
  accounts : Intact .accounts (AtAddress Q) s.ledgers
  proposer : ∀ bctx ∈ s.mem.nextBlockCtx, ∀ addr ∈ bctx.blockInfo.proposer, Q addr

/-- The EVM of the application touches addresses in `Q` only, and all arrays of 20 bytes are in
`Q`. -/
structure Touches (X : External) (Q : Address → Prop) : Prop where
  arrays : ∀ addr, Q (array20 addr)
  visits : ∀ (state : X.evm.State) (msg : EvmMessage) (gasPool : Nat),
    (X.evm.applyMessage state msg gasPool).Visits Q

/-- The addresses of the genesis are in `Q`. -/
structure GenesisIn (X : External) (Q : Address → Prop) (genesis : Genesis) : Prop where
  holders : ∀ holder ∈ genesis.assetHolders, Q holder.1
  validators : ∀ val ∈ genesis.validators, Q (X.pubBytes2Addr val.1)

section

variable {Q : Address → Prop} {s t : Node X.evm}

theorem wellFormed_initChain {genesis : Genesis} (first : firstNode X = .ok s)
    (ran : InitsChain X genesis s t)
    (genesisIn : GenesisIn X Q genesis) : WellFormed Q t := by
  cases first
  obtain ⟨ls, ls', ls'', held, accounts, staked, rfl⟩ := initChain_ok ran
  refine ⟨?_, fun bctx none => by cases none⟩
  have empty : Intact .accounts (AtAddress Q)
      (Stores.put (fun _ => Store.new Tree.empty) .params genesis.params) := by
    refine ⟨?_, ?_⟩
    · rw [Everywhere, Stores.put_of_ne _ _ (by decide)]
      exact ⟨.empty, .empty, fun m saved => absurd saved List.not_mem_nil⟩
    · rw [Stores.put_of_ne _ _ (by decide)]
      rfl
  have holding := empty.of_exec (Obeys.forM _ trivial fun holder member =>
    files_set (l := .accounts) (genesisIn.holders holder member)) held
  have created : Files.Addresses Q (validatorAccounts X genesis.validators) :=
    Obeys.forM _ trivial fun val member => Keeps.addresses <| Returns.bind
      (returns_findOrNewAccount _ (admits_address (genesisIn.validators val member)))
      fun _ _ => trivial
  refine (holding.of_exec created accounts).of_exec ?_ staked
  exact Calm.addresses (StakeCtrler.writes_initLedger (by decide) _)

theorem WellFormed.beginBlock {info : BlockInfo} (wellFormed : WellFormed Q s)
    (proposer : ∀ addr ∈ info.proposer, Q addr)
    (ran : BeginsBlock X info s t) : WellFormed Q t := by
  obtain ⟨last, ls, ls', allDelegatees, -, -, -, governed, -, rewarded, rfl⟩ := beginBlock_ok ran
  refine ⟨?_, fun bctx here => ?_⟩
  · refine (wellFormed.accounts.of_exec ?_ governed).of_exec ?_ rewarded
    · exact Calm.addresses (GovCtrler.writes_beginBlock (by decide) _ _)
    · exact Calm.addresses (StakeCtrler.writes_punishAndReward (fun _ _ => trivial) (by decide)
        (by decide) (by decide) _ _)
  · cases here
    exact proposer

theorem WellFormed.deliverTx {txbz : HexBytes} {answer : TxResponse} (wellFormed : WellFormed Q s)
    (touches : Touches X Q) (receiver : ReceiverIn X Q ⟨s, .deliverTx txbz, .deliverTx answer, t⟩)
    (ran : DeliversTx X txbz s answer t) :
    WellFormed Q t := by
  obtain ⟨bctx, tx, sender, inBlock, decoded, -, answered⟩ := deliverTx_ok ran
  obtain ⟨resources, -, next, mem, info⟩ := respond_ok answered
  refine ⟨?_, fun bctx' here => ?_⟩
  · rw [resources]
    refine TrxExecutor.executeSync_addresses touches.arrays touches.visits _ _ _ ?_
    -- the account of the receiver is created before anything is checked
    have sized := receiver tx (by rw [decoded]; rfl)
    change Intact .accounts _ (Stores.withAccount s.ledgers tx.toAddr)
    cases found : Stores.account s.ledgers tx.toAddr with
    | some acct =>
      rw [Stores.withAccount, found]
      exact wellFormed.accounts
    | none =>
      rw [found] at sized
      rw [Stores.withAccount, found]
      exact wellFormed.accounts.put (sized.resolve_right (by simp))
  · have same := info inBlock
    rw [mem] at here
    rw [show next = some bctx' from here] at same
    rw [Option.some.inj same]
    exact wellFormed.proposer bctx inBlock

theorem WellFormed.endBlock {valUpdates : List ValidatorUpdate} (wellFormed : WellFormed Q s)
    (ran : EndsBlock X s valUpdates t) : WellFormed Q t := by
  obtain ⟨bctx, newGovParams, lastValidators, ls, ls', ls'', inBlock, governed, paid, refunded, rfl⟩ :=
    endBlock_ok ran
  have proposer := wellFormed.proposer bctx inBlock
  refine ⟨?_, fun bctx' here => ?_⟩
  · refine ((wellFormed.accounts.of_exec ?_ governed).of_exec ?_ paid).of_exec ?_ refunded
    · exact Calm.addresses (GovCtrler.writes_endBlock (by decide) (by decide) (by decide) _ _ _ _ _)
    · exact (keeps_endBlock (fun addr here => admits_address (proposer addr here)) _).addresses
    · exact (StakeCtrler.keeps_endBlock _ _ _ _).addresses
  · cases here
    exact proposer

theorem WellFormed.commit {appHash : HexBytes} (wellFormed : WellFormed Q s)
    (ran : Commits X s appHash t) : WellFormed Q t := by
  obtain ⟨bctx, state, -, -, -, rfl, -, -⟩ := commit_ok ran
  exact ⟨wellFormed.accounts.commit, fun bctx' none => by cases none⟩

end

section

variable {Q : Address → Prop} {steps : List (Step X.evm)} {mayRestart : Bool} {genesis : Genesis}
  {phase : Phase} {s : App X.evm}

theorem Run.wellFormed (ran : Run X mayRestart genesis phase steps s) (touches : Touches X Q)
    (genesisIn : GenesisIn X Q genesis) :
    (∀ step ∈ steps, ProposerIn Q step ∧ ReceiverIn X Q step) → WellFormed Q (App.node s) := by
  refine ran.node_induction_of (C := fun step => ProposerIn Q step ∧ ReceiverIn X Q step)
    (I := fun _ _ s => WellFormed Q s) ?_ ?_ ?_ ?_ ?_ ?_ ?_
  · intro s t first ran
    exact wellFormed_initChain first ran genesisIn
  · intro steps s t info ih met ran
    exact ih.beginBlock met.1 ran
  · intro steps s t txbz answer ih met ran
    exact ih.deliverTx touches met.2 ran
  · intro steps s t valUpdates ih _ ran
    exact ih.endBlock ran
  · intro steps s t appHash ih _ ran
    exact ih.commit ran
  · intro phase steps s limiter ih
    exact ⟨ih.accounts, ih.proposer⟩
  · intro steps t u ih same restarted
    refine ⟨by rw [same]; exact ih.accounts, fun bctx here => ?_⟩
    unfold restartNode boot at restarted
    simp only at restarted
    split at restarted
    · cases restarted
    · cases restarted
      cases here

/-- No account is ever deleted. -/
theorem Run.accounts_removed (ran : Run X mayRestart genesis phase steps s) :
    ((App.node s).ledgers .accounts).removed = [] := by
  refine (ran.wellFormed (Q := fun _ => True) ⟨fun _ => trivial,
    fun _ _ _ => EvmRun.visits_of_all (fun _ => trivial) _⟩
    ⟨fun _ _ => trivial, fun _ _ => trivial⟩ fun step _ => ⟨?_, ?_⟩).accounts.removed
  · unfold ProposerIn
    split
    · exact fun _ _ => trivial
    · trivial
  · unfold ReceiverIn
    split
    · exact fun _ _ => .inl trivial
    · trivial

/-- The address has 20 bytes. -/
abbrev Sized (addr : Address) : Prop := addr.length = addrSize

/-- In every run in which the receivers of the transactions have addresses of 20 bytes or an
account, every account, in the view of the block and committed, has an address of 20 bytes, and
accounts with different keys have different addresses. -/
theorem Run.addresses_wellFormed (ran : Run X mayRestart genesis phase steps s)
    (visits : ∀ (state : X.evm.State) (msg : EvmMessage) (gasPool : Nat),
      (X.evm.applyMessage state msg gasPool).Visits Sized)
    (holders : ∀ holder ∈ genesis.assetHolders, Sized holder.1)
    (validators : ∀ val ∈ genesis.validators, Sized (X.pubBytes2Addr val.1))
    (proposers : ∀ step ∈ steps, ProposerIn Sized step)
    (receivers : ∀ step ∈ steps, ReceiverIn X Sized step)
    {found : LedgerKey → Option Account}
    (view : found = ((App.node s).ledgers .accounts).lookup ∨
      found = ((App.node s).ledgers .accounts).tree.contents.find?) :
    (∀ k acct, found k = some acct → acct.address.length = 20) ∧
      ∀ k k' acct acct', found k = some acct → found k' = some acct' → k ≠ k' →
        acct.address ≠ acct'.address := by
  have wellFormed := ran.wellFormed ⟨array20_length, visits⟩ ⟨holders, validators⟩
    fun step member => ⟨proposers step member, receivers step member⟩
  have filed : ∀ k acct, found k = some acct → LedgerItem.key acct = k := by
    intro k acct here
    rcases view with rfl | rfl
    · exact Store.key_of_lookup here
    · exact Foundation.KeyedMap.key_of_find? here
  refine ⟨fun k acct here => ?_, fun k k' acct acct' here here' differs same => ?_⟩
  · rcases view with rfl | rfl
    · exact wellFormed.accounts.all.lookup here
    · exact wellFormed.accounts.all.committed k acct here
  · refine differs ?_
    rw [← filed k acct here, ← filed k' acct' here', Account.key_eq, Account.key_eq, same]

end

/-! ### A transfer to a short address -/

instance (step : Step X.evm) : Decidable (ProposerIn Sized step) :=
  match step with
  | ⟨_, .beginBlock info, _, _⟩ => inferInstanceAs (Decidable (∀ addr ∈ info.proposer, _))
  | ⟨_, .deliverTx _, _, _⟩ => .isTrue trivial
  | ⟨_, .endBlock, _, _⟩ => .isTrue trivial
  | ⟨_, .commit, _, _⟩ => .isTrue trivial

instance (step : Step X.evm) : Decidable (ReceiverIn X Sized step) :=
  match step with
  | ⟨_, .deliverTx _, _, _⟩ => inferInstanceAs (Decidable (∀ tx ∈ Except.toOption _, _))
  | ⟨_, .beginBlock _, _, _⟩ => .isTrue trivial
  | ⟨_, .endBlock, _, _⟩ => .isTrue trivial
  | ⟨_, .commit, _, _⟩ => .isTrue trivial

/-- A transfer to another account, and one to an address of a single byte. -/
def twoTransfers : External :=
  Concrete.external ⟨[Concrete.trx .transfer 1 2 0 0 [],
    { Concrete.trx .transfer 1 2 1 0 [] with toAddr := [7] }], [], [], []⟩

def transferring : App twoTransfers.evm :=
  (start twoTransfers (Concrete.genesis [(1, 10000000)])).toOption.get (by decide +kernel)

/-- A block with a transaction. -/
def blockWith (txbz : HexBytes) : List ConsensusCall :=
  [.beginBlock (Concrete.block 1), .deliverTx txbz, .endBlock, .commit]

theorem run_blockWith (txbz : HexBytes)
    (length : (stepsOf twoTransfers (blockWith txbz) transferring).length = 4) :
    Run twoTransfers false (Concrete.genesis [(1, 10000000)]) .idle
      ([] ++ stepsOf twoTransfers (blockWith txbz) transferring)
      (runCalls twoTransfers finalityImpl (blockWith txbz) transferring).2 :=
  (Run.start (eq_ok_of_isSome _)).calls (blockWith txbz) rfl length

/-- The account at a key in the last commit. -/
def committedAt (k : LedgerKey) (s : App twoTransfers.evm) : Option Account :=
  ((App.node s).ledgers .accounts).tree.contents.find? k

/-- A transfer to an address of one byte is refused, and leaves an account with that address. -/
theorem Run.shortAddress : ∃ steps s acct,
    Run twoTransfers false (Concrete.genesis [(1, 10000000)]) .idle steps s ∧
      (∀ step ∈ steps, ProposerIn Sized step) ∧
      ((App.node s).ledgers .accounts).tree.contents.find? (toLedgerKey [7]) = some acct ∧
      acct.address = [7] := by
  have ran := run_blockWith [1] (by decide +kernel)
  obtain ⟨acct, found⟩ : ∃ acct, committedAt (toLedgerKey [7])
      (runCalls twoTransfers finalityImpl (blockWith [1]) transferring).2 = some acct :=
    Option.isSome_iff_exists.mp (by decide +kernel)
  have short : ∀ acct ∈ committedAt (toLedgerKey [7])
      (runCalls twoTransfers finalityImpl (blockWith [1]) transferring).2, acct.address = [7] := by
    decide +kernel
  exact ⟨_, _, acct, ran, by decide +kernel, found, short acct found⟩

/-- The receiver of a transfer gets an account with its address. -/
theorem Run.addresses_wellFormed_transfer :
    ∃ acct, committedAt (toLedgerKey (Concrete.addr 2))
        (runCalls twoTransfers finalityImpl (blockWith [0]) transferring).2 = some acct ∧
      acct.address.length = 20 := by
  have ran := run_blockWith [0] (by decide +kernel)
  have visits : ∀ (state : twoTransfers.evm.State) (msg : EvmMessage) (gasPool : Nat),
      (twoTransfers.evm.applyMessage state msg gasPool).Visits Sized := fun _ _ _ => trivial
  obtain ⟨acct, found⟩ : ∃ acct, committedAt (toLedgerKey (Concrete.addr 2))
      (runCalls twoTransfers finalityImpl (blockWith [0]) transferring).2 = some acct :=
    Option.isSome_iff_exists.mp (by decide +kernel)
  have wellFormed := Run.addresses_wellFormed ran visits (by decide +kernel) (by decide +kernel)
    (by decide +kernel) (by decide +kernel) (.inr rfl)
  exact ⟨acct, found, wellFormed.1 _ acct found⟩

end RigoApp

end Rigo
