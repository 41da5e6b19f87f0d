import Rigo.Node.Nonce
import Rigo.Node.Runs

/-!
# No replay

In a run of blocks the nonce of an account counts the transactions of its owner that were
executed: `DeliverTx` counts it up by one if it answers with code 0, and nothing else changes
it.  So the executed transactions of a sender have the nonces 0, 1, 2 and so on.
-/

namespace Rigo

open Foundation

/-! ## Calls -/

namespace RigoApp

variable {X : External} {owned : Address → Prop} {addr : Address} {txbz : HexBytes}
  {steps : List (Step X.evm)} {s t : Node X.evm} {ls : Stores} {answer : TxResponse}

/-- The nonces in some stores. -/
def noncesOf (ls : Stores) (k : LedgerKey) : Nat := nonceIn ((ls .accounts).lookup k)

theorem hasNonces_noncesOf (removed : (ls .accounts).removed = []) :
    HasNonces (noncesOf ls) anyCode ls := ⟨removed, fun _ => ⟨rfl, trivial⟩⟩

theorem noncesOf_eq {N : LedgerKey → Nat} {C : LedgerKey → HexBytes → Prop}
    (holds : HasNonces N C ls) : noncesOf ls = N := funext fun k => (holds.2 k).1

/-- The transaction a node has executed. -/
structure Executed (X : External) (owned : Address → Prop) (s : Node X.evm) (txbz : HexBytes)
    (t : Node X.evm) (tx : Trx) : Prop where
  decoded : Trx.decode X.trx txbz = .ok tx
  size : tx.fromAddr.length = addrSize
  signed : owned tx.fromAddr
  nonce : noncesOf s.ledgers (toLedgerKey tx.fromAddr) = tx.nonce
  counts : CountsUp owned tx.fromAddr (noncesOf s.ledgers) (noncesOf t.ledgers)

/-- `DeliverTx` counts the nonce of the sender up if it answers with code 0, and leaves the
nonces otherwise. -/
theorem deliverTx_nonces (laws : X.CountsNonces owned)
    (removed : (s.ledgers .accounts).removed = [])
    (ran : DeliversTx X txbz s answer t) :
    (t.ledgers .accounts).removed = [] ∧
      ((answer.code ≠ 0 ∧ noncesOf t.ledgers = noncesOf s.ledgers) ∨
        (answer.code = 0 ∧ ∃ tx, Executed X owned s txbz t tx)) := by
  obtain ⟨bctx, tx, sender, -, decoded, -, answered⟩ := deliverTx_ok ran
  have created := ((hasNonces_noncesOf removed).exec
    (AcctCtrler.returns_findOrNewAccount tx.toAddr id)).2
  rw [show run (ledgerHandler storeImpl) _ s.ledgers = _ from
    AcctCtrler.exec_findOrNewAccount tx.toAddr s.ledgers] at created
  obtain ⟨settled, executed⟩ := TrxExecutor.settled_executeSync laws
    (ctxOf X s bctx txbz tx)
    { s.toResources with ledgers := Stores.withAccount s.ledgers tx.toAddr } created (laws.hash txbz) rfl
  rw [settling] at settled
  generalize run (trxHandler storeImpl) _ _ = ended at settled executed answered
  obtain ⟨outcome, r⟩ := ended
  cases outcome with
  | error fault =>
    cases fault with
    | panic p => cases answered
    | xerr e =>
      cases answered
      exact ⟨settled.1, .inl ⟨by rw [code_failure]; decide, noncesOf_eq settled⟩⟩
  | ok result =>
    obtain ⟨gasUsed, retData, failed⟩ := result
    cases failed with
    | some e =>
      cases answered
      exact ⟨settled.2.1, .inl ⟨by rw [code_failure]; decide, noncesOf_eq settled.2⟩⟩
    | none =>
      obtain ⟨N', holds, counts⟩ := settled
      obtain ⟨size, signed, nonce⟩ := executed _ _ rfl
      cases answered
      refine ⟨holds.1, .inr ⟨rfl, tx, decoded, size, signed, nonce, ?_⟩⟩
      rw [show noncesOf r.ledgers = N' from noncesOf_eq holds]
      exact counts

/-! ## Runs -/

/-- The transactions of a sender that were executed, in their order. -/
def executedBy (X : External) (addr : Address) (steps : List (Step X.evm)) : List Trx :=
  (steps.filterMap (executedTrx X)).filter fun tx => tx.fromAddr = addr

/-- What a step does to nonces. -/
def CountsNonceOf (X : External) (addr : Address) (step : Step X.evm) : Prop :=
  ∀ txbz answer, step.call = .deliverTx txbz → step.response = .deliverTx answer →
    (answer.code = 0 → ∃ tx, Trx.decode X.trx txbz = .ok tx ∧ (tx.fromAddr = addr →
      Stores.nonce step.before.ledgers addr = tx.nonce ∧
        Stores.nonce step.after.ledgers addr = tx.nonce + 1)) ∧
    (answer.code ≠ 0 → ∀ other,
      Stores.nonce step.after.ledgers other = Stores.nonce step.before.ledgers other)

/-- As long as a sender has executed fewer than `2 ^ 64` transactions, their nonces are
`0, 1, 2, …` and the nonce of its account is their number. -/
structure Numbers (X : External) (owned : Address → Prop) (addr : Address)
    (steps : List (Step X.evm)) (s : Node X.evm) : Prop where
  removed : (s.ledgers .accounts).removed = []
  signed : ∀ tx ∈ executedBy X addr steps, owned addr ∧ addr.length = addrSize
  nonce : (executedBy X addr steps).length < 2 ^ 64 → owned addr → addr.length = addrSize →
    noncesOf s.ledgers (toLedgerKey addr) = (executedBy X addr steps).length
  distinct : (executedBy X addr steps).length < 2 ^ 64 →
    (executedBy X addr steps).map Trx.nonce = List.range (executedBy X addr steps).length
  counts : (executedBy X addr steps).length < 2 ^ 64 → ∀ step ∈ steps, CountsNonceOf X addr step

theorem executedBy_append (X : External) (addr : Address) (steps : List (Step X.evm))
    (step : Step X.evm) :
    executedBy X addr (steps ++ [step]) =
      executedBy X addr steps ++ (executedTrx X step).toList.filter fun tx => tx.fromAddr = addr := by
  rw [executedBy, List.filterMap_append, List.filter_append]
  cases executed : executedTrx X step <;> simp [executedBy, executed]

/-- A call that executes no transaction and keeps the nonces. -/
theorem Numbers.silent (numbers : Numbers X owned addr steps s) {step : Step X.evm}
    (silent : executedTrx X step = none) (counts : CountsNonceOf X addr step)
    (kept : HasNonces (noncesOf s.ledgers) anyCode t.ledgers) :
    Numbers X owned addr (steps ++ [step]) t := by
  have same : executedBy X addr (steps ++ [step]) = executedBy X addr steps := by
    rw [executedBy_append, silent]
    simp
  refine ⟨kept.1, ?_, ?_, ?_, ?_⟩
  · rw [same]
    exact numbers.signed
  · rw [same, noncesOf_eq kept]
    exact numbers.nonce
  · rw [same]
    exact numbers.distinct
  · rw [same]
    intro few step' member
    rcases List.mem_append.mp member with old | new
    · exact numbers.counts few step' old
    · cases List.mem_singleton.mp new
      exact counts

/-- A transaction that was executed. -/
theorem Numbers.executed (numbers : Numbers X owned addr steps s)  {tx : Trx}
    (removed : (t.ledgers .accounts).removed = []) (code : answer.code = 0)
    (executed : Executed X owned s txbz t tx) :
    Numbers X owned addr (steps ++ [⟨s, .deliverTx txbz, .deliverTx answer, t⟩]) t := by
  have new : executedTrx X ⟨s, .deliverTx txbz, .deliverTx answer, t⟩ = some tx := by
    simp [executedTrx, code, executed.decoded, Except.toOption]
  have appended := executedBy_append X addr steps ⟨s, .deliverTx txbz, .deliverTx answer, t⟩
  rw [new] at appended
  by_cases sender : tx.fromAddr = addr
  · have appended : executedBy X addr (steps ++ [⟨s, .deliverTx txbz, .deliverTx answer, t⟩]) =
        executedBy X addr steps ++ [tx] := by simpa [sender] using appended
    subst sender
    have length : (executedBy X tx.fromAddr
        (steps ++ [⟨s, .deliverTx txbz, .deliverTx answer, t⟩])).length =
        (executedBy X tx.fromAddr steps).length + 1 := by simp [appended]
    have before (few : (executedBy X tx.fromAddr
        (steps ++ [⟨s, .deliverTx txbz, .deliverTx answer, t⟩])).length < 2 ^ 64) :
        tx.nonce = (executedBy X tx.fromAddr steps).length :=
      executed.nonce.symm.trans (numbers.nonce (by omega) executed.signed executed.size)
    have after := executed.counts tx.fromAddr executed.signed executed.size
    rw [if_pos rfl, executed.nonce] at after
    refine ⟨removed, fun _ _ => ⟨executed.signed, executed.size⟩, fun few _ _ => ?_, fun few => ?_,
      fun few step member => ?_⟩
    · rw [after, before few, Nat.mod_eq_of_lt (by omega), length]
    · rw [length, appended, List.map_append, numbers.distinct (by omega), List.range_succ,
        ← before few]
      rfl
    · rcases List.mem_append.mp member with old | last
      · exact numbers.counts (by omega) step old
      · cases List.mem_singleton.mp last
        rintro _ _ ⟨⟩ ⟨⟩
        refine ⟨fun _ => ⟨tx, executed.decoded, fun _ => ⟨executed.nonce, ?_⟩⟩,
          fun failed => absurd code failed⟩
        have bound := before few
        exact after.trans (Nat.mod_eq_of_lt (by omega))
  · have same : executedBy X addr (steps ++ [⟨s, .deliverTx txbz, .deliverTx answer, t⟩]) =
        executedBy X addr steps := by simpa [sender] using appended
    refine ⟨removed, ?_, ?_, ?_, ?_⟩
    · rw [same]
      exact numbers.signed
    · rw [same]
      intro few belongs size
      rw [executed.counts addr belongs size, if_neg (Ne.symm sender)]
      exact numbers.nonce few belongs size
    · rw [same]
      exact numbers.distinct
    · rw [same]
      intro few step member
      rcases List.mem_append.mp member with old | last
      · exact numbers.counts few step old
      · cases List.mem_singleton.mp last
        rintro _ _ ⟨⟩ ⟨⟩
        exact ⟨fun _ => ⟨tx, executed.decoded, fun same => absurd same sender⟩,
          fun failed => absurd code failed⟩

/-- In every run the nonces count the executed transactions. -/
theorem Run.numbers (laws : X.CountsNonces owned) (addr : Address) {mayRestart : Bool}
    {genesis : Genesis} {phase : Phase} {s : App X.evm}
    (ran : Run X mayRestart genesis phase steps s) :
    Numbers X owned addr steps (App.node s) := by
  have quiet (step : Step X.evm) (call : ∀ txbz, step.call ≠ .deliverTx txbz) :
      executedTrx X step = none ∧ CountsNonceOf X addr step := by
    obtain ⟨before, called, response, after⟩ := step
    refine ⟨?_, fun txbz _ same => absurd same (call txbz)⟩
    cases called with
    | deliverTx txbz => exact absurd rfl (call txbz)
    | beginBlock info => rfl
    | endBlock => rfl
    | commit => rfl
  have committed {steps : List (Step X.evm)} {s t : Node X.evm} (appHash : HexBytes)
      (numbers : Numbers X owned addr steps s)
      (ran : Commits X s appHash t) :
      Numbers X owned addr (steps ++ [⟨s, .commit, .commit appHash, t⟩]) t := by
    obtain ⟨silent, counts⟩ :=
      quiet ⟨s, .commit, .commit appHash, t⟩ fun _ same => by cases same
    refine numbers.silent silent counts ?_
    obtain ⟨bctx, state, -, -, -, rfl, -, -⟩ := commit_ok ran
    exact (hasNonces_noncesOf numbers.removed).commit
  refine ran.node_induction (I := fun _ steps s => Numbers X owned addr steps s) ?_ ?_ ?_ ?_
    (fun appHash numbers ran => committed appHash numbers ran) ?_ ?_
  · intro s t first ran
    have holds : HasNonces (fun _ => 0) anyCode t.ledgers :=
      initChain_onAccount (fun _ => ⟨rfl, trivial⟩) first ran
    exact ⟨holds.1, fun _ member => (by cases member), fun _ _ _ => by rw [noncesOf_eq holds]; rfl,
      fun _ => rfl, fun _ _ member => by cases member⟩
  · intro steps s t info numbers ran
    obtain ⟨silent, counts⟩ :=
      quiet ⟨s, .beginBlock info, .beginBlock, t⟩ fun _ same => by cases same
    refine numbers.silent silent counts ?_
    have kept := beginBlock_accounts ran
    refine ⟨by rw [kept]; exact numbers.removed, fun k => ⟨?_, trivial⟩⟩
    rw [kept]
    rfl
  · intro steps s t txbz answer numbers ran
    obtain ⟨removed, ⟨failed, kept⟩ | ⟨code, tx, executed⟩⟩ :=
      deliverTx_nonces laws numbers.removed ran
    · refine numbers.silent (by simp [executedTrx, failed]) ?_
        ⟨removed, fun k => ⟨congrFun kept k, trivial⟩⟩
      rintro _ _ ⟨⟩ ⟨⟩
      exact ⟨fun code => absurd code failed, fun _ other => congrFun kept (toLedgerKey other)⟩
    · exact numbers.executed removed code executed
  · intro steps s t valUpdates numbers ran
    obtain ⟨silent, counts⟩ :=
      quiet ⟨s, .endBlock, .endBlock valUpdates, t⟩ fun _ same => by cases same
    exact numbers.silent silent counts
      (endBlock_onAccount (hasNonces_noncesOf numbers.removed) ran)
  · intro phase steps s limiter numbers
    exact ⟨numbers.removed, numbers.signed, numbers.nonce, numbers.distinct, numbers.counts⟩
  · intro steps s t u appHash _ numbers ran restarted
    have numbers' := committed appHash numbers ran
    have ledgers := restartNode_ledgers ran restarted
    exact ⟨by rw [ledgers]; exact numbers'.removed, numbers'.signed,
      by rw [ledgers]; exact numbers'.nonce, numbers'.distinct, numbers'.counts⟩

/-- No replay: as long as a sender has executed fewer than `2 ^ 64` transactions, each of them
carried the nonce of its account and counted it up by one; no failed transaction changed any
nonce; and no two of them have the same nonce. -/
theorem Run.noReplay (laws : X.CountsNonces owned) {mayRestart : Bool} {genesis : Genesis}
    {phase : Phase} {steps : List (Step X.evm)} {s : App X.evm}
    (ran : Run X mayRestart genesis phase steps s) (addr : Address)
    (few : (executedBy X addr steps).length < 2 ^ 64) :
    (∀ step ∈ steps, CountsNonceOf X addr step) ∧
      ((executedBy X addr steps).map Trx.nonce).Nodup := by
  have numbers := ran.numbers laws addr
  refine ⟨numbers.counts few, ?_⟩
  rw [numbers.distinct few]
  exact List.nodup_range

/-! ### A transfer and a call -/

theorem nonce_update (state : Address → Nat × Uint256) (addr : Address) (entry : Nat × Uint256)
    (other : Address) :
    (Function.update state addr entry other).1 =
      if other = addr then entry.1 else (state other).1 := by
  by_cases same : other = addr
  · subst same
    rw [Function.update_self, if_pos rfl]
  · rw [Function.update_of_ne same, if_neg same]

theorem nonce_pay (state : Concrete.Balances) (payer payee : Address) (amount : Uint256)
    (addr : Address) : (state.pay payer payee amount addr).1 = (state addr).1 := by
  simp only [Concrete.Balances.pay, nonce_update]
  grind

theorem nonce_settle (state : Concrete.Balances) (msg : EvmMessage) (gas : Nat) (addr : Address) :
    (state.settle msg gas addr).1 =
      if addr = msg.fromAddr then ((state msg.fromAddr).1 + 1) % 2 ^ 64 else (state addr).1 := by
  simp only [Concrete.Balances.settle, Concrete.Balances.count, nonce_update, nonce_pay]

theorem loadAll_plainEvm (nonces : Address → Nat) (state : Concrete.plainEvm.State)
    (loaded : List (Address × Uint256)) (addr : Address) (member : addr ∈ loaded.map Prod.fst) :
    (Concrete.plainEvm.account (Concrete.plainEvm.loadAll nonces state loaded) addr).1 =
      nonces addr := by
  induction loaded using List.reverseRecOn with
  | nil => cases member
  | append_singleton init last ih =>
    rw [EvmLib.loadAll_append]
    refine (nonce_update _ last.1 (nonces last.1, last.2) addr).trans ?_
    split
    · next same => rw [same]
    · next other =>
      refine ih ?_
      simpa [other] using member

/-- A transfer, and a call with data. -/
def transferAndCall : External :=
  { Concrete.external ⟨[Concrete.trx .transfer 1 2 0 1 [],
      { Concrete.trx .contract 1 2 1 1 [0xa9, 0x05, 0x9c, 0xbb] with gas := 50000 }], [], [], []⟩ with
    evm := Concrete.plainEvm }

theorem countsNonces_transferAndCall : transferAndCall.CountsNonces fun _ => True where
  signer _ _ _ _ _ := trivial
  hash txbz := by
    change List.replicate 31 1 ++ txbz ≠ []
    simp [List.replicate_succ]
  geth state msg gasPool nonces loaded sent := by
    intro executed ok _ entry member _
    obtain ⟨entry', member', rfl⟩ := List.mem_map.mp member
    refine (nonce_settle (Concrete.plainEvm.loadAll nonces state loaded) msg _ entry'.1).trans ?_
    split
    · next same =>
      rw [same, ← loadAll_plainEvm nonces state loaded _ sent]
      rfl
    · exact loadAll_plainEvm nonces state loaded _ (List.mem_map_of_mem member')

/-- A chain with one validator. -/
def oneValidator : App transferAndCall.evm :=
  (start transferAndCall (Concrete.genesis [(1, 10000000)])).toOption.get (by decide +kernel)

/-- The first block, in which both are executed. -/
def bothExecuted : List ConsensusCall :=
  [.beginBlock (Concrete.block 1), .deliverTx [0], .deliverTx [1], .deliverTx [0], .endBlock,
    .commit]

/-- Both are executed once, and have different nonces. -/
theorem Run.noReplay_transferAndCall :
    let steps := stepsOf transferAndCall bothExecuted oneValidator
    (executedBy transferAndCall (Concrete.addr 1) steps).length = 2 ∧
      ((executedBy transferAndCall (Concrete.addr 1) steps).map Trx.nonce).Nodup := by
  have ran : Run transferAndCall false (Concrete.genesis [(1, 10000000)]) .idle
      ([] ++ stepsOf transferAndCall bothExecuted oneValidator) _ :=
    (Run.start (eq_ok_of_isSome _)).calls bothExecuted rfl (by decide +kernel)
  have two : (executedBy transferAndCall (Concrete.addr 1)
      (stepsOf transferAndCall bothExecuted oneValidator)).length = 2 := by decide +kernel
  exact ⟨two, (Run.noReplay countsNonces_transferAndCall ran (Concrete.addr 1)
    (by rw [List.nil_append, two]; decide)).2⟩

end RigoApp

end Rigo
