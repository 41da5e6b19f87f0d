import Rigo.Ctrlers.Stake.LimiterCharge
import Rigo.Node.CrashSafety
import Rigo.Node.Failures
import Rigo.Node.Stakes
import Rigo.Node.Validators

/-!
# The limit on changes of the validators' power

A block may take no more than a share of `maxUpdatableStakeRatio` percent from the powers that the
validators had at its start.  The limiter charges every transaction by what it knows of the powers,
and it does not know all: it records no delegatee that was not there at the start, it charges the
stake that is unstaked and not those that go with it, and it has another order among equal powers.

`StakeStep` is a staking or an unstaking that is validated and executed.  While every step is one
that the limiter judges by the right powers (`Judged`), what it has charged covers what the
validators have lost (`StakeCtrler.Charges`), and so the limit holds (`Run.updatableStake`).
-/

namespace Rigo

open Foundation
open Store Stores
open Delegatee StakeLimiter

variable {d d' : Delegatee} {k : LedgerKey} {st : Store Delegatee} {ls ls' : Stores}

namespace StakeCtrler

/-! ## A delegatee exchanged in the ledger -/

section

variable {params : GovParams} {l l' : List Delegatee}

theorem mem_eligible :
    d ∈ eligible params l ↔ d ∈ l ∧ powerOf params.minValidatorStake ≤ d.selfPower := by
  rw [eligible, (sortBy_perm _ _).mem_iff, List.mem_filter, decide_eq_true_eq]

theorem pairwise_eligible (distinct : (l.map addr).Nodup) :
    (eligible params l).Pairwise Outranks :=
  pairwise_byPower (distinct.sublist (List.filter_sublist.map _))

/-- A list of delegatees in which the one with an address is exchanged. -/
structure Replaced (addr : Address) (rest : List Delegatee) (y y' : Option Delegatee)
    (l l' : List Delegatee) : Prop where
  before : l.Perm (y.toList ++ rest)
  after : l'.Perm (y'.toList ++ rest)
  named : ∀ d ∈ y, d.addr = addr
  named' : ∀ d ∈ y', d.addr = addr
  others : ∀ d ∈ rest, d.addr ≠ addr
  distinct : (rest.map Delegatee.addr).Nodup

variable {addr : Address} {rest : List Delegatee} {y y' : Option Delegatee}

theorem Replaced.symm (replaced : Replaced addr rest y y' l l') : Replaced addr rest y' y l' l :=
  ⟨replaced.after, replaced.before, replaced.named', replaced.named, replaced.others,
    replaced.distinct⟩

theorem Replaced.nodup (replaced : Replaced addr rest y y' l l') :
    (l.map Delegatee.addr).Nodup := by
  rw [(replaced.before.map Delegatee.addr).nodup_iff]
  cases y with
  | none => exact replaced.distinct
  | some d =>
    refine List.nodup_cons.mpr ⟨fun again => ?_, replaced.distinct⟩
    obtain ⟨e, there, same⟩ := List.mem_map.mp again
    exact replaced.others e there (same.trans (replaced.named d rfl))

theorem Replaced.nonneg (replaced : Replaced addr rest y y' l l')
    (nonneg : ∀ d ∈ l, 0 ≤ d.totalPower) (new : ∀ d ∈ y', 0 ≤ d.totalPower) :
    ∀ d ∈ l', 0 ≤ d.totalPower := by
  intro d member
  rcases List.mem_append.mp (replaced.after.mem_iff.mp member) with here | there
  · exact new d (Option.mem_toList.mp here)
  · exact nonneg d (replaced.before.mem_iff.mpr (List.mem_append_right _ there))

/-- The eligible one among at most one delegatee. -/
def ifEligible (params : GovParams) (y : Option Delegatee) : Option Delegatee :=
  y.filter fun d => powerOf params.minValidatorStake ≤ d.selfPower

theorem mem_ifEligible :
    d ∈ ifEligible params y ↔ d ∈ y ∧ powerOf params.minValidatorStake ≤ d.selfPower := by
  simp [ifEligible, Option.mem_def, Option.filter_eq_some_iff]

theorem ifEligible_some_of_not (short : ¬ powerOf params.minValidatorStake ≤ d.selfPower) :
    ifEligible params (some d) = none := by
  simp [ifEligible, Option.filter, short]

theorem Replaced.eligible_perm (replaced : Replaced addr rest y y' l l') :
    (eligible params l).Perm ((ifEligible params y).toList ++
      rest.filter fun d => powerOf params.minValidatorStake ≤ d.selfPower) := by
  refine (sortBy_perm _ _).trans ((replaced.before.filter _).trans (.of_eq ?_))
  rw [List.filter_append, ifEligible]
  cases y with
  | none => rfl
  | some d =>
    by_cases enough : powerOf params.minValidatorStake ≤ d.selfPower <;>
      simp [Option.filter, enough]

/-- The ranking of the eligible ones changes with the delegatee. -/
theorem Replaced.exchangedAt (replaced : Replaced addr rest y y' l l') (params : GovParams)
    (nonneg : ∀ d ∈ l, 0 ≤ d.totalPower) (nonneg' : ∀ d ∈ l', 0 ≤ d.totalPower) :
    ExchangedAt addr (rest.filter fun d => powerOf params.minValidatorStake ≤ d.selfPower)
      (ifEligible params y) (ifEligible params y') (eligible params l) (eligible params l') where
  sorted := pairwise_eligible replaced.nodup
  sorted' := pairwise_eligible replaced.symm.nodup
  before := replaced.eligible_perm
  after := replaced.symm.eligible_perm
  named d here := replaced.named d (mem_ifEligible.mp here).1
  named' d here := replaced.named' d (mem_ifEligible.mp here).1
  others d there := replaced.others d (List.mem_of_mem_filter there)
  distinct := replaced.distinct.sublist (List.filter_sublist.map _)
  nonneg d member := nonneg d (mem_eligible.mp member).1
  nonneg' d member := nonneg' d (mem_eligible.mp member).1

end

section

variable {st : Store Delegatee}

theorem items_perm_lookup (st : Store Delegatee) (k : LedgerKey) :
    st.view.items.Perm ((st.lookup k).toList ++ (st.view.erase k).items) := by
  cases found : st.lookup k with
  | none =>
    rw [KeyedMap.erase_of_find?_none ((st.find?_view k).trans found)]
    exact .refl _
  | some d => exact KeyedMap.items_perm_cons ((st.find?_view k).trans found)

theorem not_mem_erase {addr : Address} (key : toLedgerKey addr = k) :
    ∀ d ∈ (st.view.erase k).items, d.addr ≠ addr := by
  rintro d member rfl
  have found : (st.view.erase k).find? (toLedgerKey d.addr) = some d :=
    KeyedMap.mem_items.mp member
  rw [key, KeyedMap.find?_erase_self] at found
  cases found

/-- A delegatee that is set. -/
theorem replaced_set (kept : LedgerItem.key d' ∉ st.removed)
    (named : ∀ d, st.lookup (LedgerItem.key d') = some d → d.addr = d'.addr) :
    Replaced d'.addr (st.view.erase (LedgerItem.key d')).items (st.lookup (LedgerItem.key d'))
      (some d') st.view.items (st.set d').view.items where
  before := items_perm_lookup st _
  after := by
    rw [view_set kept]
    exact KeyedMap.items_insert_perm _ _
  named := named
  named' d here := by rw [Option.mem_some_iff.mp here]
  others := not_mem_erase rfl
  distinct := nodup_items _

/-- A delegatee that is deleted. -/
theorem replaced_erase  (found : st.lookup k = some d) :
    Replaced d.addr (st.view.erase k).items (st.lookup k) none st.view.items
      (st.erase k).view.items where
  before := items_perm_lookup st _
  after := by
    rw [view_erase]
    exact .refl _
  named d' here := by
    rw [found] at here
    rw [Option.mem_some_iff.mp here]
  named' _ here := by cases here
  others := not_mem_erase (key_of_lookup found)
  distinct := nodup_items _

end

/-! ## Charges cover losses -/

open StakeLimiter (Mirrors FoundAt totalOf)

/-- What the limiter has charged covers what the validators of the start of the block have lost. -/
structure Charges (params : GovParams) (first l : List Delegatee) (sl : StakeLimiter) : Prop where
  count : sl.maxValidatorCnt = params.maxValidatorCnt
  ratio : sl.updatableLimitRatio = params.maxUpdatableStakeRatio
  base : sl.baseTotalPower = totalOf (first.take params.maxValidatorCnt.toNat)
  mirrors : sl.Mirrors (first.map Delegatee.addr) (eligible params l)
  present : ∀ d ∈ l, d.addr ∈ first.map Delegatee.addr →
    powerOf params.minValidatorStake ≤ d.selfPower
  lost : lostPower (first.take params.maxValidatorCnt.toNat) (selected params l) ≤ sl.updatedPower
  nonneg : 0 ≤ sl.updatedPower
  within : sl.updatedPower * 100 / sl.baseTotalPower ≤ params.maxUpdatableStakeRatio

section

variable {params : GovParams} {first l l' rest : List Delegatee} {sl sl' : StakeLimiter}
  {delg : Delegatee} {diff : Int} {y y' : Option Delegatee}

/-- A share below the whole. -/
theorem Charges.updatedPower_le (charges : Charges params first l sl)
    (low : params.maxUpdatableStakeRatio < 100) (base : 0 ≤ sl.baseTotalPower)
    (some' : sl.baseTotalPower ≠ 0) : sl.updatedPower < sl.baseTotalPower := by
  have positive : 0 < sl.baseTotalPower := by omega
  have share := charges.within.trans_lt low
  rw [Int.ediv_lt_iff_lt_mul positive] at share
  omega

/-- The object of the delegatee has the power that is changed. -/
theorem power_of_foundAt {ridx : Int} {found : Option PowerObj} (at' : sl.FoundAt delg ridx found)
    (distinct : (sl.powerObjs.map PowerObj.addr).Nodup) {o : PowerObj} (member : o ∈ sl.powerObjs)
    (named : o.addr = delg.addr) : o.power = delg.totalPower := by
  have known : delg.addr ∈ sl.powerObjs.map PowerObj.addr := named ▸ List.mem_map_of_mem member
  obtain ⟨i, o', looked, here, named'⟩ := findPowerObj_of_known known
  have same : o' = o := List.inj_on_of_nodup_map distinct (List.mem_of_getElem? here) member
    (named'.trans named.symm)
  obtain ⟨-, object⟩ := Prod.mk.inj (at'.looked.symm.trans looked)
  have power := at'.power
  rw [object, same] at power
  exact power

/-- One accepted call, and the change that it was asked for. -/
theorem Charges.step (charges : Charges params first l sl)
    (low : params.maxUpdatableStakeRatio < 100) (own : ∀ v ∈ first, 0 ≤ v.totalPower)
    (replaced : Replaced delg.addr rest y y' l l') (nonneg : ∀ d ∈ l, 0 ≤ d.totalPower)
    (nonneg' : ∀ d ∈ l', 0 ≤ d.totalPower)
    (small : 100 * (totalOf (first.take params.maxValidatorCnt.toNat) +
      totalOf (eligible params l)) < 2 ^ 63)
    (ran : sl.checkLimit delg diff = (.ok (), sl')) (some' : first ≠ [])
    (power : 0 ≤ delg.totalPower) (exact : i64 (delg.totalPower + diff) = delg.totalPower + diff)
    (exact' : i64 (-1 * diff) = -diff)
    (known : delg.addr ∈ first.map addr →
      delg.totalPower + diff = ((ifEligible params y').map totalPower).getD 0)
    (present : ∀ d ∈ y', d.addr ∈ first.map addr →
      powerOf params.minValidatorStake ≤ d.selfPower)
    (covered : ∀ ridx found, sl.FoundAt delg ridx found →
      lostPower (first.take params.maxValidatorCnt.toNat) (selected params l') ≤
        lostPower (first.take params.maxValidatorCnt.toNat) (selected params l) +
          sl.movedPower ridx delg.totalPower diff) :
    Charges params first l' sl' := by
  have exchanged := replaced.exchangedAt params nonneg nonneg'
  have objects : sl.powerObjs ≠ [] := by
    intro empty
    obtain ⟨v, member⟩ := List.exists_mem_of_ne_nil first some'
    have listed := (charges.mirrors.addresses v.addr).mpr (List.mem_map_of_mem member)
    rw [empty] at listed
    cases listed
  have changed : sl'.powerObjs =
      sortBy PowerObj.less (sl.powerObjs.map (change ⟨delg, diff⟩)) :=
    powerObjs_of_checkLimit charges.mirrors.distinct ran objects
  obtain ⟨ridx, found, out, looked, power', pushedOut, base, enough, limit, rfl⟩ :=
    checkLimit_ok ran objects
  have at' : sl.FoundAt delg ridx found := ⟨looked, power'⟩
  rw [exact] at enough
  have baseNonneg : 0 ≤ sl.baseTotalPower := by
    rw [charges.base]
    exact totalOf_nonneg fun v member => own v (List.mem_of_mem_take member)
  have charged : 0 ≤ sl.movedPower ridx delg.totalPower diff :=
    charges.mirrors.movedPower_nonneg exchanged.nonneg power enough
  have charged' : sl.movedPower ridx delg.totalPower diff ≤ totalOf (eligible params l) :=
    charges.mirrors.movedPower_le exchanged.nonneg at' enough
  rw [← charges.base] at small
  have updated := charges.nonneg
  have below := charges.updatedPower_le low baseNonneg base
  have sum := updated_eq exact exact' pushedOut (i64_of_range (by omega) (by omega))
    (i64_of_range (by omega) (by omega))
  simp only [sum] at limit
  rw [(i64_tdiv_eq_iff (by omega) (by omega) (by omega)).mpr (by omega), charges.ratio] at limit
  refine ⟨charges.count, charges.ratio, charges.base, ?_, ?_, ?_, ?_, ?_⟩
  · refine charges.mirrors.changed changed (fun a other => ?_) fun o member named => ?_
    · rw [exchanged.withAddr_of_ne other, exchanged.symm.withAddr_of_ne other]
    · rw [power_of_foundAt at' charges.mirrors.distinct member named, exact,
        exchanged.symm.withAddr_self]
      refine known ((charges.mirrors.addresses _).mp ?_)
      rw [← named]
      exact List.mem_map_of_mem member
  · intro d member listed
    rcases List.mem_append.mp (replaced.after.mem_iff.mp member) with here | there
    · exact present d (Option.mem_toList.mp here) listed
    · exact charges.present d (replaced.before.mem_iff.mpr (List.mem_append_right _ there)) listed
  · have := covered ridx found at'
    have := charges.lost
    simp only [sum]
    omega
  · simp only [sum]
    omega
  · simp only [sum]
    exact limit

end

/-! ## Staking and unstaking -/

/-- The delegatee that the limiter is asked about for a staking. -/
def target (ctx : TrxContext) (st : Store Delegatee) : Delegatee :=
  (st.lookup (toLedgerKey ctx.tx.toAddr)).getD (Delegatee.newDelegatee ctx.tx.toAddr [])

/-- The limiter judges a transaction by the right powers. -/
structure Judged (first : List Delegatee) (ctx : TrxContext) (sl : StakeLimiter)
    (st : Store Delegatee) : Prop where
  /-- The powers of the delegatees have not overflown. -/
  sound : ∀ d ∈ st.view.items, d.Sound
  /-- The percentages do not overflow. -/
  small : 100 * (totalOf (first.take ctx.params.maxValidatorCnt.toNat) +
    totalOf (eligible ctx.params st.view.items)) < 2 ^ 63
  /-- A staking has power, the delegatee was not deleted in the block before, and the limiter sees
  the validator that would have to give way. -/
  staking : ctx.tx.type = .staking → 0 < powerOf ctx.tx.amount ∧
    toLedgerKey ctx.tx.toAddr ∉ st.removed ∧
    (target ctx st ∉ selected ctx.params st.view.items →
      sl.SeesLast (eligible ctx.params st.view.items) (target ctx st).addr
        ((target ctx st).totalPower + powerOf ctx.tx.amount))
  /-- An unstaking takes all power from the delegatee, or leaves it as much power of its own as a
  validator needs, and the limiter sees who would follow. -/
  unstaking : ctx.tx.type = .unstaking → ∀ txHash d, ctx.tx.payload = .unstaking txHash →
    st.lookup (toLedgerKey ctx.tx.toAddr) = some d →
    powerOf ctx.params.minValidatorStake ≤ d.selfPower →
    ((d.delStake txHash).totalPower = 0 ∨ (d.delStake txHash).selfPower ≠ 0 ∧
      powerOf ctx.params.minValidatorStake ≤ (d.delStake txHash).selfPower) ∧
    (d ∈ selected ctx.params st.view.items →
      sl.SeesNext (eligible ctx.params st.view.items) d.addr (d.delStake txHash).totalPower)

section

variable {E : EvmLib} {r r' : Workspace E} {ctx : TrxContext} {first : List Delegatee}

/-- An accepted question to the limiter. -/
theorem checkLimit_accepted {validators : Validators} {change : Int}
    (three : 3 ≤ validators.length)
    (ran : run (trxHandler storeImpl) (checkLimit validators d change) r = (.ok (), r')) :
    ∃ sl, r.limiter.checkLimit d change = (.ok (), sl) ∧ r' = { r with limiter := sl } := by
  unfold checkLimit at ran
  rw [if_pos three] at ran
  simp only [Prog.bind_eq, run_bind, Ctrler.getLimiter, Ctrler.setLimiter,
    run_perform, trxHandler, trxStep, andThen_ok] at ran
  generalize asked : r.limiter.checkLimit d change = answer at ran
  obtain ⟨(e | p) | _, sl⟩ := answer
  · cases ran
  · cases ran
  · cases ran
    exact ⟨sl, rfl, rfl⟩

/-- A new delegatee stakes enough to become a validator. -/
theorem validateSelfStaking_new {params : GovParams} {power totalPower : Int}
    (ran : exec (validateSelfStaking params none power) ls = (.ok totalPower, ls')) :
    powerOf params.minValidatorStake ≤ power := by
  obtain ⟨minPower, ls₁, priced, checked⟩ := run_bind_ok ran
  obtain ⟨rfl, rfl⟩ := amountToPower_ok priced
  obtain ⟨enough, -⟩ := run_ensure_ok checked
  exact of_decide_eq_true enough

/-- What a valid staking asks the limiter.  A new delegatee stakes enough to become a validator. -/
theorem validateStaking_target {asked : Delegatee × Int}
    (ran : exec (validateStaking ctx) ls = (.ok asked, ls')) :
    asked = (target ctx (ls .delegatees), powerOf ctx.tx.amount) ∧ ls' = ls ∧
      ((ls .delegatees).lookup (toLedgerKey ctx.tx.toAddr) = none →
        powerOf ctx.params.minValidatorStake ≤ powerOf ctx.tx.amount) := by
  have same : ls' = ls := funext fun l =>
    (writes_validateStaking (S := fun _ => False) ctx).frame id ran
  obtain ⟨-, totalPower, staker, -, rfl⟩ := validateStaking_inv ran
  refine ⟨rfl, same, fun missing => ?_⟩
  rw [missing] at staker
  unfold validateStaker at staker
  split at staker
  · exact validateSelfStaking_new staker
  · cases staker

variable {pubKey : HexBytes} {st : Store Delegatee} {sl sl' : StakeLimiter} {e d : Delegatee}
  {s0 : Stake}

/-- The delegatee that is staked on is the one that the limiter was asked about. -/
theorem StakesOn.target (stakesOn : StakesOn ctx pubKey ls e) :
    LedgerItem.key e = toLedgerKey ctx.tx.toAddr ∧
      e.addr = (target ctx (ls .delegatees)).addr ∧
      e.totalPower = (target ctx (ls .delegatees)).totalPower := by
  unfold StakeCtrler.target
  cases stakesOn with
  | existing found =>
    rw [found]
    exact ⟨key_of_lookup found, rfl, rfl⟩
  | new missing self =>
    rw [missing]
    exact ⟨congrArg toLedgerKey self, self, rfl⟩

theorem mem_view_items :
    d ∈ st.view.items ↔ st.lookup (LedgerItem.key d) = some d := by
  rw [KeyedMap.mem_items, find?_view]

theorem mem_view_of_lookup (found : st.lookup k = some d) : d ∈ st.view.items := by
  rw [mem_view_items, key_of_lookup found]
  exact found

theorem StakesOn.sound (stakesOn : StakesOn ctx pubKey ls e)
    (sound : ∀ d ∈ (ls .delegatees).view.items, d.Sound) : e.Sound := by
  cases stakesOn with
  | existing found => exact sound e (mem_view_of_lookup found)
  | new missing self => exact sound_newDelegatee _ _

/-- More power of its own leaves it no less. -/
theorem selfPower_addStake (sound : e.Sound) {s : Stake} (power : 0 ≤ s.power)
    (small : e.totalPower + s.power < 2 ^ 63) :
    e.selfPower ≤ (e.addStake s).selfPower ∧
      (s.isSelfStake = true → s.power ≤ (e.addStake s).selfPower) := by
  have own := sound.own_nonneg
  have part := sound.own_le_total
  unfold addStake
  simp only
  by_cases self : s.isSelfStake = true
  · rw [if_pos self, i64_of_range (by omega) (by omega)]
    exact ⟨by omega, fun _ => by omega⟩
  · rw [if_neg self]
    exact ⟨le_rfl, fun self' => absurd self' self⟩

theorem StakesOn.eq_of_lookup (stakesOn : StakesOn ctx pubKey ls e)
    (found : (ls .delegatees).lookup (toLedgerKey ctx.tx.toAddr) = some d) : d = e := by
  cases stakesOn with
  | existing found' => exact Option.some.inj (found.symm.trans found')
  | new missing _ =>
    rw [missing] at found
    cases found

theorem replaced_staked (stakesOn : StakesOn ctx pubKey ls e)
    (fresh : toLedgerKey ctx.tx.toAddr ∉ (ls .delegatees).removed) :
    Replaced e.addr ((ls .delegatees).view.erase (toLedgerKey ctx.tx.toAddr)).items
      ((ls .delegatees).lookup (toLedgerKey ctx.tx.toAddr)) (some (e.addStake (stakeOf ctx)))
      (ls .delegatees).view.items
      ((ls .delegatees).set (e.addStake (stakeOf ctx))).view.items := by
  have key : LedgerItem.key (e.addStake (stakeOf ctx)) = toLedgerKey ctx.tx.toAddr :=
    stakesOn.target.1
  rw [← key] at fresh ⊢
  refine replaced_set fresh fun d found => ?_
  rw [key] at found
  rw [stakesOn.eq_of_lookup found]
  rfl

/-- A valid staking does not overflow. -/
theorem totalPower_staked (sound : e.Sound) (positive : 0 ≤ powerOf ctx.tx.amount)
    (grows : 0 < i64 (e.totalPower + powerOf ctx.tx.amount)) :
    e.totalPower + powerOf ctx.tx.amount < 2 ^ 63 ∧
      (e.addStake (stakeOf ctx)).totalPower = e.totalPower + powerOf ctx.tx.amount := by
  obtain ⟨natural, small⟩ := sound.totalPower_range
  have bound := powerOf_lt ctx.tx.amount
  have small' : e.totalPower + powerOf ctx.tx.amount < 2 ^ 63 := by
    by_contra large
    have := i64_le_sub (not_lt.mp large)
    omega
  have exact : i64 (e.totalPower + powerOf ctx.tx.amount) = e.totalPower + powerOf ctx.tx.amount :=
    i64_of_range (by omega) small'
  exact ⟨small', exact⟩

theorem nonneg_staked (stakesOn : StakesOn ctx pubKey ls e)
    (sound : ∀ d ∈ (ls .delegatees).view.items, d.Sound)
    (fresh : toLedgerKey ctx.tx.toAddr ∉ (ls .delegatees).removed)
    (grows : 0 < i64 (e.totalPower + powerOf ctx.tx.amount)) :
    ∀ d ∈ ((ls .delegatees).set (e.addStake (stakeOf ctx))).view.items, 0 ≤ d.totalPower := by
  refine (replaced_staked stakesOn fresh).nonneg
    (fun d member => (sound d member).totalPower_range.1) fun d here => ?_
  rw [← Option.mem_some_iff.mp here]
  exact grows.le

/-- The limiter after a staking. -/
theorem Charges.staked (charges : Charges ctx.params first (ls .delegatees).view.items sl)
    (low : ctx.params.maxUpdatableStakeRatio < 100) (own : ∀ v ∈ first, 0 ≤ v.totalPower)
    (distinct : (first.map Delegatee.addr).Nodup) (some' : first ≠ [])
    (judged : Judged first ctx sl (ls .delegatees)) (type : ctx.tx.type = .staking)
    (ran : sl.checkLimit (target ctx (ls .delegatees)) (powerOf ctx.tx.amount) =
      (.ok (), sl'))
    (grows : 0 < i64 (e.totalPower + powerOf ctx.tx.amount))
    (new : (ls .delegatees).lookup (toLedgerKey ctx.tx.toAddr) = none →
      powerOf ctx.params.minValidatorStake ≤ powerOf ctx.tx.amount)
    (stakesOn : StakesOn ctx pubKey ls e) :
    Charges ctx.params first ((ls .delegatees).set (e.addStake (stakeOf ctx))).view.items sl' := by
  obtain ⟨positive, fresh, sees⟩ := judged.staking type
  obtain ⟨key, addr, power⟩ := stakesOn.target
  have sound := stakesOn.sound judged.sound
  have natural := sound.totalPower_range.1
  obtain ⟨small', total⟩ := totalPower_staked sound positive.le grows
  obtain ⟨more, self⟩ := selfPower_addStake (s := stakeOf ctx) sound positive.le small'
  have replaced := replaced_staked stakesOn fresh
  have nonneg : ∀ d ∈ (ls .delegatees).view.items, 0 ≤ d.totalPower := fun d member =>
    (judged.sound d member).totalPower_range.1
  have nonneg' := nonneg_staked stakesOn judged.sound fresh grows
  -- a delegatee that the limiter knows stays eligible
  have enough (known : e.addr ∈ first.map Delegatee.addr) :
      powerOf ctx.params.minValidatorStake ≤ (e.addStake (stakeOf ctx)).selfPower := by
    cases stakesOn with
    | existing found => exact (charges.present e (mem_view_of_lookup found) known).trans more
    | new missing same =>
      refine (new missing).trans (self ?_)
      simp [Stake.isSelfStake, stakeOf, Stake.newStakeWithPower, same]
  rw [addr] at replaced
  refine charges.step low own replaced nonneg nonneg' judged.small ran some' (by omega) ?_ ?_ ?_ ?_ ?_
  · rw [← power]
    exact i64_of_range (by omega) small'
  · rw [neg_one_mul]
    exact i64_of_range (by omega) (by omega)
  · intro known
    rw [← addr] at known
    have here : ifEligible ctx.params (some (e.addStake (stakeOf ctx))) =
        some (e.addStake (stakeOf ctx)) := mem_ifEligible.mpr ⟨rfl, enough known⟩
    rw [here, Option.map_some, Option.getD_some, total, power]
  · intro d here known
    rw [← Option.mem_some_iff.mp here] at known ⊢
    exact enough known
  · intro ridx found at'
    unfold selected
    rw [← charges.count]
    refine lostPower_le_of_more charges.mirrors at'
      (replaced.exchangedAt ctx.params nonneg nonneg') ?_ ?_ (by omega) positive ?_ ?_ fun free => ?_
    · exact distinct.sublist ((List.take_sublist _ _).map _)
    · exact fun v member => own v (List.mem_of_mem_take member)
    · intro d here
      obtain ⟨present, eligible⟩ := mem_ifEligible.mp here
      obtain rfl := stakesOn.eq_of_lookup present
      exact ⟨_, mem_ifEligible.mpr ⟨rfl, eligible.trans more⟩, by omega⟩
    · intro d here
      rw [← Option.mem_some_iff.mp (mem_ifEligible.mp here).1, total, power]
    · refine sees fun chosen => ?_
      obtain ⟨member, eligible⟩ := mem_eligible.mp (List.mem_of_mem_take chosen)
      have found := mem_view_items.mp member
      have key'' : LedgerItem.key (target ctx (ls .delegatees)) =
          toLedgerKey ctx.tx.toAddr := (congrArg toLedgerKey addr).symm.trans key
      rw [key''] at found
      refine free _ (mem_ifEligible.mpr ⟨found, eligible⟩) ?_
      rw [charges.count]
      exact chosen

/-- What an unstaking leaves. -/
theorem delStake_of_findStake (sound : d.Sound) (found : d.findStake s0.txHash = some s0) :
    (d.delStake s0.txHash).totalPower = d.totalPower - s0.power ∧ 0 ≤ s0.power ∧
      (d.delStake s0.txHash).selfPower ≤ d.selfPower ∧
      (d.delStake s0.txHash).stakes.length + 1 = d.stakes.length := by
  have member : s0 ∈ d.stakes := List.mem_of_find?_eq_some found
  have power := sound.nonneg s0 member
  have range := sound.totalPower_range
  have left := (sound.delStake s0.txHash).totalPower_range
  have part := (sound.delStake s0.txHash).own
  have perm := perm_delStakeByHash found
  have sum := sumPower_perm perm
  rw [sumPower_cons, ← sound.total] at sum
  have stakes : (d.delStake s0.txHash).stakes = delStakeByHash d.stakes s0.txHash := by
    rw [delStake, found]
  refine ⟨?_, power, ?_, ?_⟩
  · rw [(sound.delStake s0.txHash).total, stakes]
    omega
  · rw [part, sound.own, delStake_addr, ownStakes, ownStakes]
    exact sumPower_le_of_sublist ((d.delStake_stakes_sublist _).filter _) fun s member' =>
      sound.nonneg s (List.mem_of_mem_filter member')
  · rw [stakes, perm.length_eq, List.length_cons]

/-- With fewer stakes a delegatee is not ahead of anybody whom it was not ahead of. -/
theorem outranks_of_delStake (sound : d.Sound) (found : d.findStake s0.txHash = some s0)
    {e : Delegatee} (ahead : (d.delStake s0.txHash).Outranks e) : d.Outranks e := by
  obtain ⟨total, power, -, fewer⟩ := delStake_of_findStake sound found
  rcases ahead with less | ⟨same, order⟩
  · exact .inl (by omega)
  · rcases power.eq_or_lt with none | some
    · refine .inr ⟨by omega, .inl ?_⟩
      rcases order with more | ⟨equal, -⟩ <;> omega
    · exact .inl (by omega)

/-- The delegatee that an unstaking leaves in the ledger, if any. -/
def leftIn (d : Delegatee) (s0 : Stake) : Option Delegatee :=
  if (leftOver d s0).totalPower = 0 then none else some (leftOver d s0)

theorem leftIn_cases (sound : d.Sound) (s0 : Stake) :
    leftIn d s0 = none ∨ leftIn d s0 = some (d.delStake s0.txHash) := by
  unfold leftIn
  rcases leftOver_cases sound.summed s0 with none | ⟨-, same⟩
  · exact .inl (if_pos none)
  · rw [same]
    split
    · exact .inl rfl
    · exact .inr rfl

theorem replaced_stored (found : (ls .delegatees).lookup k = some d) (s0 : Stake) :
    Replaced d.addr ((ls .delegatees).view.erase k).items (some d) (leftIn d s0)
      (ls .delegatees).view.items (stored (leftOver d s0) ls .delegatees).view.items := by
  have key : LedgerItem.key (leftOver d s0) = k :=
    (key_leftOver d s0).trans (key_of_lookup found)
  have addr : (leftOver d s0).addr = d.addr := by
    unfold leftOver
    split
    · exact d.delStake_addr _
    · exact d.delStake_addr _
  rw [← found]
  unfold leftIn stored
  split
  · rw [remove_self, key]
    exact replaced_erase found
  · rw [put_self, ← key, ← addr]
    refine replaced_set ?_ fun d' found' => ?_
    · rw [key]
      exact not_mem_removed found
    · rw [key, found] at found'
      rw [← Option.some.inj found', addr]

theorem nonneg_unstaked (found : (ls .delegatees).lookup k = some d)
    (sound : ∀ d ∈ (ls .delegatees).view.items, d.Sound) (s0 : Stake) :
    ∀ d' ∈ (stored (leftOver d s0) ls .delegatees).view.items, 0 ≤ d'.totalPower := by
  have own := sound d (mem_view_of_lookup found)
  refine (replaced_stored found s0).nonneg (fun d' member => (sound d' member).totalPower_range.1)
    fun d' here => ?_
  rcases leftIn_cases own s0 with gone | left
  · rw [gone] at here
    cases here
  · rw [left] at here
    rw [← Option.mem_some_iff.mp here]
    exact (own.delStake s0.txHash).totalPower_range.1

/-- The limiter after an unstaking. -/
theorem Charges.unstaked (charges : Charges ctx.params first (ls .delegatees).view.items sl)
    (low : ctx.params.maxUpdatableStakeRatio < 100) (own : ∀ v ∈ first, 0 ≤ v.totalPower)
    (distinct : (first.map addr).Nodup) (some' : first ≠ [])
    (judged : Judged first ctx sl (ls .delegatees)) (type : ctx.tx.type = .unstaking)
    (payload : ctx.tx.payload = .unstaking s0.txHash)
    (found : (ls .delegatees).lookup (toLedgerKey ctx.tx.toAddr) = some d)
    (stake : d.findStake s0.txHash = some s0)
    (ran : sl.checkLimit d (i64 (-1 * s0.power)) = (.ok (), sl')) :
    Charges ctx.params first (stored (leftOver d s0) ls .delegatees).view.items sl' := by
  have member := mem_view_of_lookup found
  have sound := judged.sound d member
  have range := sound.totalPower_range
  have range' := (sound.delStake s0.txHash).totalPower_range
  obtain ⟨total, power, less, fewer⟩ := delStake_of_findStake sound stake
  have replaced := replaced_stored found s0
  have nonneg : ∀ e ∈ (ls .delegatees).view.items, 0 ≤ e.totalPower := fun e member =>
    (judged.sound e member).totalPower_range.1
  have nonneg' := nonneg_unstaked found judged.sound s0
  have change : i64 (-1 * s0.power) = -s0.power := by
    rw [neg_one_mul]
    exact i64_of_range (by omega) (by omega)
  rw [change] at ran
  have left : d.totalPower + -s0.power = (d.delStake s0.txHash).totalPower := by omega
  -- what is left of an eligible delegatee is eligible, or it had no more power
  have whole (eligible : powerOf ctx.params.minValidatorStake ≤ d.selfPower) :
      ifEligible ctx.params (leftIn d s0) = none ∧ (d.delStake s0.txHash).totalPower = 0 ∧
        leftIn d s0 = none ∨
      ifEligible ctx.params (leftIn d s0) = some (d.delStake s0.txHash) := by
    have parts := (sound.delStake s0.txHash).own_le_total
    have natural := (sound.delStake s0.txHash).own_nonneg
    rcases (judged.unstaking type _ d payload found eligible).1 with all | ⟨own, enough⟩
    · have none : leftIn d s0 = none := by
        rcases leftOver_cases sound.summed s0 with none | ⟨own, -⟩
        · exact if_pos none
        · omega
      exact .inl ⟨by rw [none]; rfl, all, none⟩
    · have same : leftIn d s0 = some (d.delStake s0.txHash) := by
        unfold leftIn leftOver
        rw [if_neg own, if_neg (by omega)]
      refine .inr ?_
      rw [same]
      exact mem_ifEligible.mpr ⟨rfl, enough⟩
  refine charges.step low own replaced nonneg nonneg' judged.small ran some' range.1 ?_ ?_ ?_ ?_ ?_
  · exact i64_of_range (by omega) (by omega)
  · rw [neg_one_mul, neg_neg]
    exact i64_of_range (by omega) (by omega)
  · intro known
    rcases whole (charges.present d member known) with ⟨none, all, -⟩ | some
    · rw [none, left, all]
      rfl
    · rw [some, left]
      rfl
  · intro e here known
    rw [replaced.named' e here] at known
    rcases whole (charges.present d member known) with ⟨-, -, none⟩ | some
    · rw [none] at here
      cases here
    · obtain ⟨here', enough⟩ := mem_ifEligible.mp some
      rw [Option.mem_unique here here']
      exact enough
  · intro ridx object at'
    have exchanged := replaced.exchangedAt ctx.params nonneg nonneg'
    unfold selected
    by_cases eligible : powerOf ctx.params.minValidatorStake ≤ d.selfPower
    · rw [← charges.count]
      refine lostPower_le_of_less charges.mirrors at' exchanged ?_ ?_
        (mem_ifEligible.mpr ⟨rfl, eligible⟩) rfl (by omega) (by omega) ?_ ?_ fun chosen => ?_
      · exact distinct.sublist ((List.take_sublist _ _).map _)
      · exact fun v member => own v (List.mem_of_mem_take member)
      · intro d' here
        rcases whole eligible with ⟨none, -, -⟩ | some
        · rw [none] at here
          cases here
        · rw [Option.mem_unique here some]
          refine ⟨left.symm, fun same => ?_, fun e => outranks_of_delStake sound stake⟩
          rw [← same] at fewer
          omega
      · intro none
        rcases whole eligible with ⟨-, all, -⟩ | some
        · rw [left, all]
        · rw [none] at some
          cases some
      · rw [left]
        rw [charges.count] at chosen
        exact (judged.unstaking type _ d payload found eligible).2 chosen
    · -- a delegatee that is not eligible does not become so
      have before : ifEligible ctx.params (some d) = none := ifEligible_some_of_not eligible
      have after : ifEligible ctx.params (leftIn d s0) = none := by
        rcases leftIn_cases sound s0 with gone | same
        · rw [gone]
          rfl
        · rw [same]
          exact ifEligible_some_of_not (by omega)
      rw [exchanged.toExchanged.eq_of_same outranks_asymm (before.trans after.symm)]
      have charged : 0 ≤ sl.movedPower ridx d.totalPower (-s0.power) :=
        charges.mirrors.movedPower_nonneg exchanged.nonneg range.1 (by omega)
      omega

/-! ## Sequences of transactions -/

/-- A staking or an unstaking that is validated and executed.  What the node does besides touches
neither the delegatees nor the limiter. -/
structure StakeStep (ctx : TrxContext) (pubKey : HexBytes) (r r' : Workspace E) : Prop where
  type : ctx.tx.type = .staking ∨ ctx.tx.type = .unstaking
  ran : ∃ r₁ ls, run (trxHandler storeImpl) (validateTrx ctx) r = (.ok (), r₁) ∧
    exec (executeTrx ctx pubKey) r₁.ledgers = (.ok (), ls) ∧ r'.limiter = r₁.limiter ∧
    r'.ledgers .delegatees = ls .delegatees

/-- What a step does. -/
inductive StepEffect (ctx : TrxContext) (pubKey : HexBytes) (r r' : Workspace E) : Prop
  | staked {e : Delegatee} (type : ctx.tx.type = .staking)
      (checked : r.limiter.checkLimit (target ctx (r.ledgers .delegatees))
        (powerOf ctx.tx.amount) = (.ok (), r'.limiter))
      (grows : 0 < i64 (e.totalPower + powerOf ctx.tx.amount))
      (new : (r.ledgers .delegatees).lookup (toLedgerKey ctx.tx.toAddr) = none →
        powerOf ctx.params.minValidatorStake ≤ powerOf ctx.tx.amount)
      (stakesOn : StakesOn ctx pubKey r.ledgers e)
      (after : r'.ledgers .delegatees =
        (r.ledgers .delegatees).set (e.addStake (stakeOf ctx)))
  | unstaked {d : Delegatee} {s0 : Stake} (type : ctx.tx.type = .unstaking)
      (payload : ctx.tx.payload = .unstaking s0.txHash)
      (found : (r.ledgers .delegatees).lookup (toLedgerKey ctx.tx.toAddr) = some d)
      (stake : d.findStake s0.txHash = some s0)
      (checked : r.limiter.checkLimit d (i64 (-1 * s0.power)) = (.ok (), r'.limiter))
      (after : r'.ledgers .delegatees = stored (leftOver d s0) r.ledgers .delegatees)

theorem StakeStep.effect (step : StakeStep ctx pubKey r r') (three : 3 ≤ ctx.validators.length) :
    StepEffect ctx pubKey r r' := by
  obtain ⟨r₁, ls, valid, executed, limiter, delegatees⟩ := step.ran
  rcases step.type with type | type
  · simp only [validateTrx, type] at valid
    obtain ⟨asked, r₂, prepared, checked⟩ := run_bind_ok valid
    obtain ⟨ls₁, judged, rfl⟩ := run_ledger_ok prepared
    obtain ⟨rfl, same, new⟩ := validateStaking_target judged
    obtain ⟨sl, accepted, rfl⟩ := checkLimit_accepted three checked
    subst same
    simp only [executeTrx, type] at executed
    rcases exec_exeStaking ctx pubKey r.ledgers with ⟨fault, ls', failed, -⟩ |
      ⟨-, e, sender, stakesOn, staked⟩
    · cases failed.symm.trans executed
    · cases staked.symm.trans executed
      refine .staked type (by rw [limiter]; exact accepted) (validateStaking_ok judged stakesOn) new
        stakesOn ?_
      rw [delegatees, put_self, put_of_ne _ _ (by decide)]
  · simp only [validateTrx, type] at valid
    obtain ⟨asked, r₂, prepared, checked⟩ := run_bind_ok valid
    obtain ⟨ls₁, judged, rfl⟩ := run_ledger_ok prepared
    obtain ⟨txHash, d, s0, payload, found, stake, chosen, rfl⟩ := validateUnstaking_asks judged
    have same : ls₁ = r.ledgers := funext fun l =>
      (writes_validateUnstaking (S := fun _ => False) ctx).frame id judged
    obtain ⟨sl, accepted, rfl⟩ := checkLimit_accepted three checked
    subst same
    have hash : s0.txHash = txHash :=
      eq_of_beq (List.find?_some (p := fun s : Stake => s.txHash == txHash) stake)
    subst hash
    simp only [executeTrx, type] at executed
    cases (exec_exeUnstaking_own found chosen).symm.trans executed
    refine .unstaked type payload found stake (by rw [limiter]; exact accepted) ?_
    rw [delegatees]
    exact stored_congr _ (frozen_of_ne _ _ _ (by decide))

/-- Stakings and unstakings, one after the other, in a block with some parameters and validators. -/
inductive StakeSteps (params : GovParams) (validators : Validators) :
    List (TrxContext × Workspace E) → Workspace E → Workspace E → Prop
  | nil (r : Workspace E) : StakeSteps params validators [] r r
  | cons {ctx : TrxContext} {pubKey : HexBytes} {txs : List (TrxContext × Workspace E)}
      {r r' r'' : Workspace E} (inForce : ctx.params = params) (last : ctx.validators = validators)
      (step : StakeStep ctx pubKey r r') (later : StakeSteps params validators txs r' r'') :
      StakeSteps params validators ((ctx, r) :: txs) r r''

variable {params : GovParams} {validators : Validators} {txs : List (TrxContext × Workspace E)}

/-- The powers stay natural numbers. -/
theorem StakeStep.nonneg (step : StakeStep ctx pubKey r r') (three : 3 ≤ ctx.validators.length)
    (judged : Judged first ctx r.limiter (r.ledgers .delegatees)) :
    ∀ d ∈ (r'.ledgers .delegatees).view.items, 0 ≤ d.totalPower := by
  cases step.effect three with
  | staked type checked grows new stakesOn after =>
    rw [after]
    exact nonneg_staked stakesOn judged.sound (judged.staking type).2.1 grows
  | @unstaked d s0 type payload found stake checked after =>
    rw [after]
    exact nonneg_unstaked found judged.sound s0

theorem StakeSteps.nonneg (steps : StakeSteps params validators txs r r')
    (three : 3 ≤ validators.length)
    (judged : ∀ tx ∈ txs, Judged first tx.1 tx.2.limiter (tx.2.ledgers .delegatees))
    (nonneg : ∀ d ∈ (r.ledgers .delegatees).view.items, 0 ≤ d.totalPower) :
    ∀ d ∈ (r'.ledgers .delegatees).view.items, 0 ≤ d.totalPower := by
  induction steps with
  | nil r => exact nonneg
  | cons inForce last step later ih =>
    refine ih (fun tx member => judged tx (List.mem_cons_of_mem _ member)) ?_
    exact step.nonneg (last.symm ▸ three) (judged _ List.mem_cons_self)

/-- One step that the limiter judges by the right powers. -/
theorem Charges.stakeStep (charges : Charges ctx.params first (r.ledgers .delegatees).view.items
      r.limiter) (low : ctx.params.maxUpdatableStakeRatio < 100)
    (own : ∀ v ∈ first, 0 ≤ v.totalPower) (distinct : (first.map addr).Nodup)
    (some' : first ≠ []) (three : 3 ≤ ctx.validators.length) (step : StakeStep ctx pubKey r r')
    (judged : Judged first ctx r.limiter (r.ledgers .delegatees)) :
    Charges ctx.params first (r'.ledgers .delegatees).view.items r'.limiter := by
  cases step.effect three with
  | staked type checked grows new stakesOn after =>
    rw [after]
    exact charges.staked low own distinct some' judged type checked grows new stakesOn
  | unstaked type payload found stake checked after =>
    rw [after]
    exact charges.unstaked low own distinct some' judged type payload found stake checked

/-- All of them. -/
theorem Charges.stakeSteps (steps : StakeSteps params validators txs r r')
    (charges : Charges params first (r.ledgers .delegatees).view.items r.limiter)
    (low : params.maxUpdatableStakeRatio < 100) (own : ∀ v ∈ first, 0 ≤ v.totalPower)
    (distinct : (first.map addr).Nodup) (some' : first ≠ [])
    (three : 3 ≤ validators.length)
    (judged : ∀ tx ∈ txs, Judged first tx.1 tx.2.limiter (tx.2.ledgers .delegatees)) :
    Charges params first (r'.ledgers .delegatees).view.items r'.limiter := by
  induction steps with
  | nil r => exact charges
  | cons inForce last step later ih =>
    subst inForce last
    refine ih ?_ fun tx member => judged tx (List.mem_cons_of_mem _ member)
    exact charges.stakeStep low own distinct some' three step (judged _ List.mem_cons_self)

end

/-! ## The start of a block -/

/-- A delegatee without the marks of the blocks that it missed. -/
def unmarked (d : Delegatee) : Delegatee := { d with notSignedHeights := ⟨[]⟩ }

theorem powers_of_unmarked (same : unmarked d = unmarked d') :
    d.addr = d'.addr ∧ d.totalPower = d'.totalPower ∧ d.selfPower = d'.selfPower := by
  unfold unmarked at same
  simp only [Delegatee.mk.injEq] at same
  exact ⟨same.1, same.2.2.2.1, same.2.2.1⟩

/-- Who is in the ledger was there before, with other marks at most. -/
def OnlyMarks (st st' : Store Delegatee) : Prop :=
  ∀ k d', st'.lookup k = some d' → ∃ d, st.lookup k = some d ∧ unmarked d' = unmarked d

theorem OnlyMarks.refl (st : Store Delegatee) : OnlyMarks st st :=
  fun _ d' present => ⟨d', present, rfl⟩

theorem OnlyMarks.trans {st' st'' : Store Delegatee} (first : OnlyMarks st st')
    (second : OnlyMarks st' st'') : OnlyMarks st st'' := by
  intro k d'' present
  obtain ⟨d', present', same'⟩ := second k d'' present
  obtain ⟨d, present, same⟩ := first k d' present'
  exact ⟨d, present, same'.trans same⟩

theorem OnlyMarks.set (found : st.lookup (LedgerItem.key d') = some d)
    (same : unmarked d' = unmarked d) :
    OnlyMarks st (st.set d') := by
  intro k e present
  rw [lookup_set] at present
  split at present
  · next here =>
    cases present
    rw [← here.1]
    exact ⟨d, found, same⟩
  · exact ⟨e, present, rfl⟩

theorem OnlyMarks.erase (st : Store Delegatee) (k : LedgerKey) : OnlyMarks st (st.erase k) := by
  intro k' d present
  rw [lookup_erase] at present
  split at present
  · cases present
  · exact ⟨d, present, rfl⟩

section

variable {params : GovParams} {height : Int}

theorem unmarked_missed (params : GovParams) (signedHeight : Int) (d : Delegatee) :
    unmarked (missed params signedHeight d).2 = unmarked d ∧
      unmarked (d.processNotSignedBlock signedHeight) = unmarked d := by
  unfold missed unmarked processNotSignedBlock
  split <;> exact ⟨rfl, rfl⟩

theorem onlyMarks_missedBlock (params : GovParams) (height : Int) (addr : Address) (ls : Stores) :
    OnlyMarks (ls .delegatees) ((exec (missedBlock params height addr) ls).2 .delegatees) := by
  cases found : (ls .delegatees).lookup (toLedgerKey addr) with
  | none =>
    have missing : (ls .delegatees).get (toLedgerKey addr) = .error .errNotFoundResult := by
      rw [Store.get, found]
      rfl
    simp only [missedBlock, exec_bind, LedgerProg.exec_get, missing, andThen_ok]
    exact .refl _
  | some d =>
    have key := Store.key_of_lookup found
    have sameMarks := unmarked_missed params (i64 (height - 1)) d
    have key' : LedgerItem.key (d.processNotSignedBlock (i64 (height - 1))) = toLedgerKey addr :=
      (congrArg toLedgerKey (powers_of_unmarked sameMarks.2).1).trans key
    have noted : OnlyMarks (ls .delegatees) (noted params (i64 (height - 1)) d ls .delegatees) := by
      rw [noted, Stores.put_self, Stores.put_self]
      refine (OnlyMarks.set (key'.symm ▸ found) sameMarks.2).trans
        (OnlyMarks.set (d := d.processNotSignedBlock (i64 (height - 1))) ?_
          (sameMarks.1.trans sameMarks.2.symm))
      rw [missed_key, key, Store.lookup_set, key', if_pos ⟨rfl, Store.not_mem_removed found⟩]
    rw [exec_missedBlock_snd found rfl]
    split
    · rw [Stores.remove_self, frozen_of_ne _ _ _ (by decide)]
      exact noted.trans (.erase _ _)
    · exact noted

theorem onlyMarks_processVote (params : GovParams) (height : Int) (immu : ItemMap Delegatee)
    (vote : VoteInfo) (ls : Stores) :
    OnlyMarks (ls .delegatees) ((exec (processVote params height immu vote) ls).2 .delegatees) := by
  by_cases signed : vote.signedLastBlock = true
  · rw [exec_frame (writes_processVote_signed params height immu signed) (by decide) ls]
    exact .refl _
  · unfold processVote
    rw [if_neg signed]
    exact onlyMarks_missedBlock params height vote.address ls

/-- Without evidence, `BeginBlock` marks and stops. -/
theorem onlyMarks_punishAndReward {info : BlockInfo}
    (noEvidence : info.byzantines = [])
    (ran : exec (punishAndReward params info) ls = (.ok (), ls')) :
    OnlyMarks (ls .delegatees) (ls' .delegatees) := by
  refine punishAndReward_keeps (I := fun ls' => OnlyMarks (ls .delegatees) (ls' .delegatees)) ran ?_
    fun immu vote ls' holds => holds.trans (onlyMarks_processVote params _ immu vote ls')
  rw [noEvidence]
  exact .refl _

/-- If nobody was stopped, the delegatees are the same but for the marks. -/
theorem OnlyMarks.perm {st' : Store Delegatee} (marks : OnlyMarks st st')
    (kept : ∀ k d, st.lookup k = some d → st'.lookup k ≠ none) :
    (st'.view.items.map unmarked).Perm (st.view.items.map unmarked) := by
  have nodup (st : Store Delegatee) : (st.view.items.map unmarked).Nodup := by
    have distinct : ((st.view.items.map unmarked).map addr).Nodup := by
      rw [List.map_map]
      exact nodup_items st.view
    exact distinct.of_map _
  refine (List.perm_ext_iff_of_nodup (nodup st') (nodup st)).mpr fun x => ?_
  constructor
  · intro member
    obtain ⟨d', listed, rfl⟩ := List.mem_map.mp member
    obtain ⟨d, found, same⟩ := marks _ d' (mem_view_items.mp listed)
    rw [same]
    exact List.mem_map_of_mem (mem_view_of_lookup found)
  · intro member
    obtain ⟨d, listed, rfl⟩ := List.mem_map.mp member
    have found := mem_view_items.mp listed
    obtain ⟨d', found'⟩ := Option.ne_none_iff_exists'.mp (kept _ d found)
    obtain ⟨d₀, found₀, same⟩ := marks _ d' found'
    rw [Option.some.inj (found.symm.trans found₀), ← same]
    exact List.mem_map_of_mem (mem_view_of_lookup found')

variable {l₀ l : List Delegatee}

/-- The order does not depend on the marks. -/
theorem eligible_map_unmarked (params : GovParams) (distinct₀ : (l₀.map addr).Nodup)
    (distinct : (l.map addr).Nodup)
    (same : (l.map unmarked).Perm (l₀.map unmarked)) :
    (eligible params l).map unmarked = (eligible params l₀).map unmarked := by
  have perm (l : List Delegatee) : ((eligible params l).map unmarked).Perm
      ((l.map unmarked).filter fun d => powerOf params.minValidatorStake ≤ d.selfPower) := by
    rw [List.filter_map]
    exact (sortBy_perm _ _).map _
  have sorted {l : List Delegatee} (distinct : (l.map addr).Nodup) :
      ((eligible params l).map unmarked).Pairwise Outranks :=
    List.pairwise_map.mpr (pairwise_eligible distinct)
  refine List.Perm.eq_of_pairwise ?_ (sorted distinct) (sorted distinct₀)
    ((perm l).trans ((same.filter _).trans (perm l₀).symm))
  intro d d' _ _ ahead behind
  exact absurd behind ahead.asymm

/-- The sum that `reset` makes, if it does not overflow. -/
theorem foldl_totalPower (base : Int) (nonneg : ∀ d ∈ l, 0 ≤ d.totalPower) (natural : 0 ≤ base)
    (small : base + totalOf l < 2 ^ 63) :
    l.foldl (fun base d => i64 (base + d.totalPower)) base = base + totalOf l := by
  induction l generalizing base with
  | nil => simp [totalOf]
  | cons d rest ih =>
    have own := nonneg d List.mem_cons_self
    have others : ∀ e ∈ rest, 0 ≤ e.totalPower := fun e member =>
      nonneg e (List.mem_cons_of_mem _ member)
    have total := totalOf_nonneg others
    have sum : totalOf (d :: rest) = d.totalPower + totalOf rest := by simp [totalOf]
    rw [List.foldl_cons, i64_of_range (by omega) (by omega), ih _ others (by omega) (by omega), sum]
    omega

/-- At the start of a block nothing has been lost. -/
theorem lostPower_start (params : GovParams) (distinct₀ : (l₀.map addr).Nodup)
    (distinct : (l.map addr).Nodup)
    (same : (l.map unmarked).Perm (l₀.map unmarked)) :
    lostPower (selected params l₀) (selected params l) = 0 := by
  refine lostPower_eq_zero ?_ fun v member => ?_
  · exact (nodup_eligible distinct).sublist ((List.take_sublist _ _).map _)
  · have here : unmarked v ∈ (selected params l).map unmarked := by
      rw [selected, List.map_take, eligible_map_unmarked params distinct₀ distinct same,
        ← List.map_take]
      exact List.mem_map_of_mem member
    obtain ⟨d, chosen, alike⟩ := List.mem_map.mp here
    obtain ⟨named, power, -⟩ := powers_of_unmarked alike
    exact ⟨d, chosen, named, power.ge⟩

theorem charges_reset (distinct₀ : (l₀.map Delegatee.addr).Nodup)
    (distinct : (l.map Delegatee.addr).Nodup)
    (same : (l.map unmarked).Perm (l₀.map unmarked)) (nonneg : ∀ d ∈ l₀, 0 ≤ d.totalPower)
    (small : totalOf (selected params l₀) < 2 ^ 63) (ratio : 0 ≤ params.maxUpdatableStakeRatio) :
    Charges params (eligible params l₀) l (resetLimiter params (eligible params l₀)) := by
  have ranking := eligible_map_unmarked params distinct₀ distinct same
  have ordered : (eligible params l₀).Pairwise Outranks := pairwise_eligible distinct₀
  refine ⟨rfl, rfl, ?_, ⟨?_, ?_, ?_, ?_⟩, ?_, ?_, le_rfl, ?_⟩
  · have sum := foldl_totalPower 0 (l := selected params l₀) (fun d member =>
      nonneg d (mem_eligible.mp (List.mem_of_mem_take member)).1) le_rfl (by rwa [zero_add])
    rw [zero_add] at sum
    exact sum
  · change (((eligible params l₀).map powerObj).map PowerObj.addr).Nodup
    rw [List.map_map]
    exact nodup_eligible distinct₀
  · intro addr
    change addr ∈ ((eligible params l₀).map powerObj).map PowerObj.addr ↔ _
    rw [List.map_map]
    rfl
  · refine List.pairwise_map.mpr (ordered.imp ?_)
    rintro d d' (less | ⟨equal, -⟩)
    · exact less.le
    · exact equal.ge
  · intro o member
    obtain ⟨v, listed, rfl⟩ := List.mem_map.mp member
    have here : unmarked v ∈ (eligible params l).map unmarked :=
      ranking ▸ List.mem_map_of_mem listed
    obtain ⟨d, listed', alike⟩ := List.mem_map.mp here
    obtain ⟨named, power, -⟩ := powers_of_unmarked alike
    rw [(withAddr_iff (nodup_eligible distinct)).mpr ⟨listed', named⟩]
    exact power.symm
  · intro d member known
    obtain ⟨v, listed, named⟩ := List.mem_map.mp known
    obtain ⟨member', enough⟩ := mem_eligible.mp listed
    have here : unmarked d ∈ l₀.map unmarked := same.mem_iff.mp (List.mem_map_of_mem member)
    obtain ⟨d₀, member₀, alike⟩ := List.mem_map.mp here
    obtain ⟨named₀, -, power⟩ := powers_of_unmarked alike
    have own : d₀ = v := List.inj_on_of_nodup_map distinct₀ member₀ member' (named₀.trans named.symm)
    rw [own] at power
    exact enough.trans power.le
  · exact (lostPower_start params distinct₀ distinct same).le
  · change 0 * 100 / _ ≤ _
    rw [zero_mul, Int.zero_ediv]
    exact ratio

end

end StakeCtrler

namespace RigoApp

open StakeCtrler
open StakeLimiter (totalOf)

/-! ## Blocks -/

section

variable {X : External} {mayRestart : Bool} {genesis : Genesis} {steps : List (Step X.evm)}
  {s s' : App X.evm} {info : BlockInfo}

theorem view_of_stored (stored : new st.tree = st) :
    st.view = st.tree.contents := by
  ext1 k
  rw [find?_view, lookup_eq, ← stored]
  simp [new, Tree.load]

/-- `BeginBlock` collects the delegatees of the ledger, which it may mark and stop. -/
theorem beginBlock_collects (flushed : Flushed (App.node s)) (noEvidence : info.byzantines = [])
    {t : Node X.evm}
    (began : BeginsBlock X info (App.node s) t) :
    t.mem.allDelegatees =
        eligible t.mem.govParams ((App.node s).ledgers .delegatees).view.items ∧
      t.limiter = resetLimiter t.mem.govParams t.mem.allDelegatees ∧
      OnlyMarks ((App.node s).ledgers .delegatees) (t.ledgers .delegatees) ∧
      t.mem.lastValidators = s.mem.lastValidators := by
  obtain ⟨last, ls, ls', allDelegatees, -, -, -, governed, collected, rewarded, rfl⟩ :=
    beginBlock_ok began
  have same : ls .delegatees = (App.node s).ledgers .delegatees :=
    GovCtrler.beginBlock_frame (by decide) governed
  refine ⟨?_, rfl, ?_, rfl⟩
  · have items := collectDelegatees_ok collected
    rw [same, ← view_of_stored (flushed.stores .delegatees)] at items
    exact items
  · rw [← same]
    exact onlyMarks_punishAndReward noEvidence rewarded

/-- Without evidence and votes the delegatees stay as they are. -/
theorem beginBlock_unvoted (noEvidence : info.byzantines = []) (noVotes : info.votes = [])
    {t u : Node X.evm} (began : BeginsBlock X info t u) :
    u.ledgers .delegatees = t.ledgers .delegatees := by
  obtain ⟨last, ls, ls', allDelegatees, -, -, -, governed, -, rewarded, rfl⟩ := beginBlock_ok began
  have same : ls .delegatees = t.ledgers .delegatees :=
    GovCtrler.beginBlock_frame (by decide) governed
  unfold punishAndReward at rewarded
  rw [noEvidence, noVotes] at rewarded
  cases rewarded
  exact same

theorem share_mono {x y base : Int} (natural : 0 ≤ base) (less : x ≤ y) :
    x * 100 / base ≤ y * 100 / base := by
  rcases natural.eq_or_lt with rfl | positive
  · rw [Int.ediv_zero, Int.ediv_zero]
  · exact Int.ediv_le_ediv positive (by omega)

theorem share_self_le {base : Int} (natural : 0 ≤ base) : base * 100 / base ≤ 100 := by
  rcases natural.eq_or_lt with rfl | positive
  · decide
  · rw [Int.mul_ediv_cancel_left _ positive.ne']

/-- The limit holds in every block in which the limiter judges every transaction by the right
powers. -/
theorem Run.updatableStake (ran : Run X mayRestart genesis .idle steps s)
    (began : run (nodeHandler X finalityImpl) (beginBlock X info) s = (.ok (), s'))
    (three : 3 ≤ s.mem.lastValidators.length) (noEvidence : info.byzantines = [])
    (noStop : ∀ k d, ((App.node s).ledgers .delegatees).lookup k = some d →
      ((App.node s').ledgers .delegatees).lookup k ≠ none)
    (natural : 0 ≤ s'.mem.govParams.maxUpdatableStakeRatio)
    {txs : List (TrxContext × Workspace X.evm)} {r : Workspace X.evm}
    (staked : StakeSteps s'.mem.govParams s'.mem.lastValidators txs (App.node s').toResources r)
    (judged : ∀ tx ∈ txs,
      Judged s'.mem.allDelegatees tx.1 tx.2.limiter (tx.2.ledgers .delegatees)) :
    lostPower (s'.mem.allDelegatees.take s'.mem.govParams.maxValidatorCnt.toNat)
        (selected s'.mem.govParams (r.ledgers .delegatees).view.items) * 100 /
      totalOf (s'.mem.allDelegatees.take s'.mem.govParams.maxValidatorCnt.toNat) ≤
    s'.mem.govParams.maxUpdatableStakeRatio := by
  have began' := run_node_ok began
  have flushed : Flushed (App.node s) := by
    cases ran.atRest rfl with
    | flushed _ flushed => exact flushed
    | initialised started initialised same =>
      -- there are no validators yet
      have none : s.mem.lastValidators = [] := by
        have mem : s.mem.lastValidators = (App.node s).mem.lastValidators := rfl
        obtain ⟨ls, ls', ls'', -, -, -, rfl⟩ := initChain_ok initialised
        cases started
        rw [mem, same]
      rw [none] at three
      cases three
  obtain ⟨collected, limiter, marks, last⟩ := beginBlock_collects flushed noEvidence began'
  have same := marks.perm noStop
  have distinct₀ := StakeCtrler.nodup_items ((App.node s).ledgers .delegatees).view
  have distinct := StakeCtrler.nodup_items ((App.node s').ledgers .delegatees).view
  have three' : 3 ≤ s'.mem.lastValidators.length := by
    rw [show s'.mem.lastValidators = s.mem.lastValidators from last]
    exact three
  have collected : s'.mem.allDelegatees = eligible s'.mem.govParams
    ((App.node s).ledgers .delegatees).view.items := collected
  have limiter : (App.node s').limiter = resetLimiter s'.mem.govParams s'.mem.allDelegatees := limiter
  cases staked with
  | nil =>
    have none := lostPower_start s'.mem.govParams distinct₀ distinct same
    rw [selected, ← collected] at none
    rw [none, zero_mul, Int.zero_ediv]
    exact natural
  | @cons ctx pubKey txs' _ r' _ inForce validators step later =>
    have atStart : Judged s'.mem.allDelegatees ctx (App.node s').limiter
      ((App.node s').ledgers .delegatees) := judged _ List.mem_cons_self
    have whole := StakeSteps.cons inForce validators step later
    have nonneg : ∀ d ∈ ((App.node s').ledgers .delegatees).view.items, 0 ≤ d.totalPower :=
      fun d member => (atStart.sound d member).totalPower_range.1
    have nonneg₀ : ∀ d ∈ ((App.node s).ledgers .delegatees).view.items, 0 ≤ d.totalPower := by
      intro d member
      obtain ⟨d', member', alike⟩ :=
        List.mem_map.mp (same.mem_iff.mpr (List.mem_map_of_mem member))
      rw [← (powers_of_unmarked alike).2.1]
      exact nonneg d' member'
    have own : ∀ v ∈ s'.mem.allDelegatees, 0 ≤ v.totalPower := by
      intro v member
      rw [collected] at member
      exact nonneg₀ v (mem_eligible.mp member).1
    have ownTaken : ∀ v ∈ s'.mem.allDelegatees.take s'.mem.govParams.maxValidatorCnt.toNat,
        0 ≤ v.totalPower := fun v member => own v (List.mem_of_mem_take member)
    have base := StakeLimiter.totalOf_nonneg ownTaken
    by_cases low : s'.mem.govParams.maxUpdatableStakeRatio < 100
    · by_cases none : s'.mem.allDelegatees = []
      · simpa [none, lostPower] using natural
      · have small := atStart.small
        rw [inForce] at small
        have total : 0 ≤ totalOf (eligible s'.mem.govParams
            ((App.node s').ledgers .delegatees).view.items) :=
          StakeLimiter.totalOf_nonneg fun d member => nonneg d (mem_eligible.mp member).1
        have charges := charges_reset distinct₀ distinct same nonneg₀
          (by rw [selected, ← collected]; omega) natural
        rw [← collected, ← limiter] at charges
        have kept := Charges.stakeSteps whole charges low own
          (by rw [collected]; exact nodup_eligible distinct₀) none three' judged
        have within := kept.within
        rw [kept.base] at within
        exact (share_mono base kept.lost).trans within
    · have final := whole.nonneg three' judged nonneg
      have chosen : ∀ d ∈ selected s'.mem.govParams (r.ledgers .delegatees).view.items,
          0 ≤ d.totalPower := fun d member => final d (mem_of_selected member)
      have bound := lostPower_le_sum chosen ownTaken
      exact ((share_mono base bound).trans (share_self_le base)).trans (not_lt.mp low)

end

/-! ### Four validators, one of them with a delegation -/

/-- Somebody delegates as much to the first validator as it has staked itself. -/
def oneDelegation : External :=
  Concrete.external
    ⟨[Concrete.trx .staking 5 1 0 (Uint256.newInt 10000000 * Concrete.coin) []], [], [], []⟩

/-- A chain with the default parameters. -/
def genesisWithDelegator : Genesis :=
  { Concrete.genesis [(1, 10000000), (2, 10000000), (3, 10000000), (4, 10000000)] with
    assetHolders := [(Concrete.addr 5, Uint256.newInt 20000000 * Concrete.coin)] }

/-- The delegation is made before the validators are known, so that the limiter is not asked. -/
def toThirdBlock : List ConsensusCall :=
  [.beginBlock (Concrete.block 1), .deliverTx [0], .endBlock, .commit,
    .beginBlock (Concrete.block 2), .endBlock, .commit]

def delegated : App oneDelegation.evm :=
  (runCalls oneDelegation finalityImpl toThirdBlock
    ((start oneDelegation genesisWithDelegator).toOption.get (by decide +kernel))).2

def inThirdBlock : App oneDelegation.evm :=
  (run (nodeHandler oneDelegation finalityImpl) (beginBlock oneDelegation (Concrete.block 3))
    delegated).2

/-- The context of a transaction in the third block. -/
def thirdBlockCtx (type : TrxType) (sender receiver : UInt8) (amount : Uint256)
    (payload : TrxPayload) : TrxContext where
  height := 3
  txHash := List.replicate 32 2
  tx := ⟨1, 0, 0, Concrete.addr sender, Concrete.addr receiver, amount, 4000,
    GovParams.defaultGovParams.gasPrice, type, payload, []⟩
  exec := true
  chainID := "rigo"
  params := inThirdBlock.mem.govParams
  validators := inThirdBlock.mem.lastValidators

/-- What a transaction leaves. -/
def afterTrx {E : EvmLib} (ctx : TrxContext) (r : Workspace E) : Workspace E :=
  let r₁ := (run (trxHandler storeImpl) (StakeCtrler.validateTrx ctx) r).2
  { r₁ with ledgers := (exec (StakeCtrler.executeTrx ctx []) r₁.ledgers).2 }

theorem stakeStep_afterTrx {E : EvmLib} {ctx : TrxContext} {r : Workspace E}
    (type : ctx.tx.type = .staking ∨ ctx.tx.type = .unstaking)
    (valid : (run (trxHandler storeImpl) (validateTrx ctx) r).1.isOk = true)
    (executed : (exec (executeTrx ctx [])
      (run (trxHandler storeImpl) (validateTrx ctx) r).2.ledgers).1.isOk = true) :
    StakeStep ctx [] r (afterTrx ctx r) := by
  obtain ⟨_, valid⟩ := exists_eq_ok valid
  obtain ⟨_, executed⟩ := exists_eq_ok executed
  exact ⟨type, _, _, valid, executed, rfl, rfl⟩

theorem run_delegated : ∃ steps, Run oneDelegation false genesisWithDelegator .idle steps delegated := by
  have started : Run oneDelegation false genesisWithDelegator .idle []
      ((start oneDelegation genesisWithDelegator).toOption.get (by decide +kernel)) :=
    Run.start (eq_ok_of_isSome _)
  exact ⟨_, started.calls toThirdBlock rfl (by decide +kernel)⟩

theorem begins_thirdBlock : run (nodeHandler oneDelegation finalityImpl)
    (beginBlock oneDelegation (Concrete.block 3)) delegated = (.ok (), inThirdBlock) := by
  have succeeded : (run (nodeHandler oneDelegation finalityImpl)
      (beginBlock oneDelegation (Concrete.block 3)) delegated).1.isOk = true := by decide +kernel
  obtain ⟨_, began⟩ := exists_eq_ok succeeded
  exact began

/-- The first validator unstakes what it has staked itself. -/
def ownUnstaked : TrxContext := thirdBlockCtx .unstaking 1 1 0 (.unstaking (zeroBytes 32))

theorem nobody_stopped : ∀ k d, ((App.node delegated).ledgers .delegatees).lookup k = some d →
    ((App.node inThirdBlock).ledgers .delegatees).lookup k ≠ none := by
  intro k d found
  rw [beginBlock_unvoted rfl rfl (run_node_ok begins_thirdBlock), found]
  exact Option.some_ne_none d

/-- The limiter charges the stake of the validator, 20 percent of the power.  With it goes the
delegation, which makes 40 percent, and the limit is 33. -/
theorem Run.unstaked_with_delegation : ∃ steps s s' txs r,
    Run oneDelegation false genesisWithDelegator .idle steps s ∧
      run (nodeHandler oneDelegation finalityImpl) (beginBlock oneDelegation (Concrete.block 3)) s =
        (.ok (), s') ∧ 3 ≤ s.mem.lastValidators.length ∧
      (∀ k d, ((App.node s).ledgers .delegatees).lookup k = some d →
        ((App.node s').ledgers .delegatees).lookup k ≠ none) ∧
      StakeSteps s'.mem.govParams s'.mem.lastValidators txs (App.node s').toResources r ∧
      s'.mem.govParams.maxUpdatableStakeRatio <
        lostPower (s'.mem.allDelegatees.take s'.mem.govParams.maxValidatorCnt.toNat)
          (selected s'.mem.govParams (r.ledgers .delegatees).view.items) * 100 /
        totalOf (s'.mem.allDelegatees.take s'.mem.govParams.maxValidatorCnt.toNat) := by
  obtain ⟨steps, ran⟩ := run_delegated
  have step : StakeStep ownUnstaked [] (App.node inThirdBlock).toResources _ :=
    stakeStep_afterTrx (.inr rfl) (by decide +kernel) (by decide +kernel)
  exact ⟨steps, delegated, inThirdBlock, _, _, ran, begins_thirdBlock, by decide +kernel,
    nobody_stopped, .cons rfl rfl step (.nil _), by decide +kernel⟩

/-- A delegation to the third validator, and the unstaking of the second one. -/
def moreDelegated : TrxContext :=
  thirdBlockCtx .staking 5 3 (Uint256.newInt 1000000 * Concrete.coin) .none

def secondUnstaked : TrxContext := thirdBlockCtx .unstaking 2 2 0 (.unstaking (zeroBytes 32))

def afterDelegation : Workspace oneDelegation.evm :=
  afterTrx moreDelegated (App.node inThirdBlock).toResources

theorem judged_moreDelegated : Judged inThirdBlock.mem.allDelegatees moreDelegated
    (App.node inThirdBlock).limiter ((App.node inThirdBlock).ledgers .delegatees) where
  sound := by decide +kernel
  small := by decide +kernel
  staking _ := by decide +kernel
  unstaking type := by cases type

theorem judged_secondUnstaked : Judged inThirdBlock.mem.allDelegatees secondUnstaked
    afterDelegation.limiter (afterDelegation.ledgers .delegatees) where
  sound := by decide +kernel
  small := by decide +kernel
  staking type := by cases type
  unstaking _ txHash d payload found enough := by
    cases payload
    revert d
    decide +kernel

/-- Both are judged by the right powers, and 20 percent of the power are lost. -/
theorem Run.updatableStake_delegated :
    lostPower (inThirdBlock.mem.allDelegatees.take 21)
        (selected inThirdBlock.mem.govParams
          ((afterTrx secondUnstaked afterDelegation).ledgers .delegatees).view.items) * 100 /
      totalOf (inThirdBlock.mem.allDelegatees.take 21) ≤ 33 := by
  obtain ⟨steps, ran⟩ := run_delegated
  have first : StakeStep moreDelegated [] (App.node inThirdBlock).toResources afterDelegation :=
    stakeStep_afterTrx (.inl rfl) (by decide +kernel) (by decide +kernel)
  have second : StakeStep secondUnstaked [] afterDelegation (afterTrx secondUnstaked afterDelegation) :=
    stakeStep_afterTrx (.inr rfl) (by decide +kernel) (by decide +kernel)
  have count : inThirdBlock.mem.govParams.maxValidatorCnt.toNat = 21 := by decide +kernel
  have ratio : inThirdBlock.mem.govParams.maxUpdatableStakeRatio = 33 := by decide +kernel
  rw [← count, ← ratio]
  refine Run.updatableStake ran begins_thirdBlock (by decide +kernel) rfl nobody_stopped
    (by decide +kernel) (.cons rfl rfl first (.cons rfl rfl second (.nil _))) ?_
  intro tx member
  rcases List.mem_cons.mp member with rfl | later
  · exact judged_moreDelegated
  · rw [List.mem_singleton.mp later]
    exact judged_secondUnstaked

end RigoApp

end Rigo
