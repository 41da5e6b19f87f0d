import Rigo.Ctrlers.Stake.LimiterOrder
import Rigo.Ctrlers.Stake.Percentages

/-!
# What the limiter charges

The limiter adds up what the accepted transactions of a block take from the validators of its start.
What they really take is the power these validators have lost in the selection after the block
(`lostPower`).  An exchange of one delegatee for another one in the ranking takes from at most one
validator: from the one that is pushed out of the last place, or from the delegatee itself.

The limiter has its own list of powers.  It knows the delegatees of the start of the block only.  It
charges what is lost wherever it takes the right delegatees for the last validator and for the one
that would follow (`StakeLimiter.lostPower_le_of_more`, `lostPower_le_of_less`).
-/

namespace Rigo

open Foundation
open Delegatee

variable {d v : Delegatee}

namespace StakeCtrler

/-! ## Lost power -/

/-- What a validator keeps of its power in a new selection. -/
def keptPower (new : List Delegatee) (v : Delegatee) : Int :=
  ((withAddr new v.addr).map fun d => min v.totalPower d.totalPower).getD 0

/-- The power that validators have lost in a new selection. -/
def lostPower (old new : List Delegatee) : Int :=
  (old.map fun v => v.totalPower - keptPower new v).sum

section

variable {old new new' : List Delegatee} {v d : Delegatee}

theorem keptPower_of_mem (distinct : (new.map addr).Nodup) (member : d ∈ new)
    (same : d.addr = v.addr) : keptPower new v = min v.totalPower d.totalPower := by
  rw [keptPower, (withAddr_iff distinct).mpr ⟨member, same⟩]
  rfl

theorem keptPower_of_not_mem (missing : ∀ d ∈ new, d.addr ≠ v.addr) : keptPower new v = 0 := by
  rw [keptPower, withAddr_eq_none.mpr missing]
  rfl

theorem keptPower_nonneg (nonneg : ∀ d ∈ new, 0 ≤ d.totalPower) (own : 0 ≤ v.totalPower) :
    0 ≤ keptPower new v := by
  unfold keptPower
  cases found : withAddr new v.addr with
  | none => exact le_rfl
  | some d => exact le_min own (nonneg d (withAddr_eq_some found).1)

/-- What is charged to one address is charged once. -/
theorem sum_charge_le (distinct : (old.map Delegatee.addr).Nodup) (addr : Address) {charge : Int}
    (nonneg : 0 ≤ charge) :
    (old.map fun v => if v.addr = addr then charge else 0).sum ≤ charge := by
  induction old with
  | nil => exact nonneg
  | cons head tail ih =>
    rw [List.map_cons, List.nodup_cons] at distinct
    rw [List.map_cons, List.sum_cons]
    by_cases here : head.addr = addr
    · have others : (tail.map fun v => if v.addr = addr then charge else 0).sum = 0 := by
        refine List.sum_eq_zero fun x member => ?_
        obtain ⟨v, later, rfl⟩ := List.mem_map.mp member
        refine if_neg fun same => distinct.1 ?_
        rw [here, ← same]
        exact List.mem_map_of_mem later
      rw [if_pos here, others, add_zero]
    · rw [if_neg here, zero_add]
      exact ih distinct.2

/-- If only the delegatee with one address keeps less, and so much less at most. -/
theorem lostPower_le (distinct : (old.map Delegatee.addr).Nodup) (addr : Address) {charge : Int}
    (nonneg : 0 ≤ charge)
    (kept : ∀ v ∈ old, keptPower new v ≤ keptPower new' v + if v.addr = addr then charge else 0) :
    lostPower old new' ≤ lostPower old new + charge := by
  have pointwise : lostPower old new' ≤ (old.map fun v =>
      (v.totalPower - keptPower new v) + if v.addr = addr then charge else 0).sum := by
    refine List.sum_le_sum fun v member => ?_
    have := kept v member
    omega
  rw [List.sum_map_add] at pointwise
  have once := sum_charge_le distinct addr nonneg
  unfold lostPower at pointwise ⊢
  omega

/-- Validators do not lose more than they have. -/
theorem lostPower_le_sum (nonneg : ∀ d ∈ new, 0 ≤ d.totalPower)
    (own : ∀ v ∈ old, 0 ≤ v.totalPower) :
    lostPower old new ≤ (old.map totalPower).sum := by
  refine List.sum_le_sum fun v member => ?_
  have := keptPower_nonneg nonneg (own v member)
  omega

/-- Validators that are there with no less power lose nothing. -/
theorem lostPower_eq_zero (distinct : (new.map addr).Nodup)
    (kept : ∀ v ∈ old, ∃ d ∈ new, d.addr = v.addr ∧ v.totalPower ≤ d.totalPower) :
    lostPower old new = 0 := by
  refine List.sum_eq_zero fun x member => ?_
  obtain ⟨v, here, rfl⟩ := List.mem_map.mp member
  obtain ⟨d, there, same, power⟩ := kept v here
  rw [keptPower_of_mem distinct there same, min_eq_left power, sub_self]

end

/-! ## One delegatee exchanged -/

instance : DecidableRel Delegatee.Outranks := fun _ _ =>
  decidable_of_iff _ Delegatee.powerLess_iff

theorem outranks_asymm (d d' : Delegatee) (ahead : d.Outranks d') : ¬ d'.Outranks d := ahead.asymm

/-- A ranking of delegatees in which the one with an address is exchanged. -/
structure ExchangedAt (addr : Address) (rest : List Delegatee) (x x' : Option Delegatee)
    (list list' : List Delegatee) : Prop extends
    Exchanged Delegatee.Outranks rest x x' list list' where
  named : ∀ d ∈ x, d.addr = addr
  named' : ∀ d ∈ x', d.addr = addr
  others : ∀ d ∈ rest, d.addr ≠ addr
  distinct : (rest.map Delegatee.addr).Nodup
  nonneg : ∀ d ∈ list, 0 ≤ d.totalPower
  nonneg' : ∀ d ∈ list', 0 ≤ d.totalPower

namespace ExchangedAt

variable {vs list list' rest : List Delegatee} {x x' : Option Delegatee} {addr : Address} {n : Nat}
  (exchanged : ExchangedAt addr rest x x' list list')

include exchanged

theorem symm : ExchangedAt addr rest x' x list' list :=
  ⟨exchanged.toExchanged.symm, exchanged.named', exchanged.named, exchanged.others,
    exchanged.distinct, exchanged.nonneg', exchanged.nonneg⟩

theorem nodup : (list.map Delegatee.addr).Nodup := by
  rw [(exchanged.before.map Delegatee.addr).nodup_iff, List.map_append, List.nodup_append]
  refine ⟨?_, exchanged.distinct, ?_⟩
  · cases x with
    | none => exact List.nodup_nil
    | some d => exact List.nodup_singleton _
  · intro a first b second same
    obtain ⟨d, here, rfl⟩ := List.mem_map.mp first
    obtain ⟨e, there, rfl⟩ := List.mem_map.mp second
    refine exchanged.others e there ?_
    rw [← same]
    exact exchanged.named d (Option.mem_toList.mp here)

theorem nodup_take : ((list.take n).map Delegatee.addr).Nodup :=
  exchanged.nodup.sublist ((List.take_sublist n list).map _)

theorem mem (here : d ∈ x) : d ∈ list :=
  exchanged.before.mem_iff.mpr (List.mem_append_left _ (Option.mem_toList.mpr here))

theorem mem_cases (member : d ∈ list) : d ∈ x ∨ d ∈ rest := by
  rcases List.mem_append.mp (exchanged.before.mem_iff.mp member) with here | there
  · exact .inl (Option.mem_toList.mp here)
  · exact .inr there

theorem withAddr_self : withAddr list addr = x := by
  refine Option.ext fun d => ?_
  rw [withAddr_iff exchanged.nodup]
  constructor
  · rintro ⟨member, named⟩
    exact (exchanged.mem_cases member).resolve_right fun there => exchanged.others d there named
  · intro here
    exact ⟨exchanged.mem here, exchanged.named d here⟩

theorem withAddr_of_ne {a : Address} (other : a ≠ addr) : withAddr list a = withAddr rest a := by
  refine Option.ext fun d => ?_
  rw [withAddr_iff exchanged.nodup, withAddr_iff exchanged.distinct]
  refine and_congr_left fun named => ⟨fun member => ?_, exchanged.mem_before⟩
  refine (exchanged.mem_cases member).resolve_left fun here => other ?_
  rw [← named, exchanged.named d here]

/-- A delegatee that keeps its place keeps its power. -/
theorem keptPower_le_of_mem (member : d ∈ list.take n) (same : d.addr = v.addr)
    {d' : Delegatee} (member' : d' ∈ list'.take n) (same' : d'.addr = v.addr)
    (power : d.totalPower ≤ d'.totalPower) :
    keptPower (list.take n) v ≤ keptPower (list'.take n) v := by
  rw [keptPower_of_mem exchanged.nodup_take member same,
    keptPower_of_mem exchanged.symm.nodup_take member' same']
  exact min_le_min_left _ power

theorem keptPower'_nonneg (own : 0 ≤ v.totalPower) :
    0 ≤ keptPower (list'.take n) v :=
  keptPower_nonneg (fun d member => exchanged.nonneg' d (List.mem_of_mem_take member)) own

/-- Who loses something had a place: it was another one's, or that of the delegatee itself. -/
theorem keptPower_le (own : 0 ≤ v.totalPower) {loss : Int}
    (another : ∀ d ∈ rest, d ∈ list.take n → d.addr = v.addr → d ∉ list'.take n →
      keptPower (list.take n) v ≤ keptPower (list'.take n) v + loss)
    (itself : ∀ d ∈ x, d ∈ list.take n → d.addr = v.addr →
      keptPower (list.take n) v ≤ keptPower (list'.take n) v + loss) (nonneg : 0 ≤ loss) :
    keptPower (list.take n) v ≤ keptPower (list'.take n) v + loss := by
  by_cases placed : ∃ d ∈ list.take n, d.addr = v.addr
  · obtain ⟨d, taken, same⟩ := placed
    rcases exchanged.mem_cases (List.mem_of_mem_take taken) with here | there
    · exact itself d here taken same
    · by_cases keeps : d ∈ list'.take n
      · have := exchanged.keptPower_le_of_mem taken same keeps same le_rfl
        omega
      · exact another d there taken same keeps
  · have none_kept : keptPower (list.take n) v = 0 :=
      keptPower_of_not_mem fun d taken same => placed ⟨d, taken, same⟩
    have := exchanged.keptPower'_nonneg (n := n) own
    omega

/-- With more power a delegatee keeps its place. -/
theorem mem_take_of_more {d' : Delegatee} (here : d ∈ x) (here' : d' ∈ x')
    (more : d.totalPower < d'.totalPower) (taken : d ∈ list.take n) : d' ∈ list'.take n := by
  rw [mem_take_iff outranks_asymm exchanged.sorted] at taken
  rw [mem_take_iff outranks_asymm exchanged.sorted']
  refine ⟨exchanged.symm.mem here', ?_⟩
  have fewer : rest.countP (fun e => e.Outranks d') ≤ rest.countP fun e => e.Outranks d := by
    refine List.countP_mono_left fun e member ahead => ?_
    simp only [decide_eq_true_eq] at ahead ⊢
    rcases ahead with less | ⟨same, -⟩
    · exact .inl (more.trans less)
    · exact .inl (by omega)
  have count := exchanged.toExchanged.countP_before d
  have count' := exchanged.toExchanged.symm.countP_before d'
  have self : ¬ d'.Outranks d' := fun ahead => outranks_asymm d' d' ahead ahead
  obtain rfl := here
  obtain rfl := here'
  simp only [Option.toList_some, List.countP_singleton, self, decide_false, Bool.false_eq_true,
    if_false] at count'
  omega

/-- A delegatee that gets more power pushes out the last validator, or nobody. -/
theorem lostPower_of_more (distinct : (vs.map Delegatee.addr).Nodup)
    (own : ∀ v ∈ vs, 0 ≤ v.totalPower)
    (more : ∀ d ∈ x, ∃ d' ∈ x', d.totalPower < d'.totalPower) :
    lostPower vs (list'.take n) ≤ lostPower vs (list.take n) ∨
      ∃ w d', list[n - 1]? = some w ∧ w ∈ list.take n ∧ d' ∈ x' ∧ d'.Outranks w ∧
        (∀ d ∈ x, d ∉ list.take n) ∧
        lostPower vs (list'.take n) ≤ lostPower vs (list.take n) + w.totalPower := by
  have itself {v : Delegatee} {loss : Int} (nonneg : 0 ≤ loss) :
      ∀ d ∈ x, d ∈ list.take n → d.addr = v.addr →
        keptPower (list.take n) v ≤ keptPower (list'.take n) v + loss := by
    intro d here taken same
    obtain ⟨d', here', power⟩ := more d here
    have same' : d'.addr = v.addr := by
      rw [exchanged.named' d' here', ← exchanged.named d here, same]
    have := exchanged.keptPower_le_of_mem taken same
      (exchanged.mem_take_of_more here here' power taken) same' power.le
    omega
  by_cases loses : ∃ w ∈ rest, w ∈ list.take n ∧ w ∉ list'.take n
  · obtain ⟨w, member, taken, left⟩ := loses
    obtain ⟨behind, ⟨d', here', ahead⟩, last⟩ :=
      exchanged.displaced outranks_asymm member taken left
    refine .inr ⟨w, d', last, taken, here', ahead, ?_, ?_⟩
    · intro d here placed
      refine behind d here (ahead_of_last exchanged.sorted placed last ?_)
      rintro rfl
      exact exchanged.others d member (exchanged.named d here)
    · have power := exchanged.nonneg w (List.mem_of_mem_take taken)
      refine lostPower_le distinct w.addr power fun v member' => ?_
      by_cases hers : v.addr = w.addr
      · rw [if_pos hers, keptPower_of_mem exchanged.nodup_take taken hers.symm]
        have := exchanged.keptPower'_nonneg (n := n) (own v member')
        have := min_le_right v.totalPower w.totalPower
        omega
      · rw [if_neg hers]
        refine exchanged.keptPower_le (own v member') ?_ (itself le_rfl) le_rfl
        -- nobody but the last one is pushed out
        intro e there placed same out
        obtain ⟨-, -, last'⟩ := exchanged.displaced outranks_asymm there placed out
        rw [last] at last'
        obtain rfl := Option.some.inj last'
        exact absurd same.symm hers
  · refine .inl ?_
    have kept : lostPower vs (list'.take n) ≤ lostPower vs (list.take n) + 0 := by
      refine lostPower_le distinct addr le_rfl fun v member => ?_
      rw [ite_self]
      refine exchanged.keptPower_le (own v member) ?_ (itself le_rfl) le_rfl
      exact fun e there placed same out => absurd ⟨e, there, placed, out⟩ loses
    rwa [add_zero] at kept

/-- A delegatee that gets less power takes from nobody else.  It loses the difference if it keeps its
place, and else what it had. -/
theorem lostPower_of_less (distinct : (vs.map Delegatee.addr).Nodup)
    (own : ∀ v ∈ vs, 0 ≤ v.totalPower) (here : d ∈ x)
    (less : ∀ d' ∈ x', d'.totalPower ≤ d.totalPower)
    (ahead : ∀ d' ∈ x', ∀ e, d'.Outranks e → d.Outranks e) :
    lostPower vs (list'.take n) ≤ lostPower vs (list.take n) ∨
      d ∈ list.take n ∧
        ((∃ d' ∈ x', lostPower vs (list'.take n) ≤
            lostPower vs (list.take n) + (d.totalPower - d'.totalPower)) ∨
          (∀ d' ∈ x', d' ∉ list'.take n) ∧
            lostPower vs (list'.take n) ≤ lostPower vs (list.take n) + d.totalPower) := by
  have another {v : Delegatee} {loss : Int} : ∀ e ∈ rest, e ∈ list.take n → e.addr = v.addr →
      e ∉ list'.take n → keptPower (list.take n) v ≤ keptPower (list'.take n) v + loss := by
    intro e there placed same out
    refine absurd (exchanged.mem_take outranks_asymm there ?_ placed) out
    exact fun d' here' ahead' => ⟨d, here, ahead d' here' e ahead'⟩
  by_cases taken : d ∈ list.take n
  · refine .inr ⟨taken, ?_⟩
    have power := exchanged.nonneg d (exchanged.mem here)
    by_cases keeps : ∃ d' ∈ x', d' ∈ list'.take n
    · obtain ⟨d', here', taken'⟩ := keeps
      have lower := less d' here'
      refine .inl ⟨d', here', lostPower_le distinct addr (by omega) fun v member => ?_⟩
      have same := exchanged.named d here
      have same' := exchanged.named' d' here'
      by_cases its : v.addr = addr
      · rw [if_pos its, keptPower_of_mem exchanged.nodup_take taken (same.trans its.symm),
          keptPower_of_mem exchanged.symm.nodup_take taken' (same'.trans its.symm)]
        omega
      · rw [if_neg its]
        refine exchanged.keptPower_le (own v member) another ?_ le_rfl
        intro e here'' _ named
        exact absurd ((exchanged.named e here'').symm.trans named).symm its
    · refine .inr ⟨fun d' here' taken' => keeps ⟨d', here', taken'⟩,
        lostPower_le distinct addr power fun v member => ?_⟩
      by_cases its : v.addr = addr
      · rw [if_pos its,
          keptPower_of_mem exchanged.nodup_take taken ((exchanged.named d here).trans its.symm)]
        have := exchanged.keptPower'_nonneg (n := n) (own v member)
        have := min_le_right v.totalPower d.totalPower
        omega
      · rw [if_neg its]
        refine exchanged.keptPower_le (own v member) another ?_ le_rfl
        intro e here' _ named
        exact absurd ((exchanged.named e here').symm.trans named).symm its
  · refine .inl ?_
    have kept : lostPower vs (list'.take n) ≤ lostPower vs (list.take n) + 0 := by
      refine lostPower_le distinct addr le_rfl fun v member => ?_
      rw [ite_self]
      refine exchanged.keptPower_le (own v member) another ?_ le_rfl
      intro e here' placed _
      rw [Option.mem_unique here' here] at placed
      exact absurd placed taken
    rwa [add_zero] at kept

end ExchangedAt

end StakeCtrler

/-! ## The powers the limiter knows -/

namespace StakeLimiter

variable {sl sl' : StakeLimiter} {known : List Address} {list : List Delegatee}

open StakeCtrler (withAddr withAddr_iff withAddr_eq_none withAddr_eq_some)

/-- The limiter has the powers of the delegatees it knows, in descending order.  Who is not listed any
more has power 0. -/
structure Mirrors (sl : StakeLimiter) (known : List Address) (list : List Delegatee) : Prop where
  distinct : (sl.powerObjs.map PowerObj.addr).Nodup
  addresses : ∀ addr, addr ∈ sl.powerObjs.map PowerObj.addr ↔ addr ∈ known
  ordered : sl.powerObjs.Pairwise fun o o' => o'.power ≤ o.power
  powers : ∀ o ∈ sl.powerObjs, o.power = ((withAddr list o.addr).map Delegatee.totalPower).getD 0

/-! ## Accepted calls -/

/-- The power the limiter has at an index; 0 if there is no object. -/
def powerAt (sl : StakeLimiter) (i : Nat) : Int := (sl.powerObjs[i]?.map PowerObj.power).getD 0

theorem movedPower_eq {ridx power diff : Int} (enough : 0 ≤ power + diff) :
    sl.movedPower ridx power diff =
      if diff < 0 then
        if 0 ≤ ridx ∧ ridx < sl.maxValidatorCnt then
          if power + diff < sl.powerAt sl.maxValidatorCnt.toNat then power else -diff
        else 0
      else if 0 < diff ∧ ¬ (0 ≤ ridx ∧ ridx < sl.maxValidatorCnt) ∧
          sl.powerAt (sl.maxValidatorCnt.toNat - 1) < power + diff then
        sl.powerAt (sl.maxValidatorCnt.toNat - 1)
      else 0 := by
  have index : (sl.maxValidatorCnt - 1).toNat = sl.maxValidatorCnt.toNat - 1 := by omega
  unfold movedPower powerAt
  rw [index]
  by_cases validator : 0 ≤ ridx ∧ ridx < sl.maxValidatorCnt
  · have other : ¬ (0 < diff ∧ ¬ (0 ≤ ridx ∧ ridx < sl.maxValidatorCnt) ∧
        (sl.powerObjs[sl.maxValidatorCnt.toNat - 1]?.map PowerObj.power).getD 0 < power + diff) :=
      fun given => given.2.1 validator
    rw [if_pos validator, if_pos validator, if_neg other]
    cases sl.powerObjs[sl.maxValidatorCnt.toNat]? with
    | none => simp [not_lt.mpr enough]
    | some o => rfl
  · rw [if_neg validator, if_neg validator]
    by_cases grows : 0 < diff
    · rw [if_pos grows, if_neg grows.not_gt]
      cases sl.powerObjs[sl.maxValidatorCnt.toNat - 1]? with
      | none => simp
      | some o => simp [grows, validator]
    · simp [grows]

theorem change_addr (call : Call) (o : PowerObj) : (change call o).addr = o.addr := by
  unfold change
  split <;> rfl

/-- The limiter still has the powers of the delegatees when one of them has been exchanged. -/
theorem Mirrors.changed {call : Call} {list' : List Delegatee} (mirrors : sl.Mirrors known list)
    (objects : sl'.powerObjs = sortBy PowerObj.less (sl.powerObjs.map (change call)))
    (others : ∀ a, a ≠ call.delg.addr → withAddr list' a = withAddr list a)
    (own : ∀ o ∈ sl.powerObjs, o.addr = call.delg.addr → i64 (o.power + call.changePower) =
      ((withAddr list' call.delg.addr).map totalPower).getD 0) :
    sl'.Mirrors known list' := by
  have sorted := sortedFrom_sortBy PowerObj.less_total PowerObj.less_trans
    (sl.powerObjs.map (change call))
  rw [← objects] at sorted
  have addresses : (sl'.powerObjs.map PowerObj.addr).Perm (sl.powerObjs.map PowerObj.addr) := by
    refine (sorted.perm.map PowerObj.addr).trans (.of_eq ?_)
    rw [List.map_map]
    exact List.map_congr_left fun o _ => change_addr call o
  refine ⟨addresses.nodup_iff.mpr mirrors.distinct,
    fun a => (addresses.mem_iff).trans (mirrors.addresses a), sorted.ordered.imp ?_, ?_⟩
  · intro o o' behind
    rcases PowerObj.not_less_iff.mp behind with (less | ⟨same, -⟩) | rfl
    · exact less.le
    · exact same.ge
    · exact le_rfl
  · intro o' member
    obtain ⟨o, listed, rfl⟩ := List.mem_map.mp (sorted.perm.mem_iff.mp member)
    by_cases named : o.addr = call.delg.addr
    · rw [change, if_pos named]
      simp only [named]
      exact own o listed named
    · rw [change, if_neg named, others _ named]
      exact mirrors.powers o listed

/-! ## Charges cover losses -/

/-- The sum of some powers. -/
abbrev totalOf (list : List Delegatee) : Int := (list.map Delegatee.totalPower).sum

theorem totalPower_le_totalOf (nonneg : ∀ d ∈ list, 0 ≤ d.totalPower)
    (member : d ∈ list) : d.totalPower ≤ totalOf list :=
  List.single_le_sum (by simpa using nonneg) _ (List.mem_map_of_mem member)

section

variable {params : GovParams} {first : List Delegatee}

theorem totalOf_nonneg (nonneg : ∀ d ∈ list, 0 ≤ d.totalPower) : 0 ≤ totalOf list :=
  List.sum_nonneg (by simpa using nonneg)

section

variable {first : List Delegatee} (mirrors : sl.Mirrors known list)
  (nonneg : ∀ d ∈ list, 0 ≤ d.totalPower)

include mirrors nonneg

theorem Mirrors.powerAt_nonneg (i : Nat) : 0 ≤ sl.powerAt i := by
  unfold powerAt
  cases here : sl.powerObjs[i]? with
  | none => exact le_rfl
  | some o =>
    rw [Option.map_some, Option.getD_some, mirrors.powers o (List.mem_of_getElem? here)]
    cases found : withAddr list o.addr with
    | none => exact le_rfl
    | some d => exact nonneg d (withAddr_eq_some found).1

theorem Mirrors.powerAt_le (i : Nat) : sl.powerAt i ≤ totalOf list := by
  have total := totalOf_nonneg nonneg
  unfold powerAt
  cases here : sl.powerObjs[i]? with
  | none => exact total
  | some o =>
    rw [Option.map_some, Option.getD_some, mirrors.powers o (List.mem_of_getElem? here)]
    cases found : withAddr list o.addr with
    | none => exact total
    | some d => exact totalPower_le_totalOf nonneg (withAddr_eq_some found).1

end

/-- An index that the limiter finds is that of an object with the delegatee's power. -/
structure FoundAt (sl : StakeLimiter) (delg : Delegatee) (ridx : Int) (found : Option PowerObj) :
    Prop where
  looked : sl.findPowerObj delg.addr = (ridx, found)
  power : (found.map PowerObj.power).getD delg.totalPower = delg.totalPower

variable {delg : Delegatee} {ridx diff : Int} {found : Option PowerObj}

/-- An index that is not negative. -/
theorem FoundAt.object (at' : sl.FoundAt delg ridx found) (inside : 0 ≤ ridx) :
    ∃ o, sl.powerObjs[ridx.toNat]? = some o ∧ o.addr = delg.addr ∧ o.power = delg.totalPower := by
  have looked := at'.looked
  have power := at'.power
  unfold findPowerObj at looked
  split at looked
  · cases looked
    omega
  · next i index =>
    cases looked
    obtain ⟨bound, here, -⟩ := List.findIdx?_eq_some_iff_getElem.mp index
    refine ⟨sl.powerObjs[i], List.getElem?_eq_getElem bound, by simpa using here, ?_⟩
    rw [List.getElem?_eq_getElem bound] at power
    exact power

theorem FoundAt.powerAt (at' : sl.FoundAt delg ridx found) (inside : 0 ≤ ridx) :
    sl.powerAt ridx.toNat = delg.totalPower := by
  obtain ⟨o, here, -, power⟩ := at'.object inside
  rw [StakeLimiter.powerAt, here]
  exact power

theorem Mirrors.movedPower_nonneg (mirrors : sl.Mirrors known list)
    (nonneg : ∀ d ∈ list, 0 ≤ d.totalPower) (power : 0 ≤ delg.totalPower)
    (enough : 0 ≤ delg.totalPower + diff) : 0 ≤ sl.movedPower ridx delg.totalPower diff := by
  have last := mirrors.powerAt_nonneg nonneg (sl.maxValidatorCnt.toNat - 1)
  rw [movedPower_eq enough]
  split_ifs <;> omega

theorem Mirrors.movedPower_le (mirrors : sl.Mirrors known list)
    (nonneg : ∀ d ∈ list, 0 ≤ d.totalPower) (at' : sl.FoundAt delg ridx found)
    (enough : 0 ≤ delg.totalPower + diff) : sl.movedPower ridx delg.totalPower diff ≤ totalOf list := by
  have last := mirrors.powerAt_le nonneg (sl.maxValidatorCnt.toNat - 1)
  have total := totalOf_nonneg nonneg
  have own := mirrors.powerAt_le nonneg ridx.toNat
  rw [movedPower_eq enough]
  by_cases less : diff < 0
  · rw [if_pos less]
    by_cases inside : 0 ≤ ridx ∧ ridx < sl.maxValidatorCnt
    · rw [if_pos inside]
      rw [at'.powerAt inside.1] at own
      split_ifs <;> omega
    · rw [if_neg inside]
      exact total
  · rw [if_neg less]
    split_ifs
    · exact last
    · exact total

/-- Who is to get a power is not among the validators the limiter has, the last of them has the power
of the last one in the ranking, and the two powers differ. -/
structure SeesLast (sl : StakeLimiter) (list : List Delegatee) (addr : Address) (power : Int) :
    Prop where
  outside : addr ∉ (sl.powerObjs.take sl.maxValidatorCnt.toNat).map PowerObj.addr
  last : sl.powerAt (sl.maxValidatorCnt.toNat - 1) =
    (list[sl.maxValidatorCnt.toNat - 1]?.map Delegatee.totalPower).getD 0
  apart : ∀ w, list[sl.maxValidatorCnt.toNat - 1]? = some w → w.totalPower ≠ power

/-- Who is left with a power is among the validators the limiter has, the first delegatee after them
has the power of the first one in the ranking that is no validator, and the two powers differ. -/
structure SeesNext (sl : StakeLimiter) (list : List Delegatee) (addr : Address) (power : Int) :
    Prop where
  inside : addr ∈ (sl.powerObjs.take sl.maxValidatorCnt.toNat).map PowerObj.addr
  next : sl.powerAt sl.maxValidatorCnt.toNat =
    (list[sl.maxValidatorCnt.toNat]?.map Delegatee.totalPower).getD 0
  apart : ∀ c, list[sl.maxValidatorCnt.toNat]? = some c → c.totalPower ≠ power

instance (sl : StakeLimiter) (list : List Delegatee) (addr : Address) (power : Int) :
    Decidable (sl.SeesLast list addr power) :=
  decidable_of_iff ((¬∃ o ∈ sl.powerObjs.take sl.maxValidatorCnt.toNat, o.addr = addr) ∧
      sl.powerAt (sl.maxValidatorCnt.toNat - 1) =
        (list[sl.maxValidatorCnt.toNat - 1]?.map Delegatee.totalPower).getD 0 ∧
      ∀ w ∈ list[sl.maxValidatorCnt.toNat - 1]?, w.totalPower ≠ power)
    ⟨fun all => ⟨mt List.mem_map.mp all.1, all.2.1, all.2.2⟩,
      fun sees => ⟨mt List.mem_map.mpr sees.outside, sees.last, sees.apart⟩⟩

instance (sl : StakeLimiter) (list : List Delegatee) (addr : Address) (power : Int) :
    Decidable (sl.SeesNext list addr power) :=
  decidable_of_iff ((∃ o ∈ sl.powerObjs.take sl.maxValidatorCnt.toNat, o.addr = addr) ∧
      sl.powerAt sl.maxValidatorCnt.toNat =
        (list[sl.maxValidatorCnt.toNat]?.map Delegatee.totalPower).getD 0 ∧
      ∀ c ∈ list[sl.maxValidatorCnt.toNat]?, c.totalPower ≠ power)
    ⟨fun all => ⟨List.mem_map.mpr all.1, all.2.1, all.2.2⟩,
      fun sees => ⟨List.mem_map.mp sees.inside, sees.next, sees.apart⟩⟩

theorem FoundAt.mem_take_iff (at' : sl.FoundAt delg ridx found)
    (distinct : (sl.powerObjs.map PowerObj.addr).Nodup) :
    0 ≤ ridx ∧ ridx < sl.maxValidatorCnt ↔
      delg.addr ∈ (sl.powerObjs.take sl.maxValidatorCnt.toNat).map PowerObj.addr := by
  constructor
  · rintro ⟨natural, less⟩
    obtain ⟨o, here, named, -⟩ := at'.object natural
    obtain ⟨bound, rfl⟩ := List.getElem?_eq_some_iff.mp here
    rw [← named]
    exact List.mem_map_of_mem (List.mem_take_iff_getElem.mpr ⟨ridx.toNat, by omega, rfl⟩)
  · intro member
    obtain ⟨o, taken, named⟩ := List.mem_map.mp member
    obtain ⟨j, bound, rfl⟩ := List.mem_take_iff_getElem.mp taken
    have known : delg.addr ∈ sl.powerObjs.map PowerObj.addr :=
      ((List.take_sublist _ _).map _).subset member
    obtain ⟨i, o', looked, here, named'⟩ := findPowerObj_of_known known
    have index : ridx = i := congrArg Prod.fst (at'.looked.symm.trans looked)
    obtain ⟨bound', rfl⟩ := List.getElem?_eq_some_iff.mp here
    have same : sl.powerObjs[j] = sl.powerObjs[i] :=
      List.inj_on_of_nodup_map distinct (List.getElem_mem _) (List.getElem_mem _)
        (named.trans named'.symm)
    have := (distinct.of_map _).getElem_inj_iff.mp same
    omega

variable {vs rest list' : List Delegatee} {x x' : Option Delegatee}

open StakeCtrler (ExchangedAt lostPower)

/-- More power for a delegatee: what the validators lose is charged if the limiter sees the last one. -/
theorem lostPower_le_of_more (mirrors : sl.Mirrors known list)
    (at' : sl.FoundAt delg ridx found) (exchanged : ExchangedAt delg.addr rest x x' list list')
    (distinct : (vs.map addr).Nodup) (own : ∀ v ∈ vs, 0 ≤ v.totalPower)
    (power : 0 ≤ delg.totalPower) (positive : 0 < diff)
    (more : ∀ d ∈ x, ∃ d' ∈ x', d.totalPower < d'.totalPower)
    (after : ∀ d ∈ x', d.totalPower = delg.totalPower + diff)
    (sees : (∀ d ∈ x, d ∉ list.take sl.maxValidatorCnt.toNat) →
      sl.SeesLast list delg.addr (delg.totalPower + diff)) :
    lostPower vs (list'.take sl.maxValidatorCnt.toNat) ≤
      lostPower vs (list.take sl.maxValidatorCnt.toNat) + sl.movedPower ridx delg.totalPower diff := by
  have nonneg : 0 ≤ sl.movedPower ridx delg.totalPower diff :=
    mirrors.movedPower_nonneg exchanged.nonneg power (by omega)
  rcases exchanged.lostPower_of_more (n := sl.maxValidatorCnt.toNat) distinct own more with
    kept | ⟨w, d', last, taken, here', ahead, free, lost⟩
  · omega
  · obtain ⟨outside, lastPower, apart⟩ := sees free
    rw [last, Option.map_some, Option.getD_some] at lastPower
    have overtaken : w.totalPower < delg.totalPower + diff := by
      have differs := apart w last
      rw [← after d' here'] at differs ⊢
      rcases ahead with less | ⟨same, -⟩
      · exact less
      · exact absurd same.symm differs
    rw [← at'.mem_take_iff mirrors.distinct] at outside
    have charged : sl.movedPower ridx delg.totalPower diff = w.totalPower := by
      rw [movedPower_eq (by omega), if_neg (by omega), lastPower, if_pos ⟨positive, outside, overtaken⟩]
    omega

/-- Less power for a delegatee: what the validators lose is charged if the limiter sees the first
delegatee that is none. -/
theorem lostPower_le_of_less (mirrors : sl.Mirrors known list)
    (at' : sl.FoundAt delg ridx found) (exchanged : ExchangedAt delg.addr rest x x' list list')
    (distinct : (vs.map addr).Nodup) (own : ∀ v ∈ vs, 0 ≤ v.totalPower)
    (here : d ∈ x) (before : d.totalPower = delg.totalPower) (less : diff ≤ 0)
    (enough : 0 ≤ delg.totalPower + diff)
    (after : ∀ d' ∈ x', d'.totalPower = delg.totalPower + diff ∧ d ≠ d' ∧
      ∀ e, d'.Outranks e → d.Outranks e)
    (gone : x' = none → delg.totalPower + diff = 0)
    (sees : d ∈ list.take sl.maxValidatorCnt.toNat →
      sl.SeesNext list delg.addr (delg.totalPower + diff)) :
    lostPower vs (list'.take sl.maxValidatorCnt.toNat) ≤
      lostPower vs (list.take sl.maxValidatorCnt.toNat) + sl.movedPower ridx delg.totalPower diff := by
  have power : 0 ≤ delg.totalPower := by omega
  have nonneg : 0 ≤ sl.movedPower ridx delg.totalPower diff :=
    mirrors.movedPower_nonneg exchanged.nonneg power enough
  rcases exchanged.lostPower_of_less (n := sl.maxValidatorCnt.toNat) distinct own here
      (fun d' here' => by rw [(after d' here').1, before]; omega)
      (fun d' here' => (after d' here').2.2) with kept | ⟨taken, lost⟩
  · omega
  · obtain ⟨inside, nextPower, apart⟩ := sees taken
    rw [← at'.mem_take_iff mirrors.distinct] at inside
    have charged (strictly : diff < 0) : sl.movedPower ridx delg.totalPower diff =
        if delg.totalPower + diff < sl.powerAt sl.maxValidatorCnt.toNat then delg.totalPower
        else -diff := by
      rw [movedPower_eq enough, if_pos strictly, if_pos inside]
    rcases lost with ⟨d', here', lost⟩ | ⟨unplaced, lost⟩
    · rw [before, (after d' here').1] at lost
      by_cases strictly : diff < 0
      · have amount := charged strictly
        split_ifs at amount <;> omega
      · omega
    · rw [before] at lost
      cases x' with
      | none =>
        have rest := gone rfl
        by_cases strictly : diff < 0
        · have amount := charged strictly
          split_ifs at amount <;> omega
        · omega
      | some d' =>
        obtain ⟨power', other, -⟩ := after d' rfl
        obtain ⟨c, next, ahead⟩ := exchanged.left_behind StakeCtrler.outranks_asymm
          (fun _ _ _ => Outranks.trans) here rfl
          (fun there => exchanged.others d there (exchanged.named d here)) taken (unplaced d' rfl)
          other
        have differs := apart c next
        have above : delg.totalPower + diff < c.totalPower := by
          rcases ahead with less' | ⟨same, -⟩
          · omega
          · omega
        by_cases strictly : diff < 0
        · have amount := charged strictly
          rw [nextPower, next, Option.map_some, Option.getD_some, if_pos above] at amount
          omega
        · -- the validator would have been behind before
          have ahead' : d.Outranks c := ahead_of_next exchanged.sorted taken next
          rcases ahead' with less' | ⟨same, -⟩
          · omega
          · omega

end

end StakeLimiter

end Rigo
