import Rigo.Foundation.Ranking
import Rigo.Ctrlers.Stake.Selection

/-!
# The order of the limiter

The limiter keeps the powers of the delegatees of a block up to date, and takes the first of its
objects for the validators.  Its order is that of the selection except in one point: between
delegatees of the same power it looks at the address only, where the selection looks at the
number of stakes first.
-/

namespace Rigo

open Foundation
open Delegatee

variable {o o' : PowerObj}

/-! ## The two orders -/

/-- The object the limiter keeps for a delegatee. -/
def Delegatee.powerObj (d : Delegatee) : PowerObj := ⟨d.addr, d.totalPower⟩

namespace PowerObj

/-- The order of `orderedPowerObj`: power, then address, both descending. -/
def Ahead (o o' : PowerObj) : Prop :=
  o'.power < o.power ∨ o.power = o'.power ∧ compare o.addr o'.addr = .gt

theorem less_iff : o.less o' = true ↔ o.Ahead o' := by
  unfold less Ahead
  by_cases power : o.power = o'.power <;> simp [power]

instance : DecidableRel Ahead := fun _ _ => decidable_of_iff _ less_iff

theorem Ahead.trans {o'' : PowerObj} (first : o.Ahead o') (second : o'.Ahead o'') :
    o.Ahead o'' := by
  unfold Ahead at first second ⊢
  rcases first with power | ⟨power, order⟩ <;> rcases second with power' | ⟨power', order'⟩
  · exact .inl (power'.trans power)
  · exact .inl (power' ▸ power)
  · exact .inl (power ▸ power')
  · exact .inr ⟨power.trans power', Std.TransCmp.gt_trans order order'⟩

theorem Ahead.asymm (ahead : o.Ahead o') : ¬ o'.Ahead o := by
  intro back
  rcases ahead.trans back with power | ⟨-, order⟩
  · exact lt_irrefl _ power
  · rw [Std.ReflOrd.compare_self] at order
    cases order

theorem ahead_trichotomy (o o' : PowerObj) : o.Ahead o' ∨ o'.Ahead o ∨ o = o' := by
  unfold Ahead
  rcases lt_trichotomy o.power o'.power with less | same | more
  · exact .inr (.inl (.inl less))
  · cases compared : compare o.addr o'.addr with
    | lt => exact .inr (.inl (.inr ⟨same.symm, Std.OrientedCmp.gt_of_lt compared⟩))
    | eq =>
      have address := Std.LawfulEqOrd.eq_of_compare compared
      cases o
      cases o'
      exact .inr (.inr (by simp_all only))
    | gt => exact .inl (.inr ⟨same, rfl⟩)
  · exact .inl (.inl more)

theorem not_less_iff : o'.less o = false ↔ o.Ahead o' ∨ o = o' := by
  rw [← Bool.not_eq_true, less_iff]
  constructor
  · intro behind
    rcases ahead_trichotomy o o' with ahead | ahead | same
    · exact .inl ahead
    · exact absurd ahead behind
    · exact .inr same
  · rintro (ahead | rfl)
    · exact ahead.asymm
    · exact fun ahead => ahead.asymm ahead

theorem less_total (o o' : PowerObj) : o'.less o = false ∨ o.less o' = false := by
  rw [not_less_iff, not_less_iff]
  rcases ahead_trichotomy o o' with ahead | ahead | rfl
  · exact .inl (.inl ahead)
  · exact .inr (.inl ahead)
  · exact .inl (.inr rfl)

theorem less_trans (o o' o'' : PowerObj) (first : o'.less o = false) (second : o''.less o' = false) :
    o''.less o = false := by
  rw [not_less_iff] at first second ⊢
  rcases first with ahead | rfl
  · rcases second with ahead' | rfl
    · exact .inl (ahead.trans ahead')
    · exact .inl ahead
  · exact second

theorem less_apart (first : o.less o' = false) (second : o'.less o = false) :
    o = o' := by
  rw [not_less_iff] at first second
  rcases second with ahead | same
  · rcases first with back | same
    · exact absurd back ahead.asymm
    · exact same.symm
  · exact same

end PowerObj

/-! ## Accepted calls -/

namespace StakeLimiter

/-- A call of `CheckLimit`. -/
structure Call where
  delg : Delegatee
  changePower : Int

/-- The limiter after calls that were all accepted. -/
def accepted (sl : StakeLimiter) : List Call → Option StakeLimiter
  | [] => some sl
  | call :: rest =>
    match sl.checkLimit call.delg call.changePower with
    | (.ok (), sl') => sl'.accepted rest
    | (.error _, _) => none

/-- The delegatees with the power that a call changes. -/
def changed (delgs : List Delegatee) (call : Call) : List Delegatee :=
  delgs.map fun d =>
    if d.addr = call.delg.addr then { d with totalPower := i64 (d.totalPower + call.changePower) }
    else d

section

variable {sl sl' : StakeLimiter} {delgs : List Delegatee} {call : Call}

theorem changed_addr (delgs : List Delegatee) (call : Call) :
    (changed delgs call).map addr = delgs.map addr := by
  rw [changed, List.map_map]
  refine List.map_congr_left fun d _ => ?_
  rw [Function.comp_apply]
  split <;> rfl

/-- The objects with the power that a call changes. -/
def change (call : Call) (o : PowerObj) : PowerObj :=
  if o.addr = call.delg.addr then { o with power := i64 (o.power + call.changePower) } else o

theorem map_powerObj_changed (delgs : List Delegatee) (call : Call) :
    (changed delgs call).map powerObj = (delgs.map powerObj).map (change call) := by
  rw [changed, List.map_map, List.map_map]
  refine List.map_congr_left fun d _ => ?_
  simp only [Function.comp_apply, change, powerObj]
  by_cases named : d.addr = call.delg.addr <;> simp [named]

theorem findPowerObj_of_known {addr : Address} (known : addr ∈ sl.powerObjs.map PowerObj.addr) :
    ∃ (i : Nat) (o : PowerObj), sl.findPowerObj addr = ((i : Int), some o) ∧ sl.powerObjs[i]? = some o ∧
      o.addr = addr := by
  obtain ⟨o, member, named⟩ := List.mem_map.mp known
  cases found : sl.powerObjs.findIdx? fun o => o.addr == addr with
  | none =>
    rw [List.findIdx?_eq_none_iff] at found
    exact absurd (found o member) (by simp [named])
  | some i =>
    obtain ⟨bound, here, _⟩ := List.findIdx?_eq_some_iff_getElem.mp found
    refine ⟨i, sl.powerObjs[i], ?_, List.getElem?_eq_getElem bound, by simpa using here⟩
    rw [findPowerObj, found]
    simp only [List.getElem?_eq_getElem bound]

/-- To change the object at the index of an address is to change the object of that address. -/
theorem modify_eq_change {objs : List PowerObj} (distinct : (objs.map PowerObj.addr).Nodup)
    {i : Nat} (here : objs[i]? = some o) (named : o.addr = call.delg.addr) :
    objs.modify i (fun x => { x with power := i64 (o.power + call.changePower) }) =
      objs.map (change call) := by
  induction objs generalizing i with
  | nil => simp at here
  | cons head tail ih =>
    rw [List.map_cons, List.nodup_cons] at distinct
    cases i with
    | zero =>
      obtain rfl : head = o := by simpa using here
      have others : tail.map (change call) = tail := by
        refine (List.map_congr_left fun x later => ?_).trans (List.map_id tail)
        refine if_neg fun named' => distinct.1 ?_
        rw [named, ← named']
        exact List.mem_map_of_mem later
      simp [change, named, others]
    | succ i =>
      have here' : tail[i]? = some o := by simpa using here
      have other : head.addr ≠ call.delg.addr := by
        intro named'
        refine distinct.1 ?_
        rw [named', ← named]
        exact List.mem_map_of_mem (List.mem_of_getElem? here')
      rw [List.modify_succ_cons, List.map_cons, ih distinct.2 here', change, if_neg other]

/-- What an accepted call has checked, and what it leaves. -/
theorem checkLimit_ok {delg : Delegatee} {diff : Int}
    (ran : sl.checkLimit delg diff = (.ok (), sl')) (some' : sl.powerObjs ≠ []) :
    ∃ ridx found out, sl.findPowerObj delg.addr = (ridx, found) ∧
      (found.map PowerObj.power).getD delg.totalPower = delg.totalPower ∧
      sl.pushedOutPower ridx delg.totalPower diff = .ok out ∧ sl.baseTotalPower ≠ 0 ∧
      0 ≤ i64 (delg.totalPower + diff) ∧
      let updated :=
        i64 (i64 (sl.updatedPower + sl.leavingPower ridx delg.totalPower diff) + out)
      i64 ((i64 (updated * 100)).tdiv sl.baseTotalPower) ≤ sl.updatableLimitRatio ∧
      sl' = { sl with
        updatedPower := updated
        powerObjs := sortBy PowerObj.less (sl.setPower ridx (i64 (delg.totalPower + diff))) } := by
  unfold checkLimit at ran
  rw [if_neg some'] at ran
  split at ran
  · cases ran
  · rcases found : sl.findPowerObj delg.addr with ⟨ridx, object⟩
    unfold checkUpdatablePowerLimit at ran
    simp only [found] at ran
    split at ran
    · cases ran
    · next known =>
      rw [not_not] at known
      rw [known] at ran
      split at ran
      · cases ran
      · next out pushed =>
        split at ran
        · cases ran
        · next base =>
          split at ran
          · cases ran
          · next ratio =>
            split at ran
            · cases ran
            · next power =>
              refine ⟨ridx, object, out, rfl, known, pushed, base, not_lt.mp power,
                not_lt.mp ratio, ?_⟩
              exact (Prod.mk.inj ran).2.symm

/-- What an accepted call does: it changes the object of the delegatee, if there is one, and sorts. -/
theorem powerObjs_of_checkLimit (distinct : (sl.powerObjs.map PowerObj.addr).Nodup)
    (ran : sl.checkLimit call.delg call.changePower = (.ok (), sl')) (some' : sl.powerObjs ≠ []) :
    sl'.powerObjs = sortBy PowerObj.less (sl.powerObjs.map (change call)) := by
  obtain ⟨ridx, found, out, looked, power, -, -, -, -, rfl⟩ := checkLimit_ok ran some'
  refine congrArg (sortBy PowerObj.less) ?_
  by_cases known : call.delg.addr ∈ sl.powerObjs.map PowerObj.addr
  · obtain ⟨i, o, looked', here, named⟩ := findPowerObj_of_known known
    rw [looked'] at looked
    cases looked
    have power : o.power = call.delg.totalPower := power
    rw [setPower, if_neg (by omega), Int.toNat_natCast, ← power, modify_eq_change distinct here named]
  · have unknown {o : PowerObj} (member : o ∈ sl.powerObjs) : o.addr ≠ call.delg.addr := by
      intro named
      rw [← named] at known
      exact known (List.mem_map_of_mem member)
    have missing : sl.findPowerObj call.delg.addr = (-1, none) := by
      have none_found : (sl.powerObjs.findIdx? fun o => o.addr == call.delg.addr) = none := by
        refine List.findIdx?_eq_none_iff.mpr fun o member => ?_
        simpa using unknown member
      rw [findPowerObj, none_found]
    rw [missing] at looked
    cases looked
    have same : sl.powerObjs.map (change call) = sl.powerObjs := by
      refine (List.map_congr_left fun o member => ?_).trans (List.map_id sl.powerObjs)
      exact if_neg (unknown member)
    rw [same]
    rfl

/-- The limiter tracks the delegatees. -/
structure Tracks (sl : StakeLimiter) (delgs : List Delegatee) : Prop where
  objects : sl.powerObjs.Perm (delgs.map Delegatee.powerObj)
  distinct : (delgs.map Delegatee.addr).Nodup

theorem Tracks.addresses (tracks : sl.Tracks delgs) :
    (sl.powerObjs.map PowerObj.addr).Perm (delgs.map addr) := by
  refine (tracks.objects.map PowerObj.addr).trans (.of_eq ?_)
  rw [List.map_map]
  rfl

/-- An accepted call: the limiter tracks the changed delegatees, in its order. -/
theorem Tracks.checkLimit (tracks : sl.Tracks delgs)
    (ran : sl.checkLimit call.delg call.changePower = (.ok (), sl'))
    (known : call.delg.addr ∈ delgs.map addr) :
    sl'.Tracks (changed delgs call) ∧
      SortedFrom PowerObj.less (sl.powerObjs.map (change call)) sl'.powerObjs ∧
      sl'.maxValidatorCnt = sl.maxValidatorCnt := by
  have addresses := tracks.addresses
  have some' : sl.powerObjs ≠ [] := by
    intro empty
    have listed := addresses.mem_iff.mpr known
    rw [empty] at listed
    cases listed
  have objects := powerObjs_of_checkLimit (addresses.nodup_iff.mpr tracks.distinct) ran some'
  have count : sl'.maxValidatorCnt = sl.maxValidatorCnt := by
    obtain ⟨-, -, -, -, -, -, -, -, -, rfl⟩ := checkLimit_ok ran some'
    rfl
  have sorted := sortedFrom_sortBy PowerObj.less_total PowerObj.less_trans (sl.powerObjs.map (change call))
  rw [← objects] at sorted
  refine ⟨⟨?_, ?_⟩, sorted, count⟩
  · rw [map_powerObj_changed]
    exact sorted.perm.trans (tracks.objects.map _)
  · rw [changed_addr]
    exact tracks.distinct

/-- After accepted calls the limiter tracks the changed delegatees, in its order. -/
theorem Tracks.accepted {calls : List Call} (tracks : sl.Tracks delgs)
    (known : ∀ call ∈ calls, call.delg.addr ∈ delgs.map addr)
    (ran : sl.accepted calls = some sl') :
    sl'.Tracks (calls.foldl changed delgs) ∧ sl'.maxValidatorCnt = sl.maxValidatorCnt ∧
      (calls ≠ [] → sl'.powerObjs.Pairwise fun o o' => o'.less o = false) := by
  induction calls generalizing sl delgs with
  | nil =>
    obtain rfl := Option.some.inj ran
    exact ⟨tracks, rfl, fun nonempty => absurd rfl nonempty⟩
  | cons call rest ih =>
    rw [StakeLimiter.accepted] at ran
    split at ran
    · next sl₁ ran₁ =>
      obtain ⟨tracks₁, sorted, count⟩ := tracks.checkLimit ran₁ (known call List.mem_cons_self)
      have known₁ : ∀ later ∈ rest, later.delg.addr ∈ (changed delgs call).map addr := by
        intro later member
        rw [changed_addr]
        exact known later (List.mem_cons_of_mem _ member)
      obtain ⟨tracks', count', sorted'⟩ := ih tracks₁ known₁ ran
      refine ⟨tracks', count'.trans count, fun _ => ?_⟩
      cases rest with
      | nil =>
        obtain rfl := Option.some.inj ran
        exact sorted.ordered
      | cons _ _ => exact sorted' (List.cons_ne_nil _ _)
    · cases ran

end

theorem tracks_reset {delgs : List Delegatee} (distinct : (delgs.map addr).Nodup)
    (maxValCnt indiLimitRatio upLimitRatio : Int) :
    (reset delgs maxValCnt indiLimitRatio upLimitRatio).Tracks delgs :=
  ⟨.of_eq rfl, distinct⟩

/-! ## The first objects -/

/-- The limiter takes the validators that the selection takes. -/
def Agrees (sl : StakeLimiter) (delgs : List Delegatee) : Prop :=
  ∃ selected, StakeCtrler.selectValidators (sortBy Delegatee.powerLess delgs) sl.maxValidatorCnt =
      pure selected ∧
    ∀ addr, addr ∈ (sl.powerObjs.take sl.maxValidatorCnt.toNat).map PowerObj.addr ↔
      addr ∈ selected.map Delegatee.addr

/-- The number of delegatees that are ahead of one by power and address. -/
def place (delgs : List Delegatee) (d : Delegatee) : Nat :=
  delgs.countP fun d' => d'.powerObj.Ahead d.powerObj

/-- A delegatee takes the place of another one that has the same power and more stakes, but a
smaller address. -/
def Misplaced (n : Int) (delgs : List Delegatee) (d d' : Delegatee) : Prop :=
  d.totalPower = d'.totalPower ∧ d.stakes.length < d'.stakes.length ∧
    compare d.addr d'.addr = .gt ∧ place delgs d < n ∧ n ≤ place delgs d'

section

variable {delgs : List Delegatee} (distinct : (delgs.map Delegatee.addr).Nodup)

/-- The delegatees in the order of the limiter. -/
def byObject (delgs : List Delegatee) : List Delegatee :=
  sortBy (fun d d' => d.powerObj.less d'.powerObj) delgs

theorem sortedFrom_byObject (delgs : List Delegatee) :
    SortedFrom (fun d d' => d.powerObj.less d'.powerObj) delgs (byObject delgs) := by
  apply sortedFrom_sortBy
  · intro d d'
    exact PowerObj.less_total d.powerObj d'.powerObj
  · intro d d' d''
    exact PowerObj.less_trans d.powerObj d'.powerObj d''.powerObj

include distinct

/-- In a list of delegatees with distinct addresses, what is not behind is ahead. -/
theorem pairwise_of_distinct {list : List Delegatee} {P Q : Delegatee → Delegatee → Prop}
    (same : list.Perm delgs) (ordered : list.Pairwise P)
    (strict : ∀ d d', P d d' → d.addr ≠ d'.addr → Q d d') : list.Pairwise Q := by
  have others : list.Pairwise fun d d' => d.addr ≠ d'.addr :=
    List.pairwise_map.mp ((same.map addr).nodup_iff.mpr distinct)
  exact (ordered.and others).imp fun both => strict _ _ both.1 both.2

theorem pairwise_byObject :
    (byObject delgs).Pairwise fun d d' => d.powerObj.Ahead d'.powerObj := by
  have sorted := sortedFrom_byObject delgs
  refine pairwise_of_distinct distinct sorted.perm sorted.ordered fun d d' behind other => ?_
  rcases PowerObj.not_less_iff.mp behind with ahead | same
  · exact ahead
  · exact absurd (congrArg PowerObj.addr same) other

theorem pairwise_byPower :
    (sortBy powerLess delgs).Pairwise Outranks := by
  have sorted := sortedFrom_powerLess delgs
  exact pairwise_of_distinct distinct sorted.perm sorted.ordered fun d d' behind other =>
    outranks_of_not other behind

/-- Delegatees are told apart by their addresses. -/
theorem mem_map_addr_iff {list list' : List Delegatee} (among : list ⊆ delgs)
    (among' : list' ⊆ delgs) :
    (∀ addr, addr ∈ list.map Delegatee.addr ↔ addr ∈ list'.map Delegatee.addr) ↔
      ∀ d, d ∈ list ↔ d ∈ list' := by
  constructor
  · intro agree d
    constructor
    · intro member
      obtain ⟨d', member', same⟩ := List.mem_map.mp ((agree d.addr).mp (List.mem_map_of_mem member))
      rwa [← List.inj_on_of_nodup_map distinct (among' member') (among member) same]
    · intro member
      obtain ⟨d', member', same⟩ := List.mem_map.mp ((agree d.addr).mpr (List.mem_map_of_mem member))
      rwa [← List.inj_on_of_nodup_map distinct (among member') (among' member) same]
  · intro agree addr
    simp only [List.mem_map, agree]

end

variable {sl : StakeLimiter} {delgs : List Delegatee}

/-- A sorted limiter has the objects of the delegatees in its order. -/
theorem Tracks.powerObjs_eq (tracks : sl.Tracks delgs)
    (sorted : sl.powerObjs.Pairwise fun o o' => o'.less o = false) :
    sl.powerObjs = (byObject delgs).map powerObj := by
  have first : SortedFrom PowerObj.less (delgs.map powerObj) sl.powerObjs :=
    ⟨tracks.objects, sorted⟩
  have other := sortedFrom_byObject delgs
  have second : SortedFrom PowerObj.less (delgs.map powerObj)
      ((byObject delgs).map powerObj) :=
    ⟨other.perm.map _, List.pairwise_map.mpr other.ordered⟩
  exact first.unique second (List.Perm.refl _) fun _ _ _ _ => PowerObj.less_apart

/-- The addresses the limiter and the selection take, as delegatees. -/
theorem Tracks.agrees_iff_take (tracks : sl.Tracks delgs)
    (sorted : sl.powerObjs.Pairwise fun o o' => o'.less o = false)
    (natural : 0 ≤ sl.maxValidatorCnt) :
    sl.Agrees delgs ↔ ∀ d, d ∈ (byObject delgs).take sl.maxValidatorCnt.toNat ↔
      d ∈ (sortBy powerLess delgs).take sl.maxValidatorCnt.toNat := by
  have among : (byObject delgs).take sl.maxValidatorCnt.toNat ⊆ delgs := fun d taken =>
    (sortedFrom_byObject delgs).perm.mem_iff.mp (List.mem_of_mem_take taken)
  have among' : (sortBy powerLess delgs).take sl.maxValidatorCnt.toNat ⊆ delgs :=
    fun d taken => (sortBy_perm _ delgs).mem_iff.mp (List.mem_of_mem_take taken)
  have objects : (sl.powerObjs.take sl.maxValidatorCnt.toNat).map PowerObj.addr =
      ((byObject delgs).take sl.maxValidatorCnt.toNat).map addr := by
    rw [tracks.powerObjs_eq sorted, ← List.map_take, List.map_map]
    rfl
  rw [← mem_map_addr_iff tracks.distinct among among', Agrees, objects, StakeCtrler.selectValidators,
    if_neg (not_lt.mpr natural)]
  constructor
  · rintro ⟨selected, chosen, agree⟩
    cases chosen
    exact agree
  · intro agree
    exact ⟨_, rfl, agree⟩

/-- The first delegatees of the limiter's order are those with a small place. -/
theorem mem_take_byObject (distinct : (delgs.map addr).Nodup) (n : Int) (d : Delegatee) :
    d ∈ (byObject delgs).take n.toNat ↔ d ∈ delgs ∧ (place delgs d : Int) < n := by
  have perm := (sortedFrom_byObject delgs).perm
  rw [mem_take_iff (fun _ _ => PowerObj.Ahead.asymm) (pairwise_byObject distinct), perm.mem_iff,
    perm.countP_eq]
  refine and_congr_right fun _ => ?_
  unfold place
  omega

/-- The limiter agrees with the selection exactly if nobody has the place of another one. -/
theorem Tracks.agrees_iff (tracks : sl.Tracks delgs)
    (sorted : sl.powerObjs.Pairwise fun o o' => o'.less o = false)
    (natural : 0 ≤ sl.maxValidatorCnt) :
    sl.Agrees delgs ↔ ∀ d ∈ delgs, ∀ d' ∈ delgs, ¬ Misplaced sl.maxValidatorCnt delgs d d' := by
  have distinct := tracks.distinct
  have perm := (sortedFrom_byObject delgs).perm
  have perm' := (sortedFrom_powerLess delgs).perm
  have taken := mem_take_byObject distinct sl.maxValidatorCnt
  rw [tracks.agrees_iff_take sorted natural, take_agree_iff (fun _ _ => PowerObj.Ahead.asymm)
    (fun _ _ => Outranks.asymm) (perm.trans perm'.symm) (pairwise_byObject distinct)
    (pairwise_byPower distinct)]
  constructor
  · rintro unbeaten d member d' member' ⟨power, fewer, address, inside, outside⟩
    refine unbeaten d ((taken d).mpr ⟨member, inside⟩) d' (perm.mem_iff.mpr member') ?_
      (.inr ⟨power.symm, .inl fewer⟩)
    rw [taken]
    exact fun within => absurd within.2 (not_lt.mpr outside)
  · intro placed d inside d' member' outside outranks
    have ahead : d.powerObj.Ahead d'.powerObj :=
      ahead_of_mem_take (pairwise_byObject distinct) inside member' outside
    rw [perm.mem_iff] at member'
    rw [taken] at inside outside
    -- the orders differ only between delegatees of the same power
    have apart : d.totalPower = d'.totalPower ∧ compare d.addr d'.addr = .gt := by
      rcases ahead with less | same
      · rcases outranks with power | ⟨power, -⟩
        · exact absurd less (not_lt.mpr power.le)
        · exact absurd less (not_lt.mpr power.ge)
      · exact same
    have more : d.stakes.length < d'.stakes.length := by
      rcases outranks with power | ⟨-, fewer | ⟨-, order⟩⟩
      · exact absurd power (not_lt.mpr apart.1.ge)
      · exact fewer
      · have back : compare d.addr d'.addr = .lt := Std.OrientedCmp.lt_of_gt order
        rw [apart.2] at back
        cases back
    refine placed d inside.1 d' member' ⟨apart.1, more, apart.2, inside.2, ?_⟩
    exact not_lt.mp fun small => outside ⟨member', small⟩

/-- After accepted calls the limiter takes the delegatees for validators that the selection takes,
exactly if nobody has the place of another one with the same power. -/
theorem accepted_agrees_iff {updated : List Delegatee} {calls : List Call} {maxValCnt : Int}
    {indiLimitRatio upLimitRatio : Int} (distinct : (delgs.map Delegatee.addr).Nodup)
    (natural : 0 ≤ maxValCnt) (nonempty : calls ≠ [])
    (known : ∀ call ∈ calls, call.delg.addr ∈ delgs.map Delegatee.addr)
    (ran : (reset delgs maxValCnt indiLimitRatio upLimitRatio).accepted calls = some sl)
    (powers : (updated.map Delegatee.powerObj).Perm
      ((calls.foldl changed delgs).map Delegatee.powerObj)) :
    sl.Agrees updated ↔ ∀ d ∈ updated, ∀ d' ∈ updated, ¬ Misplaced maxValCnt updated d d' := by
  obtain ⟨tracks, count, sorted⟩ :=
    (tracks_reset distinct maxValCnt indiLimitRatio upLimitRatio).accepted known ran
  have count' : sl.maxValidatorCnt = maxValCnt := count
  have tracks' : sl.Tracks updated := by
    refine ⟨tracks.objects.trans powers.symm, ?_⟩
    have addresses := powers.map PowerObj.addr
    rw [List.map_map, List.map_map] at addresses
    exact addresses.nodup_iff.mpr tracks.distinct
  rw [← count']
  exact tracks'.agrees_iff (sorted nonempty) (count' ▸ natural)

/-- A delegatee with some stakes. -/
def withStakes (addr : Address) (power : Int) (count : Nat) : Delegatee :=
  { addr := addr, pubKey := addr, selfPower := power, totalPower := power, slashedPower := 0
    stakes := List.replicate count ⟨addr, addr, [], 1, 0, 1⟩
    notSignedHeights := ⟨[]⟩ }

/-- The limiter after a delegatee with power 9 asked for one more, beside one with power 10. -/
def askedOnce : StakeLimiter where
  individualLimitRatio := 100
  updatableLimitRatio := 100
  maxValidatorCnt := 1
  powerObjs := [⟨[2], 10⟩, ⟨[1], 10⟩]
  baseTotalPower := 10
  updatedPower := 0

theorem accepted_askedOnce :
    (reset [withStakes [1] 10 3, withStakes [2] 9 1] 1 100 100).accepted
      [⟨withStakes [2] 9 1, 1⟩] = some askedOnce := by decide +kernel

/-- If the delegatee has as many stakes as the other one, it is the validator in both. -/
theorem accepted_agrees_iff_one :
    askedOnce.Agrees [withStakes [1] 10 2, withStakes [2] 10 2] ↔
      ∀ d ∈ [withStakes [1] 10 2, withStakes [2] 10 2],
        ∀ d' ∈ [withStakes [1] 10 2, withStakes [2] 10 2],
          ¬ Misplaced 1 [withStakes [1] 10 2, withStakes [2] 10 2] d d' :=
  accepted_agrees_iff (by decide) (by decide) (by decide) (by decide) accepted_askedOnce
    (by decide +kernel)

/-- With one place for a validator, the limiter gives it to a delegatee with two stakes, and the
selection to the one with three. -/
theorem not_agrees_askedOnce :
    (reset [withStakes [1] 10 3, withStakes [2] 9 1] 1 100 100).accepted
        [⟨withStakes [2] 9 1, 1⟩] = some askedOnce ∧
      ([withStakes [1] 10 3, withStakes [2] 10 2].map Delegatee.powerObj).Perm
        ((changed [withStakes [1] 10 3, withStakes [2] 9 1] ⟨withStakes [2] 9 1, 1⟩).map
          Delegatee.powerObj) ∧
      ¬ askedOnce.Agrees [withStakes [1] 10 3, withStakes [2] 10 2] := by
  refine ⟨accepted_askedOnce, by decide +kernel, ?_⟩
  rintro ⟨selected, chosen, agree⟩
  have first : selected = [withStakes [1] 10 3] := by
    cases chosen
    decide +kernel
  subst first
  exact absurd ((agree [2]).mp (by decide +kernel)) (by decide +kernel)

end StakeLimiter

end Rigo
