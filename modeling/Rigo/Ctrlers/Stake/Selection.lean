import Rigo.Foundation.Triple
import Rigo.Foundation.Updates
import Rigo.Ctrlers.Stake.Ctrler

/-!
# The selection of validators and its changes

The delegatees are sorted by power and the first of them are selected.  Delegatees with distinct
addresses have one order by power, so the selection depends neither on the order in which they
were listed nor on how they were sorted (`selectValidators_unique`).

`validatorUpdates` compares two lists of delegatees sorted by address.  Its updates tell the
difference between the powers in the two lists: whoever applies them to the powers of the
existing validators has the powers of the new ones (`validatorUpdates_exact`).
-/

namespace Rigo

open Foundation
open Delegatee

variable {d d' : Delegatee} {params : GovParams} {ls ls' : Stores} {u : ValidatorUpdate}

/-! ## Sorting -/

/-- What a correct comparison sort may make of a list: nothing is in front of what it should be
after.  Elements that the comparison does not tell apart may come in any order. -/
structure SortedFrom {α : Type} (less : α → α → Bool) (list result : List α) : Prop where
  perm : result.Perm list
  ordered : result.Pairwise fun x y => less y x = false

/-- What is sorted by a comparison that tells the elements apart has one order. -/
theorem SortedFrom.unique {α : Type} {less : α → α → Bool} {list list' result result' : List α}
    (sorted : SortedFrom less list result) (sorted' : SortedFrom less list' result')
    (same : list.Perm list')
    (apart : ∀ x ∈ list, ∀ y ∈ list, less x y = false → less y x = false → x = y) :
    result = result' := by
  refine List.Perm.eq_of_pairwise ?_ sorted.ordered sorted'.ordered
    ((sorted.perm.trans same).trans sorted'.perm.symm)
  intro x y member member' before after
  exact apart x (sorted.perm.mem_iff.mp member) y
    (same.mem_iff.mpr (sorted'.perm.mem_iff.mp member')) after before

/-- `sortBy` is a correct sort. -/
theorem sortedFrom_sortBy {α : Type} {less : α → α → Bool}
    (total : ∀ x y, less y x = false ∨ less x y = false)
    (trans : ∀ x y z, less y x = false → less z y = false → less z x = false) (list : List α) :
    SortedFrom less list (sortBy less list) := by
  have : Std.Total fun x y => less y x = false := ⟨total⟩
  have : IsTrans α fun x y => less y x = false := ⟨trans⟩
  exact ⟨sortBy_perm less list, List.pairwise_insertionSort _ list⟩

namespace Delegatee

variable {d d' : Delegatee}

theorem not_addrLess_iff :
    d'.addrLess d = false ↔ (compare d.addr d'.addr).isLE = true := by
  unfold addrLess
  rw [Std.OrientedOrd.eq_swap (a := d.addr)]
  cases compare d'.addr d.addr <;> decide

/-- `AddressOrderDelegatees`. -/
theorem sortedFrom_addrLess (list : List Delegatee) :
    SortedFrom addrLess list (sortBy addrLess list) := by
  apply sortedFrom_sortBy
  · intro d d'
    rw [not_addrLess_iff, not_addrLess_iff, Std.OrientedOrd.eq_swap (a := d.addr)]
    cases compare d'.addr d.addr <;> decide
  · intro d d' d'' first second
    rw [not_addrLess_iff] at first second ⊢
    exact Std.TransCmp.isLE_trans first second

/-- The order of `PowerOrderDelegatees`: total power, then number of stakes, then address, all
descending. -/
def Outranks (d d' : Delegatee) : Prop :=
  d'.totalPower < d.totalPower ∨ d.totalPower = d'.totalPower ∧
    (d'.stakes.length < d.stakes.length ∨ d.stakes.length = d'.stakes.length ∧
      compare d.addr d'.addr = .gt)

theorem powerLess_iff : d.powerLess d' = true ↔ d.Outranks d' := by
  unfold powerLess Outranks
  by_cases power : d.totalPower = d'.totalPower
  · by_cases count : d.stakes.length = d'.stakes.length
    · simp [power, count]
    · simp [power, count]
  · simp [power]

theorem Outranks.trans {d'' : Delegatee} (first : d.Outranks d') (second : d'.Outranks d'') :
    d.Outranks d'' := by
  unfold Outranks at first second ⊢
  rcases first with power | ⟨power, count | ⟨count, order⟩⟩ <;>
    rcases second with power' | ⟨power', count' | ⟨count', order'⟩⟩
  all_goals first
    | exact .inl (by omega)
    | exact .inr ⟨by omega, .inl (by omega)⟩
    | exact .inr ⟨by omega, .inr ⟨by omega, Std.TransCmp.gt_trans order order'⟩⟩

theorem Outranks.asymm (outranks : d.Outranks d') : ¬ d'.Outranks d := by
  intro back
  have self := outranks.trans back
  rcases self with power | ⟨-, count | ⟨-, order⟩⟩
  · exact lt_irrefl _ power
  · exact lt_irrefl _ count
  · rw [Std.ReflOrd.compare_self] at order
    cases order

/-- Two delegatees between which the order does not decide. -/
def Level (d d' : Delegatee) : Prop :=
  d.totalPower = d'.totalPower ∧ d.stakes.length = d'.stakes.length ∧ d.addr = d'.addr

theorem Level.outranks {d'' : Delegatee} (level : d.Level d') (outranks : d''.Outranks d) :
    d''.Outranks d' := by
  obtain ⟨power, count, address⟩ := level
  unfold Outranks at outranks ⊢
  rw [← power, ← count, ← address]
  exact outranks

theorem outranks_trichotomy (d d' : Delegatee) :
    d.Outranks d' ∨ d'.Outranks d ∨ d.Level d' := by
  unfold Outranks Level
  rcases lt_trichotomy d.totalPower d'.totalPower with less | same | more
  · exact .inr (.inl (.inl less))
  · rcases lt_trichotomy d.stakes.length d'.stakes.length with fewer | equal | more
    · exact .inr (.inl (.inr ⟨same.symm, .inl fewer⟩))
    · cases compared : compare d.addr d'.addr with
      | lt =>
        have order : compare d'.addr d.addr = .gt := Std.OrientedCmp.gt_of_lt compared
        exact .inr (.inl (.inr ⟨same.symm, .inr ⟨equal.symm, order⟩⟩))
      | eq => exact .inr (.inr ⟨same, equal, Std.LawfulEqOrd.eq_of_compare compared⟩)
      | gt => exact .inl (.inr ⟨same, .inr ⟨equal, rfl⟩⟩)
    · exact .inl (.inr ⟨same, .inl more⟩)
  · exact .inl (.inl more)

theorem not_powerLess_iff : d'.powerLess d = false ↔ ¬ d'.Outranks d := by
  rw [← powerLess_iff, Bool.not_eq_true]

theorem outranks_of_not (other : d.addr ≠ d'.addr)
    (behind : d'.powerLess d = false) : d.Outranks d' := by
  rw [not_powerLess_iff] at behind
  rcases outranks_trichotomy d d' with outranks | outranks | ⟨-, -, address⟩
  · exact outranks
  · exact absurd outranks behind
  · exact absurd address other

/-- `PowerOrderDelegatees`. -/
theorem sortedFrom_powerLess (list : List Delegatee) :
    SortedFrom powerLess list (sortBy powerLess list) := by
  apply sortedFrom_sortBy
  · intro d d'
    rw [not_powerLess_iff, not_powerLess_iff]
    by_cases outranks : d'.Outranks d
    · exact .inr outranks.asymm
    · exact .inl outranks
  · intro d d' d'' first second
    rw [not_powerLess_iff] at first second ⊢
    intro outranks
    rcases outranks_trichotomy d d' with ahead | behind | level
    · exact second (outranks.trans ahead)
    · exact first behind
    · exact second (level.outranks outranks)

end Delegatee

namespace StakeCtrler

/-! ## Selecting validators -/

variable {list : List Delegatee}

/-- Delegatees with distinct addresses are told apart by their powers, counts and addresses. -/
theorem apart_of_distinct (distinct : (list.map Delegatee.addr).Nodup) :
    ∀ d ∈ list, ∀ d' ∈ list, d.powerLess d' = false → d'.powerLess d = false → d = d' := by
  intro d member d' member' before after
  refine List.inj_on_of_nodup_map distinct member member' ?_
  by_contra other
  have outranks := powerLess_iff.mpr (outranks_of_not other after)
  rw [outranks] at before
  cases before

/-- The delegatees with enough power of their own, in the order of power. -/
def eligible (params : GovParams) (list : List Delegatee) : List Delegatee :=
  sortBy powerLess
    (list.filter fun d => powerOf params.minValidatorStake ≤ d.selfPower)

/-- The first of them. -/
def selected (params : GovParams) (list : List Delegatee) : List Delegatee :=
  (eligible params list).take params.maxValidatorCnt.toNat

/-- `allDelegatees` after `updateValidators`: the selected part of it is the slice that is sorted
by address and back in place. -/
def resorted (byAddr byPower : List Delegatee → List Delegatee) (allDelegatees : List Delegatee)
    (n : Nat) : List Delegatee :=
  byPower (byAddr (allDelegatees.take n)) ++ allDelegatees.drop n

/-- However the delegatees were listed and sorted, the same ones are selected, in the same order:
each outranks all that are not selected.  Sorting the selection by address and back leaves it
and the list it was taken from as they are. -/
theorem selectValidators_unique {list list' result result' : List Delegatee}
    (distinct : (list.map Delegatee.addr).Nodup) (same : list.Perm list')
    (sorted : SortedFrom powerLess list result)
    (sorted' : SortedFrom powerLess list' result') {n : Int} (natural : 0 ≤ n) :
    selectValidators result n = selectValidators result' n ∧
    (∃ selected, selectValidators result n = pure selected ∧
      selected.length = min n.toNat list.length ∧ (∀ d ∈ selected, d ∈ list) ∧
      ∀ d ∈ selected, ∀ d' ∈ list, d' ∉ selected → d.Outranks d') ∧
    ∀ byAddr byPower : List Delegatee → List Delegatee,
      (∀ l, SortedFrom addrLess l (byAddr l)) →
      (∀ l, SortedFrom powerLess l (byPower l)) →
      byPower (byAddr (result.take n.toNat)) = result.take n.toNat ∧
      resorted byAddr byPower result n.toNat = result := by
  have one : result = result' := sorted.unique sorted' same (apart_of_distinct distinct)
  have distinct' : (result.map Delegatee.addr).Nodup :=
    (sorted.perm.map Delegatee.addr).nodup_iff.mpr distinct
  have select : selectValidators result n = pure (result.take n.toNat) := by
    rw [selectValidators, if_neg (not_lt.mpr natural)]
  refine ⟨by rw [one], ⟨result.take n.toNat, select, ?_, ?_, ?_⟩, ?_⟩
  · rw [List.length_take, sorted.perm.length_eq]
  · intro d member
    exact sorted.perm.mem_iff.mp (List.mem_of_mem_take member)
  · intro d member d' member' unselected
    have split := List.take_append_drop n.toNat result
    have dropped : d' ∈ result.drop n.toNat := by
      have present : d' ∈ result := sorted.perm.mem_iff.mpr member'
      rw [← split, List.mem_append] at present
      exact present.resolve_left unselected
    have ordered := sorted.ordered
    rw [← split, List.pairwise_append] at ordered
    refine outranks_of_not ?_ (ordered.2.2 d member d' dropped)
    intro address
    refine unselected ?_
    have equal := List.inj_on_of_nodup_map distinct' (List.mem_of_mem_take member)
      (List.mem_of_mem_drop dropped) address
    rw [← equal]
    exact member
  · intro byAddr byPower addrSort powerSort
    have selectedSorted : SortedFrom powerLess (result.take n.toNat)
        (result.take n.toNat) :=
      ⟨List.Perm.refl _, sorted.ordered.sublist (List.take_sublist _ _)⟩
    have distinctTaken : ((result.take n.toNat).map Delegatee.addr).Nodup :=
      distinct'.sublist ((List.take_sublist _ _).map _)
    have distinctSorted : ((byAddr (result.take n.toNat)).map Delegatee.addr).Nodup :=
      ((addrSort (result.take n.toNat)).perm.map Delegatee.addr).nodup_iff.mpr distinctTaken
    have back : byPower (byAddr (result.take n.toNat)) = result.take n.toNat :=
      (powerSort (byAddr (result.take n.toNat))).unique selectedSorted (addrSort _).perm
        (apart_of_distinct distinctSorted)
    refine ⟨back, ?_⟩
    rw [resorted, back, List.take_append_drop]

/-- A delegatee with a power, whose key is its address. -/
def keyedBy (n : UInt8) (power : Int) : Delegatee :=
  { newDelegatee (zeroBytes 19 ++ [n]) (zeroBytes 19 ++ [n]) with totalPower := power }

/-- Two delegatees with the same power, listed in either order. -/
theorem selectValidators_unique_two :
    selectValidators (sortBy powerLess [keyedBy 1 10, keyedBy 2 10]) 1 =
      selectValidators (sortBy powerLess [keyedBy 2 10, keyedBy 1 10]) 1 :=
  (selectValidators_unique (by decide) (.swap _ _ _) (sortedFrom_powerLess _)
    (sortedFrom_powerLess _) (by decide)).1

/-! ## Comparing two sorted lists -/

/-- Delegatees in ascending order of their addresses. -/
def Ascending (list : List Delegatee) : Prop :=
  list.Pairwise fun d d' => compare d.addr d'.addr = .lt

variable {d : Delegatee}

theorem Ascending.tail (sorted : Ascending (d :: list)) :
    Ascending list := List.Pairwise.of_cons sorted

theorem Ascending.lt (sorted : Ascending (d :: list))
    (member : d' ∈ list) : compare d.addr d'.addr = .lt := List.rel_of_pairwise_cons sorted member

/-- Sorting by address gives ascending addresses. -/
theorem ascending_sortBy (distinct : (list.map Delegatee.addr).Nodup) :
    Ascending (sortBy addrLess list) := by
  have sorted := sortedFrom_addrLess list
  have distinct' := ((sorted.perm.map Delegatee.addr).nodup_iff.mpr distinct)
  refine (sorted.ordered.and (List.pairwise_map.mp distinct')).imp ?_
  rintro d d' ⟨order, differs⟩
  rw [not_addrLess_iff] at order
  cases compared : compare d.addr d'.addr with
  | lt => rfl
  | eq => exact absurd (Std.LawfulEqOrd.eq_of_compare compared) differs
  | gt =>
    rw [compared] at order
    cases order

/-- The cases of `validatorUpdates`, for a proof by induction. -/
theorem updates_induction {motive : List Delegatee → List Delegatee → Prop}
    (added : ∀ newers, motive [] newers)
    (gone : ∀ existing rest, motive rest [] → motive (existing :: rest) [])
    (lt : ∀ existing rest newer newers, compare existing.addr newer.addr = .lt →
      motive rest (newer :: newers) → motive (existing :: rest) (newer :: newers))
    (eq : ∀ existing rest newer newers, compare existing.addr newer.addr = .eq →
      motive rest newers → motive (existing :: rest) (newer :: newers))
    (gt : ∀ existing rest newer newers, compare existing.addr newer.addr = .gt →
      motive (existing :: rest) newers → motive (existing :: rest) (newer :: newers))
    (existing newers : List Delegatee) : motive existing newers := by
  induction existing generalizing newers with
  | nil => exact added newers
  | cons head tail ih =>
    induction newers with
    | nil => exact gone head tail (ih [])
    | cons newer newers ih' =>
      cases order : compare head.addr newer.addr with
      | lt => exact lt head tail newer newers order (ih (newer :: newers))
      | eq => exact eq head tail newer newers order (ih newers)
      | gt => exact gt head tail newer newers order ih'

section

variable {e n : Delegatee} {es ns : List Delegatee}

@[simp] theorem validatorUpdates_nil : validatorUpdates [] ns = ns.map updated := rfl

@[simp] theorem validatorUpdates_cons_nil :
    validatorUpdates (e :: es) [] = removed e :: validatorUpdates es [] := rfl

theorem validatorUpdates_of_lt (order : compare e.addr n.addr = .lt) :
    validatorUpdates (e :: es) (n :: ns) = removed e :: validatorUpdates es (n :: ns) := by
  rw [validatorUpdates, updatesAgainst, order]

theorem validatorUpdates_of_eq (order : compare e.addr n.addr = .eq) :
    validatorUpdates (e :: es) (n :: ns) =
      if e.totalPower ≠ n.totalPower then updated n :: validatorUpdates es ns
      else validatorUpdates es ns := by
  rw [validatorUpdates, updatesAgainst, order]

theorem validatorUpdates_of_gt (order : compare e.addr n.addr = .gt) :
    validatorUpdates (e :: es) (n :: ns) = updated n :: validatorUpdates (e :: es) ns := by
  rw [validatorUpdates, updatesAgainst, order, validatorUpdates]

end

/-! ## Addresses -/

/-- The delegatee with an address. -/
def withAddr (list : List Delegatee) (addr : Address) : Option Delegatee :=
  list.find? fun d => d.addr = addr

theorem withAddr_cons (d : Delegatee) (list : List Delegatee) (addr : Address) :
    withAddr (d :: list) addr = if d.addr = addr then some d else withAddr list addr := by
  by_cases here : d.addr = addr <;> simp [withAddr, here]

variable {addr : Address}

theorem withAddr_eq_some (found : withAddr list addr = some d) : d ∈ list ∧ d.addr = addr := by
  have holds := List.find?_some found
  exact ⟨List.mem_of_find?_eq_some found, by simpa using holds⟩

theorem withAddr_eq_none :
    withAddr list addr = none ↔ ∀ d ∈ list, d.addr ≠ addr := by
  simp [withAddr, List.find?_eq_none]

theorem withAddr_iff (distinct : (list.map Delegatee.addr).Nodup) :
    withAddr list addr = some d ↔ d ∈ list ∧ d.addr = addr := by
  refine ⟨withAddr_eq_some, ?_⟩
  rintro ⟨member, rfl⟩
  cases found : withAddr list d.addr with
  | none => exact absurd rfl (withAddr_eq_none.mp found d member)
  | some d' =>
    obtain ⟨member', same⟩ := withAddr_eq_some found
    rw [List.inj_on_of_nodup_map distinct member' member same]

theorem compare_addr_self (addr : Address) : compare addr addr = .eq := Std.ReflOrd.compare_self

/-- An address before those of all delegatees is none of theirs. -/
theorem withAddr_of_lt (before : ∀ d ∈ list, compare addr d.addr = .lt) :
    withAddr list addr = none := by
  rw [withAddr_eq_none]
  rintro d member rfl
  have order := before d member
  rw [compare_addr_self] at order
  cases order

/-- The head of a sorted list is the only one with its address. -/
theorem Ascending.withAddr_tail (sorted : Ascending (d :: list)) : withAddr list d.addr = none :=
  withAddr_of_lt fun _ member => sorted.lt member

theorem Ascending.withAddr_of_mem (sorted : Ascending list) (member : d ∈ list) :
    withAddr list d.addr = some d := by
  induction list with
  | nil => cases member
  | cons head tail ih =>
    rw [withAddr_cons]
    rcases List.mem_cons.mp member with rfl | inTail
    · rw [if_pos rfl]
    · have other : head.addr ≠ d.addr := by
        intro same
        have order := sorted.lt inTail
        rw [same, compare_addr_self] at order
        cases order
      rw [if_neg other]
      exact ih sorted.tail inTail

/-- Every delegatee of the first list is in the second one with another power. -/
def Repowered (existing newers : List Delegatee) : Prop :=
  ∀ e ∈ existing, ∃ n ∈ newers, n.addr = e.addr ∧ n.totalPower ≠ e.totalPower

theorem Repowered.tail {existing newers : List Delegatee} (anew : Repowered existing (d :: newers))
    (other : ∀ e ∈ existing, d.addr ≠ e.addr) : Repowered existing newers := by
  intro e member
  obtain ⟨n, member', same, power⟩ := anew e member
  rcases List.mem_cons.mp member' with rfl | later
  · exact absurd same (other e member)
  · exact ⟨n, later, same, power⟩

/-- If every existing validator has another power, all new validators are updated, as if there had
been none before. -/
theorem validatorUpdates_repowered (existing newers : List Delegatee) (sorted : Ascending existing)
    (sorted' : Ascending newers) (anew : Repowered existing newers) :
    validatorUpdates existing newers = newers.map updated := by
  induction existing, newers using updates_induction with
  | added newers => rfl
  | gone e es ih =>
    obtain ⟨n, absent, -⟩ := anew e List.mem_cons_self
    cases absent
  | lt e es n ns order ih =>
    -- the address of `e` is before those of all new validators
    obtain ⟨n', member, same, -⟩ := anew e List.mem_cons_self
    rcases List.mem_cons.mp member with rfl | later
    · rw [same, compare_addr_self] at order
      cases order
    · have less := sorted'.lt later
      rw [same, Std.OrientedOrd.eq_swap, order] at less
      cases less
  | eq e es n ns order ih =>
    have power : e.totalPower ≠ n.totalPower := by
      obtain ⟨n', member, same, power⟩ := anew e List.mem_cons_self
      rcases List.mem_cons.mp member with rfl | later
      · exact power.symm
      · have less := sorted'.lt later
        rw [same, Std.OrientedOrd.eq_swap, order] at less
        cases less
    rw [validatorUpdates_of_eq order, if_pos power, List.map_cons, ih sorted.tail sorted'.tail]
    refine Repowered.tail (fun e' later => anew e' (List.mem_cons_of_mem _ later)) ?_
    intro e' later same
    have less := sorted.lt later
    rw [← same, order] at less
    cases less
  | gt e es n ns order ih =>
    rw [validatorUpdates_of_gt order, List.map_cons, ih sorted sorted'.tail]
    refine anew.tail fun e' member same => ?_
    rcases List.mem_cons.mp member with rfl | later
    · rw [same, compare_addr_self] at order
      cases order
    · have less := sorted.lt later
      rw [← same, order] at less
      cases less

/-- The power of each address in a list. -/
def powersOf (list : List Delegatee) (addr : Address) : Option Int :=
  (withAddr list addr).map totalPower

/-! ## The difference -/

/-- The public keys of delegatees belong to their addresses. -/
def Keyed (addressOf : HexBytes → Address) (list : List Delegatee) : Prop :=
  ∀ d ∈ list, addressOf d.pubKey = d.addr

/-- The update that names an address. -/
def naming (addressOf : HexBytes → Address) (updates : List ValidatorUpdate) (addr : Address) :
    Option ValidatorUpdate :=
  updates.find? fun u => addressOf u.pubKey = addr

/-- The update for an existing and a new validator with one address. -/
def difference : Option Delegatee → Option Delegatee → Option ValidatorUpdate
  | none, none => none
  | none, some n => some (updated n)
  | some e, none => some (removed e)
  | some e, some n => if e.totalPower ≠ n.totalPower then some (updated n) else none

section

variable {addressOf : HexBytes → Address}

variable {list : List Delegatee}

theorem Keyed.tail (keyed : Keyed addressOf (d :: list)) :
    Keyed addressOf list := fun d' member => keyed d' (List.mem_cons_of_mem _ member)

theorem Keyed.head (keyed : Keyed addressOf (d :: list)) :
    addressOf d.pubKey = d.addr := keyed d List.mem_cons_self

theorem naming_cons (u : ValidatorUpdate) (updates : List ValidatorUpdate) (addr : Address) :
    naming addressOf (u :: updates) addr =
      if addressOf u.pubKey = addr then some u else naming addressOf updates addr := by
  by_cases here : addressOf u.pubKey = addr <;> simp [naming, here]

/-- The updates name every address with the update for its validators. -/
theorem naming_validatorUpdates (existing newers : List Delegatee) (addr : Address) :
    Keyed addressOf existing → Keyed addressOf newers → Ascending existing → Ascending newers →
    naming addressOf (validatorUpdates existing newers) addr =
      difference (withAddr existing addr) (withAddr newers addr) := by
  induction existing, newers using updates_induction with
  | added newers =>
    intro _ keyed _ sorted
    induction newers with
    | nil => rfl
    | cons n ns ih =>
      rw [validatorUpdates_nil, List.map_cons, naming_cons, withAddr_cons]
      rw [show addressOf (updated n).pubKey = n.addr from keyed.head]
      split
      · rfl
      · exact ih keyed.tail sorted.tail
  | gone e es ih =>
    intro keyed keyed' sorted sorted'
    rw [validatorUpdates_cons_nil, naming_cons, withAddr_cons,
      show addressOf (removed e).pubKey = e.addr from keyed.head]
    split
    · rfl
    · exact ih keyed.tail keyed' sorted.tail sorted'
  | lt e es n ns order ih =>
    intro keyed keyed' sorted sorted'
    rw [validatorUpdates_of_lt order, naming_cons, withAddr_cons,
      show addressOf (removed e).pubKey = e.addr from keyed.head]
    split
    · next here =>
      -- all new validators come after `e`
      have missing : withAddr (n :: ns) e.addr = none := by
        refine withAddr_of_lt fun d member => ?_
        rcases List.mem_cons.mp member with rfl | later
        · exact order
        · exact Std.TransCmp.lt_trans order (sorted'.lt later)
      rw [← here, missing]
      rfl
    · exact ih keyed.tail keyed' sorted.tail sorted'
  | eq e es n ns order ih =>
    intro keyed keyed' sorted sorted'
    have same : e.addr = n.addr := Std.LawfulEqOrd.eq_of_compare order
    have rest := ih keyed.tail keyed'.tail sorted.tail sorted'.tail
    rw [validatorUpdates_of_eq order, withAddr_cons, withAddr_cons, ← same]
    by_cases here : e.addr = addr
    · subst here
      rw [if_pos rfl, if_pos rfl, difference]
      split
      · rw [naming_cons, show addressOf (updated n).pubKey = n.addr from keyed'.head, same,
          if_pos rfl]
      · rw [rest, sorted.withAddr_tail, same, sorted'.withAddr_tail]
        rfl
    · rw [if_neg here, if_neg here, ← rest]
      split
      · rw [naming_cons, show addressOf (updated n).pubKey = n.addr from keyed'.head, ← same,
          if_neg here]
      · rfl
  | gt e es n ns order ih =>
    intro keyed keyed' sorted sorted'
    have rest := ih keyed keyed'.tail sorted sorted'.tail
    rw [validatorUpdates_of_gt order, naming_cons, withAddr_cons (d := n),
      show addressOf (updated n).pubKey = n.addr from keyed'.head]
    split
    · next here =>
      -- all existing validators come after `n`
      have order' : compare n.addr e.addr = .lt := Std.OrientedCmp.lt_of_gt order
      have missing : withAddr (e :: es) n.addr = none := by
        refine withAddr_of_lt fun d member => ?_
        rcases List.mem_cons.mp member with rfl | later
        · exact order'
        · exact Std.TransCmp.lt_trans order' (sorted.lt later)
      rw [← here, missing]
      rfl
    · exact rest

/-- An update is about one of the delegatees. -/
theorem pubKey_of_mem (existing newers : List Delegatee) :
    u ∈ validatorUpdates existing newers → ∃ d ∈ existing ++ newers, u.pubKey = d.pubKey := by
  induction existing, newers using updates_induction with
  | added newers =>
    intro member
    obtain ⟨n, present, rfl⟩ := List.mem_map.mp member
    exact ⟨n, present, rfl⟩
  | gone e es ih =>
    intro member
    rcases List.mem_cons.mp member with rfl | later
    · exact ⟨e, by simp, rfl⟩
    · obtain ⟨d, present, same⟩ := ih later
      exact ⟨d, List.mem_cons_of_mem _ present, same⟩
  | lt e es n ns order ih =>
    rw [validatorUpdates_of_lt order]
    intro member
    rcases List.mem_cons.mp member with rfl | later
    · exact ⟨e, by simp, rfl⟩
    · obtain ⟨d, present, same⟩ := ih later
      exact ⟨d, List.mem_cons_of_mem _ present, same⟩
  | eq e es n ns order ih =>
    rw [validatorUpdates_of_eq order]
    have widen {d : Delegatee} (present : d ∈ es ++ ns) : d ∈ e :: es ++ n :: ns := by
      simp only [List.mem_append, List.mem_cons] at present ⊢
      tauto
    intro member
    split at member
    · rcases List.mem_cons.mp member with rfl | later
      · exact ⟨n, by simp, rfl⟩
      · obtain ⟨d, present, same⟩ := ih later
        exact ⟨d, widen present, same⟩
    · obtain ⟨d, present, same⟩ := ih member
      exact ⟨d, widen present, same⟩
  | gt e es n ns order ih =>
    rw [validatorUpdates_of_gt order]
    intro member
    rcases List.mem_cons.mp member with rfl | later
    · exact ⟨n, by simp, rfl⟩
    · obtain ⟨d, present, same⟩ := ih later
      refine ⟨d, ?_, same⟩
      simp only [List.mem_append, List.mem_cons] at present ⊢
      tauto

/-- The updates are sorted by address too. -/
theorem ascending_validatorUpdates (existing newers : List Delegatee) :
    Keyed addressOf existing → Keyed addressOf newers → Ascending existing → Ascending newers →
    (validatorUpdates existing newers).Pairwise fun u u' =>
      compare (addressOf u.pubKey) (addressOf u'.pubKey) = .lt := by
  -- an update that goes to the front is about a delegatee before all that are left
  have front {d : Delegatee} {es ns : List Delegatee} {u u' : ValidatorUpdate}
      (keyed : Keyed addressOf (es ++ ns)) (key : addressOf u.pubKey = d.addr)
      (before : ∀ d' ∈ es ++ ns, compare d.addr d'.addr = .lt)
      (member : u' ∈ validatorUpdates es ns) :
      compare (addressOf u.pubKey) (addressOf u'.pubKey) = .lt := by
    obtain ⟨d', present, same⟩ := pubKey_of_mem es ns member
    rw [key, same, keyed d' present]
    exact before d' present
  have both {es ns : List Delegatee} (keyed : Keyed addressOf es) (keyed' : Keyed addressOf ns) :
      Keyed addressOf (es ++ ns) := by
    intro d member
    rcases List.mem_append.mp member with old | new
    · exact keyed d old
    · exact keyed' d new
  induction existing, newers using updates_induction with
  | added newers =>
    intro _ keyed _ sorted
    rw [validatorUpdates_nil, List.pairwise_map]
    refine sorted.imp_of_mem fun {d d'} member member' order => ?_
    rw [show addressOf (updated d).pubKey = d.addr from keyed d member,
      show addressOf (updated d').pubKey = d'.addr from keyed d' member']
    exact order
  | gone e es ih =>
    intro keyed keyed' sorted sorted'
    refine List.Pairwise.cons (fun u' member => ?_) (ih keyed.tail keyed' sorted.tail sorted')
    refine front (both keyed.tail keyed') keyed.head (fun d' present => ?_) member
    exact sorted.lt (by simpa using present)
  | lt e es n ns order ih =>
    intro keyed keyed' sorted sorted'
    rw [validatorUpdates_of_lt order]
    refine List.Pairwise.cons (fun u' member => ?_) (ih keyed.tail keyed' sorted.tail sorted')
    refine front (both keyed.tail keyed') keyed.head (fun d' present => ?_) member
    rcases List.mem_append.mp present with old | new
    · exact sorted.lt old
    · rcases List.mem_cons.mp new with rfl | later
      · exact order
      · exact Std.TransCmp.lt_trans order (sorted'.lt later)
  | eq e es n ns order ih =>
    intro keyed keyed' sorted sorted'
    have rest := ih keyed.tail keyed'.tail sorted.tail sorted'.tail
    have same : e.addr = n.addr := Std.LawfulEqOrd.eq_of_compare order
    rw [validatorUpdates_of_eq order]
    split
    · refine List.Pairwise.cons (fun u' member => ?_) rest
      refine front (both keyed.tail keyed'.tail) keyed'.head (fun d' present => ?_) member
      rcases List.mem_append.mp present with old | new
      · exact same ▸ sorted.lt old
      · exact sorted'.lt new
    · exact rest
  | gt e es n ns order ih =>
    intro keyed keyed' sorted sorted'
    have order' : compare n.addr e.addr = .lt := Std.OrientedCmp.lt_of_gt order
    rw [validatorUpdates_of_gt order]
    refine List.Pairwise.cons (fun u' member => ?_) (ih keyed keyed'.tail sorted sorted'.tail)
    refine front (both keyed keyed'.tail) keyed'.head (fun d' present => ?_) member
    rcases List.mem_append.mp present with old | new
    · rcases List.mem_cons.mp old with rfl | later
      · exact order'
      · exact Std.TransCmp.lt_trans order' (sorted.lt later)
    · exact sorted'.lt new

/-! ## Applying the updates -/

/-- What the updates say: power 0 removes, any other power inserts or replaces. -/
def changes (addressOf : HexBytes → Address) (updates : List ValidatorUpdate) :
    List (Address × Option Int) :=
  updates.map fun u => (addressOf u.pubKey, if u.power = 0 then none else some u.power)

/-- The powers that updates can tell of: a validator with power 0 is none. -/
def heldPowers (list : List Delegatee) (addr : Address) : Option Int :=
  (powersOf list addr).filter fun power => power ≠ 0

theorem heldPowers_of_nonzero (nonzero : ∀ d ∈ list, d.totalPower ≠ 0) :
    heldPowers list = powersOf list := by
  funext addr
  unfold heldPowers powersOf
  cases found : withAddr list addr with
  | none => rfl
  | some d =>
    have power := nonzero d (withAddr_eq_some found).1
    simp [power]

theorem difference_eq_none {e n : Option Delegatee} :
    difference e n = none ↔ e.map totalPower = n.map totalPower := by
  cases e <;> cases n <;> simp [difference]

section

variable {existing newers : List Delegatee} (keyed : Keyed addressOf existing)
  (keyed' : Keyed addressOf newers) (sorted : Ascending existing) (sorted' : Ascending newers)

include keyed keyed' sorted sorted'

theorem nodup_validatorUpdates :
    ((validatorUpdates existing newers).map fun u => addressOf u.pubKey).Nodup := by
  apply List.pairwise_map.mpr
  refine (ascending_validatorUpdates existing newers keyed keyed' sorted sorted').imp ?_
  intro u u' order same
  rw [same, compare_addr_self] at order
  cases order

/-- Which updates there are. -/
theorem mem_validatorUpdates :
    u ∈ validatorUpdates existing newers ↔
      difference (withAddr existing (addressOf u.pubKey)) (withAddr newers (addressOf u.pubKey)) =
        some u := by
  rw [← naming_validatorUpdates existing newers _ keyed keyed' sorted sorted']
  constructor
  · intro member
    have distinct := nodup_validatorUpdates keyed keyed' sorted sorted'
    cases found : naming addressOf (validatorUpdates existing newers) (addressOf u.pubKey) with
    | none =>
      have missing := List.find?_eq_none.mp found u member
      simp at missing
    | some u' =>
      have holds := List.find?_some found
      have key : addressOf u'.pubKey = addressOf u.pubKey := by simpa using holds
      rw [List.inj_on_of_nodup_map distinct (List.mem_of_find?_eq_some found) member key]
  · exact List.mem_of_find?_eq_some

/-- An address is named exactly if its membership or its power differs. -/
theorem named_iff (addr : Address) :
    (∃ u ∈ validatorUpdates existing newers, addressOf u.pubKey = addr) ↔
      powersOf existing addr ≠ powersOf newers addr := by
  have named := naming_validatorUpdates existing newers addr keyed keyed' sorted sorted'
  unfold powersOf
  rw [Ne, ← difference_eq_none, ← named, naming, List.find?_eq_none]
  simp

/-- An update says what the new validators are. -/
theorem change_of_mem (member : u ∈ validatorUpdates existing newers) :
    heldPowers newers (addressOf u.pubKey) = if u.power = 0 then none else some u.power := by
  rw [mem_validatorUpdates keyed keyed' sorted sorted'] at member
  unfold heldPowers powersOf
  have change (n : Delegatee) : (some n.totalPower).filter (fun power => decide (power ≠ 0)) =
      if (updated n).power = 0 then none else some (updated n).power := by
    by_cases zero : n.totalPower = 0 <;> simp [updated, zero]
  cases old : withAddr existing (addressOf u.pubKey) with
  | none =>
    cases new : withAddr newers (addressOf u.pubKey) with
    | none =>
      rw [old, new] at member
      cases member
    | some n =>
      rw [old, new] at member
      cases member
      exact change n
  | some e =>
    cases new : withAddr newers (addressOf u.pubKey) with
    | none =>
      rw [old, new] at member
      cases member
      rfl
    | some n =>
      rw [old, new, difference] at member
      split at member
      · cases member
        exact change n
      · cases member

/-- The updates take the powers of the existing validators to those of the new ones. -/
theorem applyAll_validatorUpdates {powers : Address → Option Int}
    (known : ∀ addr, powersOf existing addr = powersOf newers addr →
      powers addr = heldPowers newers addr) :
    applyAll powers (changes addressOf (validatorUpdates existing newers)) =
      heldPowers newers := by
  apply applyAll_of_difference
  · intro change member
    obtain ⟨u, present, rfl⟩ := List.mem_map.mp member
    exact change_of_mem keyed keyed' sorted sorted' present
  · intro addr differs
    have unequal : powersOf existing addr ≠ powersOf newers addr := fun same =>
      differs (known addr same)
    obtain ⟨u, present, here⟩ :=
      (named_iff keyed keyed' sorted sorted' addr).mpr unequal
    exact ⟨_, List.mem_map_of_mem present, here⟩

/-- Power 0 stands for a new validator without power, or for an existing one that goes. -/
theorem zero_iff (nonzero : ∀ n ∈ newers, n.totalPower ≠ 0) (addr : Address) :
    (∃ u ∈ validatorUpdates existing newers, addressOf u.pubKey = addr ∧ u.power = 0) ↔
      (∃ e ∈ existing, e.addr = addr) ∧ ∀ n ∈ newers, n.addr ≠ addr := by
  constructor
  · rintro ⟨u, member, rfl, zero⟩
    have held := change_of_mem keyed keyed' sorted sorted' member
    have named := (named_iff keyed keyed' sorted sorted' _).mp ⟨u, member, rfl⟩
    rw [if_pos zero, heldPowers_of_nonzero nonzero] at held
    rw [held] at named
    have missing : withAddr newers (addressOf u.pubKey) = none := by simpa [powersOf] using held
    refine ⟨?_, withAddr_eq_none.mp missing⟩
    cases old : withAddr existing (addressOf u.pubKey) with
    | none =>
      rw [powersOf, old] at named
      exact absurd rfl named
    | some e => exact ⟨e, withAddr_eq_some old⟩
  · rintro ⟨⟨e, present, rfl⟩, missing⟩
    have gone : removed e ∈ validatorUpdates existing newers := by
      have key : addressOf (removed e).pubKey = e.addr := keyed e present
      rw [mem_validatorUpdates keyed keyed' sorted sorted', key, sorted.withAddr_of_mem present,
        withAddr_eq_none.mpr missing]
      rfl
    exact ⟨removed e, gone, keyed e present, rfl⟩

end

/-- For sorted lists, the updates take the powers of the existing validators to exactly those of
the new ones; they name no address twice, and only those whose membership or power differs; and
power 0 stands exactly for an existing validator that is not among the new ones. -/
theorem validatorUpdates_exact (addressOf : HexBytes → Address) {existing newers : List Delegatee}
    (keyed : Keyed addressOf existing) (keyed' : Keyed addressOf newers)
    (sorted : Ascending existing) (sorted' : Ascending newers)
    (positive : ∀ n ∈ newers, 0 < n.totalPower) :
    applyAll (powersOf existing) (changes addressOf (validatorUpdates existing newers)) =
      powersOf newers ∧
    ((validatorUpdates existing newers).map fun u => addressOf u.pubKey).Nodup ∧
    (∀ addr, (∃ u ∈ validatorUpdates existing newers, addressOf u.pubKey = addr) ↔
      powersOf existing addr ≠ powersOf newers addr) ∧
    (∀ addr, (∃ u ∈ validatorUpdates existing newers, addressOf u.pubKey = addr ∧ u.power = 0) ↔
      (∃ e ∈ existing, e.addr = addr) ∧ ∀ n ∈ newers, n.addr ≠ addr) := by
  have nonzero : ∀ n ∈ newers, n.totalPower ≠ 0 := fun n member => (positive n member).ne'
  refine ⟨?_, nodup_validatorUpdates keyed keyed' sorted sorted',
    named_iff keyed keyed' sorted sorted', zero_iff keyed keyed' sorted sorted' nonzero⟩
  rw [← heldPowers_of_nonzero nonzero]
  apply applyAll_validatorUpdates keyed keyed' sorted sorted'
  intro addr same
  rw [heldPowers_of_nonzero nonzero, same]

/-- The first of three validators goes, the second gets another power, one comes. -/
theorem validatorUpdates_exact_three :
    applyAll (powersOf [keyedBy 1 10, keyedBy 2 20, keyedBy 3 30])
      (changes id (validatorUpdates [keyedBy 1 10, keyedBy 2 20, keyedBy 3 30]
        [keyedBy 2 21, keyedBy 3 30, keyedBy 4 40])) =
      powersOf [keyedBy 2 21, keyedBy 3 30, keyedBy 4 40] :=
  (validatorUpdates_exact id (by unfold Keyed; decide) (by unfold Keyed; decide)
    (by unfold Ascending; decide) (by unfold Ascending; decide) (by decide)).1

end

/-! ## What a block selects -/

theorem exec_amountToPower (amt : Uint256) (ls : Stores) :
    exec (amountToPower amt) ls = if powerOf amt < 0 then
      (.error (.panic (.explicit ("voting power is negative: " ++ toString (powerOf amt)))), ls)
      else (.ok (powerOf amt), ls) := by
  unfold amountToPower
  split
  · simp only [run_crash]
  · simp only [run_pure]

theorem amountToPower_ok {amt : Uint256} {power : Int}
    (ran : exec (amountToPower amt) ls = (.ok power, ls')) : power = powerOf amt ∧ ls' = ls := by
  rw [exec_amountToPower] at ran
  split at ran
  · cases ran
  · cases ran
    exact ⟨rfl, rfl⟩

theorem candidates_ok {minValidatorStake : Uint256} {list answer : List Delegatee}
    (ran : exec (candidates minValidatorStake list) ls = (.ok answer, ls')) :
    answer = list.filter (fun d => powerOf minValidatorStake ≤ d.selfPower) ∧ ls' = ls := by
  induction list generalizing answer ls' with
  | nil =>
    cases ran
    exact ⟨rfl, rfl⟩
  | cons d rest ih =>
    obtain ⟨minPower, ls₁, priced, next⟩ := run_bind_ok ran
    obtain ⟨rfl, rfl⟩ := amountToPower_ok priced
    obtain ⟨others, ls₂, collected, joined⟩ := run_bind_ok next
    obtain ⟨rfl, rfl⟩ := ih collected
    cases joined
    by_cases enough : powerOf minValidatorStake ≤ d.selfPower <;> simp [enough]

/-- `BeginBlock` goes through the committed delegatees. -/
theorem collectDelegatees_ok  {answer : List Delegatee}
    (ran : exec (collectDelegatees params) ls = (.ok answer, ls')) :
    answer = eligible params (ls .delegatees).tree.contents.items := by
  obtain ⟨committed, ls₁, read, ran⟩ := run_bind_ok ran
  have here := (LedgerProg.exec_readAll .delegatees ls).symm.trans read
  cases here
  obtain ⟨eligible', ls₂, chosen, ran⟩ := run_bind_ok ran
  obtain ⟨rfl, rfl⟩ := candidates_ok chosen
  cases ran
  rfl

/-- `EndBlock` selects from the delegatees that `BeginBlock` has collected. -/
theorem endBlock_selects {allDelegatees : List Delegatee}
    {lastValidators lastValidators' : Validators} {height : Int}
    {valUpdates : List ValidatorUpdate}
    (ran : exec (endBlock params allDelegatees lastValidators height) ls =
      (.ok (valUpdates, lastValidators'), ls')) :
    valUpdates = validatorUpdates (sortBy addrLess lastValidators)
        (sortBy addrLess (allDelegatees.take params.maxValidatorCnt.toNat)) ∧
      lastValidators' =
        sortBy powerLess (allDelegatees.take params.maxValidatorCnt.toNat) := by
  obtain ⟨_, ls₁, -, ran⟩ := run_bind_ok ran
  obtain ⟨chosen, ls₂, select, ran⟩ := run_bind_ok ran
  unfold selectValidators at select
  split at select
  · cases select
  · cases select
    cases ran
    exact ⟨rfl, rfl⟩

theorem nodup_eligible (distinct : (list.map Delegatee.addr).Nodup) :
    ((eligible params list).map Delegatee.addr).Nodup :=
  ((sortBy_perm _ _).map _).nodup_iff.mpr (distinct.sublist (List.filter_sublist.map _))

theorem nodup_items (m : ItemMap Delegatee) : (m.items.map Delegatee.addr).Nodup := by
  have distinct : ((m.items.map Delegatee.addr).map toLedgerKey).Nodup := by
    rw [List.map_map]
    exact m.nodup_map_key_items
  exact distinct.of_map _

end StakeCtrler

end Rigo
