import Mathlib

/-!
# Sums over the elements of a list with distinct keys

A list in which no two elements have the same key is a finite map.  `replaceBy key w list` stores
`w` under its key, and `removeBy key k list` removes what is stored under `k`; a sum over the list
changes by the terms of the elements that go and come.
-/

namespace Foundation

variable {α K : Type*} [DecidableEq K] {key : α → K}

/-- The list with `w` in the place of the element that has its key. -/
def replaceBy (key : α → K) (w : α) (list : List α) : List α :=
  list.map fun x => if key x = key w then w else x

/-- The list without the element that has the key. -/
def removeBy (key : α → K) (k : K) (list : List α) : List α := list.filter fun x => key x ≠ k

theorem map_key_replaceBy (w : α) (list : List α) :
    (replaceBy key w list).map key = list.map key := by
  rw [replaceBy, List.map_map]
  refine List.map_congr_left fun x _ => ?_
  by_cases same : key x = key w
  · simp [same]
  · simp [same]

theorem mem_replaceBy {w x : α} {list : List α} (member : x ∈ replaceBy key w list) :
    x = w ∨ x ∈ list := by
  obtain ⟨y, member', rfl⟩ := List.mem_map.mp member
  split
  · exact .inl rfl
  · exact .inr member'

theorem replaceBy_of_missing {w : α} {list : List α} (missing : key w ∉ list.map key) :
    replaceBy key w list = list := by
  refine (List.map_congr_left fun x member => if_neg ?_).trans (List.map_id _)
  exact fun same => missing (same ▸ List.mem_map_of_mem member)

theorem removeBy_of_missing {k : K} {list : List α} (missing : k ∉ list.map key) :
    removeBy key k list = list := by
  refine List.filter_eq_self.mpr fun x member => decide_eq_true ?_
  exact fun same => missing (same ▸ List.mem_map_of_mem member)

omit [DecidableEq K] in
/-- An element and what is around it, where its key does not occur. -/
theorem exists_around {list : List α} {v : α} (distinct : (list.map key).Nodup)
    (member : v ∈ list) :
    ∃ before after, list = before ++ v :: after ∧ key v ∉ before.map key ∧
      key v ∉ after.map key := by
  obtain ⟨before, after, rfl⟩ := List.append_of_mem member
  rw [List.map_append, List.map_cons, List.nodup_append] at distinct
  refine ⟨before, after, rfl, fun earlier => ?_, (List.nodup_cons.mp distinct.2.1).1⟩
  exact distinct.2.2 (key v) earlier (key v) List.mem_cons_self rfl

section

variable {M : Type*} [AddCommGroup M] (f : α → M) {list : List α} {v : α}

/-- What a replacement does to a sum. -/
theorem sum_replaceBy (distinct : (list.map key).Nodup) (member : v ∈ list) {w : α}
    (same : key w = key v) :
    ((replaceBy key w list).map f).sum = (list.map f).sum - f v + f w := by
  obtain ⟨before, after, rfl, earlier, later⟩ := exists_around distinct member
  have replaced : replaceBy key w (before ++ v :: after) = before ++ w :: after := by
    have first : replaceBy key w before = before := replaceBy_of_missing (same ▸ earlier)
    have last : replaceBy key w after = after := replaceBy_of_missing (same ▸ later)
    unfold replaceBy at first last ⊢
    rw [List.map_append, List.map_cons, first, last, if_pos same.symm]
  rw [replaced]
  simp only [List.map_append, List.map_cons, List.sum_append, List.sum_cons]
  abel

/-- What a removal does to a sum. -/
theorem sum_removeBy (distinct : (list.map key).Nodup) (member : v ∈ list) :
    ((removeBy key (key v) list).map f).sum = (list.map f).sum - f v := by
  obtain ⟨before, after, rfl, earlier, later⟩ := exists_around distinct member
  have removed : removeBy key (key v) (before ++ v :: after) = before ++ after := by
    have first : removeBy key (key v) before = before := removeBy_of_missing earlier
    have last : removeBy key (key v) after = after := removeBy_of_missing later
    unfold removeBy at first last ⊢
    rw [List.filter_append, List.filter_cons_of_neg (by simp), first, last]
  rw [removed]
  simp only [List.map_append, List.map_cons, List.sum_append, List.sum_cons]
  abel

end

end Foundation
