import Mathlib

/-!
# Finite maps of items filed under their own key

A store keeps each item under the key computed from the item itself.  A
`KeyedMap` carries that fact as a field, so that a map in which an item sits
under a foreign key cannot be built, and its items, listed in key order, never
repeat.

`total` adds up a measure of the items.
-/

namespace Foundation

variable {K T : Type} [Ord K] [Std.TransOrd K] [Std.LawfulEqOrd K]

/-- A finite map from keys to items in which every item is filed under its own key. -/
structure KeyedMap (K T : Type) [Ord K] [Std.TransOrd K] (key : T → K) where
  entries : Std.ExtTreeMap K T
  filed : ∀ (k : K) (x : T), entries[k]? = some x → key x = k

namespace KeyedMap

variable {key : T → K}

/-- The item filed under `k`. -/
def find? (m : KeyedMap K T key) (k : K) : Option T := m.entries[k]?

variable {m : KeyedMap K T key}

omit [Std.LawfulEqOrd K] in
theorem key_of_find? {k : K} {x : T} (found : m.find? k = some x) :
    key x = k := m.filed k x found

/-- Maps with the same lookups are equal. -/
@[ext] theorem ext {m m' : KeyedMap K T key} (same : ∀ k, m.find? k = m'.find? k) : m = m' := by
  obtain ⟨entries, filed⟩ := m
  obtain ⟨entries', filed'⟩ := m'
  obtain rfl : entries = entries' := Std.ExtTreeMap.ext_getElem? same
  rfl

/-! ## Building maps -/

/-- The map without items. -/
def empty : KeyedMap K T key where
  entries := ∅
  filed := by simp

omit [Std.LawfulEqOrd K] in
@[simp] theorem find?_empty (k : K) : (empty : KeyedMap K T key).find? k = none := by
  simp [find?, empty]

/-- File an item under its key, replacing what was there. -/
def insert (m : KeyedMap K T key) (x : T) : KeyedMap K T key where
  entries := m.entries.insert (key x) x
  filed k y found := by
    rw [Std.ExtTreeMap.getElem?_insert] at found
    split at found
    · rename_i same
      obtain rfl : x = y := Option.some.inj found
      exact Std.LawfulEqCmp.eq_of_compare same
    · exact m.filed k y found

theorem find?_insert [DecidableEq K] (m : KeyedMap K T key) (x : T) (k : K) :
    (m.insert x).find? k = if key x = k then some x else m.find? k := by
  simp [find?, insert, Std.ExtTreeMap.getElem?_insert]

@[simp] theorem find?_insert_self (m : KeyedMap K T key) (x : T) :
    (m.insert x).find? (key x) = some x := by
  classical simp [find?_insert]

theorem find?_insert_of_ne (m : KeyedMap K T key) {x : T} {k : K} (other : key x ≠ k) :
    (m.insert x).find? k = m.find? k := by
  classical simp [find?_insert, other]

/-- Drop the item filed under `k`. -/
def erase (m : KeyedMap K T key) (k : K) : KeyedMap K T key where
  entries := m.entries.erase k
  filed k' x found := by
    rw [Std.ExtTreeMap.getElem?_erase] at found
    split at found
    · cases found
    · exact m.filed k' x found

theorem find?_erase [DecidableEq K] (m : KeyedMap K T key) (k k' : K) :
    (m.erase k).find? k' = if k = k' then none else m.find? k' := by
  simp [find?, erase, Std.ExtTreeMap.getElem?_erase]

@[simp] theorem find?_erase_self (m : KeyedMap K T key) (k : K) :
    (m.erase k).find? k = none := by
  classical simp [find?_erase]

theorem find?_erase_of_ne (m : KeyedMap K T key) {k k' : K} (other : k ≠ k') :
    (m.erase k).find? k' = m.find? k' := by
  classical simp [find?_erase, other]

/-- Drop the items filed under the given keys, one after the other. -/
def eraseAll (m : KeyedMap K T key) (keys : List K) : KeyedMap K T key :=
  keys.foldl erase m

theorem find?_eraseAll [DecidableEq K] (m : KeyedMap K T key) (keys : List K) (k : K) :
    (m.eraseAll keys).find? k = if k ∈ keys then none else m.find? k := by
  induction keys generalizing m with
  | nil => simp [eraseAll]
  | cons head tail ih =>
    rw [eraseAll, List.foldl_cons, ← eraseAll, ih, find?_erase]
    by_cases inTail : k ∈ tail
    · simp [inTail]
    · by_cases same : head = k
      · simp [same]
      · simp [inTail, same, Ne.symm same]

/-- File the items of a list, one after the other. -/
def insertAll (m : KeyedMap K T key) (items : List T) : KeyedMap K T key :=
  items.foldl insert m

/-- File all items of `m'` over those of `m`. -/
def overlay (m m' : KeyedMap K T key) : KeyedMap K T key where
  entries := m.entries ∪ m'.entries
  filed k x found := by
    rw [Std.ExtTreeMap.getElem?_union] at found
    cases upper : m'.entries[k]? with
    | none => exact m.filed k x (by simpa [upper] using found)
    | some y => exact m'.filed k x (by simpa [upper] using found)

omit [Std.LawfulEqOrd K] in
@[simp] theorem find?_overlay (m m' : KeyedMap K T key) (k : K) :
    (m.overlay m').find? k = (m'.find? k).or (m.find? k) := by
  simp [find?, overlay, Std.ExtTreeMap.getElem?_union]

/-! ## The items in key order -/

/-- The items, in ascending order of their keys. -/
def items (m : KeyedMap K T key) : List T := m.entries.toList.map Prod.snd

theorem mem_items {x : T} :
    x ∈ m.items ↔ m.find? (key x) = some x := by
  constructor
  · intro member
    obtain ⟨⟨k, y⟩, listed, rfl⟩ := List.mem_map.mp member
    have found := Std.ExtTreeMap.mem_toList_iff_getElem?_eq_some.mp listed
    obtain rfl := m.filed k y found
    exact found
  · intro found
    exact List.mem_map.mpr ⟨(key x, x), Std.ExtTreeMap.mem_toList_iff_getElem?_eq_some.mpr found,
      rfl⟩

@[simp] theorem items_empty : (empty : KeyedMap K T key).items = [] :=
  List.eq_nil_iff_forall_not_mem.mpr fun x => by simp [mem_items]

theorem mem_items_of_find? {k : K} {x : T} (found : m.find? k = some x) :
    x ∈ m.items := by
  obtain rfl := key_of_find? found
  exact mem_items.mpr found

/-- The listed items have strictly increasing keys. -/
theorem pairwise_items (m : KeyedMap K T key) :
    m.items.Pairwise fun x y => compare (key x) (key y) = .lt := by
  rw [items, List.pairwise_map]
  refine m.entries.ordered_keys_toList.imp_of_mem ?_
  rintro ⟨k, x⟩ ⟨k', y⟩ listed listed' ordered
  have found := Std.ExtTreeMap.mem_toList_iff_getElem?_eq_some.mp listed
  have found' := Std.ExtTreeMap.mem_toList_iff_getElem?_eq_some.mp listed'
  rw [m.filed k x found, m.filed k' y found']
  exact ordered

theorem nodup_items (m : KeyedMap K T key) : m.items.Nodup := by
  refine m.pairwise_items.imp ?_
  rintro x _ ordered rfl
  rw [Std.ReflOrd.compare_self] at ordered
  cases ordered

/-- Taking one item out of the map takes one item out of the list. -/
theorem items_perm_cons {k : K} {x : T} (found : m.find? k = some x) :
    m.items.Perm (x :: (m.erase k).items) := by
  have filedUnder := key_of_find? found
  have absent : x ∉ (m.erase k).items := by
    rw [mem_items, filedUnder, find?_erase_self]
    simp
  refine (List.perm_ext_iff_of_nodup m.nodup_items
    (List.nodup_cons.mpr ⟨absent, (m.erase k).nodup_items⟩)).mpr fun y => ?_
  rw [List.mem_cons, mem_items, mem_items]
  classical
  rw [find?_erase]
  by_cases same : k = key y
  · subst same
    simp [found, eq_comm]
  · have differs : y ≠ x := fun equal => same (by rw [equal, filedUnder])
    simp [same, differs]

theorem items_insert_perm (m : KeyedMap K T key) (x : T) :
    (m.insert x).items.Perm (x :: (m.erase (key x)).items) := by
  have removed : (m.insert x).erase (key x) = m.erase (key x) := by
    ext1 k
    classical
    rw [find?_erase, find?_erase, find?_insert]
    split <;> simp_all
  rw [← removed]
  exact items_perm_cons (find?_insert_self m x)

theorem find?_insertAll [DecidableEq K] (m : KeyedMap K T key) (list : List T) (k : K)
    (distinct : (list.map key).Nodup) :
    (m.insertAll list).find? k = (list.find? fun x => key x = k).or (m.find? k) := by
  induction list generalizing m with
  | nil => simp [insertAll]
  | cons head tail ih =>
    simp only [List.map_cons, List.nodup_cons] at distinct
    rw [insertAll, List.foldl_cons, ← insertAll, ih _ distinct.2, find?_insert, List.find?_cons]
    by_cases same : key head = k
    · have missing : (tail.find? fun x => key x = k) = none := by
        refine List.find?_eq_none.mpr fun x member equal => distinct.1 ?_
        rw [same, ← of_decide_eq_true equal]
        exact List.mem_map_of_mem member
      simp [same, missing]
    · simp [same]

theorem find?_items [DecidableEq K] (m : KeyedMap K T key) {list : List T}
    (listed : list.Perm m.items) (k : K) : (list.find? fun x => key x = k) = m.find? k := by
  cases here : m.find? k with
  | none =>
    refine List.find?_eq_none.mpr fun x member equal => ?_
    have present := mem_items.mp (listed.mem_iff.mp member)
    rw [of_decide_eq_true equal, here] at present
    cases present
  | some x =>
    cases result : list.find? fun y => key y = k with
    | none =>
      have missing := List.find?_eq_none.mp result x
        (listed.mem_iff.mpr (mem_items_of_find? here))
      exact absurd (decide_eq_true (key_of_find? here)) missing
    | some y =>
      have member := mem_items.mp (listed.mem_iff.mp (List.mem_of_find?_eq_some result))
      have same : key y = k := by simpa using List.find?_some result
      rw [← member, same, here]

theorem nodup_map_key_items (m : KeyedMap K T key) : (m.items.map key).Nodup := by
  rw [List.Nodup, List.pairwise_map]
  refine m.pairwise_items.imp ?_
  intro x y ordered same
  rw [same, Std.ReflOrd.compare_self] at ordered
  cases ordered

/-- Filing the items of `m'`, in any order, is laying `m'` over `m`. -/
theorem find?_insertAll_items (m' : KeyedMap K T key) {list : List T}
    (listed : list.Perm m'.items) (k : K) :
    (m.insertAll list).find? k = (m'.find? k).or (m.find? k) := by
  classical
  rw [find?_insertAll m list k ((listed.map key).nodup_iff.mpr m'.nodup_map_key_items),
    find?_items m' listed]

/-- Items under different keys may be filed in any order. -/
theorem insertAll_perm (m : KeyedMap K T key) {list list' : List T} (permuted : list.Perm list')
    (distinct : (list.map key).Nodup) : m.insertAll list = m.insertAll list' := by
  ext1 k
  classical
  have found (x : T) (member : x ∈ list) (here : key x = k) {list₀ : List T}
      (permuted : list₀.Perm list) : (list₀.find? fun y => key y = k) = some x := by
    cases result : list₀.find? fun y => key y = k with
    | none =>
      have missing := List.find?_eq_none.mp result x (permuted.mem_iff.mpr member)
      exact absurd (decide_eq_true here) missing
    | some y =>
      have same : key y = k := by simpa using List.find?_some result
      have member' := permuted.mem_iff.mp (List.mem_of_find?_eq_some result)
      exact congrArg some (List.inj_on_of_nodup_map distinct member' member (same.trans here.symm))
  rw [find?_insertAll m list k distinct,
    find?_insertAll m list' k ((permuted.map key).nodup_iff.mp distinct)]
  congr 1
  cases result : list.find? fun x => key x = k with
  | none =>
    refine (List.find?_eq_none.mpr fun x member => ?_).symm
    exact List.find?_eq_none.mp result x (permuted.mem_iff.mpr member)
  | some x =>
    have here : key x = k := by simpa using List.find?_some result
    exact (found x (List.mem_of_find?_eq_some result) here permuted.symm).symm

theorem insert_comm (m : KeyedMap K T key) {x y : T} (other : key x ≠ key y) :
    (m.insert x).insert y = (m.insert y).insert x :=
  m.insertAll_perm (List.Perm.swap y x []) (by simpa using other)

theorem insert_insert (m : KeyedMap K T key) {x y : T} (same : key x = key y) :
    (m.insert x).insert y = m.insert y := by
  ext1 k
  classical
  rw [find?_insert, find?_insert, find?_insert, same]
  split <;> rfl

theorem erase_of_find?_none {k : K} (missing : m.find? k = none) :
    m.erase k = m := by
  ext1 k'
  classical
  rw [find?_erase]
  split
  · next same => rw [← same, missing]
  · rfl

/-! ## Adding up a measure of the items -/

variable {N : Type} [AddCommMonoid N]

/-- The sum of `f` over all items. -/
def total (f : T → N) (m : KeyedMap K T key) : N := (m.items.map f).sum

/-- An item is part of the sum. -/
theorem le_total {f : T → Nat} {k : K} {x : T} (found : m.find? k = some x) :
    f x ≤ total f m :=
  List.le_sum_of_mem (List.mem_map_of_mem (mem_items_of_find? found))

end KeyedMap

end Foundation
