import Mathlib

/-!
# Values with checkpoints

A value that changes and that can be taken back to a checkpoint.  Checkpoints are numbered; going
back to one forgets it and all later ones.

Two such values simulate each other if they are changed, saved and taken back together.  Their
numbers may differ, as long as the order of the numbers is the same.
-/

namespace Foundation

/-- A value with the checkpoints that it can be taken back to. -/
structure Checkpoints (V : Type) where
  current : V
  saved : List (Nat × V)

namespace Checkpoints

variable {V W : Type}

/-- Save the value under a number. -/
def snapshot (c : Checkpoints V) (id : Nat) : Checkpoints V :=
  { c with saved := c.saved ++ [(id, c.current)] }

def change (c : Checkpoints V) (f : V → V) : Checkpoints V := { c with current := f c.current }

/-- Go back to the checkpoint with a number, if there is one. -/
def revert (c : Checkpoints V) (id : Nat) : Option (Checkpoints V) :=
  (c.saved.find? fun entry => entry.1 == id).map fun entry =>
    ⟨entry.2, c.saved.takeWhile fun entry => entry.1 < id⟩

theorem revert_eq_some {c c' : Checkpoints V} {id : Nat} (reverted : c.revert id = some c') :
    (id, c'.current) ∈ c.saved ∧ c'.saved = c.saved.takeWhile fun entry => entry.1 < id := by
  obtain ⟨entry, found, rfl⟩ := Option.map_eq_some_iff.mp reverted
  have same : entry.1 = id := eq_of_beq (List.find?_some (p := fun entry : Nat × V => entry.1 == id) found)
  exact ⟨same ▸ List.mem_of_find?_eq_some found, rfl⟩

/-! ## Simulation -/

theorem takeWhile_forall₂ {α β : Type} {S : α → β → Prop} {list : List α} {list' : List β}
    {p : α → Bool} {q : β → Bool} (related : List.Forall₂ S list list')
    (agree : ∀ x y, S x y → p x = q y) :
    List.Forall₂ S (list.takeWhile p) (list'.takeWhile q) := by
  induction related with
  | nil => exact .nil
  | @cons x y list list' here rest ih =>
    rw [List.takeWhile_cons, List.takeWhile_cons, agree x y here]
    cases q y with
    | false => exact .nil
    | true => exact .cons here ih

theorem find?_forall₂ {α β : Type} {S : α → β → Prop} {list : List α} {list' : List β}
    {p : α → Bool} {q : β → Bool} (related : List.Forall₂ S list list')
    (agree : ∀ x y, S x y → p x = q y) {x : α} (found : list.find? p = some x) :
    ∃ y, list'.find? q = some y ∧ S x y := by
  induction related with
  | nil => cases found
  | @cons x' y list list' here rest ih =>
    rw [List.find?_cons] at found
    rw [List.find?_cons, ← agree x' y here]
    cases matched : p x' with
    | true =>
      rw [matched] at found
      cases found
      exact ⟨y, rfl, here⟩
    | false =>
      rw [matched] at found
      exact ih found

/-- `d` simulates `c`: the values are related by `R` and the checkpoints by `S`; `old` are the
checkpoints that `d` had before. -/
structure Simulates (R : V → W → Prop) (S : Nat × V → Nat × W → Prop) (old : List (Nat × W))
    (c : Checkpoints V) (d : Checkpoints W) : Prop where
  current : R c.current d.current
  saved : ∃ mine, d.saved = old ++ mine ∧ List.Forall₂ S c.saved mine

variable {R : V → W → Prop} {S : Nat × V → Nat × W → Prop} {old : List (Nat × W)}
  {c : Checkpoints V} {d : Checkpoints W}

theorem Simulates.change (simulates : Simulates R S old c d) {f : V → V} {g : W → W}
    (changed : R (f c.current) (g d.current)) : Simulates R S old (c.change f) (d.change g) :=
  ⟨changed, simulates.saved⟩

theorem Simulates.snapshot (simulates : Simulates R S old c d) {n id : Nat}
    (related : S (n, c.current) (id, d.current)) :
    Simulates R S old (c.snapshot n) (d.snapshot id) := by
  obtain ⟨mine, same, saved⟩ := simulates.saved
  refine ⟨simulates.current, mine ++ [(id, d.current)], ?_, ?_⟩
  · rw [Checkpoints.snapshot, same, List.append_assoc]
  · exact List.rel_append saved (.cons related .nil)

theorem Simulates.related (simulates : Simulates R S old c d) {x : Nat × V}
    (member : x ∈ c.saved) : ∃ y, S x y := by
  obtain ⟨mine, -, saved⟩ := simulates.saved
  obtain ⟨i, inside, rfl⟩ := List.getElem_of_mem member
  have inside' : i < mine.length := saved.length_eq ▸ inside
  exact ⟨mine.get ⟨i, inside'⟩, saved.get inside inside'⟩

/-- The relation of the checkpoints may be replaced by one that holds of the related ones. -/
theorem Simulates.imp (simulates : Simulates R S old c d) {T : Nat × V → Nat × W → Prop}
    (holds : ∀ x ∈ c.saved, ∀ y, S x y → T x y) : Simulates R T old c d := by
  obtain ⟨mine, same, saved⟩ := simulates.saved
  refine ⟨simulates.current, mine, same, ?_⟩
  clear same simulates
  generalize c.saved = list at saved holds
  induction saved with
  | nil => exact .nil
  | @cons x y list list' here rest ih =>
    exact .cons (holds x List.mem_cons_self y here)
      (ih fun x' member => holds x' (List.mem_cons_of_mem _ member))

/-- Both go back to checkpoints that are related, if the numbers have the same order. -/
theorem Simulates.revert (simulates : Simulates R S old c d) {n id : Nat}
    (order : ∀ x y, S x y → ((x.1 = n ↔ y.1 = id) ∧ (x.1 < n ↔ y.1 < id)))
    (restores : ∀ x y, S x y → x.1 = n → R x.2 y.2)
    (earlier : ∀ entry ∈ old, entry.1 < id) {c' : Checkpoints V} (reverted : c.revert n = some c') :
    ∃ d', d.revert id = some d' ∧ Simulates R S old c' d' := by
  obtain ⟨x, found, rfl⟩ := Option.map_eq_some_iff.mp reverted
  obtain ⟨mine, same, saved⟩ := simulates.saved
  have number : x.1 = n := eq_of_beq (List.find?_some (p := fun entry : Nat × V => entry.1 == n) found)
  have agree (x : Nat × V) (y : Nat × W) (related : S x y) : (x.1 == n) = (y.1 == id) := by
    rw [Bool.eq_iff_iff, beq_iff_eq, beq_iff_eq]
    exact (order x y related).1
  obtain ⟨y, found', related⟩ := find?_forall₂ saved agree found
  have whole : d.saved.find? (fun entry => entry.1 == id) = some y := by
    have none : old.find? (fun entry => entry.1 == id) = none := by
      refine List.find?_eq_none.mpr fun entry member here => ?_
      exact absurd (earlier entry member) (by rw [eq_of_beq here]; exact lt_irrefl id)
    rw [same, List.find?_append, none, Option.none_or]
    exact found'
  refine ⟨⟨y.2, d.saved.takeWhile fun entry => entry.1 < id⟩, by rw [Checkpoints.revert, whole]; rfl,
    restores x y related number, ?_⟩
  refine ⟨mine.takeWhile fun entry => entry.1 < id, ?_, ?_⟩
  · rw [same, List.takeWhile_append_of_pos fun entry member => decide_eq_true (earlier entry member)]
  · refine takeWhile_forall₂ saved fun x y related => ?_
    rw [Bool.eq_iff_iff, decide_eq_true_iff, decide_eq_true_iff]
    exact (order x y related).2

end Checkpoints

end Foundation
