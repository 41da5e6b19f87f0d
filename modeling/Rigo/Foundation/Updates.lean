import Mathlib

/-!
# Partial maps under updates

A replica of a partial map is kept up to date by sending it updates: a key with its new value,
or with `none` if the key is gone.  A list of updates takes a map `m` to a map `m'` if every
update says what `m'` is at its key and every key at which the maps differ is named.
-/

namespace Foundation

variable {K V : Type} [DecidableEq K]

/-- The map after the updates. -/
def applyAll (m : K → Option V) (updates : List (K × Option V)) : K → Option V :=
  updates.foldl (fun m u => Function.update m u.1 u.2) m

theorem applyAll_append (m : K → Option V) (updates updates' : List (K × Option V)) :
    applyAll m (updates ++ updates') = applyAll (applyAll m updates) updates' :=
  List.foldl_append

/-- Updates that tell the difference of two maps take one to the other. -/
theorem applyAll_of_difference {m m' : K → Option V} {updates : List (K × Option V)}
    (sound : ∀ u ∈ updates, m' u.1 = u.2)
    (complete : ∀ k, m k ≠ m' k → ∃ u ∈ updates, u.1 = k) : applyAll m updates = m' := by
  induction updates generalizing m with
  | nil =>
    funext k
    by_contra differs
    obtain ⟨u, member, -⟩ := complete k differs
    cases member
  | cons head tail ih =>
    -- the first update makes the maps agree at its key
    apply ih (fun u member => sound u (List.mem_cons_of_mem _ member))
    intro k differs
    change Function.update m head.1 head.2 k ≠ m' k at differs
    have other : k ≠ head.1 := by
      rintro rfl
      rw [Function.update_self] at differs
      exact differs (sound head List.mem_cons_self).symm
    rw [Function.update_of_ne other] at differs
    obtain ⟨u, member, rfl⟩ := complete k differs
    rcases List.mem_cons.mp member with rfl | inTail
    · exact absurd rfl other
    · exact ⟨u, inTail, rfl⟩

end Foundation
