import Mathlib

/-!
# Codecs that lose nothing

A codec writes a value of `α` as an `E` and may fail to read it back.  It is lossless if
reading what was written gives the value.  A list is written element by element, and an
optional value as itself or as nothing; both are lossless if the codec of the elements is.
-/

namespace Foundation

variable {α E ε : Type}

/-- Reading what was written gives the value back. -/
def Restores (encode : α → E) (decode : E → Except ε α) : Prop :=
  ∀ x, decode (encode x) = .ok x

/-- Read an optional value. -/
def decodeOption (decode : E → Except ε α) : Option E → Except ε (Option α)
  | none => .ok none
  | some e => (decode e).map some

namespace Restores

variable {encode : α → E} {decode : E → Except ε α}

theorem list (lossless : Restores encode decode) :
    Restores (List.map encode) (List.mapM decode) := by
  intro xs
  induction xs with
  | nil => rfl
  | cons x rest ih =>
    rw [List.map_cons, List.mapM_cons, lossless x, ih]
    rfl

theorem option (lossless : Restores encode decode) :
    Restores (Option.map encode) (decodeOption decode) := by
  intro x
  cases x with
  | none => rfl
  | some x =>
    rw [Option.map_some, decodeOption, lossless x]
    rfl

/-- A change of the errors loses nothing. -/
theorem mapError {ε' : Type} (lossless : Restores encode decode) (f : ε → ε') :
    Restores encode fun e => (decode e).mapError f := by
  intro x
  exact congrArg (Except.mapError f) (lossless x)

end Restores

end Foundation
