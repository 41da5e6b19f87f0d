import Rigo.Foundation.Codec
import Rigo.Types.XError

/-!
# Byte slices in JSON

`MarshalJSON` and `UnmarshalJSON` of `types/bytes/hex_bytes.go`.  A byte slice is written as
upper-case hexadecimal digits between quotes.  It is read from digits of either case, after a
`0x` if there is one; `hex.DecodeString` refuses an odd number of digits and anything that is
not a digit.

The struct tags, the numbers and the texts of a JSON document are the business of
`encoding/json`, which is lossless on the types the program declares.  So the JSON of a struct
is a structure here, with a field for each tag, and only what the program writes itself is a
token.
-/

namespace Rigo

open Foundation

/-- The text of one JSON value. -/
abbrev JsonToken := List Char

/-- The value of a hexadecimal digit. -/
def hexValue (c : Char) : Option Nat :=
  if '0' ≤ c ∧ c ≤ '9' then some (c.toNat - '0'.toNat)
  else if 'a' ≤ c ∧ c ≤ 'f' then some (c.toNat - 'a'.toNat + 10)
  else if 'A' ≤ c ∧ c ≤ 'F' then some (c.toNat - 'A'.toNat + 10)
  else none

theorem hexValue_hexDigit {n : Nat} (small : n < 16) : hexValue (hexDigit n) = some n := by
  have digits : ∀ digit : Fin 16, hexValue (hexDigit digit) = some digit.val := by decide
  exact digits ⟨n, small⟩

namespace HexBytes

/-- `hex.InvalidByteError`. -/
def invalidByteError (c : Char) : String :=
  "encoding/hex: invalid byte: U+00" ++ HexBytes.toHex [UInt8.ofNat c.toNat] ++ " '" ++
    String.singleton c ++ "'"

/-- `hex.DecodeString`: the digits are looked at two by two. -/
def decodeString : List Char → Except String HexBytes
  | [] => .ok []
  | [c] =>
    match hexValue c with
    | none => .error (invalidByteError c)
    | some _ => .error "encoding/hex: odd length hex string"
  | c :: c' :: rest =>
    match hexValue c, hexValue c' with
    | none, _ => .error (invalidByteError c)
    | some _, none => .error (invalidByteError c')
    | some high, some low => (decodeString rest).map (UInt8.ofNat (16 * high + low) :: ·)

/-- The digits of `String`. -/
def digits (bz : HexBytes) : List Char :=
  bz.flatMap fun b => [hexDigit (b.toNat / 16), hexDigit (b.toNat % 16)]

theorem lossless_digits : Restores digits decodeString := by
  intro bz
  induction bz with
  | nil => rfl
  | cons b rest ih =>
    have size := b.toNat_lt
    have high : hexValue (hexDigit (b.toNat / 16)) = some (b.toNat / 16) :=
      hexValue_hexDigit (by omega)
    have low : hexValue (hexDigit (b.toNat % 16)) = some (b.toNat % 16) :=
      hexValue_hexDigit (Nat.mod_lt _ (by decide))
    have whole : UInt8.ofNat (16 * (b.toNat / 16) + b.toNat % 16) = b := by
      rw [Nat.div_add_mod, UInt8.ofNat_toNat]
    calc
      decodeString (digits (b :: rest)) =
          (decodeString (digits rest)).map
            (UInt8.ofNat (16 * (b.toNat / 16) + b.toNat % 16) :: ·) := by
        simp only [digits, List.flatMap_cons, List.cons_append, List.nil_append, decodeString,
          high, low]
      _ = .ok (b :: rest) := by
        rw [ih, whole]
        rfl

def marshalJSON (bz : HexBytes) : JsonToken := '"' :: digits bz ++ ['"']

/-- `strings.TrimPrefix` with `0x`. -/
def trim0x : List Char → List Char
  | '0' :: 'x' :: rest => rest
  | str => str

def unmarshalJSON (data : JsonToken) : Except String HexBytes :=
  if data.length < 2 ∨ data.head? ≠ some '"' ∨ data.getLast? ≠ some '"' then
    .error ("invalid hex string: " ++ String.ofList data)
  else decodeString (trim0x data.tail.dropLast)

/-- No text that `MarshalJSON` writes starts with `0x`. -/
theorem trim0x_digits (bz : HexBytes) : trim0x (digits bz) = digits bz := by
  unfold trim0x
  split
  · next rest marked =>
    cases bz with
    | nil => cases marked
    | cons b rest' =>
      have second : hexDigit (b.toNat % 16) = 'x' := by
        simp only [digits, List.flatMap_cons, List.cons_append, List.nil_append,
          List.cons.injEq] at marked
        exact marked.2.1
      have digit := hexValue_hexDigit (Nat.mod_lt b.toNat (show 0 < 16 by decide))
      rw [second] at digit
      exact absurd digit (by simp [hexValue])
  · rfl

theorem lossless_json : Restores marshalJSON unmarshalJSON := by
  intro bz
  have quoted : ¬((marshalJSON bz).length < 2 ∨ (marshalJSON bz).head? ≠ some '"' ∨
      (marshalJSON bz).getLast? ≠ some '"') := by
    have last : (marshalJSON bz).getLast? = some '"' := List.getLast?_concat
    rw [last]
    simp [marshalJSON]
  have inner : (marshalJSON bz).tail.dropLast = digits bz := by
    simp [marshalJSON]
  rw [unmarshalJSON, if_neg quoted, inner, trim0x_digits]
  exact lossless_digits bz

end HexBytes

end Rigo
