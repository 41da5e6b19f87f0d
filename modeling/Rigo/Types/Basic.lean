import Rigo.Foundation.Rlp

/-!
# Bytes, ledger keys and machine numbers

The Go types the whole program is written in.

* `HexBytes` (`types/bytes/hex_bytes.go`) and `Address` are byte slices.  A nil
  slice and an empty one are the same value here.  A Go string (`GoString`) is bytes too.
* `LedgerKey` (`ledger/types.go`) is a 32-byte array; `toLedgerKey` pads a slice
  with zeros or cuts it.  `bytes.Compare` is the lexicographic `compare`.
* `Uint256` is the 256-bit word of holiman/uint256: arithmetic wraps around, and
  `Sign` reads the word in two's complement.
* An `int64` is an integer; the operations that may overflow are followed by
  `i64`, which wraps into the 64-bit range.
-/

namespace Rigo

/-! ## Bytes and keys -/

/-- `bytes.HexBytes`. -/
abbrev HexBytes := List UInt8

/-- A Go string: any bytes, whether or not they are UTF-8. -/
abbrev GoString := HexBytes

/-- The Go string with the characters of a text. -/
def utf8Bytes (s : String) : GoString := s.toUTF8.data.toList

/-- `types.Address`. -/
abbrev Address := HexBytes

/-- `types.AddrSize`. -/
def addrSize : Nat := 20

/-- `bytes.ZeroBytes`. -/
def zeroBytes (n : Nat) : HexBytes := List.replicate n 0

/-- `types.ZeroAddress`. -/
def zeroAddress : Address := zeroBytes addrSize

/-- `types.IsZeroAddress`: every byte is zero (an empty address is zero too). -/
def isZeroAddress (addr : Address) : Bool := addr.all (· == 0)

/-- The upper-case hexadecimal digit of a number below 16. -/
def hexDigit (n : Nat) : Char := "0123456789ABCDEF".toList.getD n '?'

/-- `HexBytes.String`: upper-case hexadecimal. -/
def HexBytes.toHex (bz : HexBytes) : String :=
  String.ofList (bz.flatMap fun b => [hexDigit (b.toNat / 16), hexDigit (b.toNat % 16)])

/-- `ledger.LedgerKey`, a `[32]byte`. -/
structure LedgerKey where
  bytes : HexBytes
  size : bytes.length = 32
  deriving DecidableEq

instance : Ord LedgerKey := ⟨fun k k' => compare k.bytes k'.bytes⟩

instance : Std.TransOrd LedgerKey :=
  inferInstanceAs (Std.TransCmp (compareOn LedgerKey.bytes))

instance : Std.LawfulEqOrd LedgerKey where
  eq_of_compare {k k'} same := by
    obtain ⟨bytes, size⟩ := k
    obtain ⟨bytes', size'⟩ := k'
    obtain rfl : bytes = bytes' := Std.LawfulEqCmp.eq_of_compare same
    rfl

/-- `ledger.ToLedgerKey`, which is also `HexBytes.Array32`. -/
def toLedgerKey (s : HexBytes) : LedgerKey where
  bytes := s.take 32 ++ List.replicate (32 - s.length) 0
  size := by
    simp only [List.length_append, List.length_take, List.length_replicate]
    omega

/-- Slices of one length, not longer than a key, have different keys if they differ. -/
theorem toLedgerKey_injOn {s s' : HexBytes} (short : s.length ≤ 32)
    (sameLength : s.length = s'.length) (same : toLedgerKey s = toLedgerKey s') : s = s' := by
  have bytes : (toLedgerKey s).bytes = (toLedgerKey s').bytes := congrArg LedgerKey.bytes same
  simp only [toLedgerKey] at bytes
  rw [List.take_of_length_le short, List.take_of_length_le (sameLength ▸ short)] at bytes
  exact (List.append_inj bytes sameLength).1

/-- `HexBytes.Array20`. -/
def array20 (s : HexBytes) : Address := s.take 20 ++ List.replicate (20 - s.length) 0

theorem array20_length (addr : Address) : (array20 addr).length = addrSize := by
  simp only [array20, List.length_append, List.length_take, List.length_replicate, addrSize]
  omega

theorem array20_of_length {s : HexBytes} (size : s.length = 20) : array20 s = s := by
  simp [array20, size, List.take_of_length_le (Nat.le_of_eq size)]

/-! ## Machine numbers -/

/-- Wrap an integer into the range of `int64`. -/
def i64 (x : Int) : Int := x.bmod (2 ^ 64)

/-- An integer in the range of `int64` is not changed by wrapping. -/
theorem i64_of_range {x : Int} (low : -2 ^ 63 ≤ x) (high : x < 2 ^ 63) : i64 x = x := by
  unfold i64
  exact Int.bmod_eq_of_le (by omega) (by omega)

theorem i64_range (x : Int) : -2 ^ 63 ≤ i64 x ∧ i64 x < 2 ^ 63 := by
  unfold i64
  have low := Int.le_bmod (x := x) (m := 2 ^ 64) (by decide)
  have high := Int.bmod_lt (x := x) (m := 2 ^ 64) (by decide)
  constructor <;> omega

/-- A number beyond the range loses at least the width of it. -/
theorem i64_le_sub {x : Int} (large : 2 ^ 63 ≤ x) : i64 x ≤ x - 2 ^ 64 := by
  unfold i64 Int.bmod
  simp only
  split <;> omega

theorem i64_le {x : Int} (nonneg : 0 ≤ x) : i64 x ≤ x := by
  by_cases small : x < 2 ^ 63
  · rw [i64_of_range (by omega) small]
  · have wrapped := i64_le_sub (not_lt.mp small)
    omega

/-- Reading the low bits of a number as unsigned and wrapping them back gives the number. -/
theorem bmod_toNat_emod {x : Int} {m : Nat} (low : -(m / 2 : Int) ≤ x)
    (high : x < ((m : Int) + 1) / 2) : (((x % m).toNat : Nat) : Int).bmod m = x := by
  have word : (((x % m).toNat : Nat) : Int) = x % m :=
    Int.toNat_of_nonneg (Int.emod_nonneg x (by omega))
  rw [word, Int.emod_bmod]
  exact Int.bmod_eq_of_le low high

/-- Wrap an integer into the range of `int32`. -/
def i32 (x : Int) : Int := x.bmod (2 ^ 32)

/-- The conversion `uint32(x)` of an `int32`. -/
def uint32OfInt (x : Int) : Nat := (x % 2 ^ 32).toNat

/-- The conversion `uint64(x)` of an `int64`. -/
def uint64OfInt (x : Int) : Nat := (x % 2 ^ 64).toNat

theorem uint64OfInt_of_nonneg {x : Int} (low : 0 ≤ x) (high : x < 2 ^ 64) :
    uint64OfInt x = x.toNat := by
  rw [uint64OfInt, Int.emod_eq_of_lt low high]

/-- `uint256.Int`. -/
abbrev Uint256 := BitVec 256

namespace Uint256

open Foundation

/-- `uint256.NewInt` of a `uint64`. -/
def newInt (n : Nat) : Uint256 := BitVec.ofNat 256 n

/-- `x.Sign() < 0`: the top bit is set. -/
def isNegative (x : Uint256) : Bool := x.msb

/-- `x.Sign() > 0`. -/
def isPositive (x : Uint256) : Bool := !x.msb && x != 0

theorem isNegative_eq_false_iff (x : Uint256) :
    x.isNegative = false ↔ x.toNat < 2 ^ 255 := by
  simp [isNegative, BitVec.msb_eq_decide]

/-- `x.Uint64()`: the low 64 bits. -/
def uint64 (x : Uint256) : Nat := x.toNat % 2 ^ 64

/-- `int64(x.Uint64())`. -/
def int64 (x : Uint256) : Int := i64 (x.uint64 : Int)

/-- `SetBytes`: only the last 32 bytes of a longer slice count. -/
def ofBytes (bz : HexBytes) : Uint256 := BitVec.ofNat 256 (natOfBytes bz)

/-- `Bytes`. -/
def toBytes (x : Uint256) : HexBytes := bytesOfNat 32 x.toNat

/-- Writing a word out as bytes and reading it back loses nothing. -/
@[simp] theorem ofBytes_toBytes (x : Uint256) : ofBytes (toBytes x) = x := by
  have small : x.toNat < 256 ^ 32 := lt_of_lt_of_eq x.isLt (by norm_num)
  rw [ofBytes, toBytes, natOfBytes_bytesOfNat 32 _ small]
  simp

end Uint256

end Rigo
