import Mathlib

/-!
# Recursive length encoding

Numbers as big-endian bytes, and the recursive length prefix (RLP) format over them: an
item is a byte string or a list of items, and every item is written behind a head that
tells its kind and its size.

`decode` reads an item back and refuses every form the encoder does not produce (a size
with leading zeros, a long head for a short string, a byte below 128 behind a head).
`decode_encode` is the round trip, for items whose encoding is shorter than `2 ^ 64`
bytes, which is what the largest head can tell.
-/

namespace Foundation

/-! ## Big-endian numbers -/

/-- The number written by a list of bytes, most significant first. -/
def natOfBytes (bz : List UInt8) : Nat := bz.foldl (fun n b => n * 256 + b.toNat) 0

/-- At most `size` bytes of a number, most significant first and without leading zeros. -/
def bytesOfNat : Nat → Nat → List UInt8
  | 0, _ => []
  | size + 1, n =>
    if n = 0 then [] else bytesOfNat size (n / 256) ++ [UInt8.ofNat (n % 256)]

theorem natOfBytes_bytesOfNat (size : Nat) :
    ∀ n : Nat, n < 256 ^ size → natOfBytes (bytesOfNat size n) = n := by
  induction size with
  | zero =>
    intro n small
    obtain rfl : n = 0 := by simpa using small
    rfl
  | succ size ih =>
    intro n small
    by_cases zero : n = 0
    · simp [bytesOfNat, zero, natOfBytes]
    · have quotient : n / 256 < 256 ^ size := by
        apply Nat.div_lt_of_lt_mul
        rwa [Nat.pow_succ, Nat.mul_comm] at small
      have digit : (UInt8.ofNat (n % 256)).toNat = n % 256 := by
        simp
      rw [bytesOfNat, if_neg zero, natOfBytes, List.foldl_append, ← natOfBytes,
        ih _ quotient, List.foldl_cons, List.foldl_nil, digit]
      omega

theorem length_bytesOfNat_le (size n : Nat) : (bytesOfNat size n).length ≤ size := by
  induction size generalizing n with
  | zero => simp [bytesOfNat]
  | succ size ih =>
    rw [bytesOfNat]
    split
    · simp
    · simpa using ih (n / 256)

/-- A number below `256 ^ width` takes at most `width` bytes. -/
theorem length_bytesOfNat_le_of_lt (size : Nat) :
    ∀ n width : Nat, n < 256 ^ width → (bytesOfNat size n).length ≤ width := by
  induction size with
  | zero => simp [bytesOfNat]
  | succ size ih =>
    intro n width small
    rw [bytesOfNat]
    split
    · simp
    · next positive =>
      cases width with
      | zero => exact absurd (by simpa using small) positive
      | succ width =>
        have quotient : n / 256 < 256 ^ width := by
          apply Nat.div_lt_of_lt_mul
          rwa [Nat.pow_succ, Nat.mul_comm] at small
        simpa using ih (n / 256) width quotient

/-- The bytes of a number do not begin with a zero. -/
theorem head?_bytesOfNat (size : Nat) :
    ∀ n : Nat, n < 256 ^ size → (bytesOfNat size n).head? ≠ some 0 := by
  induction size with
  | zero => simp [bytesOfNat]
  | succ size ih =>
    intro n small
    by_cases zero : n = 0
    · simp [bytesOfNat, zero]
    · have quotient : n / 256 < 256 ^ size := by
        apply Nat.div_lt_of_lt_mul
        rwa [Nat.pow_succ, Nat.mul_comm] at small
      rw [bytesOfNat, if_neg zero]
      cases front : bytesOfNat size (n / 256) with
      | nil =>
        -- no higher byte is written, so the number is its last byte
        have high : n / 256 = 0 := by
          have read := natOfBytes_bytesOfNat size _ quotient
          rw [front] at read
          exact read.symm
        intro first
        have last : UInt8.ofNat (n % 256) = 0 := by simpa using first
        have := congrArg UInt8.toNat last
        simp at this
        omega
      | cons b bz =>
        have := ih _ quotient
        rw [front] at this
        simpa using this

namespace Rlp

/-! ## Encoding -/

/-- An item of the format. -/
inductive Item where
  | bytes (bz : List UInt8)
  | list (items : List Item)

/-- The head of a string (`short = 128`) or a list (`short = 192`) of `n` bytes. -/
def head (short : Nat) (n : Nat) : List UInt8 :=
  if n ≤ 55 then [UInt8.ofNat (short + n)]
  else
    let size := bytesOfNat 8 n
    UInt8.ofNat (short + 55 + size.length) :: size

/-- The encoding of a byte string; a single byte below 128 stands for itself. -/
def encodeBytes (bz : List UInt8) : List UInt8 :=
  match bz with
  | [b] => if b < 128 then [b] else head 128 1 ++ [b]
  | bz => head 128 bz.length ++ bz

mutual

/-- The encoding of an item. -/
def encode : Item → List UInt8
  | .bytes bz => encodeBytes bz
  | .list items => head 192 (encodeAll items).length ++ encodeAll items

/-- The encodings of some items, one after the other. -/
def encodeAll : List Item → List UInt8
  | [] => []
  | item :: items => encode item ++ encodeAll items

end

/-! ## Decoding -/

/-- What a head announces. -/
inductive Kind where
  | bytes
  | list
  deriving DecidableEq

/-- The first `n` bytes and the rest. -/
def splitBody (n : Nat) (bz : List UInt8) : Option (List UInt8 × List UInt8) :=
  if n ≤ bz.length then some (bz.take n, bz.drop n) else none

/-- A size written in `n` bytes, which must need a long head and have no leading zero. -/
def readSize (n : Nat) (bz : List UInt8) : Option (Nat × List UInt8) :=
  match splitBody n bz with
  | none => none
  | some (size, rest) =>
    if size.head? = some 0 ∨ natOfBytes size ≤ 55 then none else some (natOfBytes size, rest)

/-- The body behind a head with short form `short`, whose first byte is `b`. -/
def readBody (short b : Nat) (bz : List UInt8) : Option (List UInt8 × List UInt8) :=
  if b ≤ short + 55 then splitBody (b - short) bz
  else
    match readSize (b - (short + 55)) bz with
    | none => none
    | some (size, rest) => splitBody size rest

/-- Whether a body should have been written without a head. -/
def isSelf : List UInt8 → Bool
  | [b] => b < 128
  | _ => false

/-- The kind and the body of the first item, and the bytes behind it. -/
def next : List UInt8 → Option (Kind × List UInt8 × List UInt8)
  | [] => none
  | b :: bz =>
    if b < 128 then some (.bytes, [b], bz)
    else if b < 192 then
      match readBody 128 b.toNat bz with
      | none => none
      | some (body, rest) => if isSelf body then none else some (.bytes, body, rest)
    else
      match readBody 192 b.toNat bz with
      | none => none
      | some (body, rest) => some (.list, body, rest)

mutual

/-- The first item and the bytes behind it. -/
def decodeNext : Nat → List UInt8 → Option (Item × List UInt8)
  | 0, _ => none
  | fuel + 1, bz =>
    match next bz with
    | none => none
    | some (.bytes, body, rest) => some (.bytes body, rest)
    | some (.list, body, rest) =>
      (decodeAll fuel body).map fun items => (.list items, rest)

/-- The items that make up a whole body. -/
def decodeAll : Nat → List UInt8 → Option (List Item)
  | _, [] => some []
  | 0, _ => none
  | fuel + 1, bz =>
    match decodeNext fuel bz with
    | none => none
    | some (item, rest) => (decodeAll fuel rest).map (item :: ·)

end

/-- Read exactly one item. -/
def decode (bz : List UInt8) : Option Item :=
  match decodeNext (2 * bz.length) bz with
  | some (item, []) => some item
  | _ => none

/-! ## The round trip -/

theorem splitBody_append (bz rest : List UInt8) :
    splitBody bz.length (bz ++ rest) = some (bz, rest) := by
  simp [splitBody]

/-- A head is one byte, at least `short`, followed by what `readBody` needs to find the body. -/
theorem head_cases (short : Nat) {n : Nat} (room : short + 64 ≤ 256) (small : n < 2 ^ 64) :
    ∃ b : UInt8, ∃ size : List UInt8,
      head short n = b :: size ∧ short ≤ b.toNat ∧ b.toNat < short + 64 ∧
      ∀ body rest : List UInt8, body.length = n →
        readBody short b.toNat (size ++ (body ++ rest)) = some (body, rest) := by
  by_cases short_head : n ≤ 55
  · have first : (UInt8.ofNat (short + n)).toNat = short + n := by
      rw [UInt8.toNat_ofNat']
      omega
    refine ⟨UInt8.ofNat (short + n), [], by simp [head, short_head], by omega, by omega, ?_⟩
    rintro body rest rfl
    rw [readBody, first, if_pos (by omega), Nat.add_sub_cancel_left, List.nil_append,
      splitBody_append]
  · have fits : n < 256 ^ 8 := lt_of_lt_of_eq small (by norm_num)
    have bound := length_bytesOfNat_le 8 n
    have value := natOfBytes_bytesOfNat 8 n fits
    have lead := head?_bytesOfNat 8 n fits
    have positive : 0 < (bytesOfNat 8 n).length := by
      rw [List.length_pos_iff]
      intro empty
      rw [empty] at value
      simp [natOfBytes] at value
      omega
    have first : (UInt8.ofNat (short + 55 + (bytesOfNat 8 n).length)).toNat =
        short + 55 + (bytesOfNat 8 n).length := by
      rw [UInt8.toNat_ofNat']
      omega
    refine ⟨UInt8.ofNat (short + 55 + (bytesOfNat 8 n).length), bytesOfNat 8 n,
      by rw [head, if_neg short_head], by omega, by omega, ?_⟩
    rintro body rest rfl
    have size : readSize (bytesOfNat 8 body.length).length
        (bytesOfNat 8 body.length ++ (body ++ rest)) = some (body.length, body ++ rest) := by
      simp only [readSize, splitBody_append, value]
      rw [if_neg (by simp [lead, short_head])]
    rw [readBody, first, if_neg (by omega), Nat.add_sub_cancel_left, size]
    exact splitBody_append body rest

/-- The first item of an encoded string is that string. -/
theorem next_encodeBytes {bz : List UInt8} (rest : List UInt8) (small : bz.length < 2 ^ 64) :
    next (encodeBytes bz ++ rest) = some (.bytes, bz, rest) := by
  by_cases self : isSelf bz
  · obtain ⟨b, rfl⟩ : ∃ b, bz = [b] := by
      match bz, self with
      | [b], _ => exact ⟨b, rfl⟩
    have low : b < 128 := by simpa [isSelf] using self
    simp [encodeBytes, low, next]
  · have long : encodeBytes bz = head 128 bz.length ++ bz := by
      unfold encodeBytes
      split
      · next b =>
        rw [if_neg (by simpa [isSelf] using self)]
        rfl
      · rfl
    obtain ⟨b, size, isHead, low, high, body⟩ := head_cases 128 (by omega) small
    have notSelf : ¬ b < 128 := by rw [UInt8.lt_iff_toNat_lt]; simpa using low
    have notList : b < 192 := by rw [UInt8.lt_iff_toNat_lt]; simpa using high
    rw [long, isHead]
    simp only [List.cons_append, List.append_assoc, next, notSelf, notList, if_true, if_false,
      body bz rest rfl, self]
    rfl

/-- The first item of a list behind its head is that list. -/
theorem next_list {body : List UInt8} (rest : List UInt8) (small : body.length < 2 ^ 64) :
    next (head 192 body.length ++ body ++ rest) = some (.list, body, rest) := by
  obtain ⟨b, size, isHead, low, -, read⟩ := head_cases 192 (by omega) small
  have notSelf : ¬ b < 128 := by rw [UInt8.lt_iff_toNat_lt]; simp; omega
  have isList : ¬ b < 192 := by rw [UInt8.lt_iff_toNat_lt]; simpa using low
  rw [isHead]
  simp only [List.cons_append, List.append_assoc, next, notSelf, isList, if_false,
    read body rest rfl]

theorem length_head_pos (short n : Nat) : 0 < (head short n).length := by
  unfold head
  split <;> simp

theorem length_lt_encode_list (items : List Item) :
    (encodeAll items).length < (encode (.list items)).length := by
  have := length_head_pos 192 (encodeAll items).length
  rw [encode, List.length_append]
  omega

theorem length_encodeBytes (bz : List UInt8) :
    bz.length ≤ (encodeBytes bz).length ∧ 0 < (encodeBytes bz).length := by
  unfold encodeBytes
  split
  · split <;> simp
  · have := length_head_pos 128 bz.length
    simp only [List.length_append]
    omega

theorem length_encode_pos (item : Item) : 0 < (encode item).length := by
  cases item with
  | bytes bz => exact (length_encodeBytes bz).2
  | list items => exact Nat.zero_lt_of_lt (length_lt_encode_list items)

mutual

theorem decodeNext_encode (item : Item) (rest : List UInt8) (fuel : Nat)
    (small : (encode item).length < 2 ^ 64) (enough : 2 * (encode item).length ≤ fuel) :
    decodeNext fuel (encode item ++ rest) = some (item, rest) := by
  have positive := length_encode_pos item
  obtain ⟨fuel, rfl⟩ : ∃ rest, fuel = rest + 1 := ⟨fuel - 1, by omega⟩
  match item with
  | .bytes bz =>
    have size := (length_encodeBytes bz).1
    rw [encode] at small ⊢
    rw [decodeNext, next_encodeBytes rest (by omega)]
  | .list items =>
    have size := length_lt_encode_list items
    rw [encode, decodeNext, next_list rest (by omega)]
    simp only [decodeAll_encodeAll items fuel (by omega) (by omega), Option.map_some]

theorem decodeAll_encodeAll (items : List Item) (fuel : Nat)
    (small : (encodeAll items).length < 2 ^ 64) (enough : 2 * (encodeAll items).length + 1 ≤ fuel) :
    decodeAll fuel (encodeAll items) = some items := by
  obtain ⟨fuel, rfl⟩ : ∃ rest, fuel = rest + 1 := ⟨fuel - 1, by omega⟩
  match items with
  | [] => simp [encodeAll, decodeAll]
  | item :: items =>
    have positive := length_encode_pos item
    rw [encodeAll, List.length_append] at small enough
    rw [encodeAll, decodeAll, decodeNext_encode item _ fuel (by omega) (by omega)]
    · simp only [decodeAll_encodeAll items fuel (by omega) (by omega), Option.map_some]
    · intro empty
      rw [(List.append_eq_nil_iff.mp empty).1] at positive
      exact absurd positive (by simp)

end

/-- An encoded item is read back. -/
theorem decode_encode {item : Item} (small : (encode item).length < 2 ^ 64) :
    decode (encode item) = some item := by
  have read := decodeNext_encode item [] (2 * (encode item).length) small le_rfl
  rw [List.append_nil] at read
  rw [decode, read]

theorem length_encode_le_of_mem {item : Item} {items : List Item} (mem : item ∈ items) :
    (encode item).length ≤ (encode (.list items)).length := by
  suffices part : (encode item).length ≤ (encodeAll items).length from
    part.trans (length_lt_encode_list items).le
  induction items with
  | nil => cases mem
  | cons first items ih =>
    rw [encodeAll, List.length_append]
    cases mem with
    | head => omega
    | tail _ later =>
      have := ih later
      omega

/-- The encoding of a list starts with a byte from 192 on. -/
theorem exists_encode_list {items : List Item} (small : (encode (.list items)).length < 2 ^ 64) :
    ∃ b : UInt8, ∃ bz : List UInt8, encode (.list items) = b :: bz ∧ 192 ≤ b.toNat := by
  have size := length_lt_encode_list items
  obtain ⟨b, bz, isHead, low, -⟩ :=
    head_cases 192 (n := (encodeAll items).length) (by omega) (by omega)
  exact ⟨b, bz ++ encodeAll items, by rw [encode, isHead]; rfl, low⟩

end Rlp

end Foundation
