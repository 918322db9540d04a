import StridedGrid.Error

/-!
# Machine words

Offsets and strides are signed 64-bit words, lengths and extents unsigned ones. The library
computes with them in `Int` and `Nat` and checks every result that its arithmetic produces: a
result outside its word is an overflow, and the operation stops with `Panic.overflow`.

Two conversions reinterpret bits instead of checking them: `wrapSigned` reads the low 64 bits
of an integer as a two's-complement word (what converting an unsigned extent to a signed word
does), and `wrapUnsigned` reads them as an unsigned word.
-/

namespace StridedGrid

namespace Word

/-- The least signed word, `-2^63`. -/
def signedMin : Int := -9223372036854775808

/-- The greatest signed word, `2^63 - 1`. -/
def signedMax : Int := 9223372036854775807

/-- The number of unsigned words, `2^64`. -/
def unsignedCount : Nat := 18446744073709551616

/-- Whether an integer is a signed word. -/
def IsSigned (x : Int) : Prop := signedMin ≤ x ∧ x ≤ signedMax

instance (x : Int) : Decidable (IsSigned x) := by
  unfold IsSigned; infer_instance

/-- Whether a natural number is an unsigned word. -/
def IsUnsigned (n : Nat) : Prop := n < unsignedCount

instance (n : Nat) : Decidable (IsUnsigned n) := by
  unfold IsUnsigned; infer_instance

/-- A signed result: the value itself when it is a word, an overflow otherwise. -/
def signed (x : Int) : Outcome Int :=
  if IsSigned x then .ok x else Outcome.panic .overflow

/-- A signed result when it is a word. -/
def checked? (x : Int) : Option Int :=
  if IsSigned x then some x else none

/-- An unsigned result: the value itself when it is a word, an overflow otherwise. -/
def unsigned (x : Int) : Outcome Nat :=
  if 0 ≤ x ∧ x < unsignedCount then .ok x.toNat else Outcome.panic .overflow

/-- The signed word with the same low 64 bits, in two's complement. -/
def wrapSigned (x : Int) : Int := Int.bmod x unsignedCount

/-- The unsigned word with the same low 64 bits. -/
def wrapUnsigned (x : Int) : Nat := (x % (unsignedCount : Int)).toNat

/-- The size of a word in bytes. -/
def size : Nat := 8

/-- Whether room for `count` items of `size` bytes each can be reserved: a buffer is measured
in bytes by a signed word. -/
def Reservable (count size : Nat) : Prop := count * size ≤ signedMax.toNat

instance (count size : Nat) : Decidable (Reservable count size) := by
  unfold Reservable; infer_instance

/-- Room for `count` items of `size` bytes each; a request for more bytes than the greatest
signed word is refused before anything is written. -/
def reserve (count size : Nat) : Outcome Unit :=
  if Reservable count size then pure () else Outcome.panic .capacityOverflow

/-- Bytes taken by the handle of a buffer: its address, capacity and length, one word each. -/
def handleSize : Nat := 3 * size

/-- The room, in items of `size` bytes, that a buffer filled one item at a time is given when
its first item comes: eight items of one byte, four of up to a kilobyte, one of more. -/
def minCapacity (size : Nat) : Nat :=
  if size = 1 then 8 else if size ≤ 1024 then 4 else 1

/-- The room of a buffer that starts with room for `room` items and doubles it whenever it is
full and another item comes, once it holds `count` items. -/
def grownCapacity (room count : Nat) : Nat :=
  if h : 0 < room ∧ room < count then grownCapacity (2 * room) count else room
termination_by count - room

/-- The signed word of an unsigned extent, when it is one. -/
def signedOfUnsigned? (n : Nat) : Option Int :=
  if (n : Int) ≤ signedMax then some n else none

theorem signed_ok_iff (x y : Int) : signed x = .ok y ↔ IsSigned x ∧ y = x := by
  unfold signed
  split
  · constructor
    · intro h; cases h; exact ⟨by assumption, rfl⟩
    · rintro ⟨_, rfl⟩; rfl
  · constructor
    · intro h; cases h
    · rintro ⟨h, _⟩; contradiction

theorem wrapSigned_of_isSigned (x : Int) (h : IsSigned x) : wrapSigned x = x := by
  unfold wrapSigned IsSigned signedMin signedMax unsignedCount at *
  apply Int.bmod_eq_of_le <;> omega

end Word

end StridedGrid
