import Mathlib
import StridedGrid.Proofs.Conversion

/-!
# Casts between integer kinds

A cast goes through the carrier: the element widens to a scalar, and the scalar converts to the
target kind. Between the five integer kinds both steps are machine conversions of integers: the
source widens to its value, and the target keeps the value's low bits. A cast therefore reduces
the value modulo `2 ^ bits` of the target and lands on the one element of the target that is
congruent to it.

`Residues` describes an integer kind of `bits` bits by what these arguments need of it: how its
elements are read as integers, how an integer becomes an element, that two integers become the
same element exactly when they agree modulo `2 ^ bits`, and that the kind's wrapping addition and
multiplication are those of the residues. The laws of casts (a round trip through a kind at least
as wide returns the element, and a cast into a kind at most as wide commutes with the wrapping
operations) follow from that description alone, for all twenty-five pairs of integer kinds.

Which casts succeed depends only on whether the kinds are complex: a cast fails exactly when it
would drop an imaginary part, which is what `Kind.canCastTo` says. `convert` checks that before
casting, so its fallback for a failed cast is never taken.
-/

namespace StridedGrid

/-- Reducing to the balanced residue keeps an integer's class modulo the divisor. -/
theorem bmod_modEq (x : Int) (m : Nat) : x.bmod m ≡ x [ZMOD m] :=
  Int.modEq_iff_dvd.mpr ⟨Int.bdiv x m, by rw [Int.bmod_eq_self_sub_mul_bdiv]; ring⟩

theorem bmod_eq_bmod_iff {v w : Int} {m : Nat} : v.bmod m = w.bmod m ↔ v ≡ w [ZMOD m] := by
  constructor
  · intro same
    exact (bmod_modEq v m).symm.trans (same ▸ bmod_modEq w m)
  · intro congruent
    rw [← Int.emod_bmod v, ← Int.emod_bmod w, congruent]

/-- The elements of an integer kind of `bits` bits as the residues modulo `2 ^ bits`: each element
widens to an integer scalar, its value; an integer scalar converts to an element; two integers
convert to the same element exactly when they agree modulo `2 ^ bits`; and the kind's wrapping
arithmetic is the arithmetic of the residues. -/
structure Residues (α : Type) [Element α] (bits : Nat) where
  /-- The integer an element widens to. -/
  value : α → Int
  /-- The element an integer scalar converts to. -/
  ofInt : Int → α
  toScalar_eq : ∀ x, Element.toScalar x = .int (value x)
  ofScalar_int : ∀ v, (Element.ofScalar? (.int v) : Option α) = some (ofInt v)
  ofInt_value : ∀ x, ofInt (value x) = x
  ofInt_eq_iff : ∀ v w, ofInt v = ofInt w ↔ v ≡ w [ZMOD 2 ^ bits]
  ofInt_add : ∀ v w, ofInt (v + w) = Element.add (ofInt v) (ofInt w)
  ofInt_mul : ∀ v w, ofInt (v * w) = Element.mul (ofInt v) (ofInt w)

namespace Residues

variable {α β : Type} [Element α] [Element β] {b c : Nat} (R : Residues α b) (S : Residues β c)

theorem value_ofInt (v : Int) : R.value (R.ofInt v) ≡ v [ZMOD 2 ^ b] :=
  (R.ofInt_eq_iff _ _).mp (R.ofInt_value _)

/-- An element is what every integer congruent to its value converts to. -/
theorem eq_ofInt_of_modEq {y : α} {v : Int} (congruent : R.value y ≡ v [ZMOD 2 ^ b]) :
    y = R.ofInt v := by
  rw [← R.ofInt_value y]
  exact (R.ofInt_eq_iff _ _).mpr congruent

/-- Integers that agree modulo a wider kind's width convert to the same element. -/
theorem ofInt_eq_of_modEq (narrower : b ≤ c) {v w : Int} (congruent : v ≡ w [ZMOD 2 ^ c]) :
    R.ofInt v = R.ofInt w :=
  (R.ofInt_eq_iff v w).mpr (Int.ModEq.of_dvd (pow_dvd_pow 2 narrower) congruent)

theorem value_add (x y : α) : R.value (Element.add x y) ≡ R.value x + R.value y [ZMOD 2 ^ b] := by
  have sum : Element.add x y = R.ofInt (R.value x + R.value y) := by
    rw [R.ofInt_add, R.ofInt_value, R.ofInt_value]
  rw [sum]
  exact R.value_ofInt _

theorem value_mul (x y : α) : R.value (Element.mul x y) ≡ R.value x * R.value y [ZMOD 2 ^ b] := by
  have product : Element.mul x y = R.ofInt (R.value x * R.value y) := by
    rw [R.ofInt_mul, R.ofInt_value, R.ofInt_value]
  rw [product]
  exact R.value_ofInt _

/-- A cast between integer kinds converts the value of the source. -/
theorem cast_eq (x : α) : (Element.cast x : Option β) = some (S.ofInt (R.value x)) := by
  rw [Element.cast, R.toScalar_eq, S.ofScalar_int]

/-- A cast lands on the one element of the target congruent to the source. -/
theorem cast_wraps (x : α) :
    ∃ y, (Element.cast x : Option β) = some y ∧ S.value y ≡ R.value x [ZMOD 2 ^ c] ∧
      ∀ z, S.value z ≡ R.value x [ZMOD 2 ^ c] → z = y :=
  ⟨_, R.cast_eq S x, S.value_ofInt _, fun _ congruent => S.eq_ofInt_of_modEq congruent⟩

include R S in
/-- Casting into a kind at least as wide and back returns the element: the value comes back
modulo the wider width, so modulo the source's own. -/
theorem cast_cast (wider : b ≤ c) (x : α) :
    (Element.cast x : Option β).bind Element.cast = some x := by
  rw [R.cast_eq S, Option.bind_some, S.cast_eq R, R.ofInt_eq_of_modEq wider (S.value_ofInt _),
    R.ofInt_value]

variable {x y : α} {x' y' : β}

include R S

/-- Casting into a kind at most as wide commutes with wrapping addition. -/
theorem cast_add (narrower : c ≤ b) (castX : Element.cast x = some x')
    (castY : Element.cast y = some y') : Element.cast (Element.add x y) = some (Element.add x' y') := by
  rw [R.cast_eq S] at castX castY ⊢
  obtain rfl := Option.some.inj castX
  obtain rfl := Option.some.inj castY
  rw [← S.ofInt_add, S.ofInt_eq_of_modEq narrower (R.value_add x y)]

/-- Casting into a kind at most as wide commutes with wrapping multiplication. -/
theorem cast_mul (narrower : c ≤ b) (castX : Element.cast x = some x')
    (castY : Element.cast y = some y') : Element.cast (Element.mul x y) = some (Element.mul x' y') := by
  rw [R.cast_eq S] at castX castY ⊢
  obtain rfl := Option.some.inj castX
  obtain rfl := Option.some.inj castY
  rw [← S.ofInt_mul, S.ofInt_eq_of_modEq narrower (R.value_mul x y)]

end Residues

namespace Kind

/-- `i8` elements are the residues modulo `2 ^ 8` in two's complement. -/
def int8Residues : Residues Int8 8 where
  value := Int8.toInt
  ofInt := Int8.ofInt
  toScalar_eq _ := rfl
  ofScalar_int _ := rfl
  ofInt_value := Int8.ofInt_toInt
  ofInt_eq_iff v w := by
    rw [← Int8.toInt_inj, Int8.toInt_ofInt, Int8.toInt_ofInt]
    exact bmod_eq_bmod_iff
  ofInt_add := Int8.ofInt_add
  ofInt_mul := Int8.ofInt_mul

/-- `i16` elements are the residues modulo `2 ^ 16` in two's complement. -/
def int16Residues : Residues Int16 16 where
  value := Int16.toInt
  ofInt := Int16.ofInt
  toScalar_eq _ := rfl
  ofScalar_int _ := rfl
  ofInt_value := Int16.ofInt_toInt
  ofInt_eq_iff v w := by
    rw [← Int16.toInt_inj, Int16.toInt_ofInt, Int16.toInt_ofInt]
    exact bmod_eq_bmod_iff
  ofInt_add := Int16.ofInt_add
  ofInt_mul := Int16.ofInt_mul

/-- `i32` elements are the residues modulo `2 ^ 32` in two's complement. -/
def int32Residues : Residues Int32 32 where
  value := Int32.toInt
  ofInt := Int32.ofInt
  toScalar_eq _ := rfl
  ofScalar_int _ := rfl
  ofInt_value := Int32.ofInt_toInt
  ofInt_eq_iff v w := by
    rw [← Int32.toInt_inj, Int32.toInt_ofInt, Int32.toInt_ofInt]
    exact bmod_eq_bmod_iff
  ofInt_add := Int32.ofInt_add
  ofInt_mul := Int32.ofInt_mul

/-- `i64` elements are the residues modulo `2 ^ 64` in two's complement. -/
def int64Residues : Residues Int64 64 where
  value := Int64.toInt
  ofInt := Int64.ofInt
  toScalar_eq _ := rfl
  ofScalar_int _ := rfl
  ofInt_value := Int64.ofInt_toInt
  ofInt_eq_iff v w := by
    rw [← Int64.toInt_inj, Int64.toInt_ofInt, Int64.toInt_ofInt]
    exact bmod_eq_bmod_iff
  ofInt_add := Int64.ofInt_add
  ofInt_mul := Int64.ofInt_mul

/-- `u8` elements are the residues modulo `2 ^ 8` from zero up. -/
def uint8Residues : Residues UInt8 8 where
  value x := x.toNat
  ofInt := UInt8.ofInt
  toScalar_eq _ := rfl
  ofScalar_int _ := rfl
  ofInt_value x := by
    have small := x.toNat_lt
    rw [← UInt8.toNat_inj]
    simp [UInt8.ofInt]
    omega
  ofInt_eq_iff v w := by
    rw [← UInt8.toNat_inj]
    simp [UInt8.ofInt, Int.ModEq]
    omega
  ofInt_add := UInt8.ofInt_add
  ofInt_mul := UInt8.ofInt_mul

/-- The residue description of each integer kind, of `8 * sizeOf` bits. -/
def residues : (k : Kind) → k.isInteger = true → Residues k.Carrier (8 * k.sizeOf)
  | .i8, _ => int8Residues
  | .i16, _ => int16Residues
  | .i32, _ => int32Residues
  | .i64, _ => int64Residues
  | .u8, _ => uint8Residues
  | .f32, real | .f64, real | .c32, real | .c64, real => absurd real Bool.false_ne_true

end Kind

/-- Integer casts are reduction modulo the target's width: a cast gives the one element congruent
to the value modulo `2 ^ bits`, round trips through wider kinds, and commutes with wrapping
arithmetic into narrower ones. `canCastTo` holds exactly when every cast succeeds. -/
theorem integer_casts_reduce_modulo_width :
    (∀ (t u : Kind), t.isInteger = true → u.isInteger = true → ∀ x : t.Carrier,
      ∃ v, Element.toScalar x = .int v ∧ ∃ y : u.Carrier, Element.cast x = some y ∧
        (∃ w, Element.toScalar y = .int w ∧ w ≡ v [ZMOD 2 ^ (8 * u.sizeOf)]) ∧
        ∀ (z : u.Carrier) (w : Int), Element.toScalar z = .int w →
          w ≡ v [ZMOD 2 ^ (8 * u.sizeOf)] → z = y) ∧
    (∀ (t u : Kind), t.isInteger = true → u.isInteger = true → 8 * t.sizeOf ≤ 8 * u.sizeOf →
      ∀ x : t.Carrier, (Element.cast x : Option u.Carrier).bind Element.cast = some x) ∧
    (∀ (t u : Kind), t.isInteger = true → u.isInteger = true → 8 * u.sizeOf ≤ 8 * t.sizeOf →
      ∀ (x y : t.Carrier) (x' y' : u.Carrier), Element.cast x = some x' →
        Element.cast y = some y' →
        Element.cast (Element.add x y) = some (Element.add x' y') ∧
          Element.cast (Element.mul x y) = some (Element.mul x' y')) ∧
    (∀ (t u : Kind),
      t.canCastTo u = true ↔ ∀ x : t.Carrier, (Element.cast x : Option u.Carrier).isSome) ∧
    ∀ (t u : Kind), t.canCastTo u = true → ∀ x : t.Carrier,
      ∃ y : u.Carrier, Element.cast x = some y ∧ (Element.cast x).getD Element.zero = y := by
  refine ⟨fun t u ti ui x => ?_, fun t u ti ui wider x => ?_,
    fun t u ti ui narrower x y x' y' castX castY => ?_, fun t u => ?_, fun t u castable x => ?_⟩
  · have R := t.residues ti
    have S := u.residues ui
    obtain ⟨y, cast, congruent, unique⟩ := R.cast_wraps S x
    refine ⟨R.value x, R.toScalar_eq x, y, cast, ⟨S.value y, S.toScalar_eq y, congruent⟩,
      fun z w widened same => unique z ?_⟩
    have read : S.value z = w := by
      have := (S.toScalar_eq z).symm.trans widened
      exact Scalar.int.inj this
    rwa [read]
  · exact (t.residues ti).cast_cast (u.residues ui) wider x
  · exact ⟨(t.residues ti).cast_add (u.residues ui) narrower castX castY,
      (t.residues ti).cast_mul (u.residues ui) narrower castX castY⟩
  · constructor
    · intro castable x
      rw [Kind.cast_isSome, castable]
    · intro succeeds
      rw [← Kind.cast_isSome t u default]
      exact succeeds default
  · obtain ⟨y, cast⟩ := Option.isSome_iff_exists.mp ((Kind.cast_isSome t u x).trans castable)
    exact ⟨y, cast, by rw [cast, Option.getD_some]⟩

/-- The `i32` value `300` casts to the `u8` element `44`, the one byte congruent to it. -/
theorem integer_casts_reduce_modulo_width_three_hundred :
    Kind.i32.isInteger = true ∧ Kind.u8.isInteger = true ∧
      (Element.cast ((300 : Int32) : Kind.i32.Carrier) : Option Kind.u8.Carrier) = some (44 : UInt8) := by
  have signed : Kind.i32.isInteger = true := rfl
  have unsigned : Kind.u8.isInteger = true := rfl
  obtain ⟨v, widened, y, cast, -, unique⟩ :=
    integer_casts_reduce_modulo_width.1 .i32 .u8 signed unsigned (300 : Int32)
  have value : v = 300 := (Scalar.int.inj widened).symm
  have found : (44 : UInt8) = y := unique (44 : UInt8) 44 rfl (by rw [value]; decide)
  exact ⟨signed, unsigned, found ▸ cast⟩

end StridedGrid
