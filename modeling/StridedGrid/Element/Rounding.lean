

/-!
# Conversions between numbers and binary floating point

Machine casts between integers and the two binary formats, stated as arithmetic:

* a binary fraction `m · 2^q` goes to the nearest value of a format, a tie to the even
  significand, a value past the largest finite one to infinity (`BinaryFormat.roundBits`);
  integers and doubles are binary fractions, so integer-to-float casts and double-to-single
  casts are this one rounding;
* a single widens to the double of the same value (`Float32.widen`);
* a float goes to an integer range by dropping its fraction (rounding toward zero) and clamping
  to the range; NaN goes to zero and the infinities to the range's ends
  (`Float.truncSaturate`).
-/

namespace StridedGrid

/-- A binary interchange format: significand precision, exponent of the least subnormal, and
width of the exponent field. -/
structure BinaryFormat where
  precision : Nat
  leastExponent : Int
  exponentBits : Nat

namespace BinaryFormat

/-- Single precision. -/
def binary32 : BinaryFormat := ⟨24, -149, 8⟩

/-- Double precision. -/
def binary64 : BinaryFormat := ⟨53, -1074, 11⟩

/-- Width of the stored fraction. -/
def fractionBits (f : BinaryFormat) : Nat := f.precision - 1

/-- Bit pattern of an infinity of the given sign. -/
def infinityBits (f : BinaryFormat) (negative : Bool) : Nat :=
  (if negative then Nat.pow 2 (f.exponentBits + f.fractionBits) else 0)
    + (Nat.pow 2 f.exponentBits - 1) * Nat.pow 2 f.fractionBits

/-- Bit pattern of the value of the format nearest `(-1)^negative · m · 2^q`, a tie going to the
even significand and a value past the largest finite one going to infinity.

The significand keeps `precision` bits, or fewer below the normal range where the exponent
stays at `leastExponent`; the bits dropped decide the rounding. -/
def roundBits (f : BinaryFormat) (negative : Bool) (m : Nat) (q : Int) : Nat :=
  let signBit := if negative then Nat.pow 2 (f.exponentBits + f.fractionBits) else 0
  if m = 0 then signBit
  else
    let top : Int := Nat.log2 m
    let drop : Int := max (top - f.fractionBits) (f.leastExponent - q)
    let (sig, exp) : Nat × Int :=
      if drop ≤ 0 then (m * Nat.pow 2 (-drop).toNat, q + drop)
      else
        let d := drop.toNat
        let kept := m / Nat.pow 2 d
        let rest := m % Nat.pow 2 d
        let half := Nat.pow 2 (d - 1)
        let up := rest > half || (rest == half && kept % 2 == 1)
        (if up then kept + 1 else kept, q + drop)
    -- a carry out of the significand moves one binade up
    let (sig, exp) := if sig = Nat.pow 2 f.precision then (sig / 2, exp + 1) else (sig, exp)
    if sig < Nat.pow 2 f.fractionBits then signBit + sig
    else
      let biased := exp - f.leastExponent + 1
      if biased ≥ Nat.pow 2 f.exponentBits - 1 then infinityBits f negative
      else signBit + biased.toNat * Nat.pow 2 f.fractionBits + (sig - Nat.pow 2 f.fractionBits)

end BinaryFormat

/-- A double's bits, split: sign, biased exponent and stored fraction. -/
structure DoubleParts where
  negative : Bool
  biased : Nat
  fraction : Nat

/-- Splits the bits of a double. -/
def Float.parts (x : Float) : DoubleParts :=
  let b : Nat := x.toBits.toNat
  ⟨b / Nat.pow 2 63 % 2 == 1, b / Nat.pow 2 52 % Nat.pow 2 11, b % Nat.pow 2 52⟩

/-- The single nearest a double; NaN stays NaN and infinities stay infinite. -/
def Float.toSingle (x : Float) : Float32 :=
  let p := Float.parts x
  if p.biased = Nat.pow 2 11 - 1 then
    if p.fraction = 0 then
      Float32.ofBits (UInt32.ofNat (BinaryFormat.binary32.infinityBits p.negative))
    else Float32.ofBits 0x7FC00000
  else
    let (m, q) : Nat × Int :=
      if p.biased = 0 then (p.fraction, -1074) else (p.fraction + Nat.pow 2 52, (p.biased : Int) - 1075)
    Float32.ofBits (UInt32.ofNat (BinaryFormat.binary32.roundBits p.negative m q))

/-- The double with the same value as a single. -/
def Float32.widen (x : Float32) : Float :=
  let b : Nat := x.toBits.toNat
  let negative : Bool := b / Nat.pow 2 31 % 2 == 1
  let biased : Nat := b / Nat.pow 2 23 % Nat.pow 2 8
  let fraction : Nat := b % Nat.pow 2 23
  if biased = Nat.pow 2 8 - 1 then
    if fraction = 0 then Float.ofBits (UInt64.ofNat (BinaryFormat.binary64.infinityBits negative))
    else Float.ofBits 0x7FF8000000000000
  else
    let (m, q) : Nat × Int :=
      if biased = 0 then (fraction, -149) else (fraction + Nat.pow 2 23, (biased : Int) - 150)
    Float.ofBits (UInt64.ofNat (BinaryFormat.binary64.roundBits negative m q))

/-- The single nearest an integer. -/
def Int.toSingle (v : Int) : Float32 :=
  Float32.ofBits (UInt32.ofNat (BinaryFormat.binary32.roundBits (v < 0) v.natAbs 0))

/-- The double nearest an integer. -/
def Int.toDouble (v : Int) : Float :=
  Float.ofBits (UInt64.ofNat (BinaryFormat.binary64.roundBits (v < 0) v.natAbs 0))

/-- A double's value with its fraction dropped (rounded toward zero), clamped to `[lo, hi]`;
NaN gives zero, and the infinities give the ends. -/
def Float.truncSaturate (lo hi : Int) (x : Float) : Int :=
  let p := Float.parts x
  if p.biased = Nat.pow 2 11 - 1 then
    if p.fraction ≠ 0 then 0 else if p.negative then lo else hi
  else
    let magnitude : Nat :=
      if p.biased = 0 then 0
      else
        let m := p.fraction + Nat.pow 2 52
        if p.biased ≥ 1075 then m * Nat.pow 2 (p.biased - 1075) else m / Nat.pow 2 (1075 - p.biased)
    let v : Int := if p.negative then -(magnitude : Int) else magnitude
    max lo (min hi v)

end StridedGrid
