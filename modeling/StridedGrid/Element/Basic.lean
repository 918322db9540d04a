import StridedGrid.Element.Kind
import StridedGrid.Element.Rounding

/-!
# Elements

An element type has a kind, a zero and a one, an addition and a multiplication (wrapping for
integers, the format's own for floats), and two conversions through the cast carrier `Scalar`:
every element widens to a scalar exactly, and a scalar converts to an element by a machine cast
(`Element.ofScalar?`), which refuses only to drop an imaginary part:

* into an integer kind, an integer keeps its low bits and a float is truncated and saturated;
* into a float kind, a number is rounded to the nearest value of the format;
* into a complex kind, a real number gets imaginary part zero.

`Kind.Carrier` gives each kind its element type, so a kind determines how its elements
compute.
-/

namespace StridedGrid

/-- The carrier through which elements are cast: a signed 64-bit integer, a double, or a
complex number of doubles. -/
inductive Scalar where
  | int (v : Int)
  | float (x : Float)
  | complex (re im : Float)
  deriving Inhabited

/-- A complex number over a real format. -/
structure Complex (α : Type) where
  re : α
  im : α
  deriving Inhabited

namespace Complex

variable {α : Type} [Add α] [Sub α] [Mul α]

/-- Componentwise sum. -/
def add (a b : Complex α) : Complex α := ⟨a.re + b.re, a.im + b.im⟩

/-- Product `(a.re b.re - a.im b.im) + (a.re b.im + a.im b.re) i`, in that order of
operations. -/
def mul (a b : Complex α) : Complex α :=
  ⟨a.re * b.re - a.im * b.im, a.re * b.im + a.im * b.re⟩

end Complex

/-- An element type of arrays. -/
class Element (α : Type) where
  kind : Kind
  zero : α
  one : α
  /-- Addition; integers wrap around. -/
  add : α → α → α
  /-- Multiplication; integers wrap around. -/
  mul : α → α → α
  /-- The element as a scalar, exactly. -/
  toScalar : α → Scalar
  /-- The element a scalar casts to; `none` when an imaginary part would be dropped. -/
  ofScalar? : Scalar → Option α

namespace Element

/-- Casts an element to another element type through the scalar carrier. -/
def cast {α β : Type} [Element α] [Element β] (x : α) : Option β :=
  ofScalar? (toScalar x)

/-- Bytes taken by one element. -/
def byteSize (α : Type) [Element α] : Nat := (kind (α := α)).sizeOf

end Element

/-- The integer element of a signed width `bits` that an integer scalar wraps to and a float
scalar saturates to. -/
def Scalar.toSignedWidth (bits : Nat) : Scalar → Option Int
  | .int v => some v
  | .float x => some (Float.truncSaturate (-(Nat.pow 2 (bits - 1) : Int)) ((Nat.pow 2 (bits - 1) : Int) - 1) x)
  | .complex .. => none

instance : Element Int8 where
  kind := .i8
  zero := 0
  one := 1
  add := (· + ·)
  mul := (· * ·)
  toScalar x := .int x.toInt
  ofScalar? s := (s.toSignedWidth 8).map Int8.ofInt

instance : Element Int16 where
  kind := .i16
  zero := 0
  one := 1
  add := (· + ·)
  mul := (· * ·)
  toScalar x := .int x.toInt
  ofScalar? s := (s.toSignedWidth 16).map Int16.ofInt

instance : Element Int32 where
  kind := .i32
  zero := 0
  one := 1
  add := (· + ·)
  mul := (· * ·)
  toScalar x := .int x.toInt
  ofScalar? s := (s.toSignedWidth 32).map Int32.ofInt

instance : Element Int64 where
  kind := .i64
  zero := 0
  one := 1
  add := (· + ·)
  mul := (· * ·)
  toScalar x := .int x.toInt
  ofScalar? s := (s.toSignedWidth 64).map Int64.ofInt

instance : Element UInt8 where
  kind := .u8
  zero := 0
  one := 1
  add := (· + ·)
  mul := (· * ·)
  toScalar x := .int x.toNat
  ofScalar?
    | .int v => some (UInt8.ofInt v)
    | .float x => some (UInt8.ofInt (Float.truncSaturate 0 255 x))
    | .complex .. => none

/-- The single a real scalar rounds to. -/
def Scalar.realToSingle : Scalar → Option Float32
  | .int v => some (Int.toSingle v)
  | .float x => some (Float.toSingle x)
  | .complex .. => none

/-- The double a real scalar rounds to. -/
def Scalar.realToDouble : Scalar → Option Float
  | .int v => some (Int.toDouble v)
  | .float x => some x
  | .complex .. => none

instance : Element Float32 where
  kind := .f32
  zero := Int.toSingle 0
  one := Int.toSingle 1
  add := (· + ·)
  mul := (· * ·)
  toScalar x := .float (Float32.widen x)
  ofScalar? := Scalar.realToSingle

instance : Element Float where
  kind := .f64
  zero := 0
  one := 1
  add := (· + ·)
  mul := (· * ·)
  toScalar x := .float x
  ofScalar? := Scalar.realToDouble

instance : Element (Complex Float32) where
  kind := .c32
  zero := ⟨Int.toSingle 0, Int.toSingle 0⟩
  one := ⟨Int.toSingle 1, Int.toSingle 0⟩
  add := Complex.add
  mul := Complex.mul
  toScalar z := .complex (Float32.widen z.re) (Float32.widen z.im)
  ofScalar?
    | .complex re im => some ⟨Float.toSingle re, Float.toSingle im⟩
    | s => (s.realToSingle).map fun re => ⟨re, Int.toSingle 0⟩

instance : Element (Complex Float) where
  kind := .c64
  zero := ⟨0, 0⟩
  one := ⟨1, 0⟩
  add := Complex.add
  mul := Complex.mul
  toScalar z := .complex z.re z.im
  ofScalar?
    | .complex re im => some ⟨re, im⟩
    | s => (s.realToDouble).map fun re => ⟨re, 0⟩

namespace Kind

/-- The element type of a kind. -/
def Carrier : Kind → Type
  | .i8 => Int8
  | .i16 => Int16
  | .i32 => Int32
  | .i64 => Int64
  | .u8 => UInt8
  | .f32 => Float32
  | .f64 => Float
  | .c32 => Complex Float32
  | .c64 => Complex Float

/-- The element structure of a kind's carrier. -/
@[reducible] def element : (k : Kind) → Element k.Carrier
  | .i8 => inferInstanceAs (Element Int8)
  | .i16 => inferInstanceAs (Element Int16)
  | .i32 => inferInstanceAs (Element Int32)
  | .i64 => inferInstanceAs (Element Int64)
  | .u8 => inferInstanceAs (Element UInt8)
  | .f32 => inferInstanceAs (Element Float32)
  | .f64 => inferInstanceAs (Element Float)
  | .c32 => inferInstanceAs (Element (Complex Float32))
  | .c64 => inferInstanceAs (Element (Complex Float))

instance (k : Kind) : Element k.Carrier := k.element

instance (k : Kind) : Inhabited k.Carrier := ⟨(k.element).zero⟩

theorem element_kind (k : Kind) : (k.element).kind = k := by
  cases k <;> rfl

end Kind

end StridedGrid
