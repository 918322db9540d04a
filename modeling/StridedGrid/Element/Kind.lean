

/-!
# Element kinds

The nine element kinds an array can hold: four signed integer widths, one unsigned byte, two
binary floating-point formats and complex numbers over each of them. A kind has a name (its
text on input and output), a storage size in bytes, and a class (integer, real, complex).

A cast between kinds is allowed unless it would drop an imaginary part: `canCastTo` says so.
-/

namespace StridedGrid

/-- The element kinds, in their canonical order. -/
inductive Kind where
  | i8
  | i16
  | i32
  | i64
  | u8
  | f32
  | f64
  | c32
  | c64
  deriving DecidableEq, Repr, Inhabited

namespace Kind

/-- Every kind, in canonical order. -/
def all : List Kind := [.i8, .i16, .i32, .i64, .u8, .f32, .f64, .c32, .c64]

/-- The kind's name, which is also its text. -/
def name : Kind → String
  | .i8 => "i8"
  | .i16 => "i16"
  | .i32 => "i32"
  | .i64 => "i64"
  | .u8 => "u8"
  | .f32 => "f32"
  | .f64 => "f64"
  | .c32 => "c32"
  | .c64 => "c64"

/-- Reads a kind from its name; names are lower case only. -/
def ofName? (text : String) : Option Kind :=
  all.find? (fun k => k.name == text)

/-- Whether elements of the kind are integers. -/
def isInteger : Kind → Bool
  | .i8 | .i16 | .i32 | .i64 | .u8 => true
  | _ => false

/-- Whether elements of the kind are complex numbers. -/
def isComplex : Kind → Bool
  | .c32 | .c64 => true
  | _ => false

/-- Storage size of one element in bytes. -/
def sizeOf : Kind → Nat
  | .i8 | .u8 => 1
  | .i16 => 2
  | .i32 | .f32 => 4
  | .i64 | .f64 | .c32 => 8
  | .c64 => 16

/-- A cast may go from any kind to a complex kind, and from a real kind anywhere: only the
imaginary part may never be dropped. -/
def canCastTo (source target : Kind) : Bool :=
  !source.isComplex || target.isComplex

theorem ofName?_name (k : Kind) : ofName? k.name = some k := by
  cases k <;> rfl

theorem mem_all (k : Kind) : k ∈ all := by
  cases k <;> simp [all]

end Kind

end StridedGrid
