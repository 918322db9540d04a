
/-!
# Layouts and storage orders

An array keeps its elements in one of three layouts: a dense column-major buffer (`flat`), a
strided view into a buffer (`strided`), or a list of equal rows (`nested`). A strided view also
carries a storage order, which decides the nesting of loops in bulk traversals and never the
meaning of an index.
-/

namespace StridedGrid

/-- How an array keeps its elements. -/
inductive Layout where
  | flat
  | strided
  | nested
  deriving DecidableEq, Repr, Inhabited

namespace Layout

/-- Lower-case name, used in descriptions and documents. -/
def name : Layout → String
  | .flat => "flat"
  | .strided => "strided"
  | .nested => "nested"

/-- Capitalised name, used inside error messages. -/
def title : Layout → String
  | .flat => "Flat"
  | .strided => "Strided"
  | .nested => "Nested"

/-- Reads a layout from its lower-case name. -/
def ofName? : String → Option Layout
  | "flat" => some .flat
  | "strided" => some .strided
  | "nested" => some .nested
  | _ => none

end Layout

/-- Storage order of a strided view: which index varies fastest along the buffer. -/
inductive Order where
  /-- The first index varies fastest. -/
  | columnMajor
  /-- The last index varies fastest. -/
  | rowMajor
  /-- Neither of the two. -/
  | nonSpecific
  deriving DecidableEq, Repr, Inhabited

namespace Order

/-- Snake-case name, used in descriptions and documents. -/
def name : Order → String
  | .columnMajor => "column_major"
  | .rowMajor => "row_major"
  | .nonSpecific => "non_specific"

/-- Reads an order from its snake-case name. -/
def ofName? : String → Option Order
  | "column_major" => some .columnMajor
  | "row_major" => some .rowMajor
  | "non_specific" => some .nonSpecific
  | _ => none

end Order

end StridedGrid
