

/-!
# JSON documents

Arrays, shapes, ranges and the other values of the library are exchanged as JSON documents.
A number keeps the class it was written in: an integer that is an unsigned 64-bit word
(`nat`), a negative integer that is a signed one (`int`), or a double for everything else
(`float`). The class matters, since an extent must be written as an integer, and `-0` and
`-0.0` are both the double negative zero.

Objects keep their fields in the order they were read or built; a look-up finds the last field
of a name, so a repeated name means its last value.
-/

namespace StridedGrid

/-- A JSON document. -/
inductive Json where
  | null
  | bool (b : Bool)
  | nat (n : Nat)
  | int (n : Int)
  | float (x : Float)
  | str (s : String)
  | arr (items : List Json)
  | obj (fields : List (String × Json))
  deriving Inhabited

namespace Json

/-- An integer as a document: `nat` when non-negative, `int` otherwise. -/
def ofInt (n : Int) : Json := if n ≥ 0 then .nat n.toNat else .int n

/-- The value of the last field with the given name. -/
def field? (j : Json) (name : String) : Option Json :=
  match j with
  | .obj fields => (fields.reverse.find? (·.1 == name)).map (·.2)
  | _ => none

/-- Whether the document is an object with a field of the given name. -/
def hasField (j : Json) (name : String) : Bool := (j.field? name).isSome

/-- The elements of an array. -/
def items? : Json → Option (List Json)
  | .arr items => some items
  | _ => none

/-- A string's text. -/
def str? : Json → Option String
  | .str s => some s
  | _ => none

/-- A boolean. -/
def bool? : Json → Option Bool
  | .bool b => some b
  | _ => none

/-- An integer written without fraction or exponent. -/
def integer? : Json → Option Int
  | .nat n => some n
  | .int n => some n
  | _ => none

end Json

end StridedGrid
