import StridedGrid.Service.Encode
import StridedGrid.Element.Basic
import StridedGrid.Boundary
import StridedGrid.Word

/-!
# Reading request fields

Requests carry machine words, lists of them, names and element values as JSON. An unsigned
word must be written as a non-negative integer, a signed word as an integer that fits; a field
that is missing or of the wrong form makes the request malformed. An optional field takes its
default only when it is absent: written, even as `null`, it must read. Kind and boundary names
go through the library's own reading of names, and a value that is not one of them, `null`
included, is a `Failure.deserialize`.

An element value is read into the cast carrier: an integer that is a signed word becomes an
integer scalar, any other number and the texts `NaN`, `Infinity` and `-Infinity` a float
scalar, and a pair `[re, im]` a complex one.
-/

namespace StridedGrid

namespace Json

/-- An unsigned word. -/
def usize? : Json → Option Nat
  | .nat n => some n
  | _ => none

/-- A signed word. -/
def isize? : Json → Option Int
  | .nat n => if (n : Int) ≤ Word.signedMax then some n else none
  | .int n => if Word.IsSigned n then some n else none
  | _ => none

/-- A list of which every item reads. -/
def listOf? {α : Type} (read : Json → Option α) : Json → Option (List α)
  | .arr items => items.mapM read
  | _ => none

/-- A required field that must read. -/
def need {α : Type} (j : Json) (name : String) (read : Json → Option α) : Reading α :=
  Reading.need ((j.field? name).bind read)

/-- An optional field: `none` when absent; present, it must read. -/
def optional {α : Type} (j : Json) (name : String) (read : Json → Option α) :
    Reading (Option α) :=
  match j.field? name with
  | none => .ok none
  | some v => some <$> Reading.need (read v)

/-- An optional field with a default; present, it must read. -/
def needOr {α : Type} (j : Json) (name : String) (read : Json → Option α) (default : α) :
    Reading α :=
  (·.getD default) <$> j.optional name read

/-- A number read as a double, or one of the texts for NaN and the infinities. -/
def double? : Json → Option Float
  | .nat n => some (Int.toDouble n)
  | .int n => some (Int.toDouble n)
  | .float x => some x
  | .str "NaN" => some (0 / 0)
  | .str "Infinity" => some (1 / 0)
  | .str "-Infinity" => some (-1 / 0)
  | _ => none

/-- An element value, in the cast carrier. -/
def scalar? : Json → Option Scalar
  | .nat n => if (n : Int) ≤ Word.signedMax then some (.int n) else none
  | .int n => some (.int n)
  | .arr [re, im] => do
    let re ← double? re
    let im ← double? im
    pure (.complex re im)
  | j => (double? j).map .float

/-- A name of an enumeration, written as its text or as an object with the name as its only
key and `null` as its value. -/
def enumName? : Json → Option String
  | .str s => some s
  | .obj [(s, .null)] => some s
  | _ => none

/-- A kind, refusing a name that is not one. -/
def kind (j : Json) : Reading Kind :=
  match (enumName? j).bind Kind.ofName? with
  | some k => .ok k
  | none => .error .deserialize

/-- A boundary condition, refusing a name that is not one. -/
def boundary (j : Json) : Reading Boundary :=
  match (enumName? j).bind Boundary.ofName? with
  | some b => .ok b
  | none => .error .deserialize

/-- A required kind field. -/
def needKind (j : Json) (name : String) : Reading Kind := do
  let v ← Reading.need (j.field? name)
  kind v

/-- An optional kind field with a default; present, it must name a kind. -/
def kindOr (j : Json) (name : String) (default : Kind) : Reading Kind :=
  match j.field? name with
  | none => .ok default
  | some v => kind v

/-- A required boundary field. -/
def needBoundary (j : Json) (name : String) : Reading Boundary := do
  let v ← Reading.need (j.field? name)
  boundary v

end Json

end StridedGrid
