import StridedGrid.Json.Basic
import StridedGrid.Error
import StridedGrid.Json.Write
import StridedGrid.Element.Basic

/-!
# Failed requests

A request to the service fails in one of three ways: the library stops with a fault (an error
or a broken precondition), the request itself is malformed (a missing or ill-typed field, an
unknown operation, an array that does not exist), or a value in it does not read as the
library's type (an unknown kind or boundary name, a document that is not a shape or range).
Each failure is answered by a small object naming it.
-/

namespace StridedGrid

/-- How a request fails. -/
inductive Failure where
  | fault (cause : Fault)
  | badInput
  | deserialize

/-- Results of reading and answering requests. -/
abbrev Reading (α : Type) := Except Failure α

namespace Failure

/-- The answer object of a failure: a library error names its variant and gives its message. -/
def toJson : Failure → Json
  | .fault (.error e) => .obj [("error", .str e.name), ("message", .str e.message)]
  | .fault (.panic _) => .obj [("error", .str "panic")]
  | .badInput => .obj [("error", .str "BadInput")]
  | .deserialize => .obj [("error", .str "Deserialize")]

end Failure

namespace Reading

/-- Lifts a library outcome. -/
def ofOutcome {α : Type} : Outcome α → Reading α
  | .ok a => .ok a
  | .error f => .error (.fault f)

/-- Lifts a library result that can only fail with an error. -/
def ofExcept {α : Type} : Except GridError α → Reading α
  | .ok a => .ok a
  | .error e => .error (.fault (.error e))

/-- A value that must be present, or a malformed request. -/
def need {α : Type} : Option α → Reading α
  | some a => .ok a
  | none => .error .badInput

end Reading

end StridedGrid

/-!
## Writing values into answers

Element values are written from the cast carrier: an integer as an integer, a double as a
number, and a complex number as the pair `[re, im]`. A double that has no decimal (NaN or an
infinity) is written as the text `NaN`, `Infinity` or `-Infinity`.
-/

namespace StridedGrid

namespace Json

/-- A double: a number when finite, its name otherwise. -/
def ofDouble (x : Float) : Json :=
  if finiteDouble x then .float x
  else if x.isNaN then .str "NaN"
  else if x > 0 then .str "Infinity"
  else .str "-Infinity"

/-- An element value. -/
def ofScalar : Scalar → Json
  | .int v => ofInt v
  | .float x => ofDouble x
  | .complex re im => .arr [ofDouble re, ofDouble im]

/-- A list of naturals. -/
def ofNats (xs : List Nat) : Json := .arr (xs.map .nat)

/-- A list of integers. -/
def ofInts (xs : List Int) : Json := .arr (xs.map ofInt)

end Json

/-- An element written as an answer value. -/
def Element.toJson {α : Type} [Element α] (x : α) : Json := Json.ofScalar (Element.toScalar x)

end StridedGrid
