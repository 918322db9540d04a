import StridedGrid.Service.Fields
import StridedGrid.Service.Encode
import StridedGrid.Service.Serde
import StridedGrid.Shape
import StridedGrid.Range
import StridedGrid.Layout.Basic
import StridedGrid.Layout.Strides
import StridedGrid.Session.Program
import StridedGrid.Json.Read

/-!
# Requests on single values

Requests that ask the library about one shape, range, stride vector, boundary condition, kind
or element, with no arrays involved. Each reads its fields, calls the library, and answers an
object of the results.
-/

namespace StridedGrid

namespace Service

open Json

/-- Facts about a shape: `dims`, optional `nonscalar` and the axes `k` to ask the extent of. -/
def shapeInfo (req : Json) : Reading Json := do
  let dims ← req.need "dims" (listOf? usize?)
  let nonscalar ← req.needOr "nonscalar" bool? false
  let shape ← Reading.ofExcept (if nonscalar then Shape.nonscalar dims else Shape.ofDims dims)
  let axes ← req.needOr "k" (listOf? usize?) []
  pure <| .obj [
    ("rank", .nat shape.rank), ("len", .nat shape.len), ("dims", ofNats shape.dims),
    ("display", .str shape.display),
    ("col_major_strides", ofInts shape.colMajorStrides),
    ("row_major_strides", ofInts shape.rowMajorStrides),
    ("dim", ofNats (axes.map shape.dim)), ("json", ofShape shape)]

/-- Whether two shapes agree. -/
def shapeSame (req : Json) : Reading Json := do
  let a ← Reading.ofExcept (Shape.ofDims (← req.need "a" (listOf? usize?)))
  let b ← Reading.ofExcept (Shape.ofDims (← req.need "b" (listOf? usize?)))
  Reading.ofExcept (a.ensureSame b)
  pure (.obj [("equal", .bool true)])

/-- An outer offset and stride. -/
def outerMap? (j : Json) : Option (Int × Int) := do
  let offset ← (j.field? "offset").bind isize?
  let stride ← (j.field? "stride").bind isize?
  pure (offset, stride)

/-- A compiled range, its first positions, and optionally its composition with an outer map;
the outer map is read only once the range has compiled. -/
def rangeCompile (req : Json) : Reading Json := do
  let first ← req.need "first" isize?
  let last ← req.need "last" isize?
  let step ← req.needOr "step" isize? 0
  let length ← req.need "length" usize?
  let r : Range := ⟨first, last, step⟩
  let c ← Reading.ofOutcome (r.compile length)
  let indices := (List.range (min c.count 64)).map c.index
  let composed ← match ← req.optional "outer" outerMap? with
    | none => pure []
    | some (o, s) => do
      let (offset, stride) ← Reading.ofOutcome (c.compose o s)
      pure [("compose", ofInts [offset, stride])]
  pure <| .obj ([
    ("display", .str r.display), ("offset", .nat c.offset), ("stride", ofInt c.stride),
    ("count", .nat c.count), ("trivial", .bool c.trivial), ("indices", ofInts indices)]
    ++ composed)

/-- The range of a half-open or closed range of naturals. -/
def rangeOfNaturals (req : Json) : Reading Json := do
  let start ← req.need "start" usize?
  let stop ← req.need "end" usize?
  let inclusive ← req.needOr "inclusive" bool? false
  let r ← Reading.ofExcept
    (if inclusive then Range.ofClosed start stop else Range.ofHalfOpen start stop)
  pure (.obj [("first", ofInt r.first), ("last", ofInt r.last), ("step", ofInt r.step)])

/-- Whether a view fits its buffer, and its order. -/
def validateView (req : Json) : Reading Json := do
  let bufferLen ← req.need "buffer_len" usize?
  let dims ← req.need "dims" (listOf? usize?)
  let strides ← req.need "strides" (listOf? isize?)
  let offset ← req.need "offset" isize?
  let order ← Reading.ofOutcome (Layout.validateView bufferLen dims strides offset)
  pure (.obj [("order", .str order.name)])

/-- The storage order of a stride vector. -/
def classifyOrder (req : Json) : Reading Json := do
  let dims ← req.need "dims" (listOf? usize?)
  let strides ← req.need "strides" (listOf? isize?)
  pure (.obj [("order", .str (Layout.classifyOrder dims strides).name)])

/-- The magnitude ranks of strides. -/
def indexOrder (req : Json) : Reading Json := do
  let strides ← req.need "strides" (listOf? isize?)
  pure (.obj [("ranks", ofNats (Layout.indexOrder strides))])

/-- Dense strides of both orders. -/
def denseStrides (req : Json) : Reading Json := do
  let dims ← req.need "dims" (listOf? usize?)
  let col ← Reading.ofOutcome (Layout.colMajorStrides dims)
  let row ← Reading.ofOutcome (Layout.rowMajorStrides dims)
  pure (.obj [("col", ofInts col), ("row", ofInts row)])

/-- One index resolved by a boundary condition. -/
def resolveIndex (req : Json) : Reading Json := do
  let b ← req.needBoundary "condition"
  let index ← req.need "index" isize?
  let length ← req.need "length" usize?
  let v ← Reading.ofOutcome (b.resolve index length)
  pure (.obj [("value", .nat v)])

/-- The table of a shifted axis under a boundary condition. -/
def buildIndex (req : Json) : Reading Json := do
  let b ← req.needBoundary "condition"
  let length ← req.need "length" usize?
  let offset ← req.need "offset" isize?
  let table ← Reading.ofOutcome (b.buildIndex length offset)
  pure (.obj [("table", ofNats table)])

/-- Facts about a kind. -/
def kindInfo (req : Json) : Reading Json := do
  let k ← req.needKind "kind"
  pure <| .obj [
    ("name", .str k.name), ("display", .str k.name), ("is_integer", .bool k.isInteger),
    ("is_complex", .bool k.isComplex), ("size_of", .nat k.sizeOf),
    ("can_cast_to", .obj (Kind.all.map fun t => (t.name, .bool (k.canCastTo t))))]

/-- A value read as an element of one kind, written back, and cast to another kind. -/
def castValue (req : Json) : Reading Json := do
  let source ← req.needKind "from"
  let target ← req.needKind "to"
  let value ← req.need "value" scalar?
  let x : source.Carrier ← Reading.need (Element.ofScalar? value)
  let y : Option target.Carrier := Element.cast x
  pure (.obj [("input", Element.toJson x), ("value", (y.map Element.toJson).getD .null)])

/-- Sum and product of two elements of one kind. -/
def arith (req : Json) : Reading Json := do
  let k ← req.needKind "kind"
  let x ← req.need "x" scalar?
  let y ← req.need "y" scalar?
  let x : k.Carrier ← Reading.need (Element.ofScalar? x)
  let y : k.Carrier ← Reading.need (Element.ofScalar? y)
  pure (.obj [("add", Element.toJson (Element.add x y)), ("mul", Element.toJson (Element.mul x y))])

end Service

end StridedGrid

/-!
## Answering requests

A request is one JSON object whose `op` field names the operation. `Service.respond` reads a
request text and writes its answer text: the operation's result object, or the failure's
object. A text that is not JSON, or not an object naming a known operation, is a malformed
request.
-/

namespace StridedGrid

namespace Service

/-- The answer to a request document. -/
def answer (req : Json) : Reading Json := do
  let op ← req.need "op" Json.str?
  match op with
  | "shape" => shapeInfo req
  | "shape_same" => shapeSame req
  | "range_compile" => rangeCompile req
  | "range_std" => rangeOfNaturals req
  | "validate_view" => validateView req
  | "classify_order" => classifyOrder req
  | "index_order" => indexOrder req
  | "dense_strides" => denseStrides req
  | "resolve" => resolveIndex req
  | "build_index" => buildIndex req
  | "kind_info" => kindInfo req
  | "cast" => castValue req
  | "arith" => arith req
  | "deserialize" => deserialize req
  | "program" => program req
  | _ => .error .badInput

/-- The answer text to a request text. -/
def respond (line : String) : String :=
  let result := match Json.parse line with
    | some req => answer req
    | none => .error .badInput
  match result with
  | .ok j => j.render
  | .error f => f.toJson.render

end Service

end StridedGrid
