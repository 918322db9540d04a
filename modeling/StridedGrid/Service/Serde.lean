import StridedGrid.Service.Fields
import StridedGrid.Service.Encode
import StridedGrid.Shape
import StridedGrid.Range
import StridedGrid.Layout.Basic
import StridedGrid.Layout.Strides

/-!
# Document forms of library values

How shapes, ranges, compiled ranges and the enumerations are written as JSON documents and read
back:

* a shape is the array of its extents, and reading one checks it like `Shape.ofDims`;
* a range is an object with `first`, `last` and an optional `step` (zero when absent), or the
  array `[first, last]` or `[first, last, step]`; other fields of the object are ignored;
* a compiled range is an object with `offset`, `stride`, `count` and `trivial`, or the array of
  the four in that order;
* an enumeration value is its name, or an object with the name as its only key and `null` as
  its value; `normal` also names the clamp boundary condition.
-/

namespace StridedGrid

namespace Json

/-- A required field of a document object; `null` is a value here, not an absence. -/
def fieldAs? {α : Type} (j : Json) (name : String) (read : Json → Option α) : Option α :=
  (j.field? name).bind read

/-- A shape in its document form: the array of its extents, checked as `Shape.ofDims` checks
them. -/
def shape? (j : Json) : Option Shape :=
  (listOf? usize? j).bind fun dims => (Shape.ofDims dims).toOption

/-- The document form of a shape: the array of its extents. -/
def ofShape (s : Shape) : Json := ofNats s.dims

/-- A range in its document form. -/
def range? : Json → Option Range
  | .arr [a, b] => do pure ⟨← isize? a, ← isize? b, 0⟩
  | .arr [a, b, c] => do pure ⟨← isize? a, ← isize? b, ← isize? c⟩
  | j@(.obj _) => do
    let first ← j.fieldAs? "first" isize?
    let last ← j.fieldAs? "last" isize?
    let step ← match j.field? "step" with
      | none => some 0
      | some v => isize? v
    pure ⟨first, last, step⟩
  | _ => none

/-- A range as a step of a program writes it: only the object form, with `first`, `last` and an
optional `step` that must read when it is written. -/
def rangeObject? : Json → Option Range
  | j@(.obj _) => do
    let first ← j.fieldAs? "first" isize?
    let last ← j.fieldAs? "last" isize?
    let step ← match j.field? "step" with
      | none => some 0
      | some v => isize? v
    pure ⟨first, last, step⟩
  | _ => none

/-- A compiled range in its document form. -/
def compiledRange? : Json → Option Range.Compiled
  | .arr [o, s, c, t] => do pure ⟨← usize? o, ← isize? s, ← usize? c, ← bool? t⟩
  | j@(.obj _) => do
    let offset ← j.fieldAs? "offset" usize?
    let stride ← j.fieldAs? "stride" isize?
    let count ← j.fieldAs? "count" usize?
    let trivial ← j.fieldAs? "trivial" bool?
    pure ⟨offset, stride, count, trivial⟩
  | _ => none

/-- The document form of a range. -/
def ofRange (r : Range) : Json :=
  .obj [("first", ofInt r.first), ("last", ofInt r.last), ("step", ofInt r.step)]

/-- The document form of a compiled range. -/
def ofCompiledRange (c : Range.Compiled) : Json :=
  .obj [("offset", .nat c.offset), ("stride", ofInt c.stride), ("count", .nat c.count),
    ("trivial", .bool c.trivial)]

end Json

namespace Service

open Json

/-- Reads a document as a library value of the named type and writes it back, with its text
for shapes, ranges and kinds. -/
def deserialize (req : Json) : Reading Json := do
  let type ← req.need "type" str?
  let value ← Reading.need (req.field? "value")
  let refuse {α : Type} : Option α → Reading α := fun
    | some a => .ok a
    | none => .error .deserialize
  match type with
  | "shape" =>
    let shape ← refuse (shape? value)
    pure (.obj [("value", ofShape shape), ("display", .str shape.display)])
  | "range" =>
    let r ← refuse (range? value)
    pure (.obj [("value", ofRange r), ("display", .str r.display)])
  | "compiled_range" =>
    let c ← refuse (compiledRange? value)
    pure (.obj [("value", ofCompiledRange c)])
  | "boundary" =>
    let b ← boundary value
    pure (.obj [("value", .str b.name)])
  | "kind" =>
    let k ← kind value
    pure (.obj [("value", .str k.name), ("display", .str k.name)])
  | "order" =>
    let o ← refuse ((enumName? value).bind Order.ofName?)
    pure (.obj [("value", .str o.name)])
  | "layout" =>
    let l ← refuse ((enumName? value).bind Layout.ofName?)
    pure (.obj [("value", .str l.name)])
  | _ => .error .badInput

end Service

end StridedGrid
