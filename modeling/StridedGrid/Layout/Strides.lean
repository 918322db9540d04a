import StridedGrid.Layout.Basic
import StridedGrid.Word

/-!
# Storage order of a stride vector

Axes of extent one never move through the buffer, so classification looks at the other axes
only, paired with the magnitude of their strides. They are column-major when every stride is
non-zero and at least the span (stride times extent) of the axis before it, so a traversal with
the first index fastest never returns to a buffer position; row-major is the mirror image. When
both hold, which happens with at most one such axis, column-major is reported.

`indexOrder` ranks strides by magnitude, the loop order of views of no specific order.
-/

namespace StridedGrid

namespace Layout

/-- Whether an axis `(extent, |stride|)` lies within one step of the `outer` axis: its span is an
unsigned word no greater than the outer stride. -/
def nestsIn (inner outer : Nat × Nat) : Bool :=
  inner.2 * inner.1 < Word.unsignedCount && inner.2 * inner.1 ≤ outer.2

/-- Whether every axis nests in the next one. -/
def chainNests : List (Nat × Nat) → Bool
  | a :: b :: rest => nestsIn a b && chainNests (b :: rest)
  | _ => true

/-- The axes that move through the buffer, as `(extent, |stride|)`; extra extents or strides
beyond the shorter list are ignored. -/
def activeAxes (dims : List Nat) (strides : List Int) : List (Nat × Nat) :=
  ((dims.zip strides).filter (fun (d, _) => d > 1)).map (fun (d, s) => (d, s.natAbs))

/-- The storage order of a stride vector. -/
def classifyOrder (dims : List Nat) (strides : List Int) : Order :=
  let active := activeAxes dims strides
  if active.any (fun (_, s) => s == 0) then .nonSpecific
  else if chainNests active then .columnMajor
  else if chainNests active.reverse then .rowMajor
  else .nonSpecific

/-- The rank of each stride by magnitude among the non-zero strides, counting from one; a zero
stride has rank one. Equal magnitudes share a rank. -/
def indexOrder (strides : List Int) : List Nat :=
  strides.map fun s =>
    if s = 0 then 1
    else 1 + strides.countP (fun t => t ≠ 0 && t.natAbs < s.natAbs)

end Layout

end StridedGrid

/-!
## Views that fit their buffer

A strided view with extents `dims`, strides and an offset touches the buffer positions
`offset + Σ i_k * stride_k`. Along an axis of extent `d > 1` the position moves by
`stride * (d - 1)` in all; positive moves widen the upper end of the touched interval and
negative ones the lower end. The view fits a buffer when the whole interval lies in
`[0, bufferLen)`. Extents are read as signed words, so an extent above `2^63 - 1` wraps.
-/

namespace StridedGrid

namespace Layout

/-- The touched interval `[min, max]`, widened by one axis. -/
def widen (bounds : Int × Int) (axis : Nat × Int) : Outcome (Int × Int) :=
  let (lo, hi) := bounds
  let (d, stride) := axis
  if d > 1 then do
    let reach ← Word.signed (Word.wrapSigned d - 1)
    let move := stride * reach
    if ¬ Word.IsSigned move then Outcome.reject .offsetOverflow
    else if move ≥ 0 then
      if Word.IsSigned (hi + move) then pure (lo, hi + move) else Outcome.reject .offsetOverflow
    else
      if Word.IsSigned (lo + move) then pure (lo + move, hi) else Outcome.reject .offsetOverflow
  else pure (lo, hi)

/-- The interval of buffer positions a view touches. -/
def touchedInterval (dims : List Nat) (strides : List Int) (offset : Int) :
    Outcome (Int × Int) :=
  (dims.zip strides).foldlM widen (offset, offset)

/-- Checks that a view fits a buffer of length `bufferLen` and classifies its storage order. -/
def validateView (bufferLen : Nat) (dims : List Nat) (strides : List Int) (offset : Int) :
    Outcome Order := do
  if dims.length ≠ strides.length then Outcome.reject .strideLengthMismatch
  else
    let (lo, hi) ← touchedInterval dims strides offset
    if lo < 0 ∨ hi < 0 ∨ hi ≥ bufferLen then Outcome.reject (.viewOutOfBounds lo hi bufferLen)
    else pure (classifyOrder dims strides)

end Layout

end StridedGrid

/-!
## Dense strides

The strides of a dense buffer for arbitrary extents: column-major (each stride is the product of
the extents before it) and row-major (the product of the extents after it). Extents are read as
signed words, wrapping as a bit-for-bit conversion does, and every product is checked, so a
product outside a signed word stops with an overflow.

For the extents of a `Shape` none of this can happen; `Shape.colMajorStrides` is the plain form.
-/

namespace StridedGrid

namespace Layout

/-- Column-major strides starting from the stride `acc` of the first extent. -/
def denseStridesFrom (acc : Int) : List Nat → Outcome (List Int)
  | [] => .ok []
  | [_] => .ok [acc]
  | d :: rest => do
    let next ← Word.signed (acc * Word.wrapSigned d)
    let tail ← denseStridesFrom next rest
    return acc :: tail

/-- Strides of a dense column-major buffer: the first index varies fastest. -/
def colMajorStrides (dims : List Nat) : Outcome (List Int) :=
  denseStridesFrom 1 dims

/-- Strides of a dense row-major buffer: the last index varies fastest. -/
def rowMajorStrides (dims : List Nat) : Outcome (List Int) :=
  List.reverse <$> denseStridesFrom 1 dims.reverse

end Layout

end StridedGrid
