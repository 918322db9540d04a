import StridedGrid.Grid.Basic
import StridedGrid.Range

/-!
# Views

A view reads the same buffer as the array it was made from, through new extents and strides:

* `Grid.view` selects a range along every axis; each compiled range maps the view's
  coordinate `k` to the array's `offset_r + k * stride_r`, so the view's offset and strides are
  the array's composed with the ranges, axis by axis;
* `Grid.slice` fixes one axis at one position and drops it;
* `Grid.permute` reorders the axes.

A view that selects every axis whole, and the identity permutation, give the array back
unchanged, whatever its layout; otherwise the array must have offset and strides, which a
nested array has not. The new grid is checked against the buffer like any strided grid.
-/

namespace StridedGrid

namespace Grid

/-- Offset and strides for building a view, or the refusal of a nested grid. -/
def partsFor (g : Grid) (operation : ViewOperation) : Outcome (Int × List Int) :=
  match g.descriptor? with
  | some parts => pure parts
  | none => Outcome.reject (.unsupportedLayout g.layout operation)

/-- Composes compiled ranges with a grid's offset and strides, axis by axis: the view's offset,
extents and strides. -/
def composeRanges (offset : Int) : List (Range.Compiled × Int) → Outcome (Int × List Nat × List Int)
  | [] => pure (offset, [], [])
  | (c, stride) :: rest => do
    let (offset, s) ← c.compose offset stride
    let (offset, dims, strides) ← composeRanges offset rest
    pure (offset, c.count :: dims, s :: strides)

/-- The view selecting one range along each axis, on a buffer of length `bufferLen`. -/
def view (g : Grid) (bufferLen : Nat) (ranges : List Range) : Outcome Grid := do
  if ranges.length ≠ g.rank then Outcome.reject (.rankMismatch ranges.length g.rank)
  else
    let compiled ← (ranges.zip g.dims).mapM fun (r, len) => r.compile len
    if compiled.all (·.trivial) then pure g
    else
      let (offset, strides) ← g.partsFor .view
      let (offset, dims, strides) ← composeRanges offset (compiled.zip strides)
      let shape ← Outcome.ofExcept (Shape.ofDims dims)
      wrapStrided bufferLen shape offset strides

/-- The view fixing `axis` at position `index` (negative counts from the back) and dropping it. -/
def slice (g : Grid) (bufferLen : Nat) (axis : Nat) (index : Int) : Outcome Grid := do
  if axis ≥ g.rank then Outcome.reject (.invalidAxis axis g.rank)
  else
    let c ← (Range.single index).compile (g.dims.getD axis 1)
    let (offset, strides) ← g.partsFor .slice
    let (offset, _) ← c.compose offset (strides.getD axis 0)
    let shape ← Outcome.ofExcept (Shape.ofDims (g.dims.eraseIdx axis))
    wrapStrided bufferLen shape offset (strides.eraseIdx axis)

/-- Checks that `perm` names each axis below `rank` at most once; the first axis that is out
of range or repeated is refused. -/
def checkAxes (rank : Nat) : List Nat → List Nat → Except GridError Unit
  | [], _ => .ok ()
  | p :: rest, seen =>
    if p ≥ rank ∨ p ∈ seen then .error (.invalidAxis p rank) else checkAxes rank rest (p :: seen)

/-- The view whose axis `k` is the array's axis `perm[k]`. -/
def permute (g : Grid) (bufferLen : Nat) (perm : List Nat) : Outcome Grid := do
  if perm.length ≠ g.rank then Outcome.reject (.rankMismatch perm.length g.rank)
  else
    Outcome.ofExcept (checkAxes g.rank perm [])
    if perm = List.range g.rank then pure g
    else
      let (offset, strides) ← g.partsFor .permute
      let shape ← Outcome.ofExcept (Shape.ofDims (perm.map fun p => g.dims.getD p 1))
      wrapStrided bufferLen shape offset (perm.map fun p => strides.getD p 0)

end Grid

end StridedGrid
