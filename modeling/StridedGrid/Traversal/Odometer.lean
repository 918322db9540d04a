import StridedGrid.Layout.Basic
import StridedGrid.Layout.Strides
import StridedGrid.Shape

/-!
# Odometers and loop orders

An odometer lists every index of a box of extents, the first coordinate turning fastest, like
the wheels of a counter. Bulk traversals of a strided view run an odometer over the view's axes
in a *loop order*, innermost axis first:

* a column-major view loops over its axes in order, so the first index varies fastest;
* a row-major view loops over them in reverse;
* a view of no specific order loops by increasing stride magnitude, equal magnitudes keeping
  the lower axis inside (`Layout.indexOrder` ranks, stably sorted).

Element-by-element loops do not build the odometer: they count through the box from the
all-zero index, stepping the first coordinate and carrying into the next one when it wraps
(`bump`, `columnIndices`).

`position` is the buffer position of an index under an offset and strides.
-/

namespace StridedGrid

namespace Traversal

/-- Every index of a box of extents, the first coordinate fastest. -/
def odometer : List Nat → List (List Nat)
  | [] => [[]]
  | e :: rest => (odometer rest).flatMap fun outer => (List.range e).map (· :: outer)

/-- The index after `index` in column-major order: the first coordinate that is not at its
last value steps up and the ones before it go back to zero. The last index of the box goes
round to the first. -/
def bump : List Nat → List Nat → List Nat
  | d :: dims, i :: index => if i + 1 < d then (i + 1) :: index else 0 :: bump dims index
  | _, index => index

/-- The `count` indices a counting loop visits from `index` on, each the `bump` of the one
before. -/
def countFrom (dims : List Nat) : Nat → List Nat → List (List Nat)
  | 0, _ => []
  | count + 1, index => index :: countFrom dims count (bump dims index)

/-- The indices a counting loop visits: it starts at the all-zero index and steps with `bump`,
once for each of the `Extent.count dims` elements of the box. -/
def columnIndices (dims : List Nat) : List (List Nat) :=
  countFrom dims (Extent.count dims) (List.replicate dims.length 0)

/-- The buffer position `offset + Σ index_k * stride_k`. -/
def position (offset : Int) (strides : List Int) (index : List Nat) : Int :=
  offset + Extent.weighted index strides

/-- The axes of a view from the innermost loop to the outermost, for its storage order. -/
def loopOrder (rank : Nat) (strides : List Int) : Order → List Nat
  | .columnMajor => List.range rank
  | .rowMajor => (List.range rank).reverse
  | .nonSpecific =>
    let ranks := Layout.indexOrder strides
    (List.range rank).mergeSort fun a b => decide (ranks.getD a 0 ≤ ranks.getD b 0)

/-- Every index of a box of extents, with the coordinates of `axes` turning from fastest to
slowest. `axes` lists each axis once. -/
def loopIndices (dims : List Nat) (axes : List Nat) : List (List Nat) :=
  (odometer (axes.map fun a => dims.getD a 1)).map fun coords =>
    (List.range dims.length).map fun d => coords.getD (axes.idxOf d) 0

/-- The indices of a view in the order its bulk traversals visit them. -/
def traversalIndices (dims : List Nat) (strides : List Int) (order : Order) :
    List (List Nat) :=
  loopIndices dims (loopOrder dims.length strides order)

theorem length_odometer (dims : List Nat) : (odometer dims).length = Extent.count dims := by
  induction dims with
  | nil => rfl
  | cons e rest ih =>
    simp only [odometer, List.length_flatMap, List.length_map, List.length_range, Extent.count_cons]
    rw [List.map_const', List.sum_replicate_nat, ih, Nat.mul_comm]

end Traversal

end StridedGrid

/-!
## Column-major walks

Reading or writing a strided view element by element in column-major index order keeps a
running buffer position: stepping the first index adds its stride, and when an index wraps back
to zero its whole span is taken off again before the next axis steps. Every axis takes part,
extent-one axes included, and every addition and product is a checked signed word.

So a walk can overflow even where every visited position is a word: an extent-one axis with a
huge stride is stepped once after its only element, and the running position may leave the
word there. A `Walk` records the positions visited up to that point and whether it stopped at an
overflow; the step after the last element is taken too, so a walk may overflow after visiting
everything.
-/

namespace StridedGrid

namespace Traversal

/-- The positions a walk visited, in order, and whether it stopped at an overflow. -/
structure Walk where
  positions : List Int
  overflowed : Bool
  deriving Repr

/-- One odometer step of index and position over `dims` and `strides`, first axis fastest;
`none` when the running position leaves the signed word. -/
def advance : List Nat → List Int → List Nat → Int → Option (List Nat × Int)
  | d :: dims, s :: strides, i :: index, pos => do
    let pos ← Word.checked? (pos + s)
    if i + 1 < d then pure ((i + 1) :: index, pos)
    else
      let span ← Word.checked? (s * d)
      let pos ← Word.checked? (pos - span)
      let (index, pos) ← advance dims strides index pos
      pure (0 :: index, pos)
  | _, _, index, pos => some (index, pos)

/-- The walk of `count` more elements from an index and its position. -/
def walkFrom (dims : List Nat) (strides : List Int) : Nat → List Nat → Int → Walk
  | 0, _, _ => ⟨[], false⟩
  | count + 1, index, pos =>
    match advance dims strides index pos with
    | none => ⟨[pos], true⟩
    | some (next, nextPos) =>
      let rest := walkFrom dims strides count next nextPos
      ⟨pos :: rest.positions, rest.overflowed⟩

/-- The column-major walk over a view with the given extents, strides and offset. -/
def columnWalk (dims : List Nat) (strides : List Int) (offset : Int) : Walk :=
  walkFrom dims strides (Extent.count dims) (dims.map fun _ => 0) offset

end Traversal

end StridedGrid
