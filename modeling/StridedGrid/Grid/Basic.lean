import StridedGrid.Shape
import StridedGrid.Layout.Basic
import StridedGrid.Layout.Strides
import StridedGrid.Traversal.LoopNest
import StridedGrid.Element.Basic

/-!
# Grids

A `Grid` says where the elements of an array lie in a buffer: its shape and its storage.

* A *flat* grid fills the whole buffer in column-major order.
* A *strided* grid puts the element at index `i` at `offset + Σ i_k * stride_k`; its strides
  were checked to keep every element inside the buffer when it was made (`Grid.wrapStrided`),
  and it carries the storage order found then.
* A *nested* grid keeps its elements as rows of `dims[0]` elements each, row `r` holding the
  indices whose remaining coordinates count `r` in column-major order; the rows lie one after
  another in the buffer, so element positions are the column-major ones, as for a flat grid.

Several grids may read one buffer; the buffer itself lives outside the grid, so a write through
one grid is seen through every other grid on that buffer.
-/

namespace StridedGrid

/-- Where an array's elements lie in its buffer. -/
inductive Storage where
  | flat
  | strided (offset : Int) (strides : List Int) (order : Order)
  | nested
  deriving DecidableEq, Repr

/-- An array's shape and the place of its elements in a buffer. -/
structure Grid where
  shape : Shape
  storage : Storage

namespace Grid

/-- The extents. -/
def dims (g : Grid) : List Nat := g.shape.dims

/-- Number of axes. -/
def rank (g : Grid) : Nat := g.shape.rank

/-- Number of elements. -/
def len (g : Grid) : Nat := g.shape.len

/-- The layout of the storage. -/
def layout (g : Grid) : Layout :=
  match g.storage with
  | .flat => .flat
  | .strided .. => .strided
  | .nested => .nested

/-- The storage order; flat and nested grids are column-major. -/
def order (g : Grid) : Order :=
  match g.storage with
  | .strided _ _ order => order
  | _ => .columnMajor

/-- Offset and strides of a grid that has them: a flat grid has offset zero and dense
column-major strides; a nested grid has none. -/
def descriptor? (g : Grid) : Option (Int × List Int) :=
  match g.storage with
  | .flat => some (0, g.shape.colMajorStrides)
  | .strided offset strides _ => some (offset, strides)
  | .nested => none

/-- Whether strides are those of a dense column-major buffer over the extents greater than one,
and classify as column-major. -/
def denseColumnMajor (dims : List Nat) (strides : List Int) : Bool :=
  let rec go (expected : Int) : List (Nat × Int) → Bool
    | [] => true
    | (d, s) :: rest => if d ≤ 1 then go expected rest else s == expected && go (expected * d) rest
  go 1 (dims.zip strides) && Layout.classifyOrder dims strides == .columnMajor

/-- Whether the grid covers its buffer of length `bufferLen` exactly, in column-major order. -/
def isContiguous (g : Grid) (bufferLen : Nat) : Bool :=
  match g.storage with
  | .flat => true
  | .strided offset strides _ =>
    offset == 0 && bufferLen == g.len && denseColumnMajor g.dims strides
  | .nested => false

/-- A flat array holding `f index` at each index, the values computed in the order a counting
loop visits the indices, into room for all of them reserved first. -/
def fromFn {α : Type} [Element α] (shape : Shape) (f : List Nat → α) : Outcome (Grid × Array α) := do
  Word.reserve shape.len (Element.byteSize α)
  pure (⟨shape, .flat⟩, ((Traversal.columnIndices shape.dims).map f).toArray)

/-- A strided grid on a buffer of length `bufferLen`, after checking that it stays inside. -/
def wrapStrided (bufferLen : Nat) (shape : Shape) (offset : Int) (strides : List Int) :
    Outcome Grid := do
  let order ← Layout.validateView bufferLen shape.dims strides offset
  pure ⟨shape, .strided offset strides order⟩

/-- A flat grid over a buffer of length `bufferLen`, which must hold exactly its elements. -/
def flatOver (shape : Shape) (bufferLen : Nat) : Except GridError Grid :=
  if bufferLen = shape.len then .ok ⟨shape, .flat⟩
  else .error (.nonConformableShape shape.dims [bufferLen])

/-- Row length and row count of a nested grid of the given shape; a scalar has no rows. -/
def nestedExtents (shape : Shape) : Except GridError (Nat × Nat) :=
  match shape.dims with
  | rowLen :: outer => .ok (rowLen, Extent.count outer)
  | [] => .error (.invalidShape [])

/-- A nested grid holding the given rows, which must be as many and as long as the shape says.
The buffer is the rows one after another. -/
def ofRows {α : Type} (shape : Shape) (rows : List (List α)) : Except GridError (Grid × Array α) := do
  let (rowLen, rowCount) ← nestedExtents shape
  if rows.length ≠ rowCount then .error (.nonConformableShape shape.dims [rowLen, rows.length])
  else
    match rows.find? (·.length ≠ rowLen) with
    | some bad => .error (.nonConformableShape shape.dims [bad.length, rowCount])
    | none => .ok (⟨shape, .nested⟩, rows.flatten.toArray)

/-- A nested grid of the given shape over `fill` everywhere. -/
def nestedFilled {α : Type} (shape : Shape) (fill : α) : Except GridError (Grid × Array α) := do
  let (rowLen, rowCount) ← nestedExtents shape
  pure (⟨shape, .nested⟩, Array.replicate (rowLen * rowCount) fill)

/-- The column-major number `i₀ + d₀ * (i₁ + d₁ * (i₂ + …))` of an index, folded in from the
last axis. -/
def flatPosition (dims index : List Nat) : Nat :=
  (index.zip dims).reverse.foldl (fun pos (i, d) => pos * d + i) 0

/-- Row and column of an index in nested storage: the row numbers the coordinates after the
first in column-major order, and the column is the first coordinate. -/
def nestedPosition (dims index : List Nat) : Nat × Nat :=
  (flatPosition (dims.drop 1) (index.drop 1), index.headD 0)

/-- The buffer position of an index: its column-major number in a flat grid, by offset and
strides in a strided one, and by row and column in a nested one, whose rows of `dims[0]`
elements lie one after another. -/
def position (g : Grid) (index : List Nat) : Int :=
  match g.storage with
  | .flat => flatPosition g.dims index
  | .strided offset strides _ => Traversal.position offset strides index
  | .nested => (nestedPosition g.dims index).1 * g.dims.headD 0 + (nestedPosition g.dims index).2

/-- The buffer positions of a grid's elements in the order bulk traversals visit them: the whole
buffer in order for flat and nested grids, the loop nest of the storage order for strided ones,
which stops at an overflow. `slices` says whether the kernel takes runs of unit stride as
slices. -/
def visits (g : Grid) (bufferLen : Nat) (slices : Bool) : Traversal.Visit Nat :=
  match g.storage with
  | .strided offset strides order =>
    let walk := Traversal.LoopNest.walk g.dims order [(offset, strides)] slices
    ⟨walk.calls.map fun p => (p.headD 0).toNat, walk.overflowed⟩
  | _ => ⟨List.range bufferLen, false⟩

end Grid

end StridedGrid

/-!
## Reading and writing one element

`Grid.get` and `Grid.set` take an index that the caller promises is in the array; one of the
wrong length or with a coordinate past its extent is a broken precondition
(`Panic.indexOutOfRange`). `Grid.tryGet` and `Grid.trySet` check the index first and refuse
it with `GridError.indexOutOfBounds`.
-/

namespace StridedGrid

namespace Grid

variable {α : Type}

/-- Stops unless the index has one coordinate per axis, each below its extent. -/
def checkIndex (g : Grid) (index : List Nat) : Outcome Unit :=
  if g.shape.contains index then pure () else Outcome.panic .indexOutOfRange

/-- Refuses an index outside the array. -/
def ensureIndex (g : Grid) (index : List Nat) : Outcome Unit :=
  if g.shape.contains index then pure ()
  else Outcome.reject (.indexOutOfBounds index g.dims)

/-- The buffer position of an index in range. -/
def slot (g : Grid) (index : List Nat) : Nat := (g.position index).toNat

/-- The element at an index. -/
def get (g : Grid) (buffer : Array α) (index : List Nat) : Outcome α := do
  g.checkIndex index
  match buffer[g.slot index]? with
  | some x => pure x
  | none => Outcome.panic .indexOutOfRange

/-- The buffer with the element at an index replaced. -/
def set (g : Grid) (buffer : Array α) (index : List Nat) (value : α) : Outcome (Array α) := do
  g.checkIndex index
  if g.slot index < buffer.size then pure (buffer.set! (g.slot index) value)
  else Outcome.panic .indexOutOfRange

/-- The element at an index, refusing an index outside the array. -/
def tryGet (g : Grid) (buffer : Array α) (index : List Nat) : Outcome α := do
  g.ensureIndex index
  g.get buffer index

/-- The buffer with the element at an index replaced, refusing an index outside the array. -/
def trySet (g : Grid) (buffer : Array α) (index : List Nat) (value : α) : Outcome (Array α) := do
  g.ensureIndex index
  g.set buffer index value

end Grid

end StridedGrid
