import StridedGrid.Grid.Basic
import StridedGrid.Traversal.Odometer
import StridedGrid.Element.Basic

/-!
# Reading, folding and writing every element

Two orders of reading an array:

* `Grid.values` lists the elements in traversal order (`Grid.visits`), the order of folds and
  in-place updates; a loop nest that overflows stops the read;
* `Grid.toList` copies them out in column-major index order. The copy is a new buffer, so room
  for it is reserved first (`Grid.listingRoom`): a copy of the buffer for a flat grid, one
  element per index for a strided grid, and for a nested grid the room a listing reaches when it
  starts from one row and doubles whenever it is full. A strided grid is then read by a
  column-major walk, which stops the copy with an overflow if the walk overflows.

Folds combine the elements in traversal order, so a fold over floats depends on the array's
storage as well as on its values: `Grid.scan` seeds with the first element and combines each
later one into it, `Grid.reduce` maps every element and folds the images into an initial value,
and `Grid.sum` adds the elements to zero, wrapping for integers.

Kernels that write an array's elements do so as a sequence of writes to buffer positions in a
fixed order. Where a view maps several indices to one position, that position is written more
than once and the last write stays.

* `Grid.mapInPlace` replaces each visited element `x` by `f x`, in traversal order, once per
  visit; `fill` writes one value everywhere.
* `Grid.fillWith` reserves room for one value per element, then writes the values in traversal
  order.
* `Grid.assignColumnMajor` writes values in column-major index order; on a strided grid it
  follows the column-major walk, and an overflow of the walk stops the kernel after the writes
  made so far (`Written.overflowed`). `Grid.fillFromFn` reserves room for one value per index,
  computes them in column-major order, then assigns them.
* `Grid.mapInto` writes `f` of a source array into a destination of the same shape. When both
  have offsets and strides and read different buffers, it walks both with one loop nest in the
  destination's traversal order; otherwise it copies the whole source out first (`Grid.toList`)
  and assigns the results, so a destination that shares the source's buffer sees the source as
  it was before.
-/

namespace StridedGrid

/-- The buffer after a kernel wrote to it, and whether the kernel stopped at an overflow after
those writes. -/
structure Written (α : Type) where
  buffer : Array α
  overflowed : Bool := false

namespace Grid

variable {α : Type}

/-! ## Reading -/

/-- The elements in traversal order. -/
def values (g : Grid) (buffer : Array α) : Outcome (List α) :=
  let visits := g.visits buffer.size false
  if visits.overflowed then Outcome.panic .overflow
  else pure (visits.calls.filterMap (buffer[·]?))

/-- The elements in column-major index order, read off the buffer: by the column-major walk for
a strided grid, the buffer in order for the others. -/
def listColumnMajor (g : Grid) (buffer : Array α) : Outcome (List α) :=
  match g.storage with
  | .strided offset strides _ =>
    let walk := Traversal.columnWalk g.dims strides offset
    if walk.overflowed then Outcome.panic .overflow
    else pure (walk.positions.filterMap fun p => buffer[p.toNat]?)
  | _ => pure buffer.toList

/-- The room, in elements of `size` bytes, that a column-major copy of a grid over a buffer of
`bufferLen` elements reserves. -/
def listingRoom (g : Grid) (bufferLen size : Nat) : Nat :=
  match g.storage with
  | .flat => bufferLen
  | .strided .. => g.len
  | .nested =>
    if bufferLen = 0 then 0
    else Word.grownCapacity (max (Word.minCapacity size) (g.dims.headD 0)) bufferLen

/-- Whether the room a column-major copy of the grid over the buffer needs can be reserved. -/
def HasListingRoom [Element α] (g : Grid) (buffer : Array α) : Prop :=
  Word.Reservable (g.listingRoom buffer.size (Element.byteSize α)) (Element.byteSize α)

instance [Element α] (g : Grid) (buffer : Array α) : Decidable (g.HasListingRoom buffer) := by
  unfold HasListingRoom; infer_instance

/-- The elements in column-major index order, copied into room reserved first. -/
def toList [Element α] (g : Grid) (buffer : Array α) : Outcome (List α) := do
  Word.reserve (g.listingRoom buffer.size (Element.byteSize α)) (Element.byteSize α)
  g.listColumnMajor buffer

/-! ## Folds -/

/-- Folds the elements after the first into the first; `none` only for no elements. -/
def scan (g : Grid) (reducer : α → α → α) (buffer : Array α) : Outcome (Option α) := do
  match ← g.values buffer with
  | [] => pure none
  | x :: rest => pure (some (rest.foldl reducer x))

/-- Folds the images of the elements into `init`. -/
def reduce {β : Type} (g : Grid) (map : α → β) (combine : β → β → β) (init : β)
    (buffer : Array α) : Outcome β := do
  let xs ← g.values buffer
  pure (xs.foldl (fun acc x => combine acc (map x)) init)

/-- The sum of the elements. -/
def sum [Element α] (g : Grid) (buffer : Array α) : Outcome α :=
  g.reduce id Element.add Element.zero buffer

/-! ## Writing -/

/-- Writes values to positions, one after another. -/
def writeAll (buffer : Array α) (writes : List (Nat × α)) : Array α :=
  writes.foldl (fun b (p, v) => b.set! p v) buffer

/-- Replaces each visited element by its image, in traversal order; runs of unit stride are
taken as slices. -/
def mapInPlace (g : Grid) (f : α → α) (buffer : Array α) : Written α :=
  let visits := g.visits buffer.size true
  ⟨visits.calls.foldl (fun b p => b.modify p f) buffer, visits.overflowed⟩

/-- Writes one value to every element. -/
def fill (g : Grid) (value : α) (buffer : Array α) : Written α :=
  g.mapInPlace (fun _ => value) buffer

/-- Writes a sequence of values in traversal order, once room for one value per element is
reserved. -/
def fillWith [Element α] (g : Grid) (values : List α) (buffer : Array α) :
    Outcome (Written α) := do
  Word.reserve g.len (Element.byteSize α)
  let visits := g.visits buffer.size false
  pure ⟨writeAll buffer (visits.calls.zip values), visits.overflowed⟩

/-- Writes a sequence of values in column-major index order. -/
def assignColumnMajor (g : Grid) (values : List α) (buffer : Array α) : Written α :=
  match g.storage with
  | .strided offset strides _ =>
    let walk := Traversal.columnWalk g.dims strides offset
    ⟨writeAll buffer ((walk.positions.map Int.toNat).zip values), walk.overflowed⟩
  | _ => ⟨writeAll buffer ((List.range buffer.size).zip values), false⟩

/-- Writes `f index` at each index, computed in column-major index order into room reserved
for them first. -/
def fillFromFn [Element α] (g : Grid) (f : List Nat → α) (buffer : Array α) :
    Outcome (Written α) := do
  Word.reserve g.len (Element.byteSize α)
  pure (g.assignColumnMajor ((Traversal.columnIndices g.dims).map f) buffer)

/-- Writes `f` of each source element into the destination element at the same index.
`shared` says whether the two arrays read one buffer, in which case `source` is that buffer
too. -/
def mapInto {σ δ : Type} [Element σ] (dest source : Grid) (shared : Bool) (f : σ → δ)
    (destBuffer : Array δ) (sourceBuffer : Array σ) : Outcome (Written δ) := do
  Outcome.ofExcept (dest.shape.ensureSame source.shape)
  match dest.descriptor?, source.descriptor?, shared with
  | some (dOffset, dStrides), some (sOffset, sStrides), false =>
    let walk := Traversal.LoopNest.walk dest.dims dest.order
      [(dOffset, dStrides), (sOffset, sStrides)] true
    let pairs := walk.calls.filterMap fun p =>
      (sourceBuffer[(p.getD 1 0).toNat]?).map fun x => ((p.headD 0).toNat, f x)
    pure ⟨writeAll destBuffer pairs, walk.overflowed⟩
  | _, _, _ =>
    let xs ← source.toList sourceBuffer
    pure (dest.assignColumnMajor (xs.map f) destBuffer)

end Grid

end StridedGrid
