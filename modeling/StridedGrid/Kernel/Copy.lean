import StridedGrid.Kernel.Basic
import StridedGrid.Grid.View
import StridedGrid.Boundary

/-!
# Copies: flattening, relayout, conversion and shifting

`Grid.flatten` gives an array's elements as one column-major list. When the array already
covers its buffer exactly in column-major order (and is not nested), the buffer itself is that
list and is handed out shared (`FlatData.shared`); otherwise, or when a copy is asked for, the
elements are copied out (`FlatData.owned`).

`Grid.toFlat` and `Grid.toNested` copy an array into a new buffer with a flat or nested layout;
a nested copy also reserves a handle for each of its rows.

`Grid.convert` casts every element (`Element.cast`). Converting to the element kind the array
already has gives the array itself (`Converted.same`), and a complex array converts only to a
complex kind. Otherwise the copy keeps the array's layout where it can: flat and nested arrays
stay so, a column-major strided array becomes flat, and any other strided array gets a dense
buffer laid out in its own loop order, so that the copy is traversed in the same order as the
original. Each copy reserves room for the cast elements before it is filled.

`Grid.shifted` copies an array with every axis shifted by an offset: the element at index `i`
of the copy is the original's element at `i_k + offset_k` along each axis, brought back into the
axis by a boundary condition. The copy is flat.
-/

namespace StridedGrid

/-- A column-major listing of an array: its own buffer, or a copy. -/
inductive FlatData (α : Type) where
  | shared
  | owned (data : List α)

namespace FlatData

variable {α : Type}

/-- Whether the listing is the array's own buffer. -/
def isShared : FlatData α → Bool
  | .shared => true
  | .owned _ => false

/-- The elements, given the buffer that a shared listing stands for. -/
def toList (buffer : Array α) : FlatData α → List α
  | .shared => buffer.toList
  | .owned data => data

end FlatData

namespace Grid

/-- Consecutive pieces of `n > 0` elements. -/
def chunks {α : Type} (n : Nat) (xs : List α) : List (List α) :=
  if h : n = 0 then [xs]
  else if hx : xs = [] then []
  else
    have : xs.length - n < xs.length := by
      cases xs with
      | nil => exact absurd rfl hx
      | cons _ _ => simp; omega
    xs.take n :: chunks n (xs.drop n)
termination_by xs.length

variable {α : Type} [Element α]

/-- The column-major listing, shared with the buffer when the grid covers it exactly. -/
def flatten (g : Grid) (forceCopy : Bool) (buffer : Array α) : Outcome (FlatData α) :=
  if !forceCopy && g.isContiguous buffer.size && g.descriptor?.isSome then pure .shared
  else FlatData.owned <$> g.toList buffer

/-- A flat copy. -/
def toFlat (g : Grid) (buffer : Array α) : Outcome (Grid × Array α) := do
  let xs ← g.toList buffer
  pure (⟨g.shape, .flat⟩, xs.toArray)

/-- A nested copy, in rows of the first extent, with room for a handle per row; a scalar has
no rows. -/
def toNested (g : Grid) (buffer : Array α) : Outcome (Grid × Array α) := do
  let rowLen ← match g.dims with
    | d :: _ => pure d
    | [] => Outcome.reject (.invalidShape [])
  let xs ← g.toList buffer
  let rows := chunks rowLen xs
  Word.reserve rows.length Word.handleSize
  Outcome.ofExcept (ofRows g.shape rows)

/-! ## Converting element kinds -/

variable {β : Type} [Element β]

/-- Dense strides that put the axes of `loop` (innermost first) one after another. -/
def loopStrides (dims : List Nat) (loop : List Nat) : List Int :=
  let step (acc : Int × List Int) (d : Nat) : Int × List Int :=
    (acc.1 * dims.getD d 1, acc.2.set d acc.1)
  (loop.foldl step (1, dims.map fun _ => 0)).2

/-- A conversion of an array: the array itself, or a copy on a new buffer. -/
inductive Converted (β : Type) where
  | same
  | copy (grid : Grid) (buffer : Array β)

/-- The array converted to `β`: itself when its kind is already `β`'s, otherwise a copy with
every element cast. -/
def convert (g : Grid) (buffer : Array α) : Outcome (Converted β) :=
  let source := Element.kind (α := α)
  let target := Element.kind (α := β)
  if source = target then pure .same
  else if !source.canCastTo target then Outcome.reject (.unsupportedElementKind source target)
  else
    let cast (x : α) : β := (Element.cast x).getD Element.zero
    match g.storage with
    | .flat => do
      Word.reserve buffer.size (Element.byteSize β)
      pure (.copy ⟨g.shape, .flat⟩ (buffer.map cast))
    | .nested => do
      Word.reserve (Extent.count (g.dims.drop 1)) Word.handleSize
      Word.reserve (g.dims.headD 0) (Element.byteSize β)
      pure (.copy ⟨g.shape, .nested⟩ (buffer.map cast))
    | .strided _ strides order =>
      if order = .columnMajor then do
        let xs ← g.toList buffer
        Word.reserve xs.length (Element.byteSize β)
        pure (.copy ⟨g.shape, .flat⟩ (xs.map cast).toArray)
      else do
        let dense := loopStrides g.dims (Traversal.loopOrder g.rank strides order)
        Word.reserve g.len (Element.byteSize β)
        let out ← wrapStrided g.len g.shape 0 dense
        let written ← mapInto out g false cast (Array.replicate g.len Element.zero) buffer
        if written.overflowed then Outcome.panic .overflow
        else pure (.copy out written.buffer)

/-! ## Shifted copies -/

/-- The shifted copy under a boundary condition, one offset per axis. -/
def shifted [Inhabited α] (g : Grid) (offsets : List Int) (b : Boundary) (buffer : Array α) :
    Outcome (Grid × Array α) := do
  if offsets.length ≠ g.rank then Outcome.reject (.rankMismatch offsets.length g.rank)
  else
    let tables ← (g.dims.zip offsets).mapM fun (len, offset) => b.buildIndex len offset
    let strides := g.shape.colMajorStrides
    let xs ← g.toList buffer
    let source (index : List Nat) : Int :=
      Extent.weighted ((index.zip tables).map fun (i, table) => table.getD i 0) strides
    fromFn g.shape fun index => xs.getD (source index).toNat default

end Grid

end StridedGrid
