import StridedGrid.Traversal.Odometer

/-!
# Loop nests

Bulk kernels walk one or more operands of one shape, each an offset and strides into its own
buffer, in the loop order of the first operand's storage order (`loopOrder`). Before walking,
the axes are planned into a nest of loops, innermost first:

* axes of extent one are dropped;
* an axis whose stride, for every operand, is the stride of the last loop so far times that
  loop's extent continues that loop, which grows by the axis's extent (the loops are fused);
* any other axis opens a new loop.

The walk hands out *runs*: the innermost loop is left to the caller, who gets the offset of
every operand at the start of the run, the run's length and each operand's inner stride. The
outer loops advance like an odometer, each operand's offset following: stepping a loop adds its
stride, and a loop that wraps round takes its span, stride times extent, off again before the
next loop steps. Every loop steps once past its last iteration on the way out. A caller that
visits single positions steps each operand by its inner stride after every element of a run,
the last one included; a caller may instead take a run whose inner strides are all one as a
slice, stepping nothing.

All of that arithmetic is in checked signed words. A plan can overflow while testing whether an
axis continues a loop, and a walk while stepping; an overflow stops the traversal after the
calls made so far (`Visit.overflowed`).
-/

namespace StridedGrid

namespace Traversal

/-- The calls a traversal made, in order, and whether it stopped at an overflow after them. -/
structure Visit (α : Type) where
  calls : List α
  overflowed : Bool

/-- Each offset stepped by its stride, when every result is a signed word. -/
def stepAll : List Int → List Int → Option (List Int)
  | offset :: offsets, step :: steps => do
    let moved ← Word.checked? (offset + step)
    let rest ← stepAll offsets steps
    pure (moved :: rest)
  | _, _ => some []

/-- Each offset with its stride's span over `extent` taken off, when every product and result
is a signed word. The extent is read as a signed word. -/
def unwindAll (extent : Nat) : List Int → List Int → Option (List Int)
  | offset :: offsets, step :: steps => do
    let span ← Word.checked? (step * Word.wrapSigned extent)
    let back ← Word.checked? (offset - span)
    let rest ← unwindAll extent offsets steps
    pure (back :: rest)
  | _, _ => some []

/-- A run of the innermost loop: the offset of each operand at its start, its length, and the
stride of each operand inside it. -/
structure Run where
  offsets : List Int
  length : Nat
  inner : List Int

/-- A planned walk: the loop extents, innermost first; for each operand its stride along each
loop; and the offset of each operand. -/
structure LoopNest where
  dims : List Nat
  strides : List (List Int)
  offsets : List Int

namespace LoopNest

/-- Whether the next axis continues the last loop: every operand's stride along the axis is
its stride along the last loop (the head of its reversed strides) times the loop's extent.
Operands are tried in order and the first that fails decides; `none` when a product
overflows. The extent is read as a signed word. -/
def continuesAll (extent : Nat) : List (List Int) → List Int → Option Bool
  | (last :: _) :: strides, axisStride :: axisStrides => do
    let product ← Word.checked? (last * Word.wrapSigned extent)
    if product = axisStride then continuesAll extent strides axisStrides else pure false
  | [] :: _, _ :: _ => some false
  | _, _ => some true

/-- Adds an axis of extent `extent` to the loops planned so far, held last loop first (the
extents, and each operand's strides): the axis widens the last loop when it continues it, its
extent an unsigned word, and opens a new loop otherwise. -/
def addAxis (extent : Nat) (axisStrides : List Int) :
    List Nat → List (List Int) → Option (List Nat × List (List Int))
  | last :: outer, strides => do
    if ← continuesAll last strides axisStrides then
      if Word.IsUnsigned (last * extent) then pure (last * extent :: outer, strides) else none
    else pure (extent :: last :: outer, List.zipWith (fun acc s => s :: acc) strides axisStrides)
  | [], strides => pure ([extent], List.zipWith (fun acc s => s :: acc) strides axisStrides)

/-- Plans the walk of operands over `dims`, in the loop order that `order` gives the first
operand's strides. -/
def plan (dims : List Nat) (order : Order) (operands : List (Int × List Int)) :
    Option LoopNest := do
  let lead := (operands.head?.map Prod.snd).getD []
  let axes := (loopOrder dims.length lead order).filter fun d => 1 < dims.getD d 0
  let planned ← axes.foldlM
    (fun planned d => addAxis (dims.getD d 0) (operands.map fun op => op.2.getD d 0) planned.1
      planned.2)
    ([], operands.map fun _ => [])
  pure ⟨planned.1.reverse, planned.2.map List.reverse, operands.map Prod.fst⟩

/-- The next run of the outer loops after the one at `index`: the first loop that is not at its
last iteration steps and the ones inside it go back to zero, every operand's offset following.
`some none` once every loop has stepped past its last iteration; `none` on an overflow. -/
def carry : List Nat → List (List Int) → List Nat → List Int →
    Option (Option (List Nat × List Int))
  | extent :: dims, strides, i :: index, offsets => do
    let steps := strides.map (·.headD 0)
    let moved ← stepAll offsets steps
    if i + 1 < extent then pure (some ((i + 1) :: index, moved))
    else
      let back ← unwindAll extent moved steps
      match ← carry dims (strides.map List.tail) index back with
      | none => pure none
      | some (index, offsets) => pure (some (0 :: index, offsets))
  | _, _, _, _ => some none

/-- The runs from the one at outer index `index`, where the operands are at `offsets`: at most
`count` of them, the carry ending the walk after the last. -/
def runsFrom (length : Nat) (inner : List Int) (dims : List Nat) (strides : List (List Int)) :
    Nat → List Nat → List Int → Visit Run
  | 0, _, _ => ⟨[], false⟩
  | count + 1, index, offsets =>
    let run : Run := ⟨offsets, length, inner⟩
    match carry dims strides index offsets with
    | none => ⟨[run], true⟩
    | some none => ⟨[run], false⟩
    | some (some (next, nextOffsets)) =>
      let rest := runsFrom length inner dims strides count next nextOffsets
      ⟨run :: rest.calls, rest.overflowed⟩

/-- Every run of the nest, in order. A nest of no loops is one run of one element with inner
strides one. -/
def runs (nest : LoopNest) : Visit Run :=
  match nest.dims with
  | [] => ⟨[⟨nest.offsets, 1, nest.offsets.map fun _ => 1⟩], false⟩
  | length :: outer =>
    runsFrom length (nest.strides.map (·.headD 0)) outer (nest.strides.map List.tail)
      (Extent.count outer) (outer.map fun _ => 0) nest.offsets

/-- The positions of `length` elements from `offsets`, every operand stepping by its inner
stride after each element, the last one included. -/
def stepRun (inner : List Int) : Nat → List Int → Visit (List Int)
  | 0, _ => ⟨[], false⟩
  | length + 1, offsets =>
    match stepAll offsets inner with
    | none => ⟨[offsets], true⟩
    | some next =>
      let rest := stepRun inner length next
      ⟨offsets :: rest.calls, rest.overflowed⟩

/-- The positions of a run. With `slices`, a run whose inner strides are all one is taken as
a slice, with no stepping; otherwise it is stepped element by element. -/
def runPositions (slices : Bool) (run : Run) : Visit (List Int) :=
  if slices && run.inner.all (· == 1) then
    ⟨(List.range run.length).map fun (j : Nat) => run.offsets.map fun o => o + j, false⟩
  else stepRun run.inner run.length run.offsets

/-- The positions of runs one after another, up to the first overflow. -/
def expand (slices : Bool) : List Run → Visit (List Int)
  | [] => ⟨[], false⟩
  | run :: rest =>
    let here := runPositions slices run
    if here.overflowed then here
    else
      let later := expand slices rest
      ⟨here.calls ++ later.calls, later.overflowed⟩

/-- The positions of every element, one per call, each the list of the operands' positions.
The walk of runs stops at its first overflow, and so does the expansion of a run. -/
def positions (nest : LoopNest) (slices : Bool) : Visit (List Int) :=
  let walked := nest.runs
  let expanded := expand slices walked.calls
  ⟨expanded.calls, expanded.overflowed || walked.overflowed⟩

/-- Plans and walks operands over `dims`; `slices` says whether the caller takes runs of unit
inner strides as slices. -/
def walk (dims : List Nat) (order : Order) (operands : List (Int × List Int)) (slices : Bool) :
    Visit (List Int) :=
  match plan dims order operands with
  | none => ⟨[], true⟩
  | some nest => nest.positions slices

end LoopNest

end Traversal

end StridedGrid
