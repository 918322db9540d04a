import StridedGrid.Word

/-!
# Ranges along one axis

A `Range` selects positions `first, first + step, …` up to `last` along an axis. Negative ends
count from the back (`-1` is the last position), and a zero step means "one position at a time
towards `last`". Compiling a range against the axis length resolves the ends and yields an
offset, a signed stride and a count (`Range.compile`). A compiled range is trivial when it is
the whole axis in its own order, so a view made of trivial ranges is the array itself.

Half-open and closed ranges of naturals convert to ranges with step one
(`Range.ofHalfOpen`, `Range.ofClosed`).
-/

namespace StridedGrid

/-- A selection of positions along one axis. -/
structure Range where
  first : Int
  last : Int
  step : Int := 0
  deriving DecidableEq, Repr

namespace Range

/-- The whole axis, front to back. -/
def all : Range := ⟨0, -1, 0⟩

/-- One position. -/
def single (index : Int) : Range := ⟨index, index, 0⟩

/-- The text `first:last:step`. -/
def display (r : Range) : String := s!"{r.first}:{r.last}:{r.step}"

/-- A bound of a natural range as a signed word. -/
def bound (v : Nat) : Except GridError Int :=
  match Word.signedOfUnsigned? v with
  | some b => .ok b
  | none => .error .offsetOverflow

/-- The half-open range `start..stop` of naturals, with step one. -/
def ofHalfOpen (start stop : Nat) : Except GridError Range :=
  if start ≥ stop then .error (.emptyRange start stop)
  else do
    let first ← bound start
    let last ← bound (stop - 1)
    return ⟨first, last, 1⟩

/-- The closed range `start..=stop` of naturals, with step one. An empty one is reported as
the half-open range after it, whose end saturates at the greatest unsigned word. -/
def ofClosed (start stop : Nat) : Except GridError Range :=
  if start > stop then .error (.emptyRange start (min (stop + 1) (Word.unsignedCount - 1)))
  else do
    let first ← bound start
    let last ← bound stop
    return ⟨first, last, 1⟩

/-- A range resolved against an axis: the positions `offset + k * stride` for `k < count`. -/
structure Compiled where
  offset : Nat
  stride : Int
  count : Nat
  trivial : Bool
  deriving DecidableEq, Repr

/-- A negative end counts from the back of an axis of length `len`. -/
def resolveEnd (len v : Int) : Int := if v < 0 then len + v else v

/-- Resolves a range against an axis of the given length.

Both ends must lie on the axis; a range that runs forwards takes a positive step (zero means
one) and a range that runs backwards a negative one (zero means minus one); the count is how
many steps fit, plus one. The step `-2^63` of a backward range has no negation in a signed word,
which is an overflow. -/
def compile (r : Range) (length : Nat) : Outcome Compiled := do
  let len ← Outcome.ofExcept (bound length)
  let first := resolveEnd len r.first
  let last := resolveEnd len r.last
  let outOfBounds : Outcome (Int × Nat) :=
    Outcome.reject (.rangeOutOfBounds r.first r.last length)
  let illegal : Outcome (Int × Nat) :=
    Outcome.reject (.illegalRangeDirection r.first r.last r.step)
  let (stride, count) ← (
    if first = last then
      if first < 0 ∨ first ≥ len then outOfBounds
      else pure (if r.step = 0 then 1 else r.step, 1)
    else if first < last then
      if first < 0 ∨ last ≥ len then outOfBounds
      else if r.step < 0 then illegal
      else
        let step := if r.step = 0 then 1 else r.step
        pure (step, ((last - first) / step + 1).toNat)
    else
      if first ≥ len ∨ last < 0 then outOfBounds
      else if r.step > 0 then illegal
      else do
        let step := if r.step = 0 then -1 else r.step
        let back ← Word.signed (-step)
        pure (step, ((first - last) / back + 1).toNat) : Outcome (Int × Nat))
  let offset := first.toNat
  return {
    offset, stride, count
    trivial := offset == 0 && count == length && (stride == 1 || length == 1) }

namespace Compiled

/-- The axis position of the `k`-th selected element. -/
def index (c : Compiled) (k : Nat) : Int := c.offset + k * c.stride

/-- Composes with an outer offset and stride: the range's positions, read through the outer
map `p ↦ outerOffset + p * outerStride`, start at the first component and advance by the
second. Both are checked signed arithmetic. -/
def compose (c : Compiled) (outerOffset outerStride : Int) : Outcome (Int × Int) := do
  let shift ← Word.signed (c.offset * outerStride)
  let offset ← Word.signed (outerOffset + shift)
  let stride ← Word.signed (c.stride * outerStride)
  return (offset, stride)

end Compiled

end Range

end StridedGrid
