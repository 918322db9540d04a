import StridedGrid.Element.Kind
import StridedGrid.Layout.Basic

/-!
# Errors and faults

`GridError` lists the reasons an operation refuses its arguments, each with the data that the
message shows; `GridError.message` is the one place where their wording lives.

A `Fault` is how an operation stops: with a `GridError`, or by breaking one of the library's
own preconditions (`Panic`): machine arithmetic that leaves its word, an unchecked index outside
the array, a boundary rule applied to a dimension it cannot resolve, or a buffer too large to
be measured in bytes.
-/

namespace StridedGrid

/-- The operations that build a view of an existing array. -/
inductive ViewOperation where
  | view
  | slice
  | permute
  deriving DecidableEq, Repr

/-- Name of a view operation, as error messages show it. -/
def ViewOperation.name : ViewOperation → String
  | .view => "view"
  | .slice => "slice"
  | .permute => "permute"

/-- Reasons an operation refuses its arguments. -/
inductive GridError where
  | invalidShape (dims : List Nat)
  | rangeOutOfBounds (first last : Int) (length : Nat)
  | emptyRange (start stop : Nat)
  | illegalRangeDirection (first last step : Int)
  | viewOutOfBounds (min max : Int) (length : Nat)
  | nonConformableShape (left right : List Nat)
  | unsupportedElementKind (source target : Kind)
  | rankMismatch (left right : Nat)
  | invalidAxis (axis rank : Nat)
  | strideLengthMismatch
  | offsetOverflow
  | indexOutOfBounds (index dims : List Nat)
  | unsupportedLayout (layout : Layout) (operation : ViewOperation)
  deriving DecidableEq, Repr

/-- A list of naturals as `[a, b, c]`, the text error messages use. -/
def listText (xs : List Nat) : String :=
  "[" ++ ", ".intercalate (xs.map toString) ++ "]"

namespace GridError

/-- The variant's name, which identifies the error on output. -/
def name : GridError → String
  | .invalidShape .. => "InvalidShape"
  | .rangeOutOfBounds .. => "RangeOutOfBounds"
  | .emptyRange .. => "EmptyRange"
  | .illegalRangeDirection .. => "IllegalRangeDirection"
  | .viewOutOfBounds .. => "ViewOutOfBounds"
  | .nonConformableShape .. => "NonConformableShape"
  | .unsupportedElementKind .. => "UnsupportedElementKind"
  | .rankMismatch .. => "RankMismatch"
  | .invalidAxis .. => "InvalidAxis"
  | .strideLengthMismatch => "StrideLengthMismatch"
  | .offsetOverflow => "OffsetOverflow"
  | .indexOutOfBounds .. => "IndexOutOfBounds"
  | .unsupportedLayout .. => "UnsupportedLayout"

/-- The human-readable message of an error. -/
def message : GridError → String
  | .invalidShape dims => "invalid shape: " ++ listText dims
  | .rangeOutOfBounds first last length =>
      s!"range {first}..={last} out of bounds for length {length}"
  | .emptyRange start stop => s!"empty range {start}..{stop}"
  | .illegalRangeDirection first last step =>
      s!"illegal step {step} for range {first}..={last}"
  | .viewOutOfBounds min max length =>
      s!"view touches [{min}, {max}] outside buffer of length {length}"
  | .nonConformableShape left right =>
      "non-conformable shapes: " ++ listText left ++ " vs " ++ listText right
  | .unsupportedElementKind source target =>
      "cannot convert " ++ source.name ++ " elements to " ++ target.name
  | .rankMismatch left right => s!"rank mismatch: {left} vs {right}"
  | .invalidAxis axis rank => s!"invalid axis {axis} for rank {rank}"
  | .strideLengthMismatch => "stride and dims length mismatch"
  | .offsetOverflow => "offset overflow while computing view bounds"
  | .indexOutOfBounds index dims =>
      "index " ++ listText index ++ " out of bounds for dims " ++ listText dims
  | .unsupportedLayout layout operation =>
      operation.name ++ " is not supported on " ++ layout.title ++ " arrays"

end GridError

/-- Broken preconditions of the library itself. -/
inductive Panic where
  /-- Machine-word arithmetic left the range of its word. -/
  | overflow
  /-- An unchecked index lies outside the array. -/
  | indexOutOfRange
  /-- A boundary rule was asked to resolve an index on a dimension of length zero. -/
  | emptyDimension
  /-- A clamp was asked for with its lower bound above its upper bound. -/
  | emptyClamp
  /-- A buffer was requested whose size in bytes is beyond the greatest signed word. -/
  | capacityOverflow
  deriving DecidableEq, Repr

/-- How an operation stops short of a result. -/
inductive Fault where
  | error (cause : GridError)
  | panic (cause : Panic)
  deriving DecidableEq, Repr

/-- Results of operations that may stop with a fault. -/
abbrev Outcome (α : Type) := Except Fault α

namespace Outcome

/-- Stops with a `GridError`. -/
def reject {α : Type} (cause : GridError) : Outcome α := .error (.error cause)

/-- Stops with a broken precondition. -/
def panic {α : Type} (cause : Panic) : Outcome α := .error (.panic cause)

/-- Lifts a result that can only fail with a `GridError`. -/
def ofExcept {α : Type} : Except GridError α → Outcome α
  | .ok a => .ok a
  | .error e => .error (.error e)

end Outcome

end StridedGrid
