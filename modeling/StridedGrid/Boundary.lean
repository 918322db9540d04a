import StridedGrid.Word

/-!
# Boundary conditions

A boundary condition maps any signed index onto a dimension of positive length: `clamp` moves
it to the nearest end, `periodic` wraps it around, and `mirror` folds it back at both ends, about
position zero at the lower end, which is not repeated (`… 2 1 | 0 1 2 …`), and past the last
position at the upper end, which is (`… n-2 n-1 | n-1 n-2 …`).

The length is an unsigned word and is read as a signed one for `clamp` and `periodic`, so a
length of `2^63` or more has no resolution under `clamp`; under `mirror` the period `2 * length`
must itself be an unsigned word. A table of shifted positions (`Boundary.buildIndex`) holds one
word per position, so a length whose table would not fit is refused before any position.
-/

namespace StridedGrid

/-- How an index outside a dimension is brought back into it. -/
inductive Boundary where
  | clamp
  | periodic
  | mirror
  deriving DecidableEq, Repr, Inhabited

namespace Boundary

/-- Lower-case name, used in documents. -/
def name : Boundary → String
  | .clamp => "clamp"
  | .periodic => "periodic"
  | .mirror => "mirror"

/-- Reads a condition from its name; `normal` is another name for `clamp`. -/
def ofName? : String → Option Boundary
  | "clamp" => some .clamp
  | "normal" => some .clamp
  | "periodic" => some .periodic
  | "mirror" => some .mirror
  | _ => none

/-- The position in `[0, length)` that an index stands for. -/
def resolve (b : Boundary) (index : Int) (length : Nat) : Outcome Nat :=
  if length = 0 then Outcome.panic .emptyDimension
  else
    let len := Word.wrapSigned length
    match b with
    | .clamp => do
      let top ← Word.signed (len - 1)
      if top < 0 then Outcome.panic .emptyClamp
      else pure (max 0 (min index top)).toNat
    | .periodic =>
      if index = Word.signedMin ∧ len = -1 then Outcome.panic .overflow
      else pure (index % len).toNat
    | .mirror => do
      let period ← Word.unsigned (2 * length)
      let k := index.natAbs % period
      pure (if k ≥ length then period - 1 - k else k)

/-- The resolved positions of `i + offset` for each `i < length`, in order. The table is a
buffer of words, so room for all of it is reserved before the first entry. -/
def buildIndex (b : Boundary) (length : Nat) (offset : Int) : Outcome (List Nat) := do
  Word.reserve length Word.size
  (List.range length).mapM fun (i : Nat) => do
    let shifted ← Word.signed (Word.wrapSigned i + offset)
    b.resolve shifted length

end Boundary

end StridedGrid
