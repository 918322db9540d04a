import StridedGrid.Word

/-!
# Shapes

The extents of an array, and the two list sums the library makes of extents: the number of cells
of a grid, which is the product of its extents, and the offset of a cell, which is its index
weighted by the strides. Both are folds with `1` and `0` for the empty list, so a scalar grid has
one cell and the cell of a scalar sits at the offset of the grid.
-/

namespace StridedGrid

namespace Extent

/-- The number of cells of a grid with these extents: their product, `1` for a scalar. -/
def count (dims : List Nat) : Nat := dims.foldr (· * ·) 1

/-- The sum of a list of integers. -/
def total (xs : List Int) : Int := xs.foldr (· + ·) 0

/-- An index weighted by strides: the sum of `index[k] * strides[k]` over the axes both
lists have. -/
def weighted (index : List Nat) (strides : List Int) : Int :=
  total ((index.zip strides).map fun (i, s) => (i : Int) * s)

@[simp]
theorem count_nil : count [] = 1 := rfl

@[simp]
theorem count_cons (d : Nat) (dims : List Nat) : count (d :: dims) = d * count dims := rfl

@[simp]
theorem total_nil : total [] = 0 := rfl

@[simp]
theorem total_cons (x : Int) (xs : List Int) : total (x :: xs) = x + total xs := rfl

theorem count_pos : ∀ (dims : List Nat), (∀ d ∈ dims, 0 < d) → 0 < count dims
  | [], _ => by simp
  | d :: rest, h => by
    rw [count_cons]
    exact Nat.mul_pos (h d (by simp)) (count_pos rest (fun e he => h e (by simp [he])))

end Extent

end StridedGrid

/-!
## Valid extents

A shape is the list of an array's extents. Every extent is at least one and their product, the
number of elements, is a signed word; the empty list is the shape of a scalar. These two facts
are kept in the type, so every shape in the library has a length that indexes a buffer.

`Shape.ofDims` checks a list as the library does, refusing a zero extent and then multiplying the
extents in one by one as unsigned words; it accepts exactly the lists with those two properties
(`ofDims_ok_iff`).
-/

namespace StridedGrid

/-- The extents a shape may have: all positive, with a product that is a signed word. -/
def ShapeValid (dims : List Nat) : Prop :=
  (∀ d ∈ dims, 0 < d) ∧ Extent.count dims ≤ Word.signedMax.toNat

instance (dims : List Nat) : Decidable (ShapeValid dims) := by
  unfold ShapeValid; infer_instance

/-- The extents of an array. -/
structure Shape where
  dims : List Nat
  valid : ShapeValid dims

namespace Shape

instance : DecidableEq Shape := fun a b =>
  if h : a.dims = b.dims then
    isTrue (by cases a; cases b; simp at h; subst h; rfl)
  else
    isFalse (by intro e; exact h (e ▸ rfl))

/-- The shape of a scalar: no extents and one element. -/
def scalar : Shape := ⟨[], by simp [ShapeValid, Word.signedMax]⟩

/-- One product of the element count, checked to stay an unsigned word. -/
def countStep (acc d : Nat) : Option Nat :=
  if acc * d < Word.unsignedCount then some (acc * d) else none

/-- The number of elements as an unsigned word, multiplying the extents in from the first;
`none` at the first product that leaves the word. -/
def checkedCount (dims : List Nat) : Option Nat :=
  dims.foldlM countStep 1

/-- The checks a list of extents passes to be a shape: no extent is zero, and the number of
elements neither overflows an unsigned word nor exceeds the greatest signed word. -/
def accepts (dims : List Nat) : Bool :=
  !dims.any (· < 1) && (checkedCount dims).any fun n => decide (n ≤ Word.signedMax.toNat)

/-- With positive extents the checked product stops only when the exact one leaves the word:
a later extent cannot bring a product back below it. -/
theorem foldlM_countStep {dims : List Nat} (positive : ∀ d ∈ dims, 0 < d) :
    ∀ acc, acc < Word.unsignedCount →
      dims.foldlM countStep acc =
        if acc * Extent.count dims < Word.unsignedCount then some (acc * Extent.count dims)
        else none := by
  induction dims with
  | nil => intro acc small; simp [small]
  | cons d rest ih =>
    intro acc small
    have restPositive : ∀ e ∈ rest, 0 < e := fun e mem => positive e (by simp [mem])
    rw [List.foldlM_cons, Extent.count_cons, ← Nat.mul_assoc]
    by_cases fits : acc * d < Word.unsignedCount
    · simp only [countStep, if_pos fits]
      exact ih restPositive (acc * d) fits
    · have grown : acc * d ≤ acc * d * Extent.count rest :=
        Nat.le_mul_of_pos_right _ (Extent.count_pos rest restPositive)
      have beyond : ¬acc * d * Extent.count rest < Word.unsignedCount := by omega
      simp [countStep, fits, beyond]

theorem accepts_iff (dims : List Nat) : accepts dims = true ↔ ShapeValid dims := by
  have noZero : (!dims.any (· < 1)) = true ↔ ∀ d ∈ dims, 0 < d := by
    simp only [Bool.not_eq_eq_eq_not, Bool.not_true, List.any_eq_false, decide_eq_true_eq]
    exact ⟨fun h d mem => Nat.pos_of_ne_zero fun zero => h d mem (by omega),
      fun h d mem below => by have := h d mem; omega⟩
  unfold accepts ShapeValid
  rw [Bool.and_eq_true, noZero]
  by_cases positive : ∀ d ∈ dims, 0 < d
  · have counted := foldlM_countStep positive 1 (by decide)
    rw [Nat.one_mul] at counted
    simp only [checkedCount, counted]
    by_cases small : Extent.count dims < Word.unsignedCount
    · simp [small]
    · have large : ¬Extent.count dims ≤ Word.signedMax.toNat := by
        unfold Word.unsignedCount at small
        unfold Word.signedMax
        omega
      simp [small, large]
  · simp [positive]

/-- Builds a shape, refusing a zero extent or a number of elements that is not a signed
word. -/
def ofDims (dims : List Nat) : Except GridError Shape :=
  if h : accepts dims = true then .ok ⟨dims, (accepts_iff dims).mp h⟩
  else .error (.invalidShape dims)

/-- Builds a shape of rank at least one. -/
def nonscalar (dims : List Nat) : Except GridError Shape :=
  if dims.isEmpty then .error (.invalidShape dims) else ofDims dims

/-- Number of extents. -/
def rank (s : Shape) : Nat := s.dims.length

/-- Number of elements. -/
def len (s : Shape) : Nat := Extent.count s.dims

/-- The extent along an axis, one past the rank. -/
def dim (s : Shape) (k : Nat) : Nat := s.dims.getD k 1

/-- The text `(3,4,5)`, or `()` for a scalar. -/
def display (s : Shape) : String :=
  "(" ++ ",".intercalate (s.dims.map toString) ++ ")"

/-- Whether an index names an element: one coordinate per axis, each below its extent. -/
def contains (s : Shape) (index : List Nat) : Bool :=
  index.length == s.rank && (index.zip s.dims).all (fun (i, d) => i < d)

/-- Refuses two different shapes. -/
def ensureSame (s t : Shape) : Except GridError Unit :=
  if s.dims = t.dims then .ok () else .error (.nonConformableShape s.dims t.dims)

/-- Strides of a dense column-major buffer: each is the product of the extents before it. -/
def colMajorStrides (s : Shape) : List Int :=
  (s.dims.scanl (· * ·) 1).dropLast.map Int.ofNat

/-- Strides of a dense row-major buffer: each is the product of the extents after it. -/
def rowMajorStrides (s : Shape) : List Int :=
  ((s.dims.reverse.scanl (· * ·) 1).dropLast.map Int.ofNat).reverse

theorem ofDims_ok_iff (dims : List Nat) (s : Shape) :
    ofDims dims = .ok s ↔ ShapeValid dims ∧ s.dims = dims := by
  unfold ofDims
  split
  · rename_i accepted
    constructor
    · intro h; cases h; exact ⟨(accepts_iff dims).mp accepted, rfl⟩
    · rintro ⟨_, h⟩; cases s; simp at h; subst h; rfl
  · rename_i refused
    constructor
    · intro h; cases h
    · rintro ⟨valid, _⟩; exact absurd ((accepts_iff dims).mpr valid) refused

theorem len_pos (s : Shape) : 0 < s.len :=
  Extent.count_pos s.dims s.valid.1

theorem len_le_signedMax (s : Shape) : (s.len : Int) ≤ Word.signedMax := by
  have h : (s.len : Int) ≤ ((Word.signedMax.toNat : Nat) : Int) := Int.ofNat_le.mpr s.valid.2
  rwa [Int.toNat_of_nonneg (by unfold Word.signedMax; omega)] at h

theorem length_colMajorStrides (s : Shape) : s.colMajorStrides.length = s.rank := by
  simp [colMajorStrides, rank]

end Shape

end StridedGrid
