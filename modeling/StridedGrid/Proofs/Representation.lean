import Mathlib
import StridedGrid.Proofs.ViewBounds
import StridedGrid.Grid.Basic

/-!
# Grids that fit their buffers

The representation invariant of an array, `Grid.Fits`: a flat grid fills its buffer, a strided
grid was accepted by `Layout.validateView` against its buffer (its offset a signed word, as
the offsets of the library are), and a nested grid has at least one axis and fills its buffer
row after row.

Every index of the box of a fitting grid has its position inside the buffer, so reading and
writing one element never stops (`get_ok`, `set_ok`). Flat and nested grids place the index
at its column-major number, the sum of its coordinates weighted by the dense column-major
strides.
-/

namespace StridedGrid

open Traversal

namespace Extent

theorem le_count {dims : List Nat} (positive : ∀ d ∈ dims, 0 < d) {d : Nat} (mem : d ∈ dims) :
    d ≤ count dims := by
  induction dims with
  | nil => simp at mem
  | cons e rest ih =>
    rw [count_cons]
    have restPositive : ∀ d ∈ rest, 0 < d := fun d m => positive d (by simp [m])
    have restCount := count_pos rest restPositive
    rcases List.mem_cons.mp mem with rfl | inRest
    · exact Nat.le_mul_of_pos_right d restCount
    · exact le_trans (ih restPositive inRest) (Nat.le_mul_of_pos_left _ (positive e (by simp)))

end Extent

namespace Shape

theorem extentsFit (s : Shape) : Layout.ExtentsFit s.dims := by
  intro d mem
  have small := Extent.le_count s.valid.1 mem
  have total := s.len_le_signedMax
  unfold len at total
  exact ⟨s.valid.1 d mem, by omega⟩

/-- Dense column-major strides as naturals: one for the first axis, and each later one the
product of the extents before it. -/
def columnStrides : List Nat → List Nat
  | [] => []
  | d :: dims => 1 :: (columnStrides dims).map (d * ·)

theorem scanl_mul_dropLast (dims : List Nat) (start : Nat) :
    (dims.scanl (· * ·) start).dropLast = (columnStrides dims).map (start * ·) := by
  induction dims generalizing start with
  | nil => simp [columnStrides]
  | cons d rest ih =>
    rw [List.scanl_cons, List.dropLast_cons_of_ne_nil List.scanl_ne_nil, ih]
    simp [columnStrides, Function.comp_def, Nat.mul_assoc]

theorem colMajorStrides_eq (s : Shape) :
    s.colMajorStrides = (columnStrides s.dims).map Int.ofNat := by
  simp [colMajorStrides, scanl_mul_dropLast]

theorem weighted_map_mul (index : List Nat) (strides : List Nat) (d : Nat) :
    Extent.weighted index ((strides.map (d * ·)).map Int.ofNat) =
      d * Extent.weighted index (strides.map Int.ofNat) := by
  induction index generalizing strides with
  | nil => simp
  | cons i rest ih =>
    cases strides with
    | nil => simp
    | cons t ts =>
      simp only [List.map_cons, weighted_cons_cons, ih, Int.ofNat_eq_natCast]
      push_cast
      ring

/-- The column-major number of an index lies in `[0, count)`. -/
theorem weighted_columnStrides_lt :
    ∀ {dims index : List Nat}, InBox dims index →
      0 ≤ Extent.weighted index ((columnStrides dims).map Int.ofNat) ∧
        Extent.weighted index ((columnStrides dims).map Int.ofNat) < Extent.count dims
  | [], index, inBox => by
    rw [inBox_nil_iff.mp inBox]
    simp
  | _ :: _, [], inBox => absurd inBox inBox_cons_nil
  | d :: dims, i :: index, inBox => by
    rw [inBox_cons_cons] at inBox
    obtain ⟨low, high⟩ := weighted_columnStrides_lt inBox.2
    simp only [columnStrides, List.map_cons, weighted_cons_cons, weighted_map_mul,
      Extent.count_cons]
    have below : (i : Int) < d := by exact_mod_cast inBox.1
    have step : (i : Int) + d * Extent.weighted index ((columnStrides dims).map Int.ofNat) <
        d + d * Extent.weighted index ((columnStrides dims).map Int.ofNat) := by omega
    have rows : (d : Int) + d * Extent.weighted index ((columnStrides dims).map Int.ofNat) ≤
        d * Extent.count dims := by
      have := mul_le_mul_of_nonneg_left (show Extent.weighted index
        ((columnStrides dims).map Int.ofNat) + 1 ≤ Extent.count dims by omega)
        (Int.natCast_nonneg d)
      linarith
    push_cast
    constructor
    · have := mul_nonneg (Int.natCast_nonneg d) low
      omega
    · omega

end Shape

namespace Grid

/-- A grid fits a buffer of `size` elements: a flat grid fills it, a strided grid was accepted
by `validateView` against it with the storage order it carries, and a nested grid has at least
one axis and fills it row after row. -/
def Fits (g : Grid) (size : Nat) : Prop :=
  match g.storage with
  | .flat => size = g.len
  | .strided offset strides order =>
      Word.IsSigned offset ∧ Layout.validateView size g.dims strides offset = .ok order
  | .nested => 0 < g.rank ∧ size = g.len

@[simp]
theorem flatPosition_nil_left (index : List Nat) : flatPosition [] index = 0 := by
  simp [flatPosition]

@[simp]
theorem flatPosition_nil_right (dims : List Nat) : flatPosition dims [] = 0 := by
  simp [flatPosition]

/-- Folding in from the last axis, the first axis comes last: its coordinate is added to the
number of the rest scaled by its extent. -/
@[simp]
theorem flatPosition_cons_cons (d i : Nat) (dims index : List Nat) :
    flatPosition (d :: dims) (i :: index) = flatPosition dims index * d + i := by
  simp [flatPosition, List.foldl_append]

/-- The column-major number folded in from the last axis is the index weighted by the dense
column-major strides. -/
theorem flatPosition_eq_weighted (dims index : List Nat) :
    (flatPosition dims index : Int) = Extent.weighted index ((Shape.columnStrides dims).map Int.ofNat) := by
  induction dims generalizing index with
  | nil => simp [Shape.columnStrides]
  | cons d rest ih =>
    cases index with
    | nil => simp
    | cons i outer =>
      simp only [flatPosition_cons_cons, Shape.columnStrides, List.map_cons, weighted_cons_cons,
        Shape.weighted_map_mul, ← ih]
      push_cast
      ring

/-- A nested grid's row and column of an index with one coordinate per axis place it at its
column-major number: row `r` of `dims[0]` elements starts at `r * dims[0]`. -/
theorem nestedPosition_place {dims index : List Nat} (lengths : index.length = dims.length) :
    (nestedPosition dims index).1 * dims.headD 0 + (nestedPosition dims index).2 =
      flatPosition dims index := by
  cases dims with
  | nil =>
    rw [List.length_nil, List.length_eq_zero_iff] at lengths
    simp [nestedPosition, lengths]
  | cons d rest =>
    cases index with
    | nil => simp [nestedPosition]
    | cons i outer => simp [nestedPosition]

/-- The position of an index of the box of a flat or nested grid is its column-major number. -/
theorem position_of_dense {g : Grid} (dense : ∀ offset strides order,
      g.storage ≠ .strided offset strides order) {index : List Nat} (inBox : InBox g.dims index) :
    g.position index = Extent.weighted index ((Shape.columnStrides g.dims).map Int.ofNat) := by
  rw [← flatPosition_eq_weighted]
  unfold position
  split
  · rfl
  · rename_i offset strides order storage
    exact absurd storage (dense offset strides order)
  · exact_mod_cast nestedPosition_place inBox.length_eq

/-- The position of any index of a flat grid is its column-major number. -/
theorem position_flat (shape : Shape) (index : List Nat) :
    (⟨shape, .flat⟩ : Grid).position index =
      Extent.weighted index ((Shape.columnStrides shape.dims).map Int.ofNat) :=
  flatPosition_eq_weighted shape.dims index

/-- Every index of a fitting grid has its position inside the buffer. -/
theorem Fits.position_mem {g : Grid} {size : Nat} (fits : g.Fits size) {index : List Nat}
    (inBox : InBox g.dims index) : 0 ≤ g.position index ∧ g.position index < size := by
  have count : g.len = Extent.count g.dims := rfl
  unfold Fits at fits
  split at fits
  · rename_i storage
    rw [position_of_dense (by simp [storage]) inBox]
    have := Shape.weighted_columnStrides_lt inBox
    omega
  · rename_i offset strides order storage
    obtain ⟨-, -, inside⟩ :=
      Layout.validateView_ok g.shape.extentsFit fits.1 fits.2
    have := inside index inBox
    simp only [position, storage]
    exact ⟨this.1, this.2.1⟩
  · rename_i storage
    rw [position_of_dense (by simp [storage]) inBox]
    have := Shape.weighted_columnStrides_lt inBox
    omega

theorem Fits.slot_lt {g : Grid} {size : Nat} (fits : g.Fits size) {index : List Nat}
    (inBox : InBox g.dims index) : g.slot index < size := by
  have := fits.position_mem inBox
  unfold slot
  omega

variable {α : Type}

/-- Reading an index of the box of a fitting grid never stops. -/
theorem get_ok {g : Grid} {buffer : Array α} (fits : g.Fits buffer.size) {index : List Nat}
    (inBox : InBox g.dims index) :
    ∃ x, buffer[g.slot index]? = some x ∧ g.get buffer index = .ok x := by
  have contains : g.shape.contains index = true := (Shape.contains_iff_inBox _ _).mpr inBox
  have bound := fits.slot_lt inBox
  refine ⟨buffer[g.slot index], by simp [bound], ?_⟩
  simp [get, checkIndex, contains, bound]

/-- Writing an index of the box of a fitting grid never stops and keeps the buffer's size. -/
theorem set_ok {g : Grid} {buffer : Array α} (fits : g.Fits buffer.size) {index : List Nat}
    (inBox : InBox g.dims index) (value : α) :
    g.set buffer index value = .ok (buffer.set! (g.slot index) value) := by
  have contains : g.shape.contains index = true := (Shape.contains_iff_inBox _ _).mpr inBox
  have bound := fits.slot_lt inBox
  simp [set, checkIndex, contains, bound]

end Grid

end StridedGrid
