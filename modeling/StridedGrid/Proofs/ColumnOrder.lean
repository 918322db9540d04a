import Mathlib
import StridedGrid.Proofs.Shifting

/-!
# Column-major order

Three encodings of the column-major order of a box of extents meet here.

* The counting loop (`Traversal.columnIndices`) starts at the all-zero index and steps with
  `bump`, carrying into the next axis when a coordinate wraps. It lists the odometer, so it visits
  every index of the box exactly once.
* The flat position (`Grid.flatPosition`) folds an index in from its last axis,
  `i₀ + d₀ * (i₁ + d₁ * …)`. It is the index's column-major number, so the `k`-th index the loop
  visits is the one index of the box whose flat position is `k`
  (`getElem?_columnIndices_eq_some_iff`), and it is the index weighted by the column-major
  strides.
* The column-major walk (`Traversal.columnWalk`) keeps a running position as it counts: a step
  adds the stride of each axis it moves and takes off the span of each axis that wraps. One step
  keeps the position equal to the weighted index (`advance_position`), so at every visit the walk
  holds the position of the index it visits (`columnWalk_positions_agree`). Over the column-major
  strides from offset zero it never overflows and visits `0, 1, …` in turn
  (`columnWalk_colMajorStrides`).

A flat array therefore reads as the strided view of its descriptor, and an array made from a
function holds at each index the function's value there.
-/

namespace StridedGrid

namespace Traversal

theorem mem_columnIndices {dims index : List Nat} : index ∈ columnIndices dims ↔ InBox dims index := by
  rw [columnIndices_eq_odometer, mem_odometer]

theorem nodup_columnIndices (dims : List Nat) : (columnIndices dims).Nodup := by
  rw [columnIndices_eq_odometer]
  exact nodup_odometer dims

/-- One step of the walk from an index of the box, started at that index's position, moves to
the next index in column-major order and to its position: the running position never drifts from
the weighted index. -/
theorem advance_position {dims index next : List Nat} {strides : List Int} {offset nextPos : Int}
    (inBox : InBox dims index) (lengths : dims.length = strides.length)
    (stepped : advance dims strides index (position offset strides index) = some (next, nextPos)) :
    next = bump dims index ∧ nextPos = position offset strides next := by
  obtain ⟨rfl, rfl⟩ := advance_eq_some inBox lengths stepped
  refine ⟨rfl, ?_⟩
  simp only [position]
  ring

/-- However far a walk from an index of the box gets before it overflows, it has visited the
positions of the indices the counting loop visits from there, in the same order. -/
theorem walkFrom_positions_agree {dims : List Nat} {strides : List Int} {offset : Int}
    (lengths : dims.length = strides.length) :
    ∀ (count : Nat) (index : List Nat), InBox dims index →
      (walkFrom dims strides count index (position offset strides index)).positions <+:
        (countFrom dims count index).map (position offset strides)
  | 0, _, _ => by simp [walkFrom, countFrom]
  | count + 1, index, inBox => by
    cases stepped : advance dims strides index (position offset strides index) with
    | none =>
      simp [walkFrom, countFrom, stepped]
    | some result =>
      obtain ⟨next, nextPos⟩ := result
      obtain ⟨rfl, rfl⟩ := advance_position inBox lengths stepped
      simp only [walkFrom, stepped, countFrom, List.map_cons]
      exact List.cons_prefix_cons.mpr
        ⟨rfl, walkFrom_positions_agree lengths count (bump dims index) inBox.bump⟩

/-- The column-major walk is the walk from the all-zero index, whose position is the offset. -/
theorem columnWalk_eq_walkFrom (dims : List Nat) (strides : List Int) (offset : Int) :
    columnWalk dims strides offset =
      walkFrom dims strides (Extent.count dims) (List.replicate dims.length 0)
        (position offset strides (List.replicate dims.length 0)) := by
  simp [columnWalk, position, List.map_const']

section Walk

variable {dims : List Nat} {strides : List Int} {offset : Int}
  (positive : ∀ d ∈ dims, 0 < d) (lengths : dims.length = strides.length)
include positive lengths

/-- At every visit, the column-major walk holds the position of the index the counting loop
visits there. -/
theorem columnWalk_positions_agree :
    (columnWalk dims strides offset).positions <+:
      (columnIndices dims).map (position offset strides) := by
  rw [columnWalk_eq_walkFrom]
  exact walkFrom_positions_agree lengths _ _ (zeros_inBox positive)

/-- A column-major walk that does not overflow visits the position of every index, in the order
of the counting loop. -/
theorem columnWalk_positions_of_finished (finished : (columnWalk dims strides offset).overflowed = false) :
    (columnWalk dims strides offset).positions =
      (columnIndices dims).map (position offset strides) := by
  rw [columnWalk_eq_walkFrom] at finished ⊢
  have steps := isSome_of_walkFrom lengths _ _ (zeros_inBox positive) finished
  rw [walkFrom_eq_of_isSome lengths _ _ (zeros_inBox positive) steps, columnIndices,
    countFrom_eq_iterate]

end Walk

/-- The column-major strides scaled by `c` place an index at `c` times its column-major number. -/
theorem position_scaled_columnStrides (c : Nat) (dims index : List Nat) :
    position 0 (((Shape.columnStrides dims).map (c * ·)).map Int.ofNat) index =
      ((c * columnNumber dims index : Nat) : Int) := by
  rw [position, zero_add, Shape.weighted_map_mul, weighted_columnStrides]
  push_cast
  rfl

/-- The walk over the column-major strides scaled by `c` fits the signed words when `c` times the
number of elements does: one step past any index, and the span of any axis, reach no further. -/
theorem walkFits_scaled_columnStrides : ∀ {dims : List Nat} (c : Nat), (∀ d ∈ dims, 0 < d) →
    ((c * Extent.count dims : Nat) : Int) ≤ Word.signedMax →
    WalkFits dims (((Shape.columnStrides dims).map (c * ·)).map Int.ofNat) 0
  | [], _, _, _ => trivial
  | d :: dims, c, positive, bounded => by
    have restPositive : ∀ e ∈ dims, 0 < e := fun e mem => positive e (by simp [mem])
    have restCount := Extent.count_pos dims restPositive
    have strides : ((Shape.columnStrides (d :: dims)).map (c * ·)).map Int.ofNat =
        (c : Int) :: ((Shape.columnStrides dims).map ((c * d) * ·)).map Int.ofNat := by
      simp [Shape.columnStrides, Function.comp_def, Nat.mul_assoc]
    rw [Extent.count_cons] at bounded
    rw [strides]
    refine ⟨fun index mem => ?_, ?_,
      walkFits_scaled_columnStrides (c * d) restPositive (by rw [Nat.mul_assoc]; exact bounded)⟩
    · have below : columnNumber (d :: dims) index + 1 ≤ d * Extent.count dims := by
        have := columnNumber_lt (mem_odometer.mp mem)
        rwa [Extent.count_cons] at this
      have reach : c * columnNumber (d :: dims) index + c ≤ c * (d * Extent.count dims) := by
        rw [← Nat.mul_add_one]
        exact Nat.mul_le_mul_left c below
      rw [← strides, position_scaled_columnStrides]
      apply Word.isSigned_of_mem (by positivity)
      calc ((c * columnNumber (d :: dims) index : Nat) : Int) + c
          = ((c * columnNumber (d :: dims) index + c : Nat) : Int) := by push_cast; ring
        _ ≤ ((c * (d * Extent.count dims) : Nat) : Int) := by exact_mod_cast reach
        _ ≤ Word.signedMax := bounded
    · have span : c * d ≤ c * (d * Extent.count dims) :=
        Nat.mul_le_mul_left c (Nat.le_mul_of_pos_right d restCount)
      apply Word.isSigned_of_mem (by positivity)
      calc (c : Int) * d = ((c * d : Nat) : Int) := by push_cast; ring
        _ ≤ ((c * (d * Extent.count dims) : Nat) : Int) := by exact_mod_cast span
        _ ≤ Word.signedMax := bounded

/-- The column-major strides of a shape place an index at its column-major number. -/
theorem position_colMajorStrides (shape : Shape) (index : List Nat) :
    position 0 shape.colMajorStrides index = columnNumber shape.dims index := by
  have unscaled : shape.colMajorStrides =
      ((Shape.columnStrides shape.dims).map (1 * ·)).map Int.ofNat := by
    simp [Shape.colMajorStrides_eq]
  rw [unscaled, position_scaled_columnStrides, Nat.one_mul]

/-- Over the column-major strides of a shape from offset zero, the walk never overflows and
visits the positions `0, 1, …` in turn. -/
theorem columnWalk_colMajorStrides (shape : Shape) :
    columnWalk shape.dims shape.colMajorStrides 0 =
      ⟨(List.range shape.len).map Nat.cast, false⟩ := by
  have lengths : shape.dims.length = shape.colMajorStrides.length :=
    (Shape.length_colMajorStrides shape).symm
  have fits : WalkFits shape.dims shape.colMajorStrides 0 := by
    have scaled := walkFits_scaled_columnStrides 1 shape.valid.1
      (by rw [Nat.one_mul]; exact shape.len_le_signedMax)
    simpa [Shape.colMajorStrides_eq] using scaled
  have numbered : position 0 shape.colMajorStrides = fun index => (columnNumber shape.dims index : Int) :=
    funext (position_colMajorStrides shape)
  have signed : ∀ index, InBox shape.dims index → Word.IsSigned (position 0 shape.colMajorStrides index) := by
    intro index inBox
    have below := columnNumber_lt inBox
    have total := shape.len_le_signedMax
    unfold Shape.len at total
    rw [position_colMajorStrides]
    exact Word.isSigned_of_mem (by positivity) (by omega)
  rw [columnWalk_eq shape.valid.1 lengths signed fits, numbered, Shape.len,
    ← map_columnNumber_odometer, List.map_map]
  rfl

end Traversal

namespace Grid

open Traversal

variable {α : Type}

/-- The flat position of an index is its column-major number. -/
theorem flatPosition_eq_columnNumber (dims index : List Nat) :
    flatPosition dims index = columnNumber dims index := by
  have weighted := (flatPosition_eq_weighted dims index).trans (weighted_columnStrides dims index)
  exact_mod_cast weighted

/-- The `k`-th index the counting loop visits is the one index of the box whose flat position is
`k`. -/
theorem getElem?_columnIndices_eq_some_iff {dims index : List Nat} {k : Nat} :
    (columnIndices dims)[k]? = some index ↔ InBox dims index ∧ flatPosition dims index = k := by
  rw [columnIndices_eq_odometer, flatPosition_eq_columnNumber]
  constructor
  · intro found
    obtain ⟨below, rfl⟩ := List.getElem?_eq_some_iff.mp found
    exact ⟨mem_odometer.mp (List.getElem_mem below), columnNumber_getElem_odometer dims below⟩
  · rintro ⟨inBox, rfl⟩
    exact getElem?_odometer_columnNumber inBox

/-- The column-major strides from offset zero view a buffer of exactly the shape's length. -/
theorem wrapStrided_colMajorStrides (shape : Shape) :
    wrapStrided shape.len shape 0 shape.colMajorStrides =
      .ok ⟨shape, .strided 0 shape.colMajorStrides
        (Layout.classifyOrder shape.dims shape.colMajorStrides)⟩ := by
  have lengths : shape.dims.length = shape.colMajorStrides.length :=
    (Shape.length_colMajorStrides shape).symm
  have accepted : Layout.validateView shape.len shape.dims shape.colMajorStrides 0 =
      .ok (Layout.classifyOrder shape.dims shape.colMajorStrides) :=
    Layout.validateView_eq_ok_of_positions shape.extentsFit lengths fun index inBox => by
      have below := columnNumber_lt inBox
      have total := shape.len_le_signedMax
      unfold Shape.len at total ⊢
      rw [position_colMajorStrides]
      omega
  simp only [wrapStrided, accepted, Outcome.ok_bind]
  rfl

/-- A strided grid over the column-major strides from offset zero reads its buffer where a flat
grid of its shape does, at every index. -/
theorem get_colMajorStrides (shape : Shape) (order : Order) (buffer : Array α) (index : List Nat) :
    (⟨shape, .strided 0 shape.colMajorStrides order⟩ : Grid).get buffer index =
      (⟨shape, .flat⟩ : Grid).get buffer index := by
  have same : (⟨shape, .strided 0 shape.colMajorStrides order⟩ : Grid).slot index =
      (⟨shape, .flat⟩ : Grid).slot index := by
    rw [slot_flat]
    simp [slot, position, position_colMajorStrides]
  simp only [get, checkIndex, same]

/-- An array made from a function, once its room is reserved, holds at each index of its box
the function's value there. -/
theorem get_fromFn [Element α] (shape : Shape) (f : List Nat → α)
    (room : Word.Reservable shape.len (Element.byteSize α)) :
    ∃ data, fromFn shape f = .ok (⟨shape, .flat⟩, data) ∧
      ∀ index, InBox shape.dims index → (⟨shape, .flat⟩ : Grid).get data index = .ok (f index) := by
  rw [fromFn_of_reservable f room, columnIndices_eq_odometer]
  exact ⟨_, rfl, fun index inBox => get_flat_odometer ⟨shape, .flat⟩ f inBox⟩

end Grid

/-- The column-major order of a shape, three ways: the counting loop, the flat position, and a
walk keeping a running position, which holds the visited index's position at every visit. A flat
array and the view of its descriptor agree, nested rows and columns place an index at its flat
position, and an array made from a function holds its values once its room is reserved. -/
theorem columnMajor_encodings_agree (shape : Shape) :
    (Traversal.columnIndices shape.dims).Nodup ∧
    (∀ index, index ∈ Traversal.columnIndices shape.dims ↔ shape.contains index = true) ∧
    (∀ k index, (Traversal.columnIndices shape.dims)[k]? = some index ↔
      shape.contains index = true ∧ Grid.flatPosition shape.dims index = k) ∧
    (∀ index, shape.contains index = true →
      (Grid.flatPosition shape.dims index : Int) = Extent.weighted index shape.colMajorStrides ∧
      Grid.flatPosition shape.dims index < shape.len) ∧
    (∀ strides offset, strides.length = shape.rank →
      (∀ index next nextPos, shape.contains index = true →
        Traversal.advance shape.dims strides index (Traversal.position offset strides index) =
          some (next, nextPos) →
        next = Traversal.bump shape.dims index ∧ nextPos = Traversal.position offset strides next) ∧
      (Traversal.columnWalk shape.dims strides offset).positions <+:
        (Traversal.columnIndices shape.dims).map (Traversal.position offset strides) ∧
      ((Traversal.columnWalk shape.dims strides offset).overflowed = false →
        (Traversal.columnWalk shape.dims strides offset).positions =
          (Traversal.columnIndices shape.dims).map (Traversal.position offset strides))) ∧
    Traversal.columnWalk shape.dims shape.colMajorStrides 0 =
      ⟨(List.range shape.len).map Nat.cast, false⟩ ∧
    (∀ {α : Type} (buffer : Array α), buffer.size = shape.len →
      ∀ offset strides, (⟨shape, .flat⟩ : Grid).descriptor? = some (offset, strides) →
        ∃ view, Grid.wrapStrided buffer.size shape offset strides = .ok view ∧
          ∀ index, view.get buffer index = (⟨shape, .flat⟩ : Grid).get buffer index) ∧
    (∀ index, shape.contains index = true →
      (Grid.nestedPosition shape.dims index).1 * shape.dims.headD 0 +
        (Grid.nestedPosition shape.dims index).2 = Grid.flatPosition shape.dims index) ∧
    (∀ {α : Type} [Element α] (f : List Nat → α),
      (¬Word.Reservable shape.len (Element.byteSize α) →
        Grid.fromFn shape f = Outcome.panic .capacityOverflow) ∧
      (Word.Reservable shape.len (Element.byteSize α) →
        ∃ data, Grid.fromFn shape f = .ok (⟨shape, .flat⟩, data) ∧
          ∀ index, shape.contains index = true →
            (⟨shape, .flat⟩ : Grid).get data index = .ok (f index))) := by
  have inBox_iff := Shape.contains_iff_inBox shape
  refine ⟨Traversal.nodup_columnIndices _, fun index => ?_, fun k index => ?_,
    fun index contained => ?_, fun strides offset lengths => ⟨?_, ?_, ?_⟩,
    Traversal.columnWalk_colMajorStrides shape, fun buffer filled offset strides described => ?_,
    fun index contained => ?_, fun f => ⟨Grid.fromFn_of_not_reservable f, fun room => ?_⟩⟩
  · rw [Traversal.mem_columnIndices, inBox_iff]
  · rw [Grid.getElem?_columnIndices_eq_some_iff, inBox_iff]
  · have inBox := (inBox_iff index).mp contained
    have weighted : (Grid.flatPosition shape.dims index : Int) =
        Extent.weighted index shape.colMajorStrides := by
      rw [Grid.flatPosition_eq_weighted, Shape.colMajorStrides_eq]
    refine ⟨weighted, ?_⟩
    rw [Grid.flatPosition_eq_columnNumber]
    exact Traversal.columnNumber_lt inBox
  · intro index next nextPos contained stepped
    exact Traversal.advance_position ((inBox_iff index).mp contained) lengths.symm stepped
  · exact Traversal.columnWalk_positions_agree shape.valid.1 lengths.symm
  · exact Traversal.columnWalk_positions_of_finished shape.valid.1 lengths.symm
  · simp only [Grid.descriptor?, Option.some.injEq, Prod.mk.injEq] at described
    obtain ⟨rfl, rfl⟩ := described
    rw [filled]
    exact ⟨_, Grid.wrapStrided_colMajorStrides shape, Grid.get_colMajorStrides shape _ buffer⟩
  · exact Grid.nestedPosition_place ((inBox_iff index).mp contained).length_eq
  · obtain ⟨data, made, holds⟩ := Grid.get_fromFn shape f room
    exact ⟨data, made, fun index contained => holds index ((inBox_iff index).mp contained)⟩

/-- A flat array of `2^60` doubles made from a function would take `2^63` bytes: it cannot be
reserved. -/
theorem fromFn_refuses_unreservable_room :
    Grid.fromFn ⟨[1152921504606846976], by decide⟩ (fun _ => (0 : Float)) =
      Outcome.panic .capacityOverflow :=
  Grid.fromFn_of_not_reservable _ (by decide)

end StridedGrid
