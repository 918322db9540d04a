import Mathlib
import StridedGrid.Traversal.Odometer
import StridedGrid.Shape

/-!
# Boxes of indices

The indices of an array with extents `dims` form a box: one coordinate per axis, each below its
extent. The odometer lists the box with the first coordinate turning fastest. This file shows
that it lists every index of the box exactly once, and that it is the orbit of the column-major
successor `bump` from the all-zero index: the element-by-element walks of the library step
through the box with `bump`, so a walk of `Extent.count dims` steps visits the odometer in order.

Positions are linear in the index, and the weighted sum splits over the first axis.
-/

namespace StridedGrid

namespace Traversal

/-- An index of the box of extents `dims`: one coordinate per axis, each below its extent. -/
def InBox (dims index : List Nat) : Prop := List.Forall₂ (· < ·) index dims

@[simp]
theorem inBox_nil_iff {index : List Nat} : InBox [] index ↔ index = [] :=
  List.forall₂_nil_right_iff

@[simp]
theorem inBox_cons_nil {d : Nat} {dims : List Nat} : ¬InBox (d :: dims) [] := by
  simp [InBox]

@[simp]
theorem inBox_cons_cons {d i : Nat} {dims index : List Nat} :
    InBox (d :: dims) (i :: index) ↔ i < d ∧ InBox dims index :=
  List.forall₂_cons

theorem InBox.length_eq {dims index : List Nat} (inBox : InBox dims index) :
    index.length = dims.length :=
  List.Forall₂.length_eq inBox

theorem mem_odometer {dims index : List Nat} : index ∈ odometer dims ↔ InBox dims index := by
  induction dims generalizing index with
  | nil => simp [odometer]
  | cons d rest ih =>
    cases index with
    | nil => simp [odometer]
    | cons i outer =>
      simp only [odometer, List.mem_flatMap, List.mem_map, List.mem_range, List.cons.injEq,
        inBox_cons_cons, ih]
      constructor
      · rintro ⟨o, inRest, j, below, rfl, rfl⟩
        exact ⟨below, inRest⟩
      · rintro ⟨below, inRest⟩
        exact ⟨outer, inRest, i, below, rfl, rfl⟩

/-- The odometer lists each index of its box once. -/
theorem nodup_odometer (dims : List Nat) : (odometer dims).Nodup := by
  induction dims with
  | nil => simp [odometer]
  | cons d rest ih =>
    rw [odometer, List.nodup_flatMap]
    refine ⟨fun outer _ => List.nodup_range.map fun _ _ same => (List.cons.inj same).1, ?_⟩
    refine ih.imp fun {o o'} different index inFirst inSecond => different ?_
    obtain ⟨i, -, rfl⟩ := List.mem_map.mp inFirst
    obtain ⟨j, -, same⟩ := List.mem_map.mp inSecond
    exact ((List.cons.inj same).2).symm

theorem length_odometer_mem {dims index : List Nat} (mem : index ∈ odometer dims) :
    index.length = dims.length :=
  (mem_odometer.mp mem).length_eq

theorem bump_cons_of_lt {d i : Nat} {dims index : List Nat} (step : i + 1 < d) :
    bump (d :: dims) (i :: index) = (i + 1) :: index := by
  simp [bump, step]

theorem bump_cons_of_last {d i : Nat} {dims index : List Nat} (last : ¬i + 1 < d) :
    bump (d :: dims) (i :: index) = 0 :: bump dims index := by
  simp [bump, last]

theorem InBox.bump {dims index : List Nat} (inBox : InBox dims index) :
    InBox dims (bump dims index) := by
  induction dims generalizing index with
  | nil =>
    rw [inBox_nil_iff] at inBox ⊢
    subst inBox
    rfl
  | cons d rest ih =>
    cases index with
    | nil => simp at inBox
    | cons i outer =>
      rw [inBox_cons_cons] at inBox
      by_cases step : i + 1 < d
      · simpa [bump_cons_of_lt step] using ⟨step, inBox.2⟩
      · rw [bump_cons_of_last step, inBox_cons_cons]
        exact ⟨by omega, ih inBox.2⟩

/-- Inside one row the successor only steps the first coordinate. -/
theorem iterate_bump_row {d : Nat} {dims outer : List Nat} :
    ∀ (steps first : Nat), first + steps ≤ d →
      List.iterate (bump (d :: dims)) (first :: outer) steps =
        (List.range' first steps).map (· :: outer)
  | 0, _, _ => rfl
  | 1, first, _ => by simp [List.iterate]
  | steps + 2, first, fits => by
    rw [List.iterate, bump_cons_of_lt (by omega), iterate_bump_row (steps + 1) (first + 1) (by omega),
      List.range'_succ]
    rfl

theorem bump_iterate_row {d : Nat} {dims outer : List Nat} :
    ∀ (steps first : Nat), first + steps < d →
      (bump (d :: dims))^[steps] (first :: outer) = (first + steps) :: outer
  | 0, _, _ => rfl
  | steps + 1, first, fits => by
    rw [Function.iterate_succ_apply, bump_cons_of_lt (by omega),
      bump_iterate_row steps (first + 1) (by omega)]
    congr 1
    omega

/-- Running through a whole row carries into the next axis. -/
theorem bump_iterate_across_row {d : Nat} {dims outer : List Nat} (positive : 0 < d) :
    (bump (d :: dims))^[d] (0 :: outer) = 0 :: bump dims outer := by
  obtain ⟨last, rfl⟩ : ∃ last, d = last + 1 := ⟨d - 1, by omega⟩
  rw [Function.iterate_succ_apply', bump_iterate_row last 0 (by omega), Nat.zero_add,
    bump_cons_of_last (by omega)]

/-- `m` rows of the successor on `d :: dims` are `m` steps of the successor on `dims`, each
expanded into a row. -/
theorem iterate_bump_rows {d : Nat} {dims : List Nat} (positive : 0 < d) :
    ∀ (rows : Nat) (outer : List Nat),
      List.iterate (bump (d :: dims)) (0 :: outer) (d * rows) =
        (List.iterate (bump dims) outer rows).flatMap fun o => (List.range d).map (· :: o)
  | 0, _ => by simp
  | rows + 1, outer => by
    rw [Nat.mul_succ, Nat.add_comm, List.iterate_add, iterate_bump_row d 0 (by omega),
      bump_iterate_across_row positive, iterate_bump_rows positive rows, List.iterate,
      List.flatMap_cons, List.range_eq_range']

/-- The odometer is the orbit of the column-major successor from the all-zero index. -/
theorem odometer_eq_iterate_bump {dims : List Nat} (positive : ∀ d ∈ dims, 0 < d) :
    odometer dims = List.iterate (bump dims) (List.replicate dims.length 0) (Extent.count dims) := by
  induction dims with
  | nil => rfl
  | cons d rest ih =>
    have restPositive : ∀ e ∈ rest, 0 < e := fun e mem => positive e (by simp [mem])
    rw [odometer, ih restPositive, Extent.count_cons, List.length_cons, List.replicate_succ,
      iterate_bump_rows (positive d (by simp))]

theorem countFrom_eq_iterate (dims : List Nat) :
    ∀ (count : Nat) (index : List Nat),
      countFrom dims count index = List.iterate (bump dims) index count
  | 0, _ => rfl
  | count + 1, index => by rw [countFrom, countFrom_eq_iterate dims count, List.iterate]

/-- Counting through the box from the all-zero index lists the odometer. -/
theorem columnIndices_eq_odometer (dims : List Nat) : columnIndices dims = odometer dims := by
  by_cases positive : ∀ d ∈ dims, 0 < d
  · rw [columnIndices, countFrom_eq_iterate, odometer_eq_iterate_bump positive]
  · have empty : Extent.count dims = 0 := by
      change dims.prod = 0
      rw [List.prod_eq_zero_iff]
      push Not at positive
      obtain ⟨d, mem, zero⟩ := positive
      exact (by omega : d = 0) ▸ mem
    rw [columnIndices, empty, countFrom, eq_comm, ← List.length_eq_zero_iff, length_odometer,
      empty]

@[simp]
theorem weighted_cons_cons (i : Nat) (index : List Nat) (s : Int) (strides : List Int) :
    Extent.weighted (i :: index) (s :: strides) = i * s + Extent.weighted index strides :=
  rfl

@[simp]
theorem weighted_nil_left (strides : List Int) : Extent.weighted [] strides = 0 := rfl

@[simp]
theorem weighted_nil_right (index : List Nat) : Extent.weighted index [] = 0 := by
  cases index <;> rfl

@[simp]
theorem position_cons_cons (offset : Int) (s : Int) (strides : List Int) (i : Nat)
    (index : List Nat) :
    position offset (s :: strides) (i :: index) = position offset strides index + i * s := by
  simp only [position, weighted_cons_cons]
  ring

theorem position_zero_cons (offset : Int) (s : Int) (strides : List Int) (index : List Nat) :
    position offset (s :: strides) (0 :: index) = position offset strides index := by
  simp

@[simp]
theorem weighted_replicate_zero (count : Nat) (strides : List Int) :
    Extent.weighted (List.replicate count 0) strides = 0 := by
  induction count generalizing strides with
  | zero => simp
  | succ count ih =>
    cases strides with
    | nil => simp
    | cons s ss => simp [List.replicate_succ, ih]

theorem zeros_inBox {dims : List Nat} (positive : ∀ d ∈ dims, 0 < d) :
    InBox dims (List.replicate dims.length 0) := by
  induction dims with
  | nil => simp
  | cons d rest ih =>
    rw [List.length_cons, List.replicate_succ, inBox_cons_cons]
    exact ⟨positive d (by simp), ih fun e mem => positive e (by simp [mem])⟩

end Traversal

namespace Shape

theorem contains_iff_inBox (s : Shape) (index : List Nat) :
    s.contains index = true ↔ Traversal.InBox s.dims index := by
  simp [contains, rank, Traversal.InBox, List.forall₂_iff_zip, List.all_eq_true]

end Shape

end StridedGrid
