import Mathlib
import StridedGrid.Proofs.Box

/-!
# Loop orders

A loop order lists the axes of a view from the innermost loop to the outermost; for every
storage order it is a permutation of the axes (`loopOrder_perm`). Enumerating a box with the
coordinates of a loop order turning from fastest to slowest (`loopIndices`) lists every index
of the box exactly once (`mem_loopIndices`, `nodup_loopIndices`): it is the odometer of the
permuted extents, each of its indices put back in axis order by `alongAxes`.

An index put back in axis order lies where its coordinates, weighted by the permuted strides,
say (`position_alongAxes`): this is what lets a walk over loops in any order be compared with
the positions of the view's own indices.
-/

namespace StridedGrid

namespace Traversal

theorem loopOrder_perm (rank : Nat) (strides : List Int) (order : Order) :
    (loopOrder rank strides order).Perm (List.range rank) := by
  cases order with
  | columnMajor => exact List.Perm.refl _
  | rowMajor => exact List.reverse_perm _
  | nonSpecific => exact List.mergeSort_perm _ _

/-- The index of a box of rank `n` whose coordinate along `axes[j]` is `coords[j]`, and zero
along any other axis. -/
def alongAxes (n : Nat) (axes coords : List Nat) : List Nat :=
  (List.range n).map fun d => coords.getD (axes.idxOf d) 0

theorem loopIndices_eq_map_alongAxes (dims axes : List Nat) :
    loopIndices dims axes =
      (odometer (axes.map fun a => dims.getD a 1)).map (alongAxes dims.length axes) :=
  rfl

@[simp]
theorem length_alongAxes (n : Nat) (axes coords : List Nat) :
    (alongAxes n axes coords).length = n := by
  simp [alongAxes]

theorem getD_alongAxes {n d : Nat} {axes coords : List Nat} (below : d < n) :
    (alongAxes n axes coords).getD d 0 = coords.getD (axes.idxOf d) 0 := by
  simp [alongAxes, below]

/-- A weighted index is the sum over the axes of coordinate times stride. -/
theorem weighted_eq_sum : ∀ {index : List Nat} {strides : List Int},
    index.length = strides.length →
      Extent.weighted index strides =
        ∑ d ∈ Finset.range index.length, (index.getD d 0 : Int) * strides.getD d 0
  | [], _, _ => by simp
  | _ :: _, [], lengths => by simp at lengths
  | i :: index, s :: strides, lengths => by
    rw [weighted_cons_cons, List.length_cons, Finset.sum_range_succ',
      weighted_eq_sum (by simpa using lengths)]
    simp [add_comm]

/-- An index is in the box exactly when it has the box's rank and each coordinate is below its
extent. -/
theorem inBox_iff_getD {dims index : List Nat} :
    InBox dims index ↔ index.length = dims.length ∧ ∀ d < dims.length, index.getD d 0 < dims.getD d 1 := by
  rw [InBox, List.forall₂_iff_get]
  simp only [List.get_eq_getElem]
  constructor
  · rintro ⟨lengths, below⟩
    refine ⟨lengths, fun d inside => ?_⟩
    rw [List.getD_eq_getElem _ _ (lengths ▸ inside), List.getD_eq_getElem _ _ inside]
    exact below d (lengths ▸ inside) inside
  · rintro ⟨lengths, below⟩
    refine ⟨lengths, fun d inIndex inDims => ?_⟩
    have bound := below d inDims
    rwa [List.getD_eq_getElem _ _ inIndex, List.getD_eq_getElem _ _ inDims] at bound

theorem getD_map_of_lt {α β : Type} {l : List α} (f : α → β) {j : Nat} (below : j < l.length)
    (fallback : β) : (l.map f).getD j fallback = f l[j] := by
  rw [List.getD_eq_getElem _ _ (by simpa using below), List.getElem_map]

section Permutation

variable {n : Nat} {axes : List Nat}

theorem lt_of_mem_perm (perm : axes.Perm (List.range n)) {a : Nat} (mem : a ∈ axes) : a < n :=
  List.mem_range.mp (perm.mem_iff.mp mem)

theorem mem_of_lt_perm (perm : axes.Perm (List.range n)) {a : Nat} (below : a < n) : a ∈ axes :=
  perm.mem_iff.mpr (List.mem_range.mpr below)

theorem idxOf_lt_of_perm (perm : axes.Perm (List.range n)) {d : Nat} (below : d < n) :
    axes.idxOf d < axes.length :=
  List.idxOf_lt_length_of_mem (mem_of_lt_perm perm below)

theorem getElem_lt_of_perm (perm : axes.Perm (List.range n)) {j : Nat} (below : j < axes.length) :
    axes[j] < n :=
  lt_of_mem_perm perm (List.getElem_mem below)

/-- Every axis of an order of the axes of positive extents has a positive extent. -/
theorem getD_pos_of_mem_perm {dims : List Nat} (perm : axes.Perm (List.range dims.length))
    (positive : ∀ d ∈ dims, 0 < d) {a : Nat} (mem : a ∈ axes) : 0 < dims.getD a 0 := by
  have below := lt_of_mem_perm perm mem
  rw [List.getD_eq_getElem _ _ below]
  exact positive _ (List.getElem_mem below)

/-- Along each axis of the order, an index put back in axis order has the coordinate given
for that axis. -/
theorem getD_alongAxes_axis (perm : axes.Perm (List.range n)) {coords : List Nat} {j : Nat}
    (below : j < axes.length) :
    (alongAxes n axes coords).getD axes[j] 0 = coords.getD j 0 := by
  rw [getD_alongAxes (getElem_lt_of_perm perm below),
    List.Nodup.idxOf_getElem (perm.nodup_iff.mpr List.nodup_range)]

/-- An index put back in axis order lies at its coordinates weighted by the permuted strides:
the sum over the axes of the box is the sum over the loops, reindexed by the order. -/
theorem position_alongAxes (perm : axes.Perm (List.range n)) {coords : List Nat}
    (coordsLength : coords.length = n) (offset : Int) {strides : List Int}
    (stridesLength : strides.length = n) :
    position offset strides (alongAxes n axes coords) =
      position offset (axes.map fun a => strides.getD a 0) coords := by
  have axesLength : axes.length = n := by simpa using perm.length_eq
  have nodup : axes.Nodup := perm.nodup_iff.mpr List.nodup_range
  unfold position
  congr 1
  rw [weighted_eq_sum (by simp [stridesLength]),
    weighted_eq_sum (by simp [coordsLength, axesLength]), length_alongAxes, coordsLength]
  apply Finset.sum_nbij' (fun d => axes.idxOf d) (fun j => axes.getD j 0)
  · intro d mem
    rw [Finset.mem_range] at mem ⊢
    exact axesLength ▸ idxOf_lt_of_perm perm mem
  · intro j mem
    rw [Finset.mem_range] at mem ⊢
    rw [List.getD_eq_getElem _ _ (axesLength ▸ mem)]
    exact getElem_lt_of_perm perm (axesLength ▸ mem)
  · intro d mem
    have found := idxOf_lt_of_perm perm (Finset.mem_range.mp mem)
    rw [List.getD_eq_getElem _ _ found, List.getElem_idxOf found]
  · intro j mem
    have below : j < axes.length := axesLength ▸ Finset.mem_range.mp mem
    rw [List.getD_eq_getElem _ _ below, nodup.idxOf_getElem]
  · intro d mem
    have found := idxOf_lt_of_perm perm (Finset.mem_range.mp mem)
    have stride : (axes.map fun a => strides.getD a 0).getD (axes.idxOf d) 0 =
        strides.getD d 0 := by
      rw [List.getD_eq_getElem _ _ (by simpa using found), List.getElem_map,
        List.getElem_idxOf found]
    rw [getD_alongAxes (Finset.mem_range.mp mem), stride]

/-- Enumerating a box in a loop order lists exactly the indices of the box. -/
theorem mem_loopIndices {dims axes : List Nat} (perm : axes.Perm (List.range dims.length))
    {index : List Nat} : index ∈ loopIndices dims axes ↔ InBox dims index := by
  have axesLength : axes.length = dims.length := by simpa using perm.length_eq
  rw [loopIndices_eq_map_alongAxes, List.mem_map]
  constructor
  · rintro ⟨coords, mem, rfl⟩
    rw [mem_odometer, inBox_iff_getD, List.length_map] at mem
    rw [inBox_iff_getD]
    refine ⟨length_alongAxes _ _ _, fun d below => ?_⟩
    have found := idxOf_lt_of_perm perm below
    have bound := mem.2 (axes.idxOf d) found
    rwa [getD_map_of_lt _ found, List.getElem_idxOf found, ← getD_alongAxes below] at bound
  · intro inBox
    rw [inBox_iff_getD] at inBox
    refine ⟨axes.map fun a => index.getD a 0, ?_, ?_⟩
    · rw [mem_odometer, inBox_iff_getD, List.length_map, List.length_map]
      refine ⟨rfl, fun j below => ?_⟩
      rw [getD_map_of_lt _ below, getD_map_of_lt _ below]
      exact inBox.2 _ (axesLength ▸ getElem_lt_of_perm perm below)
    · apply List.ext_getElem (by simp [inBox.1])
      intro d inAlong inIndex
      have below : d < dims.length := by simpa using inAlong
      have found := idxOf_lt_of_perm perm below
      rw [← List.getD_eq_getElem _ 0 inAlong, getD_alongAxes below, getD_map_of_lt _ found,
        List.getElem_idxOf found, List.getD_eq_getElem _ _ inIndex]

/-- Enumerating a box in a loop order lists no index twice. -/
theorem nodup_loopIndices {dims axes : List Nat} (perm : axes.Perm (List.range dims.length)) :
    (loopIndices dims axes).Nodup := by
  rw [loopIndices_eq_map_alongAxes]
  refine (nodup_odometer _).map_on fun coords mem coords' mem' same => ?_
  have length := length_odometer_mem mem
  have length' := length_odometer_mem mem'
  rw [List.length_map] at length length'
  apply List.ext_getElem (length.trans length'.symm)
  intro j below below'
  have inAxes : j < axes.length := length ▸ below
  have readBack : (alongAxes dims.length axes coords).getD axes[j] 0 = coords.getD j 0 :=
    getD_alongAxes_axis perm inAxes
  rw [same, getD_alongAxes_axis perm inAxes, List.getD_eq_getElem _ _ below,
    List.getD_eq_getElem _ _ below'] at readBack
  exact readBack.symm

end Permutation

end Traversal

end StridedGrid
