import Mathlib
import StridedGrid.Proofs.RangeCompilation
import StridedGrid.Proofs.DenseStrides

/-!
# Slices

`Grid.slice` fixes one axis at one position and drops it. The position compiles, as a range of
one position, to itself with stride one (`compile_single_of_on_axis`); composing it with the
array's offset and the axis's stride moves the offset by `x` steps along the axis, and the
extents and strides lose the axis's entry. The law that makes this right is
`position_insertIdx`: an index of the other axes, at the moved offset, sits where the index with
`x` inserted at the axis sits in the array. Every index of the slice is so an index of the
array, which also shows that the moved offset and the checked view never overflow.

A stride of an axis of extent one is never checked against the buffer, so it is taken to be a
machine word, as the strides of every array are (`Grid.StridesSigned`).
-/

namespace StridedGrid

namespace Traversal

/-- Fixing the coordinate of one axis: the position of an index with `x` inserted at `axis` is
the position, under the other strides, of the index itself, from an offset moved by `x` steps
along the axis. -/
theorem position_insertIdx (x : Nat) :
    ∀ (axis : Nat) (offset : Int) (strides : List Int) (j : List Nat), axis ≤ j.length →
      position offset strides (j.insertIdx axis x) =
        position (offset + x * strides.getD axis 0) (strides.eraseIdx axis) j
  | 0, offset, [], j, _ => by simp [position]
  | 0, offset, s :: strides, j, _ => by
    rw [List.insertIdx_zero, position_cons_cons, List.getD_cons_zero, List.eraseIdx_cons_zero,
      position_add_offset]
  | axis + 1, offset, [], j, _ => by simp [position]
  | axis + 1, offset, s :: strides, [], within => by simp at within
  | axis + 1, offset, s :: strides, i :: j, within => by
    rw [List.insertIdx_succ_cons, position_cons_cons,
      position_insertIdx x axis offset strides j (by simpa using within), List.getD_cons_succ,
      List.eraseIdx_cons_succ, position_cons_cons]

/-- An index of the box without `axis`, with a coordinate of that axis inserted, is an index of
the whole box. -/
theorem inBox_insertIdx {x : Nat} :
    ∀ {axis : Nat} {dims j : List Nat}, InBox (dims.eraseIdx axis) j → axis < dims.length →
      x < dims.getD axis 1 → InBox dims (j.insertIdx axis x)
  | 0, d :: dims, j, inBox, _, below => by
    rw [List.eraseIdx_cons_zero] at inBox
    rw [List.insertIdx_zero, inBox_cons_cons]
    exact ⟨by simpa using below, inBox⟩
  | axis + 1, d :: dims, [], inBox, _, _ => by simp at inBox
  | axis + 1, d :: dims, i :: j, inBox, onAxis, below => by
    rw [List.eraseIdx_cons_succ, inBox_cons_cons] at inBox
    rw [List.insertIdx_succ_cons, inBox_cons_cons]
    exact ⟨inBox.1, inBox_insertIdx inBox.2 (by simpa using onAxis) (by simpa using below)⟩

theorem length_of_inBox_eraseIdx {axis : Nat} {dims j : List Nat}
    (inBox : InBox (dims.eraseIdx axis) j) (onAxis : axis < dims.length) : j.length + 1 = dims.length := by
  rw [inBox.length_eq, List.length_eraseIdx, if_pos onAxis]
  omega

end Traversal

namespace Extent

/-- Dropping an extent keeps a product of positive extents from growing. -/
theorem count_eraseIdx_le {dims : List Nat} (positive : ∀ d ∈ dims, 0 < d) (axis : Nat) :
    count (dims.eraseIdx axis) ≤ count dims := by
  rw [count_eq_prod, count_eq_prod]
  exact (List.eraseIdx_sublist dims axis).prod_le_prod' fun d mem => positive d mem

end Extent

namespace Shape

/-- The extents of a shape without one axis are a shape. -/
theorem valid_eraseIdx (s : Shape) (axis : Nat) : ShapeValid (s.dims.eraseIdx axis) :=
  ⟨fun d mem => s.valid.1 d ((List.eraseIdx_sublist _ _).subset mem),
    (Extent.count_eraseIdx_le s.valid.1 axis).trans s.valid.2⟩

/-- A dense column-major stride lies between zero and the number of elements. -/
theorem colMajorStrides_le (s : Shape) {stride : Int} (mem : stride ∈ s.colMajorStrides) :
    0 ≤ stride ∧ stride ≤ s.len := by
  rw [colMajorStrides_eq] at mem
  obtain ⟨n, member, rfl⟩ := List.mem_map.mp mem
  obtain ⟨i, below, rfl⟩ := List.mem_iff_getElem.mp member
  rw [Shape.getElem_columnStrides]
  refine ⟨Int.natCast_nonneg _, Int.ofNat_le.mpr ?_⟩
  exact (List.take_sublist i s.dims).prod_le_prod' fun d mem => s.valid.1 d mem

end Shape

namespace Grid

open Traversal

/-- The strides of a strided grid are signed words, as the machine words that hold them are.
Flat and nested grids carry no strides of their own. -/
def StridesSigned (g : Grid) : Prop :=
  match g.storage with
  | .strided _ strides _ => ∀ s ∈ strides, Word.IsSigned s
  | _ => True

instance (g : Grid) : Decidable g.StridesSigned :=
  match g with
  | ⟨_, .strided _ strides _⟩ => inferInstanceAs (Decidable (∀ s ∈ strides, Word.IsSigned s))
  | ⟨_, .flat⟩ => isTrue trivial
  | ⟨_, .nested⟩ => isTrue trivial

variable {g : Grid} {size : Nat} {offset : Int} {strides : List Int}

/-- Every stride of a grid with strides is a signed word; a flat grid's are the dense ones. -/
theorem StridesSigned.getD (words : g.StridesSigned) (addressed : g.descriptor? = some (offset, strides))
    (axis : Nat) : Word.IsSigned (strides.getD axis 0) := by
  have member : axis < strides.length → strides.getD axis 0 ∈ strides := fun inside => by
    rw [List.getD_eq_getElem _ _ inside]
    exact List.getElem_mem inside
  by_cases inside : axis < strides.length
  · rcases g with ⟨shape, storage⟩
    cases storage with
    | flat =>
      simp only [descriptor?, Option.some.injEq, Prod.mk.injEq] at addressed
      obtain ⟨rfl, rfl⟩ := addressed
      obtain ⟨low, high⟩ := shape.colMajorStrides_le (member inside)
      exact Word.isSigned_of_mem low (high.trans shape.len_le_signedMax)
    | strided o ss order =>
      simp only [descriptor?, Option.some.injEq, Prod.mk.injEq] at addressed
      obtain ⟨rfl, rfl⟩ := addressed
      exact words _ (member inside)
    | nested => simp [descriptor?] at addressed
  · rw [List.getD_eq_default _ _ (not_lt.mp inside)]
    exact Word.isSigned_of_mem le_rfl (by unfold Word.signedMax; omega)

/-- The position of a slice compiles to one position with stride one. -/
theorem compile_single_of_on_axis {d : Nat} {index : Int} (small : (d : Int) ≤ Word.signedMax)
    (inside : 0 ≤ Range.resolveEnd d index ∧ Range.resolveEnd d index < d) :
    (Range.single index).compile d = .ok ⟨(Range.resolveEnd d index).toNat, 1, 1,
      (Range.single index).compiledOn d |>.trivial⟩ := by
  have accepted : (Range.single index).compile d = .ok ((Range.single index).compiledOn d) :=
    Range.compile_eq_ok_iff.mpr ⟨small, by simp [Range.EndsOn, Range.firstOn, Range.lastOn, Range.single, inside],
      by simp [Range.Heads, Range.firstOn, Range.lastOn, Range.single],
      by simp [Range.Unnegatable, Range.firstOn, Range.lastOn, Range.single], rfl⟩
  rw [accepted]
  simp [Range.compiledOn, Range.stepOn, Range.firstOn, Range.lastOn, Range.single]

/-- A slice of a fitting flat or strided array whose strides are words, at a position on the
axis: it fits the same buffer, has the other extents, and its index `j` sits where the array's
index `j` with the position inserted at the axis does. -/
theorem slice_of_descriptor (fits : g.Fits size) (words : g.StridesSigned)
    (addressed : g.descriptor? = some (offset, strides)) {axis : Nat} {index : Int}
    (onAxis : axis < g.rank)
    (inside : 0 ≤ Range.resolveEnd (g.dims.getD axis 1) index ∧
      Range.resolveEnd (g.dims.getD axis 1) index < g.dims.getD axis 1) :
    ∃ s, g.slice size axis index = .ok s ∧ s.Fits size ∧ s.dims = g.dims.eraseIdx axis ∧
      ∀ j, InBox s.dims j →
        InBox g.dims (j.insertIdx axis (Range.resolveEnd (g.dims.getD axis 1) index).toNat) ∧
          s.position j =
            g.position (j.insertIdx axis (Range.resolveEnd (g.dims.getD axis 1) index).toNat) := by
  set d := g.dims.getD axis 1
  set x := (Range.resolveEnd d index).toNat
  have atX : (x : Int) = Range.resolveEnd d index := Int.toNat_of_nonneg inside.1
  have axisInDims : axis < g.dims.length := onAxis
  set stride := strides.getD axis 0
  obtain ⟨lengths, positions⟩ := fits.descriptor_positions addressed
  have inserted : ∀ j, InBox (g.dims.eraseIdx axis) j →
      InBox g.dims (j.insertIdx axis x) ∧
        Traversal.position (offset + x * stride) (strides.eraseIdx axis) j =
          Traversal.position offset strides (j.insertIdx axis x) := by
    intro j inBox
    have long := length_of_inBox_eraseIdx inBox axisInDims
    exact ⟨inBox_insertIdx inBox axisInDims (by omega),
      (position_insertIdx x axis offset strides j (by omega)).symm⟩
  have rest : ShapeValid (g.dims.eraseIdx axis) := g.shape.valid_eraseIdx axis
  have corner := inserted _ (zeros_inBox rest.1)
  have origin := positions _ (zeros_inBox g.shape.valid.1)
  have moved := positions _ corner.1
  rw [← corner.2] at moved
  simp only [Traversal.position, weighted_replicate_zero, add_zero] at origin moved
  have composed : (⟨x, 1, 1, (Range.single index).compiledOn d |>.trivial⟩ : Range.Compiled).compose
      offset stride = .ok (offset + x * stride, stride) := by
    have signedStride : Word.IsSigned stride := words.getD addressed axis
    rw [Range.Compiled.compose_of_mem origin.1 origin.2.2 ?low ?high, one_mul, if_pos signedStride]
    · exact moved.1
    · exact moved.2.2
  let shape : Shape := ⟨g.dims.eraseIdx axis, rest⟩
  have restLengths : shape.dims.length = (strides.eraseIdx axis).length := by
    simp [shape, List.length_eraseIdx, lengths, axisInDims]
  have accepted : Layout.validateView size shape.dims (strides.eraseIdx axis) (offset + x * stride) =
      .ok (Layout.classifyOrder shape.dims (strides.eraseIdx axis)) :=
    Layout.validateView_eq_ok_of_positions shape.extentsFit restLengths fun j inBox => by
      rw [(inserted j inBox).2]
      exact positions _ (inserted j inBox).1
  refine ⟨⟨shape, .strided (offset + x * stride) (strides.eraseIdx axis)
      (Layout.classifyOrder shape.dims (strides.eraseIdx axis))⟩, ?_,
    ⟨Word.isSigned_of_mem moved.1 moved.2.2, accepted⟩, rfl, fun j inBox => ⟨(inserted j inBox).1, ?_⟩⟩
  · have parts : g.partsFor .slice = .ok (offset, strides) := by simp [partsFor, addressed]
    simp only [slice, ge_iff_le, not_le.mpr onAxis, if_false]
    rw [compile_single_of_on_axis (getD_dims_le onAxis) inside, Outcome.ok_bind, parts,
      Outcome.ok_bind, composed, Outcome.ok_bind]
    dsimp only
    rw [(Shape.ofDims_ok_iff _ shape).mpr ⟨rest, rfl⟩, Outcome.ofExcept_ok, Outcome.ok_bind]
    unfold wrapStrided
    rw [accepted, Outcome.ok_bind]
    rfl
  · rw [position_of_descriptor addressed]
    exact (inserted j inBox).2

/-- Slicing drops one axis: it is refused for the axis, then the position, then the layout, and is
otherwise a view of the same buffer reading and writing the array with the position inserted. -/
theorem slice_drops_axis {α : Type} (g : Grid) (buffer : Array α) (fits : g.Fits buffer.size)
    (words : g.StridesSigned) (axis : Nat) (index : Int) :
    (g.slice buffer.size axis index = Outcome.reject (.invalidAxis axis g.rank) ↔
      g.rank ≤ axis) ∧
    (axis < g.rank →
      (g.slice buffer.size axis index =
          Outcome.reject (.rangeOutOfBounds index index (g.dims.getD axis 1)) ↔
        ¬(0 ≤ Range.resolveEnd (g.dims.getD axis 1) index ∧
          Range.resolveEnd (g.dims.getD axis 1) index < g.dims.getD axis 1))) ∧
    (axis < g.rank → 0 ≤ Range.resolveEnd (g.dims.getD axis 1) index →
      Range.resolveEnd (g.dims.getD axis 1) index < g.dims.getD axis 1 →
      (g.slice buffer.size axis index = Outcome.reject (.unsupportedLayout .nested .slice) ↔
        g.storage = .nested)) ∧
    (axis < g.rank → 0 ≤ Range.resolveEnd (g.dims.getD axis 1) index →
      Range.resolveEnd (g.dims.getD axis 1) index < g.dims.getD axis 1 → g.storage ≠ .nested →
      ∃ s, g.slice buffer.size axis index = .ok s ∧ s.Fits buffer.size ∧
        s.dims = g.dims.eraseIdx axis ∧ ∀ j, InBox s.dims j →
          s.get buffer j =
            g.get buffer (j.insertIdx axis (Range.resolveEnd (g.dims.getD axis 1) index).toNat) ∧
          ∀ v, s.set buffer j v =
            g.set buffer (j.insertIdx axis (Range.resolveEnd (g.dims.getD axis 1) index).toNat) v) := by
  set d := g.dims.getD axis 1
  set x := Range.resolveEnd d index
  have onAxisIff : (0 ≤ x ∧ x < d) ↔ -(d : Int) ≤ index ∧ index < d := by
    simp only [x, Range.resolveEnd]
    split <;> omega
  have sliced : axis < g.rank → 0 ≤ x → x < d → g.storage ≠ .nested →
      ∃ s, g.slice buffer.size axis index = .ok s ∧ s.Fits buffer.size ∧
        s.dims = g.dims.eraseIdx axis ∧ ∀ j, InBox s.dims j →
          InBox g.dims (j.insertIdx axis x.toNat) ∧ s.position j = g.position (j.insertIdx axis x.toNat) := by
    intro below low high unnested
    cases addressed : g.descriptor? with
    | none => exact absurd (nested_of_descriptor_eq_none addressed) unnested
    | some parts => exact slice_of_descriptor fits words addressed below ⟨low, high⟩
  have unnestedOk : axis < g.rank → 0 ≤ x → x < d → g.storage ≠ .nested →
      ∃ s, g.slice buffer.size axis index = .ok s := fun below low high unnested =>
    (sliced below low high unnested).imp fun _ found => found.1
  refine ⟨⟨fun refused => ?_, slice_of_rank_le⟩, fun below => ⟨fun refused => ?_, fun outside => ?_⟩,
    fun below low high => ⟨fun refused => ?_, slice_of_nested below (onAxisIff.mp ⟨low, high⟩)⟩,
    fun below low high unnested => ?_⟩
  · by_contra below
    rw [not_le] at below
    by_cases on : 0 ≤ x ∧ x < d
    · by_cases nested : g.storage = .nested
      · rw [slice_of_nested below (onAxisIff.mp on) nested] at refused
        cases refused
      · obtain ⟨s, found⟩ := unnestedOk below on.1 on.2 nested
        rw [found] at refused
        cases refused
    · rw [slice_of_outside below (by have := onAxisIff.not.mp on; omega)] at refused
      cases refused
  · intro on
    by_cases nested : g.storage = .nested
    · rw [slice_of_nested below (onAxisIff.mp on) nested] at refused
      cases refused
    · obtain ⟨s, found⟩ := unnestedOk below on.1 on.2 nested
      rw [found] at refused
      cases refused
  · exact slice_of_outside below (by have := onAxisIff.not.mp outside; omega)
  · by_contra unnested
    obtain ⟨s, found⟩ := unnestedOk below low high unnested
    rw [found] at refused
    cases refused
  · obtain ⟨s, found, sFits, sDims, law⟩ := sliced below low high unnested
    refine ⟨s, found, sFits, sDims, fun j inBox => ?_⟩
    obtain ⟨inArray, same⟩ := law j inBox
    exact get_set_of_position inBox inArray same

/-- The array of twelve elements read with its rows reversed, sliced at its last column: the
slice is the column of three, and its first element is the array's at row zero, column three. -/
theorem slice_drops_axis_reversed_rows :
    let g : Grid := ⟨⟨[3, 4], by decide⟩, .strided 2 [-1, 3] .columnMajor⟩
    let buffer : Array Int := #[0, 1, 2, 3, 4, 5, 6, 7, 8, 9, 10, 11]
    g.Fits buffer.size ∧ g.StridesSigned ∧
      ∃ s, g.slice buffer.size 1 (-1) = .ok s ∧ s.dims = [3] ∧ s.get buffer [0] = g.get buffer [0, 3] := by
  intro g buffer
  have fits : g.Fits buffer.size := ⟨by decide, by decide⟩
  have words : g.StridesSigned := by decide
  obtain ⟨-, -, -, sliced⟩ := slice_drops_axis g buffer fits words 1 (-1)
  obtain ⟨s, found, -, dims, law⟩ := sliced (by decide) (by decide) (by decide) (by decide)
  refine ⟨fits, words, s, found, dims, (law [0] (by rw [dims]; exact inBox_cons_cons.mpr ⟨by decide, inBox_nil_iff.mpr rfl⟩)).1⟩

end Grid


end StridedGrid
