import Mathlib
import StridedGrid.Proofs.LoopNestWalk
import StridedGrid.Proofs.Representation

/-!
# Loop nests visit every index once

Operands of one shape, each a view accepted by `validateView` over a buffer of at most `2^62`
elements, are walked by a loop nest exactly as one loop per axis would walk them
(`walk_visits_loopIndices`): every index of the box once, in the loop order of the first
operand's storage order, each operand at its position there, with no overflow.

The proof puts the three parts together: the plan succeeds and visits what one loop per axis
visits (`plan_eq_some`); one loop per axis visits the views' positions at the indices in loop
order (`calls_ofAxes_eq`); and the planned nest's positions over its box are views' positions,
so they lie in the buffers (`Faithful.within`) and the walk neither overflows nor strays
(`positions_eq`).
-/

namespace StridedGrid

namespace Traversal

/-- The index with coordinate `j` along axis `a` and zero along every other axis. -/
def single (n a j : Nat) : List Nat := (List.range n).map fun d => if d = a then j else 0

theorem single_inBox {dims : List Nat} (positive : ∀ d ∈ dims, 0 < d) {a j : Nat}
    (below : a < dims.length) (inside : j < dims.getD a 0) : InBox dims (single dims.length a j) := by
  rw [inBox_iff_getD]
  refine ⟨by simp [single], fun d inDims => ?_⟩
  have positiveHere : 0 < dims.getD d 1 := by
    rw [List.getD_eq_getElem _ _ inDims]
    exact positive _ (List.getElem_mem _)
  by_cases same : d = a
  · subst same
    simpa [single, inDims, List.getD_eq_getElem _ _ inDims] using inside
  · simpa [single, inDims, same] using positiveHere

theorem position_single {n a : Nat} (below : a < n) (offset : Int) {strides : List Int}
    (lengths : strides.length = n) (j : Nat) :
    position offset strides (single n a j) = offset + j * strides.getD a 0 := by
  unfold position
  rw [weighted_eq_sum (by simp [single, lengths])]
  simp only [single, List.length_map, List.length_range]
  rw [Finset.sum_eq_single a]
  · simp [below]
  · intro d mem other
    simp [Finset.mem_range.mp mem, other]
  · intro outside
    exact absurd (Finset.mem_range.mpr below) outside

/-- The element of an operand in the list of positions. -/
theorem getElem?_positionsAt {offsets : List Int} {strides : List (List Int)} {index : List Nat}
    {k : Nat} (inOffsets : k < offsets.length) (inStrides : k < strides.length) :
    (positionsAt offsets strides index)[k]? = some (position offsets[k] strides[k] index) := by
  simp [positionsAt, List.getElem?_zipWith, List.getElem?_eq_getElem inOffsets,
    List.getElem?_eq_getElem inStrides]

namespace LoopNest

section Views

variable {dims axes : List Nat} {operands : List (Int × List Int)}

/-- One loop per axis of a permutation of the axes visits every operand's position at each
index of the box, the indices in loop order. -/
theorem calls_ofAxes_eq (perm : axes.Perm (List.range dims.length))
    (lengths : ∀ op ∈ operands, op.2.length = dims.length) :
    (ofAxes dims operands axes).calls =
      (loopIndices dims axes).map fun index => operands.map fun op => position op.1 op.2 index := by
  have axesLength : axes.length = dims.length := by simpa using perm.length_eq
  have extents : axes.map (dims.getD · 0) = axes.map (dims.getD · 1) :=
    List.map_congr_left fun a mem => by
      have below := lt_of_mem_perm perm mem
      rw [List.getD_eq_getElem _ _ below, List.getD_eq_getElem _ _ below]
  rw [calls, loopIndices_eq_map_alongAxes, List.map_map]
  simp only [ofAxes, extents]
  refine List.map_congr_left fun coords mem => ?_
  have coordsLength : coords.length = dims.length := by
    simpa [axesLength] using length_odometer_mem mem
  simp only [Function.comp_apply, positionsAt, List.zipWith_map, List.zipWith_self]
  exact List.map_congr_left fun op member =>
    (position_alongAxes perm coordsLength op.1 (lengths op member)).symm

/-- Every operand's position at an index of the box of a nest that visits what one loop per axis
visits is its position at some index of the box of axes. -/
theorem Faithful.positions_mem {nest : LoopNest} (faithful : Faithful nest dims operands axes)
    (perm : axes.Perm (List.range dims.length))
    (lengths : ∀ op ∈ operands, op.2.length = dims.length) :
    List.Forall₂ (fun (s : List Int) (op : Int × List Int) => ∀ c, InBox nest.dims c →
      ∃ index, InBox dims index ∧ position op.1 s c = position op.1 op.2 index)
      nest.strides operands := by
  rw [List.forall₂_iff_get]
  refine ⟨faithful.operands_length, fun k inStrides inOperands c inBox => ?_⟩
  have inOffsets : k < nest.offsets.length := by simp [faithful.offsets_eq, inOperands]
  have offsetAt : nest.offsets[k] = operands[k].1 := by simp [faithful.offsets_eq]
  have visited : positionsAt nest.offsets nest.strides c ∈ nest.calls :=
    List.mem_map_of_mem (mem_odometer.mpr inBox)
  rw [faithful.calls_eq, calls_ofAxes_eq perm lengths, List.mem_map] at visited
  obtain ⟨index, member, same⟩ := visited
  have atK := congrArg (·[k]?) same
  simp only [List.getElem?_map, List.getElem?_eq_getElem inOperands,
    getElem?_positionsAt inOffsets inStrides, Option.map_some, Option.some.injEq] at atK
  refine ⟨index, (mem_loopIndices perm).mp member, ?_⟩
  simp only [List.get_eq_getElem]
  rw [← offsetAt, ← atK, offsetAt]

/-- A property of an operand's offset and nest strides holds of every operand when it follows from
what a faithful nest keeps of each: its positions over the nest's box are its positions over the
box of axes, and its strides are its strides along axes. -/
theorem Faithful.forall₂_of_positions {nest : LoopNest} {P : Int → List Int → Prop}
    (faithful : Faithful nest dims operands axes) (perm : axes.Perm (List.range dims.length))
    (lengths : ∀ op ∈ operands, op.2.length = dims.length)
    (holds : ∀ op ∈ operands, ∀ s : List Int,
      (∀ c, InBox nest.dims c → ∃ index, InBox dims index ∧ position op.1 s c = position op.1 op.2 index) →
      (∀ j, ∃ a, s.getD j 0 = op.2.getD a 0) → P op.1 s) :
    List.Forall₂ P nest.offsets nest.strides := by
  have positions := List.forall₂_iff_get.mp (faithful.positions_mem perm lengths)
  have axes := List.forall₂_iff_get.mp faithful.strides_axes
  rw [faithful.offsets_eq, List.forall₂_map_left_iff]
  apply List.Forall₂.flip
  rw [List.forall₂_iff_get]
  refine ⟨faithful.operands_length, fun k inStrides inOperands => ?_⟩
  exact holds _ (List.get_mem _ _) _ (positions.2 k inStrides inOperands) (axes.2 k inStrides inOperands)

/-- A nest that visits what one loop per axis visits keeps every operand within the bound its
view keeps: each of its positions is a position of the view. -/
theorem Faithful.within {nest : LoopNest} {bound : Nat} (faithful : Faithful nest dims operands axes)
    (perm : axes.Perm (List.range dims.length))
    (lengths : ∀ op ∈ operands, op.2.length = dims.length)
    (inside : ∀ op ∈ operands, ∀ index, InBox dims index →
      0 ≤ position op.1 op.2 index ∧ position op.1 op.2 index < bound) :
    List.Forall₂ (Within bound nest.dims) nest.offsets nest.strides := by
  refine faithful.forall₂_of_positions perm lengths fun op member s positions _ c inBox => ?_
  obtain ⟨index, inDims, same⟩ := positions c inBox
  rw [same]
  exact inside op member index inDims

/-- A view whose positions over the box lie in `[0, bound)`, for a bound of at most `2^62`,
spans a signed word along every axis wider than one. -/
theorem signed_span_of_inside {dims : List Nat} (positive : ∀ d ∈ dims, 0 < d) {bound : Nat}
    (small : bound ≤ 4611686018427387904) {offset : Int} {strides : List Int}
    (lengths : strides.length = dims.length)
    (inside : ∀ index, InBox dims index →
      0 ≤ position offset strides index ∧ position offset strides index < bound)
    {a : Nat} (below : a < dims.length) (wide : 1 < dims.getD a 0) :
    Word.IsSigned (strides.getD a 0 * dims.getD a 0) := by
  have along : Within bound [dims.getD a 0] offset [strides.getD a 0] := by
    intro index inBox
    obtain _ | ⟨j, rest⟩ := index
    · exact absurd inBox inBox_cons_nil
    obtain ⟨inRange, restInBox⟩ := inBox_cons_cons.mp inBox
    rw [inBox_nil_iff.mp restInBox]
    have atSingle := inside (single dims.length a j) (single_inBox positive below inRange)
    rw [position_single below offset lengths] at atSingle
    simpa [position] using atSingle
  simpa using along.signed_span small wide (show InBox [] [] from inBox_nil_iff.mpr rfl)

end Views

/-- Walking views accepted by `validateView` over buffers of at most `2^62` elements: planning
succeeds, and the walk visits every index of the box once in the loop order of the first
operand, handing every operand its position, with no overflow. -/
theorem walk_visits_loopIndices (shape : Shape) (order : Order) (slices : Bool)
    (operands : List (Int × List Int))
    (views : ∀ op ∈ operands, Word.IsSigned op.1 ∧ ∃ bufferLen viewOrder,
      bufferLen ≤ 4611686018427387904 ∧
        Layout.validateView bufferLen shape.dims op.2 op.1 = .ok viewOrder) :
    (∃ nest, plan shape.dims order operands = some nest ∧
      nest.calls = (ofAxes shape.dims operands
        (loopOrder shape.dims.length ((operands.head?.map Prod.snd).getD []) order)).calls) ∧
    walk shape.dims order operands slices =
      ⟨(loopIndices shape.dims
          (loopOrder shape.dims.length ((operands.head?.map Prod.snd).getD []) order)).map
        fun index => operands.map fun op => position op.1 op.2 index, false⟩ ∧
    (loopIndices shape.dims
      (loopOrder shape.dims.length ((operands.head?.map Prod.snd).getD []) order)).Nodup ∧
    ∀ index, index ∈ loopIndices shape.dims
      (loopOrder shape.dims.length ((operands.head?.map Prod.snd).getD []) order) ↔
        InBox shape.dims index := by
  have perm := loopOrder_perm shape.dims.length ((operands.head?.map Prod.snd).getD []) order
  have positive : ∀ d ∈ shape.dims, 0 < d := shape.valid.1
  have accepted : ∀ op ∈ operands, op.2.length = shape.dims.length ∧ ∀ index,
      InBox shape.dims index → 0 ≤ position op.1 op.2 index ∧
        position op.1 op.2 index < 4611686018427387904 := by
    intro op mem
    obtain ⟨signed, bufferLen, viewOrder, small, ok⟩ := views op mem
    obtain ⟨lengths, -, inside⟩ := Layout.validateView_ok shape.extentsFit signed ok
    refine ⟨lengths.symm, fun index inBox => ⟨(inside index inBox).1, ?_⟩⟩
    have := (inside index inBox).2.1
    omega
  have lengths := fun op mem => (accepted op mem).1
  obtain ⟨nest, planned, faithful⟩ := plan_eq_some order positive shape.valid.2
    fun a below wide op mem =>
      signed_span_of_inside positive le_rfl (accepted op mem).1 (accepted op mem).2 below wide
  have extents : ∀ e ∈ nest.dims, 1 < e ∧ (e : Int) ≤ Word.signedMax := by
    intro e mem
    have bounded : e ≤ nest.dims.prod :=
      Nat.le_of_dvd (List.prod_pos fun d member => by have := faithful.wide d member; omega)
        (List.dvd_prod mem)
    have fits := shape.valid.2
    rw [faithful.prod_eq, prod_map_getD_of_perm perm] at bounded
    rw [Extent.count_eq_prod] at fits
    refine ⟨faithful.wide e mem, ?_⟩
    unfold Word.signedMax at fits ⊢
    omega
  refine ⟨⟨nest, planned, faithful.calls_eq⟩, ?_, nodup_loopIndices perm,
    fun index => mem_loopIndices perm⟩
  rw [walk, planned]
  dsimp only
  rw [positions_eq le_rfl slices extents
      (faithful.within perm lengths fun op mem => (accepted op mem).2),
    faithful.calls_eq, calls_ofAxes_eq perm lengths]

/-- Two views of a shape with an axis of extent one, strides of both signs and no specific
storage order, walked as slices where they can be. -/
theorem walk_visits_loopIndices_two_views :
    (∀ op ∈ [((5 : Int), [(-1 : Int), 100, 4]), (0, [1, 7, 2])], Word.IsSigned op.1 ∧
      ∃ bufferLen viewOrder, bufferLen ≤ 4611686018427387904 ∧
        Layout.validateView bufferLen [2, 1, 3] op.2 op.1 = .ok viewOrder) ∧
    (∃ nest, plan [2, 1, 3] .nonSpecific [(5, [-1, 100, 4]), (0, [1, 7, 2])] = some nest ∧
      nest.calls = (ofAxes [2, 1, 3] [(5, [-1, 100, 4]), (0, [1, 7, 2])]
        (loopOrder 3 [-1, 100, 4] .nonSpecific)).calls) ∧
    walk [2, 1, 3] .nonSpecific [(5, [-1, 100, 4]), (0, [1, 7, 2])] true =
      ⟨(loopIndices [2, 1, 3] (loopOrder 3 [-1, 100, 4] .nonSpecific)).map fun index =>
        [(5, [-1, 100, 4]), ((0 : Int), [(1 : Int), 7, 2])].map fun op => position op.1 op.2 index,
        false⟩ ∧
    (loopIndices [2, 1, 3] (loopOrder 3 [-1, 100, 4] .nonSpecific)).Nodup ∧
    ∀ index, index ∈ loopIndices [2, 1, 3] (loopOrder 3 [-1, 100, 4] .nonSpecific) ↔
      InBox [2, 1, 3] index := by
  have views : ∀ op ∈ [((5 : Int), [(-1 : Int), 100, 4]), (0, [1, 7, 2])], Word.IsSigned op.1 ∧
      ∃ bufferLen viewOrder, bufferLen ≤ 4611686018427387904 ∧
        Layout.validateView bufferLen [2, 1, 3] op.2 op.1 = .ok viewOrder := by
    intro op mem
    simp only [List.mem_cons, List.not_mem_nil, or_false] at mem
    rcases mem with rfl | rfl
    · exact ⟨by decide, 14, _, by norm_num, rfl⟩
    · exact ⟨by decide, 6, _, by norm_num, rfl⟩
  exact ⟨views, walk_visits_loopIndices ⟨[2, 1, 3], by decide⟩ .nonSpecific true _ views⟩

end LoopNest

end Traversal

end StridedGrid
