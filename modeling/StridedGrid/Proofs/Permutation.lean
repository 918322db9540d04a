import Mathlib
import StridedGrid.Proofs.LoopOrder
import StridedGrid.Proofs.ViewAddressing
import StridedGrid.Proofs.Contiguity
import StridedGrid.Proofs.DenseStrides

/-!
# Permuted axes

`Grid.permute` reorders the axes of an array: axis `k` of the view is the array's axis `perm[k]`.
The list is checked in two steps, first its length against the rank, then its entries one after
another against the axes seen so far (`checkAxes`); the check accepts exactly the permutations
of the axes (`checkAxes_eq_ok_iff`, `perm_range_iff`) and otherwise names the first entry that is
out of range or repeats an earlier one (`checkAxes_of_first_bad`).

The identity gives the array back, whatever its layout. Any other permutation of a flat or
strided array keeps its offset and permutes its extents and strides; index `j` of the view is
then the array's index `alongAxes rank perm j`, whose coordinate along `perm[k]` is `j[k]`, and
the two lie at the same position of the buffer (`position_alongAxes`). A nested array has no
strides to permute.

Reading the axes backwards reverses the axes that move through the buffer, so the storage
order's two nesting conditions trade places (`classifyOrder_reverse`): column-major and
row-major swap, provided at least two axes move, since one moving axis is both.
-/

namespace StridedGrid

namespace Order

/-- The storage order of the same strides read with the axes in reverse. -/
def flip : Order → Order
  | .columnMajor => .rowMajor
  | .rowMajor => .columnMajor
  | .nonSpecific => .nonSpecific

end Order

namespace Layout

/-- Two moving axes cannot each nest in the other: a chain that nests both forwards and
backwards has at most one axis. -/
theorem length_le_one_of_chainNests {active : List (Nat × Nat)}
    (moving : ∀ a ∈ active, 1 < a.1 ∧ 0 < a.2) (forward : chainNests active = true)
    (backward : chainNests active.reverse = true) : active.length ≤ 1 := by
  rcases active with _ | ⟨a, _ | ⟨b, rest⟩⟩
  · simp
  · simp
  · exfalso
    rw [chainNests, Bool.and_eq_true] at forward
    rw [chainNests_iff_isChain, List.isChain_reverse, List.isChain_cons_cons] at backward
    have inner := forward.1
    have outer := backward.1
    simp only [nestsIn, Bool.and_eq_true, decide_eq_true_eq] at inner outer
    obtain ⟨wideA, movesA⟩ := moving a (by simp)
    obtain ⟨wideB, movesB⟩ := moving b (by simp)
    have aDoubled : a.2 * 2 ≤ b.2 := le_trans (Nat.mul_le_mul_left _ wideA) inner.2
    have bDoubled : b.2 * 2 ≤ a.2 := le_trans (Nat.mul_le_mul_left _ wideB) outer.2
    omega

/-- The moving axes, as many as the extents above one. -/
theorem length_activeAxes : ∀ {dims : List Nat} {strides : List Int},
    dims.length = strides.length →
      (activeAxes dims strides).length = (dims.filter (1 < ·)).length
  | [], [], _ => rfl
  | [], _ :: _, lengths => by simp at lengths
  | _ :: _, [], lengths => by simp at lengths
  | d :: dims, s :: strides, lengths => by
    have rest : (activeAxes dims strides).length = (dims.filter (1 < ·)).length :=
      length_activeAxes (by simpa using lengths)
    by_cases wide : 1 < d <;> simp_all [activeAxes]

/-- Read backwards, strides of at least two moving axes swap column-major and row-major. -/
theorem classifyOrder_reverse {dims : List Nat} {strides : List Int}
    (lengths : dims.length = strides.length) (twoMoving : 2 ≤ (dims.filter (1 < ·)).length) :
    classifyOrder dims.reverse strides.reverse = (classifyOrder dims strides).flip := by
  have many : 2 ≤ (activeAxes dims strides).length := (length_activeAxes lengths).symm ▸ twoMoving
  unfold classifyOrder
  dsimp only
  rw [activeAxes_reverse lengths, List.any_reverse, List.reverse_reverse]
  by_cases zero : (activeAxes dims strides).any (fun a => a.2 == 0) = true
  · simp [zero, Order.flip]
  · have moving : ∀ a ∈ activeAxes dims strides, 1 < a.1 ∧ 0 < a.2 := by
      intro a mem
      have nonzero : a.2 ≠ 0 := fun isZero =>
        zero (List.any_eq_true.mpr ⟨a, mem, by simp [isZero]⟩)
      obtain ⟨⟨d, s⟩, kept, rfl⟩ := List.mem_map.mp mem
      exact ⟨by simpa using (List.mem_filter.mp kept).2, Nat.pos_of_ne_zero nonzero⟩
    by_cases forward : chainNests (activeAxes dims strides) = true
    · have backward : chainNests (activeAxes dims strides).reverse = false := by
        by_contra both
        have := length_le_one_of_chainNests moving forward (by simpa using both)
        omega
      simp [zero, forward, backward, Order.flip]
    · by_cases backward : chainNests (activeAxes dims strides).reverse = true
      · simp [zero, forward, backward, Order.flip]
      · simp [zero, forward, backward, Order.flip]

end Layout

namespace Grid

open Traversal

variable {g : Grid} {size : Nat} {perm : List Nat}

/-! ## Checking the axes -/

/-- The check accepts a list of distinct axes below the rank, none of them seen before. -/
theorem checkAxes_eq_ok_iff {rank : Nat} (perm : List Nat) :
    ∀ seen, checkAxes rank perm seen = .ok () ↔ (∀ p ∈ perm, p < rank ∧ p ∉ seen) ∧ perm.Nodup := by
  induction perm with
  | nil => simp [checkAxes]
  | cons p rest ih =>
    intro seen
    rw [checkAxes]
    by_cases bad : p ≥ rank ∨ p ∈ seen
    · rw [if_pos bad]
      constructor
      · intro refused
        cases refused
      · rintro ⟨allowed, -⟩
        obtain ⟨below, unseen⟩ := allowed p List.mem_cons_self
        rcases bad with big | old
        · omega
        · exact absurd old unseen
    · have allowed : p < rank ∧ p ∉ seen := ⟨by omega, fun old => bad (.inr old)⟩
      rw [if_neg bad, ih, List.nodup_cons]
      constructor
      · rintro ⟨later, distinct⟩
        refine ⟨fun q mem => ?_, fun mem => (later p mem).2 List.mem_cons_self, distinct⟩
        rcases List.mem_cons.mp mem with rfl | inRest
        · exact allowed
        · exact ⟨(later q inRest).1, fun old => (later q inRest).2 (List.mem_cons_of_mem p old)⟩
      · rintro ⟨each, fresh, distinct⟩
        refine ⟨fun q mem => ⟨(each q (List.mem_cons_of_mem p mem)).1, fun seenNow => ?_⟩, distinct⟩
        -- an entry after `p` is neither `p`, which does not repeat, nor an axis seen before
        rcases List.mem_cons.mp seenNow with rfl | old
        · exact fresh mem
        · exact (each q (List.mem_cons_of_mem p mem)).2 old

/-- A check that fails names an axis. -/
theorem checkAxes_error {rank : Nat} (perm : List Nat) :
    ∀ {seen : List Nat} {e : GridError}, checkAxes rank perm seen = .error e → ∃ p, e = .invalidAxis p rank := by
  induction perm with
  | nil => intro seen e checked; cases checked
  | cons p rest ih =>
    intro seen e checked
    rw [checkAxes] at checked
    split at checked
    · cases checked
      exact ⟨p, rfl⟩
    · exact ih checked

/-- Past entries that pass, the check goes on with them seen. -/
theorem checkAxes_append {rank : Nat} (pre : List Nat) :
    ∀ {seen rest : List Nat}, checkAxes rank pre seen = .ok () →
      checkAxes rank (pre ++ rest) seen = checkAxes rank rest (pre.reverse ++ seen) := by
  induction pre with
  | nil => intro seen rest _; rfl
  | cons p pre ih =>
    intro seen rest passed
    rw [checkAxes] at passed
    split at passed
    · cases passed
    · rename_i fine
      rw [List.cons_append, checkAxes, if_neg fine, ih passed, List.reverse_cons, List.append_assoc,
        List.singleton_append]

/-- The first entry that is out of range or repeats an earlier one is the one refused. -/
theorem checkAxes_of_first_bad {rank p : Nat} {pre rest : List Nat}
    (inRange : ∀ q ∈ pre, q < rank) (distinct : pre.Nodup) (bad : rank ≤ p ∨ p ∈ pre) :
    checkAxes rank (pre ++ p :: rest) [] = .error (.invalidAxis p rank) := by
  have passed : checkAxes rank pre [] = .ok () :=
    (checkAxes_eq_ok_iff pre []).mpr ⟨fun q mem => ⟨inRange q mem, by simp⟩, distinct⟩
  rw [checkAxes_append pre passed, checkAxes, if_pos (by simpa using bad)]

/-- A list of as many axes as the rank is a permutation of the axes exactly when its entries are
distinct axes. -/
theorem perm_range_iff {rank : Nat} (lengths : perm.length = rank) :
    perm.Perm (List.range rank) ↔ (∀ p ∈ perm, p < rank) ∧ perm.Nodup := by
  constructor
  · intro permuted
    exact ⟨fun p mem => lt_of_mem_perm permuted mem, permuted.nodup_iff.mpr List.nodup_range⟩
  · rintro ⟨inRange, distinct⟩
    exact (List.subperm_of_subset distinct fun p mem => List.mem_range.mpr (inRange p mem)).perm_of_length_le
      (by simp [lengths])

theorem checkAxes_eq_ok_iff_perm {rank : Nat} (lengths : perm.length = rank) :
    checkAxes rank perm [] = .ok () ↔ perm.Perm (List.range rank) := by
  rw [checkAxes_eq_ok_iff, perm_range_iff lengths]
  simp

/-! ## What a permutation returns -/

theorem permute_of_length_ne (mismatch : perm.length ≠ g.rank) :
    g.permute size perm = Outcome.reject (.rankMismatch perm.length g.rank) := by
  simp [permute, mismatch]

theorem permute_of_checkAxes_error (lengths : perm.length = g.rank) {e : GridError}
    (refused : checkAxes g.rank perm [] = .error e) : g.permute size perm = Outcome.reject e := by
  simp only [permute, lengths, ne_eq, not_true_eq_false, if_false, refused, Outcome.ofExcept_error,
    Outcome.reject_bind]

/-- A refusal names the first entry that is out of range or repeats an earlier one. -/
theorem permute_of_first_bad (lengths : perm.length = g.rank) {k : Nat} (below : k < perm.length)
    (inRange : ∀ q ∈ perm.take k, q < g.rank) (distinct : (perm.take k).Nodup)
    (bad : g.rank ≤ perm[k] ∨ perm[k] ∈ perm.take k) :
    g.permute size perm = Outcome.reject (.invalidAxis perm[k] g.rank) := by
  have split : perm = perm.take k ++ perm[k] :: perm.drop (k + 1) := by simp
  have refused : checkAxes g.rank (perm.take k ++ perm[k] :: perm.drop (k + 1)) [] =
      .error (.invalidAxis perm[k] g.rank) := checkAxes_of_first_bad inRange distinct bad
  rw [← split] at refused
  exact permute_of_checkAxes_error lengths refused

/-- A list of as many entries as the rank that is not a permutation of the axes is refused for an
axis. -/
theorem permute_of_not_perm_range (lengths : perm.length = g.rank)
    (notPermuted : ¬perm.Perm (List.range g.rank)) :
    ∃ axis, g.permute size perm = Outcome.reject (.invalidAxis axis g.rank) := by
  cases checked : checkAxes g.rank perm [] with
  | error e =>
    obtain ⟨axis, rfl⟩ := checkAxes_error perm checked
    exact ⟨axis, permute_of_checkAxes_error lengths checked⟩
  | ok u => exact absurd ((checkAxes_eq_ok_iff_perm lengths).mp checked) notPermuted

/-- The identity gives the array back, whatever its layout. -/
theorem permute_of_identity (identity : perm = List.range g.rank) : g.permute size perm = .ok g := by
  have checked : checkAxes g.rank perm [] = .ok () :=
    (checkAxes_eq_ok_iff_perm (by simp [identity])).mpr (identity ▸ List.Perm.refl _)
  simp only [permute, identity, List.length_range, ne_eq, not_true_eq_false, if_false]
  rw [← identity, checked]
  simp

theorem permute_of_permutation (permuted : perm.Perm (List.range g.rank)) (moved : perm ≠ List.range g.rank) :
    g.permute size perm = (do
      let parts ← g.partsFor .permute
      let shape ← Outcome.ofExcept (Shape.ofDims (perm.map fun p => g.dims.getD p 1))
      wrapStrided size shape parts.1 (perm.map fun p => parts.2.getD p 0)) := by
  have lengths : perm.length = g.rank := by simpa using permuted.length_eq
  have checked := (checkAxes_eq_ok_iff_perm lengths).mpr permuted
  simp only [permute, lengths, ne_eq, not_true_eq_false, if_false, checked, Outcome.ofExcept_ok,
    Outcome.ok_bind, if_neg moved]

/-- A nested array has no strides to permute. -/
theorem permute_of_nested (permuted : perm.Perm (List.range g.rank)) (moved : perm ≠ List.range g.rank)
    (nested : g.storage = .nested) :
    g.permute size perm = Outcome.reject (.unsupportedLayout .nested .permute) := by
  have refused : g.partsFor .permute = Outcome.reject (.unsupportedLayout .nested .permute) := by
    simp [partsFor, descriptor?, layout, nested]
  rw [permute_of_permutation permuted moved, refused, Outcome.reject_bind]

/-- An index of the box of the permuted extents, put back in axis order, is an index of the box. -/
theorem inBox_alongAxes {dims coords : List Nat} (permuted : perm.Perm (List.range dims.length))
    (inBox : InBox (perm.map (dims.getD · 1)) coords) : InBox dims (alongAxes dims.length perm coords) :=
  (mem_loopIndices permuted).mp (by
    rw [loopIndices_eq_map_alongAxes]
    exact List.mem_map_of_mem (mem_odometer.mpr inBox))

/-- Permuting the axes of a fitting flat or strided array keeps its offset and permutes its
extents and strides: the view fits the same buffer, and its index `j` lies where the array's
index with coordinate `j[k]` along axis `perm[k]` does. -/
theorem permute_of_descriptor {offset : Int} {strides : List Int} (fits : g.Fits size)
    (addressed : g.descriptor? = some (offset, strides)) (permuted : perm.Perm (List.range g.rank))
    (moved : perm ≠ List.range g.rank) :
    ∃ p, g.permute size perm = .ok p ∧ p.Fits size ∧ p.dims = perm.map (g.dims.getD · 1) ∧
      p.storage = .strided offset (perm.map (strides.getD · 0))
        (Layout.classifyOrder p.dims (perm.map (strides.getD · 0))) ∧
      ∀ j, InBox p.dims j → InBox g.dims (alongAxes g.rank perm j) ∧
        p.position j = g.position (alongAxes g.rank perm j) := by
  obtain ⟨lengths, positions⟩ := fits.descriptor_positions addressed
  have permLength : perm.length = g.rank := by simpa using permuted.length_eq
  have valid : ShapeValid (perm.map (g.dims.getD · 1)) := by
    refine ⟨fun d mem => ?_, ?_⟩
    · obtain ⟨a, inPerm, rfl⟩ := List.mem_map.mp mem
      have below : a < g.dims.length := lt_of_mem_perm permuted inPerm
      rw [List.getD_eq_getElem _ _ below]
      exact g.shape.valid.1 _ (List.getElem_mem below)
    · have counted : Extent.count (perm.map (g.dims.getD · 1)) = Extent.count g.dims :=
        count_map_getD_of_perm permuted
      rw [counted]
      exact g.shape.valid.2
  let shape : Shape := ⟨perm.map (g.dims.getD · 1), valid⟩
  let permStrides := perm.map (strides.getD · 0)
  have moves : ∀ j, InBox shape.dims j → InBox g.dims (alongAxes g.rank perm j) ∧
      Traversal.position offset permStrides j = Traversal.position offset strides (alongAxes g.rank perm j) := by
    intro j inBox
    have jLength : j.length = g.rank := by rw [inBox.length_eq]; simp [shape, permLength]
    exact ⟨inBox_alongAxes permuted inBox,
      (position_alongAxes permuted jLength offset lengths).symm⟩
  have accepted : Layout.validateView size shape.dims permStrides offset =
      .ok (Layout.classifyOrder shape.dims permStrides) :=
    Layout.validateView_eq_ok_of_positions shape.extentsFit (by simp [shape, permStrides]) fun j inBox => by
      rw [(moves j inBox).2]
      exact positions _ (moves j inBox).1
  refine ⟨⟨shape, .strided offset permStrides (Layout.classifyOrder shape.dims permStrides)⟩, ?_,
    ⟨(Fits.isSigned_offset fits addressed), accepted⟩, rfl, rfl, fun j inBox => ⟨(moves j inBox).1, ?_⟩⟩
  · have parts : g.partsFor .permute = .ok (offset, strides) := by simp [partsFor, addressed]
    rw [permute_of_permutation permuted moved, parts, Outcome.ok_bind,
      (Shape.ofDims_ok_iff _ shape).mpr ⟨valid, rfl⟩, Outcome.ofExcept_ok, Outcome.ok_bind]
    unfold wrapStrided
    rw [accepted, Outcome.ok_bind]
    rfl
  · rw [position_of_descriptor addressed]
    exact (moves j inBox).2

/-- A permutation that moves an axis of a fitting array that is not nested gives a view whose index
`j` lies where the array's index put back in axis order does. -/
theorem permute_of_unnested (fits : g.Fits size) (permuted : perm.Perm (List.range g.rank))
    (moved : perm ≠ List.range g.rank) (unnested : g.storage ≠ .nested) :
    ∃ p, g.permute size perm = .ok p ∧ p.Fits size ∧ p.dims = perm.map (g.dims.getD · 1) ∧
      ∀ j, InBox p.dims j → InBox g.dims (alongAxes g.rank perm j) ∧
        p.position j = g.position (alongAxes g.rank perm j) := by
  cases addressed : g.descriptor? with
  | none => exact absurd (nested_of_descriptor_eq_none addressed) unnested
  | some parts =>
    obtain ⟨p, found, pFits, pDims, -, law⟩ := permute_of_descriptor fits addressed permuted moved
    exact ⟨p, found, pFits, pDims, law⟩

/-- A permutation of the axes is never refused for an axis: it gives an array, or the nested
layout is refused. -/
theorem permute_of_perm_range (fits : g.Fits size) (permuted : perm.Perm (List.range g.rank)) :
    (∃ p, g.permute size perm = .ok p) ∨
      g.permute size perm = Outcome.reject (.unsupportedLayout .nested .permute) := by
  by_cases identity : perm = List.range g.rank
  · exact .inl ⟨g, permute_of_identity identity⟩
  · by_cases nested : g.storage = .nested
    · exact .inr (permute_of_nested permuted identity nested)
    · obtain ⟨p, found, -⟩ := permute_of_unnested fits permuted identity nested
      exact .inl ⟨p, found⟩

/-! ## Reading the axes backwards -/

/-- The storage order of a fitting flat or strided array is the order its strides classify as:
dense column-major strides are column-major, and a strided array was classified when made. -/
theorem order_of_descriptor {offset : Int} {strides : List Int} (fits : g.Fits size)
    (addressed : g.descriptor? = some (offset, strides)) :
    g.order = Layout.classifyOrder g.dims strides := by
  rcases g with ⟨shape, storage⟩
  cases storage with
  | flat =>
    simp only [descriptor?, Option.some.injEq, Prod.mk.injEq] at addressed
    obtain ⟨rfl, rfl⟩ := addressed
    have dense : denseColumnMajor shape.dims shape.colMajorStrides = true :=
      (denseColumnMajor_iff shape (by simp [Shape.length_colMajorStrides, Shape.rank])).mpr
        fun index _ => by rw [Shape.colMajorStrides_eq, weighted_columnStrides]
    simp only [denseColumnMajor, Bool.and_eq_true, beq_iff_eq] at dense
    exact dense.2.symm
  | strided o ss order =>
    simp only [descriptor?, Option.some.injEq, Prod.mk.injEq] at addressed
    obtain ⟨rfl, rfl⟩ := addressed
    exact (Layout.validateView_ok shape.extentsFit fits.1 fits.2).2.1
  | nested => simp [descriptor?] at addressed

theorem map_getD_range_reverse {β : Type} (l : List β) (fallback : β) :
    ((List.range l.length).reverse.map (l.getD · fallback)) = l.reverse := by
  rw [List.map_reverse]
  congr 1
  exact List.ext_getElem (by simp) fun i _ below => by simp [below]

/-- Reading the axes of an array with at least two extents above one backwards swaps
column-major and row-major and keeps no specific order. -/
theorem permute_reverse_order (fits : g.Fits size) (twoMoving : 2 ≤ (g.dims.filter (1 < ·)).length)
    {p : Grid} (permuted : g.permute size (List.range g.rank).reverse = .ok p) : p.order = g.order.flip := by
  have reversal := List.reverse_perm (List.range g.rank)
  have moved : (List.range g.rank).reverse ≠ List.range g.rank := fun same => by
    have short : (List.range g.rank).length ≤ 1 := length_le_one_of_eq_reverse List.nodup_range same.symm
    have atMost : (g.dims.filter (1 < ·)).length ≤ g.rank := List.length_filter_le _ _
    simp only [List.length_range] at short
    omega
  cases addressed : g.descriptor? with
  | none =>
    rw [permute_of_nested reversal moved (nested_of_descriptor_eq_none addressed)] at permuted
    cases permuted
  | some parts =>
    obtain ⟨offset, strides⟩ := parts
    obtain ⟨lengths, -⟩ := fits.descriptor_positions addressed
    obtain ⟨q, found, -, dims, storage, -⟩ := permute_of_descriptor fits addressed reversal moved
    rw [permuted, Except.ok.injEq] at found
    subst found
    have reversedDims : p.dims = g.dims.reverse := by rw [dims]; exact map_getD_range_reverse g.dims 1
    have reversedStrides : (List.range g.rank).reverse.map (strides.getD · 0) = strides.reverse := by
      have same : g.rank = strides.length := lengths.symm
      rw [same]
      exact map_getD_range_reverse strides 0
    rw [order_of_descriptor fits addressed, order, storage]
    dsimp only
    rw [reversedDims, reversedStrides, Layout.classifyOrder_reverse lengths.symm twoMoving]

/-- Permuting the axes of a fitting array: a list that is not a permutation is refused in the order
of the checks, the identity gives the array itself, and any other permutation of an unnested array
is a view of the same buffer with the axes reordered. Reversing the axes swaps column-major and
row-major. -/
theorem permute_reorders_axes {α : Type} (g : Grid) (buffer : Array α) (fits : g.Fits buffer.size)
    (perm : List Nat) :
    (g.permute buffer.size perm = Outcome.reject (.rankMismatch perm.length g.rank) ↔
      perm.length ≠ g.rank) ∧
    (perm.length = g.rank →
      ((∃ axis, g.permute buffer.size perm = Outcome.reject (.invalidAxis axis g.rank)) ↔
        ¬perm.Perm (List.range g.rank)) ∧
      ∀ k (h : k < perm.length), (∀ q ∈ perm.take k, q < g.rank) → (perm.take k).Nodup →
        (g.rank ≤ perm[k] ∨ perm[k] ∈ perm.take k) →
        g.permute buffer.size perm = Outcome.reject (.invalidAxis perm[k] g.rank)) ∧
    (perm = List.range g.rank → g.permute buffer.size perm = .ok g) ∧
    (perm.Perm (List.range g.rank) → perm ≠ List.range g.rank →
      (g.permute buffer.size perm = Outcome.reject (.unsupportedLayout .nested .permute) ↔
        g.storage = .nested) ∧
      (g.storage ≠ .nested → ∃ p, g.permute buffer.size perm = .ok p ∧ p.Fits buffer.size ∧
        p.dims = perm.map (g.dims.getD · 1) ∧ ∀ j, InBox p.dims j →
          p.get buffer j = g.get buffer (alongAxes g.rank perm j) ∧
          ∀ v, p.set buffer j v = g.set buffer (alongAxes g.rank perm j) v)) ∧
    (2 ≤ (g.dims.filter (1 < ·)).length → ∀ p,
      g.permute buffer.size (List.range g.rank).reverse = .ok p → p.order = g.order.flip) := by
  refine ⟨⟨fun refused => fun lengths => ?_, permute_of_length_ne⟩, fun lengths => ⟨⟨?_, ?_⟩,
    fun k below => permute_of_first_bad lengths below⟩, permute_of_identity,
    fun permuted moved => ⟨⟨fun refused => ?_, permute_of_nested permuted moved⟩, fun unnested => ?_⟩,
    fun twoMoving p reversed => permute_reverse_order fits twoMoving reversed⟩
  · by_cases permuted : perm.Perm (List.range g.rank)
    · rcases permute_of_perm_range fits permuted with ⟨p, found⟩ | found <;>
        rw [found] at refused <;> cases refused
    · obtain ⟨axis, found⟩ := permute_of_not_perm_range lengths permuted
      rw [found] at refused
      cases refused
  · rintro ⟨axis, refused⟩ permuted
    rcases permute_of_perm_range fits permuted with ⟨p, found⟩ | found <;>
      rw [found] at refused <;> cases refused
  · exact permute_of_not_perm_range lengths
  · by_contra unnested
    obtain ⟨p, found, -⟩ := permute_of_unnested fits permuted moved unnested
    rw [found] at refused
    cases refused
  · obtain ⟨p, found, pFits, pDims, law⟩ := permute_of_unnested fits permuted moved unnested
    refine ⟨p, found, pFits, pDims, fun j inBox => ?_⟩
    obtain ⟨inArray, same⟩ := law j inBox
    exact get_set_of_position inBox inArray same

/-- The array of twenty-four elements with its last axis moved to the front: the view's extents
are `[4, 2, 3]`, and its element at `[3, 1, 2]` is the array's at `[1, 2, 3]`. -/
theorem permute_reorders_axes_rotated :
    let g : Grid := ⟨⟨[2, 3, 4], by decide⟩, .flat⟩
    let buffer : Array Nat := (List.range 24).toArray
    g.Fits buffer.size ∧ ∃ p, g.permute buffer.size [2, 0, 1] = .ok p ∧ p.dims = [4, 2, 3] ∧
      p.get buffer [3, 1, 2] = g.get buffer [1, 2, 3] := by
  intro g buffer
  have fits : g.Fits buffer.size := rfl
  obtain ⟨-, -, -, reordered, -⟩ := permute_reorders_axes g buffer fits [2, 0, 1]
  obtain ⟨-, moved⟩ := reordered (by decide) (by decide)
  obtain ⟨p, found, -, dims, law⟩ := moved (by simp [g])
  refine ⟨fits, p, found, dims, ?_⟩
  have inBox : InBox p.dims [3, 1, 2] := by
    rw [dims]
    exact (Shape.contains_iff_inBox ⟨[4, 2, 3], by decide⟩ _).mp (by decide)
  have read := (law [3, 1, 2] inBox).1
  rwa [show alongAxes g.rank [2, 0, 1] [3, 1, 2] = [1, 2, 3] by decide] at read

end Grid

end StridedGrid
