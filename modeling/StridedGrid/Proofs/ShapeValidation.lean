import Mathlib
import StridedGrid.Proofs.DenseStrides
import StridedGrid.Service.Serde

/-!
# Validating shapes

`Shape.ofDims` checks a list of extents as the library does: it refuses a zero extent, then
multiplies the extents in from the first as unsigned words, stopping at the first product that
overflows, and refuses a product beyond the greatest signed word. With every extent at least one
no partial product exceeds the whole, so the check refuses exactly the lists whose exact product
is too large, wherever the large extent sits (`Shape.accepts_iff`).

For a valid shape every product the library later forms from its extents is such a partial
product, so none of them overflows: the element count, whose running products are the prefix
products, and the dense column-major and row-major strides, which are the prefix and suffix
products (`Layout.denseStridesFrom_eq`). A shape is written as the array of its extents and read
back through the same check, so the arrays that read as shapes are exactly the valid lists.
-/

namespace StridedGrid

namespace Extent

/-- A prefix of positive extents has no more cells than the whole list. -/
theorem count_take_le {dims : List Nat} (positive : ∀ d ∈ dims, 0 < d) (k : Nat) :
    count (dims.take k) ≤ count dims := by
  have split : count (dims.take k) * count (dims.drop k) = count dims :=
    List.prod_take_mul_prod_drop dims k
  have rest : 0 < count (dims.drop k) :=
    count_pos _ fun d mem => positive d (List.mem_of_mem_drop mem)
  calc count (dims.take k) ≤ count (dims.take k) * count (dims.drop k) :=
        Nat.le_mul_of_pos_right _ rest
    _ = count dims := split

theorem count_reverse (dims : List Nat) : count dims.reverse = count dims :=
  List.prod_reverse dims

end Extent

namespace Layout

/-- From a positive starting stride, the checked dense strides of positive extents whose total
span is a signed word are the starting stride times the plain prefix products: every product
formed is at most the total span, so none overflows. -/
theorem denseStridesFrom_eq :
    ∀ (dims : List Nat) (acc : Nat), 0 < acc → (∀ d ∈ dims, 0 < d) →
      acc * Extent.count dims ≤ Word.signedMax.toNat →
      denseStridesFrom acc dims = .ok ((Shape.columnStrides dims).map fun s => ((acc * s : Nat) : Int))
  | [], _, _, _, _ => by simp [denseStridesFrom, Shape.columnStrides]
  | [_], _, _, _, _ => by simp [denseStridesFrom, Shape.columnStrides]
  | d :: e :: rest, acc, positiveAcc, positive, bounded => by
    have restPositive : ∀ x ∈ e :: rest, 0 < x := fun x mem => positive x (by simp [mem])
    have restCount := Extent.count_pos _ restPositive
    rw [Extent.count_cons, ← Nat.mul_assoc] at bounded
    have stride : acc * d ≤ Word.signedMax.toNat :=
      le_trans (Nat.le_mul_of_pos_right _ restCount) bounded
    have extent : d ≤ Word.signedMax.toNat :=
      le_trans (Nat.le_mul_of_pos_left _ positiveAcc) stride
    have wrapped : Word.wrapSigned d = d :=
      Word.wrapSigned_of_isSigned _ (Word.isSigned_of_mem (by omega) (by unfold Word.signedMax at *; omega))
    have checked : Word.signed ((acc : Int) * Word.wrapSigned d) = .ok ((acc * d : Nat) : Int) := by
      rw [wrapped, ← Nat.cast_mul]
      exact Word.signed_of_isSigned (Word.isSigned_of_mem (by omega) (by unfold Word.signedMax at *; omega))
    have tail := denseStridesFrom_eq (e :: rest) (acc * d) (Nat.mul_pos positiveAcc (positive d (by simp)))
      restPositive bounded
    rw [denseStridesFrom, checked, Outcome.ok_bind, tail, Outcome.ok_bind]
    · simp [Shape.columnStrides, Function.comp_def, Nat.mul_assoc]
    · exact List.cons_ne_nil e rest

end Layout

namespace Shape

variable (s : Shape)

theorem positive : ∀ d ∈ s.dims, 0 < d := s.valid.1

theorem count_le_signedMax : Extent.count s.dims ≤ Word.signedMax.toNat := s.valid.2

/-- The checked column-major strides of a shape never overflow: they are its plain ones. -/
theorem colMajorStrides_checked : Layout.colMajorStrides s.dims = .ok s.colMajorStrides := by
  have dense := Layout.denseStridesFrom_eq s.dims 1 Nat.one_pos s.positive
    (by rw [Nat.one_mul]; exact s.count_le_signedMax)
  rw [Nat.cast_one] at dense
  rw [Layout.colMajorStrides, dense, colMajorStrides_eq]
  simp

theorem rowMajorStrides_eq : s.rowMajorStrides = ((columnStrides s.dims.reverse).map Int.ofNat).reverse := by
  rw [rowMajorStrides, scanl_mul_dropLast]
  simp only [Nat.one_mul, List.map_id']

/-- The checked row-major strides of a shape never overflow: they are its plain ones. -/
theorem rowMajorStrides_checked : Layout.rowMajorStrides s.dims = .ok s.rowMajorStrides := by
  have reversed : ∀ d ∈ s.dims.reverse, 0 < d := fun d mem => s.positive d (List.mem_reverse.mp mem)
  have dense := Layout.denseStridesFrom_eq s.dims.reverse 1 Nat.one_pos reversed
    (by rw [Nat.one_mul, Extent.count_reverse]; exact s.count_le_signedMax)
  rw [Nat.cast_one] at dense
  rw [Layout.rowMajorStrides, dense, rowMajorStrides_eq]
  simp

/-- The column-major stride of an axis is the product of the extents before it. -/
theorem getElem?_colMajorStrides {k : Nat} (below : k < s.rank) :
    s.colMajorStrides[k]? = some (Extent.count (s.dims.take k) : Int) := by
  have inStrides : k < (columnStrides s.dims).length := by
    rw [length_columnStrides]; exact below
  rw [colMajorStrides_eq, List.getElem?_map, List.getElem?_eq_getElem inStrides,
    getElem_columnStrides]
  rfl

/-- The row-major stride of an axis is the product of the extents after it. -/
theorem getElem?_rowMajorStrides {k : Nat} (below : k < s.rank) :
    s.rowMajorStrides[k]? = some (Extent.count (s.dims.drop (k + 1)) : Int) := by
  have lengthRev : ((columnStrides s.dims.reverse).map Int.ofNat).length = s.rank := by
    rw [List.length_map, length_columnStrides, List.length_reverse]; rfl
  have inStrides : s.rank - 1 - k < (columnStrides s.dims.reverse).length := by
    rw [length_columnStrides, List.length_reverse]; unfold rank at below ⊢; omega
  have suffix : s.dims.reverse.take (s.rank - 1 - k) = (s.dims.drop (k + 1)).reverse := by
    rw [List.take_reverse]
    congr 2
    unfold rank at below ⊢
    omega
  rw [rowMajorStrides_eq, List.getElem?_reverse (by rw [lengthRev]; exact below), lengthRev,
    List.getElem?_map, List.getElem?_eq_getElem inStrides, getElem_columnStrides, suffix,
    List.prod_reverse]
  rfl

end Shape

namespace Json

theorem listOf_usize_ofNats (dims : List Nat) : listOf? usize? (ofNats dims) = some dims := by
  induction dims with
  | nil => rfl
  | cons d rest ih =>
    simp only [listOf?, ofNats, List.map_cons, List.mapM_cons] at ih ⊢
    rw [ih]
    rfl

/-- The array of a list of extents reads as the shape the check makes of the list, if any. -/
theorem shape?_ofNats (dims : List Nat) : shape? (ofNats dims) = (Shape.ofDims dims).toOption := by
  rw [shape?, listOf_usize_ofNats, Option.bind_some]

end Json

namespace Shape

theorem ofDims_dims (s : Shape) : ofDims s.dims = .ok s :=
  (ofDims_ok_iff s.dims s).mpr ⟨s.valid, rfl⟩

theorem ofDims_of_not_valid {dims : List Nat} (invalid : ¬ShapeValid dims) :
    ofDims dims = .error (.invalidShape dims) := by
  unfold ofDims
  rw [dif_neg (fun accepted => invalid ((accepts_iff dims).mp accepted))]

theorem nonscalar_ok_iff (dims : List Nat) (s : Shape) :
    nonscalar dims = .ok s ↔ dims ≠ [] ∧ ShapeValid dims ∧ s.dims = dims := by
  unfold nonscalar
  by_cases empty : dims = []
  · subst empty
    simp
  · simp [empty, ofDims_ok_iff]

theorem nonscalar_of_not {dims : List Nat} (refused : ¬(dims ≠ [] ∧ ShapeValid dims)) :
    nonscalar dims = .error (.invalidShape dims) := by
  unfold nonscalar
  by_cases empty : dims = []
  · simp [empty]
  · have invalid : ¬ShapeValid dims := fun valid => refused ⟨empty, valid⟩
    simp [empty, ofDims_of_not_valid invalid]

end Shape

/-- Shape validation is exact: a list of extents is a shape exactly when every extent is at least
one and their product is a signed word. A valid shape's prefix products and dense strides are
signed words, and a shape reads back from the array of its extents. -/
theorem shape_validation_exact (dims : List Nat) :
    ((∃ s, Shape.ofDims dims = .ok s) ↔
      (∀ d ∈ dims, 1 ≤ d) ∧ (Extent.count dims : Int) ≤ Word.signedMax) ∧
    (¬((∀ d ∈ dims, 1 ≤ d) ∧ (Extent.count dims : Int) ≤ Word.signedMax) →
      Shape.ofDims dims = .error (.invalidShape dims)) ∧
    ((∃ s, Shape.nonscalar dims = .ok s) ↔
      dims ≠ [] ∧ (∀ d ∈ dims, 1 ≤ d) ∧ (Extent.count dims : Int) ≤ Word.signedMax) ∧
    (¬(dims ≠ [] ∧ (∀ d ∈ dims, 1 ≤ d) ∧ (Extent.count dims : Int) ≤ Word.signedMax) →
      Shape.nonscalar dims = .error (.invalidShape dims)) ∧
    (∀ s, Shape.ofDims dims = .ok s →
      s.dims = dims ∧ s.len = Extent.count dims ∧
      (∀ k, (Extent.count (dims.take k) : Int) ≤ Word.signedMax) ∧
      (∀ k < dims.length, dims[k]? = some (s.dim k)) ∧ (∀ k, dims.length ≤ k → s.dim k = 1) ∧
      Layout.colMajorStrides dims = .ok s.colMajorStrides ∧
      Layout.rowMajorStrides dims = .ok s.rowMajorStrides ∧
      (∀ k < dims.length, s.colMajorStrides[k]? = some (Extent.count (dims.take k) : Int) ∧
        s.rowMajorStrides[k]? = some (Extent.count (dims.drop (k + 1)) : Int)) ∧
      Json.shape? (Json.ofShape s) = some s) ∧
    ((Json.shape? (Json.ofNats dims)).isSome ↔
      (∀ d ∈ dims, 1 ≤ d) ∧ (Extent.count dims : Int) ≤ Word.signedMax) := by
  have valid_iff : ShapeValid dims ↔
      (∀ d ∈ dims, 1 ≤ d) ∧ (Extent.count dims : Int) ≤ Word.signedMax := by
    unfold ShapeValid
    refine and_congr (by simp only [Nat.one_le_iff_ne_zero, Nat.pos_iff_ne_zero]) ?_
    unfold Word.signedMax
    omega
  have ofDims_ok : (∃ s, Shape.ofDims dims = .ok s) ↔ ShapeValid dims := by
    constructor
    · rintro ⟨s, made⟩
      exact ((Shape.ofDims_ok_iff dims s).mp made).1
    · intro valid
      exact ⟨⟨dims, valid⟩, (Shape.ofDims_ok_iff dims _).mpr ⟨valid, rfl⟩⟩
  refine ⟨ofDims_ok.trans valid_iff, fun invalid => Shape.ofDims_of_not_valid (mt valid_iff.mp invalid),
    ?_, fun refused => Shape.nonscalar_of_not (fun ⟨full, valid⟩ => refused ⟨full, valid_iff.mp valid⟩),
    fun s made => ?_, ?_⟩
  · constructor
    · rintro ⟨s, made⟩
      obtain ⟨full, valid, -⟩ := (Shape.nonscalar_ok_iff dims s).mp made
      exact ⟨full, valid_iff.mp valid⟩
    · rintro ⟨full, valid⟩
      exact ⟨⟨dims, valid_iff.mpr valid⟩,
        (Shape.nonscalar_ok_iff dims _).mpr ⟨full, valid_iff.mpr valid, rfl⟩⟩
  · obtain ⟨-, rfl⟩ := (Shape.ofDims_ok_iff dims s).mp made
    refine ⟨rfl, rfl, fun k => ?_, fun k below => ?_, fun k beyond => ?_,
      s.colMajorStrides_checked, s.rowMajorStrides_checked,
      fun k below => ⟨s.getElem?_colMajorStrides below, s.getElem?_rowMajorStrides below⟩, ?_⟩
    · have front := Extent.count_take_le s.positive k
      have whole := s.len_le_signedMax
      unfold Shape.len at whole
      omega
    · simp [Shape.dim, List.getD_eq_getElem?_getD, List.getElem?_eq_getElem below]
    · simp [Shape.dim, List.getD_eq_getElem?_getD, List.getElem?_eq_none beyond]
    · rw [Json.ofShape, Json.shape?_ofNats, s.ofDims_dims]
      rfl
  · rw [Json.shape?_ofNats, ← valid_iff, ← ofDims_ok]
    cases Shape.ofDims dims with
    | error e => simp [Except.toOption]
    | ok s => simp [Except.toOption]

/-- Extents with a zero among them are refused as an invalid shape. -/
theorem shape_validation_exact_zero_extent :
    ¬((∀ d ∈ [3, 0], 1 ≤ d) ∧ (Extent.count [3, 0] : Int) ≤ Word.signedMax) ∧
      Shape.ofDims [3, 0] = .error (.invalidShape [3, 0]) := by
  have invalid : ¬((∀ d ∈ [3, 0], 1 ≤ d) ∧ (Extent.count [3, 0] : Int) ≤ Word.signedMax) := by
    decide
  exact ⟨invalid, (shape_validation_exact [3, 0]).2.1 invalid⟩

end StridedGrid
