import Mathlib
import StridedGrid.Proofs.Listing
import StridedGrid.Kernel.Copy

/-!
# Contiguous arrays and flattening

An array is contiguous when its buffer already is its column-major listing. `Grid.isContiguous`
tests it without walking: a flat array is, a nested one is not, and a strided one is when its
offset is zero, its buffer is as long as the array, and its strides are the dense column-major
strides on every axis wider than one (`Grid.denseColumnMajor`, which also asks the storage order
to be column-major). The axes of extent one are skipped: their coordinate is always zero, so
their strides never move a position.

That test is exact (`isContiguous_strided_iff`): it holds exactly when every index sits at its
column-major number. The order check adds nothing, since dense strides nest as column-major
(`go_classifyOrder`). So `flatten` hands out the buffer itself exactly when that is the listing,
and copies it out otherwise (`flatten_shares_iff_contiguous`).
-/

namespace StridedGrid

open Traversal

namespace Traversal

theorem columnNumber_replicate_zero : ∀ (dims : List Nat) (n : Nat),
    columnNumber dims (List.replicate n 0) = 0
  | [], _ => rfl
  | _ :: _, 0 => rfl
  | d :: dims, n + 1 => by
    simp [List.replicate_succ, columnNumber_replicate_zero dims n]

end Traversal

namespace Layout

@[simp]
theorem activeAxes_cons_cons (d : Nat) (dims : List Nat) (s : Int) (strides : List Int) :
    activeAxes (d :: dims) (s :: strides) =
      if 1 < d then (d, s.natAbs) :: activeAxes dims strides else activeAxes dims strides := by
  unfold activeAxes
  by_cases wide : 1 < d <;> simp [wide]

end Layout

namespace Grid

variable {α : Type}

/-- Dense column-major strides from `expected` on: the weighted sum of every index of the box is
`expected` times its column-major number. -/
theorem go_iff : ∀ {dims : List Nat} {strides : List Int} (expected : Int),
    (∀ d ∈ dims, 0 < d) → dims.length = strides.length →
    (denseColumnMajor.go expected (dims.zip strides) = true ↔
      ∀ index, InBox dims index → Extent.weighted index strides = expected * columnNumber dims index)
  | [], [], expected, _, _ => by
    simp [denseColumnMajor.go, columnNumber]
  | d :: dims, s :: strides, expected, positive, lengths => by
    have restPositive : ∀ e ∈ dims, 0 < e := fun e mem => positive e (by simp [mem])
    have restLengths : dims.length = strides.length := by simpa using lengths
    have zeros := zeros_inBox restPositive
    simp only [List.zip_cons_cons, denseColumnMajor.go]
    by_cases wide : d ≤ 1
    · have one : d = 1 := by have := positive d (by simp); omega
      subst one
      rw [if_pos wide, go_iff expected restPositive restLengths]
      constructor
      · intro rest index inBox
        rcases index with _ | ⟨i, outer⟩
        · exact absurd inBox inBox_cons_nil
        rcases inBox_cons_cons.mp inBox with ⟨below, inRest⟩
        obtain rfl : i = 0 := by omega
        simp [rest outer inRest]
      · intro whole outer inRest
        simpa using whole (0 :: outer) (inBox_cons_cons.mpr ⟨by omega, inRest⟩)
    · rw [if_neg wide, Bool.and_eq_true, beq_iff_eq, go_iff (expected * d) restPositive restLengths]
      constructor
      · rintro ⟨rfl, rest⟩ index inBox
        rcases index with _ | ⟨i, outer⟩
        · exact absurd inBox inBox_cons_nil
        rcases inBox_cons_cons.mp inBox with ⟨_, inRest⟩
        simp only [weighted_cons_cons, rest outer inRest, columnNumber_cons_cons]
        push_cast
        ring
      · intro whole
        have first := whole (1 :: List.replicate dims.length 0)
          (inBox_cons_cons.mpr ⟨by omega, zeros⟩)
        simp only [weighted_cons_cons, weighted_replicate_zero, columnNumber_cons_cons,
          columnNumber_replicate_zero] at first
        refine ⟨by simpa using first, ?_⟩
        intro outer inRest
        have along := whole (0 :: outer) (inBox_cons_cons.mpr ⟨by omega, inRest⟩)
        simp only [weighted_cons_cons, columnNumber_cons_cons] at along
        push_cast at along
        linarith

/-- Dense column-major strides from a positive `expected` on, over extents whose product times
`expected` is an unsigned word, nest as column-major: no axis wider than one has stride zero, each
such axis's span is the next one's stride, and the first one's stride is `expected`. -/
theorem go_nests : ∀ {dims : List Nat} {strides : List Int} {expected : Int},
    0 < expected → (∀ d ∈ dims, 0 < d) → expected * Extent.count dims < Word.unsignedCount →
    denseColumnMajor.go expected (dims.zip strides) = true →
    (∀ a ∈ Layout.activeAxes dims strides, a.2 ≠ 0) ∧
      Layout.chainNests (Layout.activeAxes dims strides) = true ∧
      ∀ a ∈ (Layout.activeAxes dims strides).head?, (a.2 : Int) = expected
  | [], _, _, _, _, _, _ => by simp [Layout.activeAxes, Layout.chainNests]
  | _ :: _, [], _, _, _, _, _ => by simp [Layout.activeAxes, Layout.chainNests]
  | d :: dims, s :: strides, expected, positiveExpected, positive, small, dense => by
    have restPositive : ∀ e ∈ dims, 0 < e := fun e mem => positive e (by simp [mem])
    have restCount := Extent.count_pos dims restPositive
    simp only [List.zip_cons_cons, denseColumnMajor.go] at dense
    rw [Extent.count_cons] at small
    by_cases wide : 1 < d
    · rw [if_neg (by omega), Bool.and_eq_true, beq_iff_eq] at dense
      rcases dense with ⟨rfl, rest⟩
      have restSmall : s * d * Extent.count dims < Word.unsignedCount := by
        push_cast at small
        linarith
      rcases go_nests (by positivity) restPositive restSmall rest with ⟨nonzero, chain, head⟩
      have spanSmall : s * d < Word.unsignedCount := by
        have : s * d ≤ s * d * Extent.count dims :=
          le_mul_of_one_le_right (by positivity) (by exact_mod_cast restCount)
        linarith
      rw [Layout.activeAxes_cons_cons, if_pos wide]
      refine ⟨?_, ?_, by simp [abs_of_pos positiveExpected]⟩
      · intro a mem
        rcases List.mem_cons.mp mem with rfl | later
        · simp [positiveExpected.ne']
        · exact nonzero a later
      · cases active : Layout.activeAxes dims strides with
        | nil => rfl
        | cons b rest =>
          rw [active] at chain head
          have next : (b.2 : Int) = s * d := head b (by simp)
          simp only [Layout.chainNests, chain, Bool.and_true, Layout.nestsIn, Bool.and_eq_true,
            decide_eq_true_eq]
          constructor <;> zify [Int.natAbs_of_nonneg positiveExpected.le] <;>
            simp [Word.unsignedCount] at spanSmall ⊢ <;> linarith
    · rw [if_pos (by omega)] at dense
      have one : d = 1 := by have := positive d (by simp); omega
      subst one
      rw [Layout.activeAxes_cons_cons, if_neg wide]
      exact go_nests positiveExpected restPositive (by simpa using small) dense

/-- Strides that are dense column-major from one on classify as column-major. -/
theorem go_classifyOrder {dims : List Nat} {strides : List Int} (positive : ∀ d ∈ dims, 0 < d)
    (small : Extent.count dims < Word.unsignedCount)
    (dense : denseColumnMajor.go 1 (dims.zip strides) = true) :
    Layout.classifyOrder dims strides = .columnMajor := by
  rcases go_nests one_pos positive (by simpa using small) dense with ⟨nonzero, chain, -⟩
  have noZero : ((Layout.activeAxes dims strides).any fun a => a.2 == 0) = false := by
    rw [List.any_eq_false]
    intro a mem
    simpa using nonzero a mem
  simp [Layout.classifyOrder, noZero, chain]

/-- A strided view over the extents of a shape, with one stride per axis, has dense column-major
strides exactly when every index of the box sits at its column-major number. -/
theorem denseColumnMajor_iff (shape : Shape) {strides : List Int}
    (lengths : shape.dims.length = strides.length) :
    denseColumnMajor shape.dims strides = true ↔
      ∀ index, InBox shape.dims index → Extent.weighted index strides = columnNumber shape.dims index := by
  have small : Extent.count shape.dims < Word.unsignedCount := by
    have := shape.valid.2
    unfold Word.signedMax at this
    unfold Word.unsignedCount
    omega
  have unit := go_iff 1 shape.valid.1 lengths
  simp only [one_mul] at unit
  simp only [denseColumnMajor, Bool.and_eq_true, beq_iff_eq]
  rw [← unit]
  constructor
  · exact fun ⟨dense, _⟩ => dense
  · intro dense
    exact ⟨dense, go_classifyOrder shape.valid.1 small dense⟩

/-- A strided array that fits its buffer is contiguous exactly when its offset is zero, its buffer
holds exactly its elements, and every index of the box sits at its column-major number; the
strides of its axes of extent one do not matter. -/
theorem isContiguous_strided_iff {shape : Shape} {offset : Int} {strides : List Int}
    {order : Order} {size : Nat} (fits : (⟨shape, .strided offset strides order⟩ : Grid).Fits size) :
    (⟨shape, .strided offset strides order⟩ : Grid).isContiguous size = true ↔
      offset = 0 ∧ size = shape.len ∧
        ∀ index, InBox shape.dims index →
          Traversal.position offset strides index = columnNumber shape.dims index := by
  rcases fits.walk_conditions with ⟨-, lengths, -⟩
  simp only [isContiguous, dims, len, Bool.and_eq_true, beq_iff_eq, denseColumnMajor_iff shape lengths]
  constructor
  · rintro ⟨⟨rfl, filled⟩, dense⟩
    refine ⟨rfl, filled, ?_⟩
    intro index inBox
    simp [Traversal.position, dense index inBox]
  · rintro ⟨rfl, filled, placed⟩
    refine ⟨⟨rfl, filled⟩, ?_⟩
    intro index inBox
    simpa [Traversal.position] using placed index inBox

/-- A contiguous array that fits its buffer fills it, each index at its column-major number. -/
theorem slot_of_isContiguous {g : Grid} {size : Nat} (fits : g.Fits size)
    (contiguous : g.isContiguous size = true) :
    size = g.len ∧ ∀ index, InBox g.dims index → g.slot index = columnNumber g.dims index := by
  rcases g with ⟨shape, storage⟩
  cases storage with
  | flat => exact ⟨fits, fun index _ => slot_flat shape index⟩
  | nested => simp [isContiguous] at contiguous
  | strided offset strides order =>
    rcases (isContiguous_strided_iff fits).mp contiguous with ⟨rfl, filled, placed⟩
    refine ⟨filled, ?_⟩
    intro index inBox
    simp [slot, Grid.position, dims, placed index inBox]

/-- A contiguous array has an offset and strides: it is flat or strided. -/
theorem descriptor_isSome_of_isContiguous {g : Grid} {size : Nat}
    (contiguous : g.isContiguous size = true) : g.descriptor?.isSome = true := by
  rcases g with ⟨shape, storage⟩
  cases storage with
  | flat => rfl
  | nested => simp [isContiguous] at contiguous
  | strided => rfl

/-- A contiguous array that fits its buffer reads exactly its buffer. -/
theorem listColumnMajor_of_isContiguous {g : Grid} {buffer : Array α} (fits : g.Fits buffer.size)
    (bounded : g.Bounded) (contiguous : g.isContiguous buffer.size = true) :
    g.listColumnMajor buffer = .ok buffer.toList := by
  rcases slot_of_isContiguous fits contiguous with ⟨filled, numbered⟩
  rcases fits.listColumnMajor_forall₂ bounded with ⟨xs, listed, related⟩
  have whole : List.Forall₂ (fun index x => buffer[g.slot index]? = some x) (odometer g.dims)
      buffer.toList := forall₂_odometer_toList filled numbered
  have unique : Relator.RightUnique fun index (x : α) => buffer[g.slot index]? = some x :=
    fun _ _ _ first second => Option.some.inj (first.symm.trans second)
  rw [listed, List.right_unique_forall₂' unique related whole]

/-- Flattening shares the buffer exactly when no copy is forced and the array is contiguous; a
copy first needs room for the column-major listing. Flat arrays are contiguous, nested ones never,
and a strided one exactly when its buffer holds its elements at their column-major numbers. -/
theorem flatten_shares_iff_contiguous [Element α] (g : Grid) (buffer : Array α)
    (fits : g.Fits buffer.size) (bounded : g.Bounded) :
    ∃ xs, g.listColumnMajor buffer = .ok xs ∧
      flatOver g.shape xs.length = .ok ⟨g.shape, .flat⟩ ∧
      (∀ index, InBox g.dims index →
        (⟨g.shape, .flat⟩ : Grid).get xs.toArray index = g.get buffer index) ∧
      g.toList buffer =
        (if g.HasListingRoom buffer then .ok xs else Outcome.panic .capacityOverflow) ∧
      (∀ forceCopy, g.flatten forceCopy buffer =
        if forceCopy = false ∧ g.isContiguous buffer.size = true then .ok .shared
        else if g.HasListingRoom buffer then .ok (.owned xs)
        else Outcome.panic .capacityOverflow) ∧
      (g.isContiguous buffer.size = true → buffer.toList = xs) ∧
      (g.storage = .flat → g.isContiguous buffer.size = true) ∧
      (g.storage = .nested → g.isContiguous buffer.size = false) ∧
      ∀ offset strides order, g.storage = .strided offset strides order →
        (g.isContiguous buffer.size = true ↔ offset = 0 ∧ buffer.size = g.len ∧
          ∀ index, InBox g.dims index →
            Traversal.position offset strides index = columnNumber g.dims index) := by
  rcases fits.listColumnMajor_forall₂ bounded with ⟨xs, listed, related⟩
  have copied : g.toList buffer =
      if g.HasListingRoom buffer then .ok xs else Outcome.panic .capacityOverflow := by
    rw [toList_eq_ite, listed]
  refine ⟨xs, listed, by simp [flatOver, length_of_forall₂ related, len],
    fun index inBox => get_flat_of_forall₂ fits related inBox, copied, fun forceCopy => ?_,
    fun contiguous => ?_, ?_, ?_, ?_⟩
  · by_cases shares : forceCopy = false ∧ g.isContiguous buffer.size = true
    · rcases shares with ⟨rfl, contiguous⟩
      simp [flatten, contiguous, descriptor_isSome_of_isContiguous contiguous]
    · have copies : (!forceCopy && g.isContiguous buffer.size && g.descriptor?.isSome) = false := by
        cases forceCopy <;> simp_all
      rw [flatten, if_neg (by simp [copies]), if_neg shares, copied]
      split <;> rfl
  · rw [listColumnMajor_of_isContiguous fits bounded contiguous] at listed
    exact Except.ok.inj listed
  · intro flat
    simp [isContiguous, flat]
  · intro nested
    simp [isContiguous, nested]
  · intro offset strides order strided
    rcases g with ⟨shape, storage⟩
    cases strided
    exact isContiguous_strided_iff fits

/-- A view whose axis of extent one carries an arbitrary stride is contiguous all the same, and
flattening it without a forced copy hands out its buffer. -/
theorem flatten_shares_past_unit_axis :
    let g : Grid := ⟨⟨[2, 1, 3], by decide⟩, .strided 0 [1, 99, 2] .columnMajor⟩
    g.Fits (#[0, 1, 2, 3, 4, 5] : Array Int64).size ∧ g.Bounded ∧
      g.flatten false (#[0, 1, 2, 3, 4, 5] : Array Int64) = .ok .shared := by
  intro g
  have fits : g.Fits (#[0, 1, 2, 3, 4, 5] : Array Int64).size := ⟨by decide, by rfl⟩
  have bounded : g.Bounded := by norm_num [g, Bounded, dims, sweep, Word.signedMax]
  have contiguous : g.isContiguous (#[0, 1, 2, 3, 4, 5] : Array Int64).size = true := by decide
  rcases flatten_shares_iff_contiguous g _ fits bounded with ⟨xs, -, -, -, -, flattened, -⟩
  rw [flattened false, if_pos ⟨rfl, contiguous⟩]
  exact ⟨fits, bounded, rfl⟩

/-- Flattening with a forced copy a view of `2^60` doubles that all read one cell: the copy would
take `2^63` bytes, so flattening stops with a capacity overflow. -/
theorem flatten_refuses_unreservable_copy :
    let g : Grid := ⟨⟨[1152921504606846976], by decide⟩, .strided 0 [0] .nonSpecific⟩
    g.Fits (#[0] : Array Float).size ∧ g.Bounded ∧
      g.flatten true (#[0] : Array Float) = Outcome.panic .capacityOverflow := by
  intro g
  obtain ⟨fits, bounded⟩ := zeroStride_fits_bounded (show (#[0] : Array Float).size = 1 from rfl)
  have full : ¬g.HasListingRoom (#[0] : Array Float) := by decide
  refine ⟨fits, bounded, ?_⟩
  rw [flatten, if_neg (by simp), toList_of_not_hasListingRoom full]
  rfl

end Grid

end StridedGrid
