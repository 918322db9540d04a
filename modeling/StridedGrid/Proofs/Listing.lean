import Mathlib
import StridedGrid.Proofs.LoopNestPlan
import StridedGrid.Proofs.Preservation

/-!
# Listing an array in column-major order

The column-major number of an index is `i₀ + d₀ * (i₁ + d₁ * (i₂ + …))`. It is the place of the
index in the odometer and the position of the element in a dense column-major buffer, so the
odometer and the column-major number are inverse to each other (`map_columnNumber_odometer`).

Every layout lists its elements through the odometer: a flat or nested array copies its buffer,
whose cells are already in column-major order, and a strided array walks the odometer. The walk
stays within a signed word when the view's reach, `|offset| + Σ |stride_k| * extent_k`, does
(`walkFits_of_reach_le`). Under that bound the listing holds, at the column-major number of every
index, the element the array holds there, and so do the flat and nested copies built from it
(`toList_columnMajor`).
-/

namespace StridedGrid

/-- A value no farther from zero than the greatest signed word is a signed word. -/
theorem Word.isSigned_of_abs_le {x : Int} (bound : |x| ≤ Word.signedMax) : Word.IsSigned x := by
  rw [Word.isSigned_iff]
  unfold Word.signedMax at bound
  constructor <;> linarith [abs_le.mp bound]

namespace Traversal

/-- The column-major number of an index under extents `dims`. -/
def columnNumber : List Nat → List Nat → Nat
  | d :: dims, i :: index => i + d * columnNumber dims index
  | _, _ => 0

@[simp]
theorem columnNumber_cons_cons (d i : Nat) (dims index : List Nat) :
    columnNumber (d :: dims) (i :: index) = i + d * columnNumber dims index :=
  rfl

/-- The odometer numbers its indices in column-major order. -/
theorem map_columnNumber_odometer (dims : List Nat) :
    (odometer dims).map (columnNumber dims) = List.range (Extent.count dims) := by
  induction dims with
  | nil => rfl
  | cons d rest ih =>
    rw [odometer, Extent.count_cons, range_mul, ← ih, List.flatMap_map, List.map_flatMap]
    apply List.flatMap_congr
    intro outer _
    simp [Function.comp_def]

theorem columnNumber_lt {dims index : List Nat} (inBox : InBox dims index) :
    columnNumber dims index < Extent.count dims := by
  rw [← List.mem_range, ← map_columnNumber_odometer]
  exact List.mem_map_of_mem (mem_odometer.mpr inBox)

theorem columnNumber_getElem_odometer (dims : List Nat) {k : Nat} (below : k < (odometer dims).length) :
    columnNumber dims (odometer dims)[k] = k := by
  have numbered := congrArg (·[k]?) (map_columnNumber_odometer dims)
  have inRange : k < Extent.count dims := by rwa [length_odometer] at below
  simpa [List.getElem?_eq_getElem below, inRange] using numbered

/-- The index at the column-major number of an index of the box is that index. -/
theorem getElem?_odometer_columnNumber {dims index : List Nat} (inBox : InBox dims index) :
    (odometer dims)[columnNumber dims index]? = some index := by
  rcases List.getElem_of_mem (mem_odometer.mpr inBox) with ⟨k, below, found⟩
  rw [← found, columnNumber_getElem_odometer dims below, List.getElem?_eq_getElem below]

/-- A list related to the odometer element by element holds, at the column-major number of an
index, an element related to that index. -/
theorem exists_at_columnNumber {α : Type} {R : List Nat → α → Prop} {dims index : List Nat}
    {xs : List α} (related : List.Forall₂ R (odometer dims) xs) (inBox : InBox dims index) :
    ∃ x, xs[columnNumber dims index]? = some x ∧ R index x := by
  have found := getElem?_odometer_columnNumber inBox
  have below : columnNumber dims index < (odometer dims).length :=
    (List.getElem?_eq_some_iff.mp found).1
  have belowXs : columnNumber dims index < xs.length := related.length_eq ▸ below
  refine ⟨xs[columnNumber dims index], List.getElem?_eq_getElem belowXs, ?_⟩
  have atIndex := related.get below belowXs
  simp only [List.get_eq_getElem] at atIndex
  rwa [(List.getElem?_eq_some_iff.mp found).2] at atIndex

/-- The weighted sum of an index under dense column-major strides is its column-major number. -/
theorem weighted_columnStrides (dims index : List Nat) :
    Extent.weighted index ((Shape.columnStrides dims).map Int.ofNat) = columnNumber dims index := by
  induction dims generalizing index with
  | nil => simp [Shape.columnStrides, columnNumber]
  | cons d rest ih =>
    cases index with
    | nil => simp [columnNumber]
    | cons i outer =>
      simp only [Shape.columnStrides, List.map_cons, weighted_cons_cons, Shape.weighted_map_mul,
        ih, columnNumber_cons_cons]
      push_cast
      ring

/-! ## The reach of a view -/

/-- The sum of `|stride_k| * extent_k` over the axes. -/
def sweep : List Nat → List Int → Int
  | d :: dims, s :: strides => |s| * d + sweep dims strides
  | _, _ => 0

@[simp]
theorem sweep_cons_cons (d : Nat) (dims : List Nat) (s : Int) (strides : List Int) :
    sweep (d :: dims) (s :: strides) = |s| * d + sweep dims strides :=
  rfl

theorem sweep_nonneg : ∀ (dims : List Nat) (strides : List Int), 0 ≤ sweep dims strides
  | d :: dims, s :: strides => by
    have := sweep_nonneg dims strides
    simp only [sweep_cons_cons]
    positivity
  | [], _ => le_rfl
  | _ :: _, [] => le_rfl

/-- An index of the box moves a view no farther from its offset than its sweep. -/
theorem abs_weighted_le : ∀ {dims index : List Nat} (strides : List Int), InBox dims index →
    |Extent.weighted index strides| ≤ sweep dims strides
  | [], index, strides, inBox => by
    rw [inBox_nil_iff.mp inBox]
    simpa using sweep_nonneg [] strides
  | _ :: _, [], _, inBox => absurd inBox inBox_cons_nil
  | d :: dims, i :: index, [], _ => by simp [sweep]
  | d :: dims, i :: index, s :: strides, inBox => by
    rcases inBox_cons_cons.mp inBox with ⟨below, inRest⟩
    have rest := abs_weighted_le strides inRest
    have here : |(i : Int) * s| ≤ |s| * d := by
      rw [abs_mul, Nat.abs_cast, mul_comm]
      apply mul_le_mul_of_nonneg_left _ (abs_nonneg s)
      exact_mod_cast below.le
    simp only [weighted_cons_cons, sweep_cons_cons]
    exact (abs_add_le _ _).trans (add_le_add here rest)

/-- A view whose reach `|offset| + sweep` is at most the greatest signed word is walked in
column-major order without overflow: one step past any index of the box moves along one axis
by at most its extent times its stride. -/
theorem walkFits_of_reach_le :
    ∀ {dims : List Nat} {strides : List Int} {offset : Int},
      |offset| + sweep dims strides ≤ Word.signedMax → WalkFits dims strides offset
  | [], _, _, _ => trivial
  | _ :: _, [], _, _ => trivial
  | d :: dims, s :: strides, offset, reach => by
    have restReach : |offset| + sweep dims strides ≤ Word.signedMax := by
      have : 0 ≤ |s| * d := by positivity
      simp only [sweep_cons_cons] at reach
      linarith
    refine ⟨?_, ?_, walkFits_of_reach_le restReach⟩
    · intro index mem
      rcases index with _ | ⟨i, outer⟩
      · exact absurd (mem_odometer.mp mem) inBox_cons_nil
      rcases inBox_cons_cons.mp (mem_odometer.mp mem) with ⟨below, inRest⟩
      have rest := abs_weighted_le strides inRest
      have stepped : |((i : Int) + 1) * s| ≤ |s| * d := by
        rw [abs_mul, mul_comm, abs_of_nonneg (by positivity : (0 : Int) ≤ i + 1)]
        apply mul_le_mul_of_nonneg_left _ (abs_nonneg s)
        exact_mod_cast below
      have moved : position offset (s :: strides) (i :: outer) + s =
          offset + ((i + 1) * s + Extent.weighted outer strides) := by
        simp only [position, weighted_cons_cons]
        ring
      have bound : |position offset (s :: strides) (i :: outer) + s| ≤ Word.signedMax := by
        rw [moved]
        calc |offset + (((i : Int) + 1) * s + Extent.weighted outer strides)|
            ≤ |offset| + (|((i : Int) + 1) * s| + |Extent.weighted outer strides|) :=
              (abs_add_le _ _).trans (add_le_add le_rfl (abs_add_le _ _))
          _ ≤ |offset| + sweep (d :: dims) (s :: strides) := by
              simp only [sweep_cons_cons]
              linarith
          _ ≤ Word.signedMax := reach
      exact Word.isSigned_of_abs_le bound
    · have span : |s * d| ≤ Word.signedMax := by
        have : |s * d| = |s| * d := by rw [abs_mul, Nat.abs_cast]
        have := sweep_nonneg dims strides
        simp only [sweep_cons_cons] at reach
        linarith [abs_nonneg offset]
      exact Word.isSigned_of_abs_le span

end Traversal

namespace Grid

open Traversal

variable {α : Type}

/-- A strided array whose reach is a signed word: `|offset| + Σ |stride_k| * extent_k` is at
most the greatest signed word. Flat and nested arrays are always bounded. -/
def Bounded (g : Grid) : Prop :=
  match g.storage with
  | .strided offset strides _ => |offset| + sweep g.dims strides ≤ Word.signedMax
  | _ => True

/-- The slot of an index of the box of a flat or nested grid is its column-major number. -/
theorem slot_of_dense {g : Grid} (dense : ∀ offset strides order,
      g.storage ≠ .strided offset strides order) {index : List Nat} (inBox : InBox g.dims index) :
    g.slot index = columnNumber g.dims index := by
  simp [slot, position_of_dense dense inBox, weighted_columnStrides]

theorem slot_flat (shape : Shape) (index : List Nat) :
    (⟨shape, .flat⟩ : Grid).slot index = columnNumber shape.dims index := by
  simp [slot, position_flat, weighted_columnStrides]

/-- A nested grid reads its buffer where a flat grid of its shape does: its rows lie one after
another, and both refuse an index outside the box. -/
theorem get_nested (shape : Shape) (data : Array α) (index : List Nat) :
    (⟨shape, .nested⟩ : Grid).get data index = (⟨shape, .flat⟩ : Grid).get data index := by
  by_cases inBox : InBox shape.dims index
  · have same : (⟨shape, .nested⟩ : Grid).slot index = (⟨shape, .flat⟩ : Grid).slot index := by
      rw [slot_of_dense (g := ⟨shape, .nested⟩) (by simp) inBox, slot_flat]
      rfl
    simp only [get, checkIndex, same]
  · have outside : shape.contains index = false :=
      Bool.eq_false_iff.mpr (mt (Shape.contains_iff_inBox _ _).mp inBox)
    simp [get, checkIndex, outside]

/-- A buffer filled in column-major order pairs each index of the odometer with its cell, for
any slots that are the column-major numbers of the indices. -/
theorem forall₂_odometer_toList {dims : List Nat} {buffer : Array α} {slot : List Nat → Nat}
    (filled : buffer.size = Extent.count dims)
    (numbered : ∀ index, InBox dims index → slot index = columnNumber dims index) :
    List.Forall₂ (fun index x => buffer[slot index]? = some x) (odometer dims) buffer.toList := by
  rw [List.forall₂_iff_get]
  refine ⟨by simp [length_odometer, filled], ?_⟩
  intro k below _
  simp only [List.get_eq_getElem]
  rw [numbered _ (mem_odometer.mp (List.getElem_mem below)), columnNumber_getElem_odometer dims below]
  simp

/-- Reading every element of a list where each read succeeds pairs each element with its
result. -/
theorem forall₂_filterMap {β γ : Type} {f : β → Option γ} :
    ∀ {l : List β}, (∀ b ∈ l, (f b).isSome) → List.Forall₂ (fun b x => f b = some x) l (l.filterMap f)
  | [], _ => List.Forall₂.nil
  | b :: l, each => by
    rcases Option.isSome_iff_exists.mp (each b (by simp)) with ⟨x, found⟩
    rw [List.filterMap_cons, found]
    exact List.Forall₂.cons found (forall₂_filterMap fun b' mem => each b' (by simp [mem]))

/-- A fitting, bounded array reads the cells at its indices' slots off its buffer in
column-major order of the indices. -/
theorem Fits.listColumnMajor_forall₂ {g : Grid} {buffer : Array α} (fits : g.Fits buffer.size)
    (bounded : g.Bounded) :
    ∃ xs, g.listColumnMajor buffer = .ok xs ∧
      List.Forall₂ (fun index x => buffer[g.slot index]? = some x) (odometer g.dims) xs := by
  rcases g with ⟨shape, storage⟩
  cases storage with
  | flat =>
    refine ⟨buffer.toList, rfl, ?_⟩
    exact forall₂_odometer_toList fits fun index _ => slot_flat shape index
  | nested =>
    refine ⟨buffer.toList, rfl, ?_⟩
    exact forall₂_odometer_toList fits.2 fun index inBox => slot_of_dense (by simp) inBox
  | strided offset strides order =>
    refine ⟨_, listColumnMajor_strided_of_walkFits fits (walkFits_of_reach_le bounded), ?_⟩
    apply forall₂_filterMap
    intro index mem
    simpa using fits.slot_lt (mem_odometer.mp mem)

/-- With room for its copy, a fitting, bounded array copies out the cells at its indices' slots
in column-major order of the indices. -/
theorem Fits.toList_forall₂ [Element α] {g : Grid} {buffer : Array α} (fits : g.Fits buffer.size)
    (bounded : g.Bounded) (room : g.HasListingRoom buffer) :
    ∃ xs, g.toList buffer = .ok xs ∧
      List.Forall₂ (fun index x => buffer[g.slot index]? = some x) (odometer g.dims) xs := by
  rw [toList_of_hasListingRoom room]
  exact fits.listColumnMajor_forall₂ bounded

/-! ## Nested copies -/

theorem flatten_chunks (n : Nat) (xs : List α) : (chunks n xs).flatten = xs := by
  fun_induction chunks n xs with
  | case1 => simp
  | case2 => simp
  | case3 xs _ _ _ ih => simp [ih]

/-- A list of `rows` rows of `n` elements cuts into `rows` chunks of `n`. -/
theorem chunks_rows {n : Nat} (positive : 0 < n) :
    ∀ (rows : Nat) (xs : List α), xs.length = n * rows →
      (chunks n xs).length = rows ∧ ∀ row ∈ chunks n xs, row.length = n
  | 0, xs, length => by
    have empty : xs = [] := List.eq_nil_of_length_eq_zero (by simpa using length)
    subst empty
    rw [chunks]
    simp [positive.ne']
  | rows + 1, xs, length => by
    have nonempty : xs ≠ [] := by
      intro empty
      subst empty
      simp at length
      omega
    have rest := chunks_rows positive rows (xs.drop n) (by rw [List.length_drop, length]; ring_nf; omega)
    rw [chunks, dif_neg positive.ne', dif_neg nonempty]
    refine ⟨by simp [rest.1], ?_⟩
    intro row mem
    rcases List.mem_cons.mp mem with rfl | later
    · rw [List.length_take, length]
      exact Nat.min_eq_left (Nat.le_mul_of_pos_right n (by omega))
    · exact rest.2 row later

/-- An array with an axis whose listing has its `len` elements is copied into a nested array of
its shape holding the listing, once a handle for each of its rows is reserved. -/
theorem toNested_eq_of_toList [Element α] {g : Grid} {buffer : Array α} {xs : List α}
    (ranked : 0 < g.rank) (listed : g.toList buffer = .ok xs) (length : xs.length = g.len) :
    g.toNested buffer = (Word.reserve (Extent.count (g.dims.drop 1)) Word.handleSize >>= fun _ =>
      .ok (⟨g.shape, .nested⟩, xs.toArray)) := by
  rcases g with ⟨shape, storage⟩
  have positive := shape.valid.1
  unfold toNested
  cases dimsEq : shape.dims with
  | nil => simp [rank, Shape.rank, dimsEq] at ranked
  | cons rowLen rest =>
    have rowPositive : 0 < rowLen := positive rowLen (by simp [dimsEq])
    have lengthRows : xs.length = rowLen * Extent.count rest := by
      rw [length]
      simp [len, Shape.len, dimsEq]
    rcases chunks_rows rowPositive (Extent.count rest) xs lengthRows with ⟨count, each⟩
    have none : (chunks rowLen xs).find? (fun row => !decide (row.length = rowLen)) = none := by
      rw [List.find?_eq_none]
      intro row mem
      simp [each row mem]
    have built : ofRows shape (chunks rowLen xs) = .ok (⟨shape, .nested⟩, xs.toArray) := by
      simp [ofRows, nestedExtents, dimsEq, count, bind, Except.bind, none, flatten_chunks]
    simp only [dims, dimsEq, Outcome.pure_eq, Outcome.ok_bind, listed, count, built,
      Outcome.ofExcept_ok, List.drop_succ_cons, List.drop_zero]

/-- A list pairing the odometer's indices with a fitting array's cells has the array's length. -/
theorem length_of_forall₂ {g : Grid} {buffer : Array α} {xs : List α}
    (related : List.Forall₂ (fun index x => buffer[g.slot index]? = some x) (odometer g.dims) xs) :
    xs.length = g.len := by
  rw [← related.length_eq, length_odometer]
  rfl

/-- A list pairing the odometer's indices with a fitting array's cells holds, at the column-major
number of every index, the element the array holds there. -/
theorem get_of_forall₂ {g : Grid} {buffer : Array α} {xs : List α} (fits : g.Fits buffer.size)
    (related : List.Forall₂ (fun index x => buffer[g.slot index]? = some x) (odometer g.dims) xs)
    {index : List Nat} (inBox : InBox g.dims index) :
    ∃ x, xs[columnNumber g.dims index]? = some x ∧ g.get buffer index = .ok x := by
  rcases exists_at_columnNumber related inBox with ⟨x, found, cell⟩
  rcases get_ok fits inBox with ⟨y, cell', read⟩
  rw [cell] at cell'
  cases cell'
  exact ⟨x, found, read⟩

/-- A flat array made of such a list holds, at every index, the element the array holds there. -/
theorem get_flat_of_forall₂ {g : Grid} {buffer : Array α} {xs : List α} (fits : g.Fits buffer.size)
    (related : List.Forall₂ (fun index x => buffer[g.slot index]? = some x) (odometer g.dims) xs)
    {index : List Nat} (inBox : InBox g.dims index) :
    (⟨g.shape, .flat⟩ : Grid).get xs.toArray index = g.get buffer index := by
  have copyFits : (⟨g.shape, .flat⟩ : Grid).Fits xs.toArray.size := by
    rw [fits_flat_iff, List.size_toArray, length_of_forall₂ related]
    rfl
  rcases get_of_forall₂ fits related inBox with ⟨x, found, read⟩
  rcases get_ok copyFits inBox with ⟨y, cell, copyRead⟩
  rw [slot_flat, List.getElem?_toArray] at cell
  change xs[columnNumber g.dims index]? = some y at cell
  rw [found] at cell
  cases cell
  rw [copyRead, read]

/-- Copying a fitting, bounded array out in column-major order first reserves its room, and stops
with a capacity overflow without it. With it, the listing holds each element at its index's
column-major number, and the flat and nested copies agree with the array at every index. -/
theorem toList_columnMajor [Element α] (g : Grid) (buffer : Array α) (fits : g.Fits buffer.size)
    (bounded : g.Bounded) :
    (¬g.HasListingRoom buffer →
      g.toList buffer = Outcome.panic .capacityOverflow ∧
        g.toFlat buffer = Outcome.panic .capacityOverflow ∧
        (0 < g.rank → g.toNested buffer = Outcome.panic .capacityOverflow)) ∧
    (g.HasListingRoom buffer →
      ∃ xs, g.toList buffer = .ok xs ∧ xs.length = g.len ∧
        (∀ index, InBox g.dims index →
          ∃ x, xs[columnNumber g.dims index]? = some x ∧ g.get buffer index = .ok x) ∧
        flatOver g.shape xs.length = .ok ⟨g.shape, .flat⟩ ∧
        g.toFlat buffer = .ok (⟨g.shape, .flat⟩, xs.toArray) ∧
        (0 < g.rank →
          (Word.Reservable (Extent.count (g.dims.drop 1)) Word.handleSize →
            g.toNested buffer = .ok (⟨g.shape, .nested⟩, xs.toArray)) ∧
          (¬Word.Reservable (Extent.count (g.dims.drop 1)) Word.handleSize →
            g.toNested buffer = Outcome.panic .capacityOverflow)) ∧
        ∀ index, InBox g.dims index →
          (⟨g.shape, .flat⟩ : Grid).get xs.toArray index = g.get buffer index ∧
            (⟨g.shape, .nested⟩ : Grid).get xs.toArray index = g.get buffer index) := by
  constructor
  · intro full
    have refused := toList_of_not_hasListingRoom full
    refine ⟨refused, by simp [toFlat, refused], fun ranked => ?_⟩
    cases rows : g.dims with
    | nil =>
      rw [show g.rank = g.dims.length from rfl, rows] at ranked
      exact absurd ranked (lt_irrefl 0)
    | cons rowLen rest => simp [toNested, rows, refused]
  · intro room
    rcases fits.toList_forall₂ bounded room with ⟨xs, listed, related⟩
    have length := length_of_forall₂ related
    refine ⟨xs, listed, length, fun index inBox => get_of_forall₂ fits related inBox, ?_, ?_,
      fun ranked => ⟨fun handles => ?_, fun full => ?_⟩, ?_⟩
    · simp [flatOver, length, len]
    · simp [toFlat, listed]
    · rw [toNested_eq_of_toList ranked listed length, Word.reserve_of_reservable handles]
      rfl
    · rw [toNested_eq_of_toList ranked listed length, Word.reserve_of_not_reservable full]
      rfl
    · intro index inBox
      have flat := get_flat_of_forall₂ fits related inBox
      exact ⟨flat, (get_nested g.shape xs.toArray index).trans flat⟩

/-- A row-major view of two rows of three is listed, all six elements, in column-major order. -/
theorem toList_columnMajor_rowMajor_view :
    let g : Grid := ⟨⟨[2, 3], by decide⟩, .strided 0 [3, 1] .rowMajor⟩
    g.Fits (#[0, 1, 2, 3, 4, 5] : Array Int64).size ∧ g.Bounded ∧
      g.HasListingRoom (#[0, 1, 2, 3, 4, 5] : Array Int64) ∧
      ∃ xs, g.toList (#[0, 1, 2, 3, 4, 5] : Array Int64) = .ok xs ∧ xs.length = g.len := by
  intro g
  have fits : g.Fits (#[0, 1, 2, 3, 4, 5] : Array Int64).size := ⟨by decide, by rfl⟩
  have bounded : g.Bounded := by norm_num [g, Bounded, dims, sweep, Word.signedMax]
  have room : g.HasListingRoom (#[0, 1, 2, 3, 4, 5] : Array Int64) := by decide
  rcases (toList_columnMajor g _ fits bounded).2 room with ⟨xs, listed, length, -⟩
  exact ⟨fits, bounded, room, xs, listed, length⟩

/-- A view of `2^60` positions that all read the one cell of a one-element buffer fits that
buffer, and its reach is zero. -/
theorem zeroStride_fits_bounded {α : Type} {buffer : Array α} (single : buffer.size = 1) :
    let g : Grid := ⟨⟨[1152921504606846976], by decide⟩, .strided 0 [0] .nonSpecific⟩
    g.Fits buffer.size ∧ g.Bounded := by
  intro g
  rw [single]
  exact ⟨⟨by decide, by rfl⟩, by norm_num [g, Bounded, dims, sweep, Word.signedMax]⟩

/-- A view of `2^60` doubles that all read the one cell of its buffer: it fits its buffer and its
reach is zero, but a copy of its elements would take `2^63` bytes, so it cannot be listed. -/
theorem toList_refuses_unreservable_copy :
    let g : Grid := ⟨⟨[1152921504606846976], by decide⟩, .strided 0 [0] .nonSpecific⟩
    g.Fits (#[0] : Array Float).size ∧ g.Bounded ∧
      g.toList (#[0] : Array Float) = Outcome.panic .capacityOverflow := by
  intro g
  obtain ⟨fits, bounded⟩ := zeroStride_fits_bounded (show (#[0] : Array Float).size = 1 from rfl)
  exact ⟨fits, bounded, toList_of_not_hasListingRoom (by decide)⟩

end Grid

end StridedGrid
