import Mathlib
import StridedGrid.Proofs.BoundaryResolution
import StridedGrid.Proofs.Listing

/-!
# Shifted copies

`Grid.shifted` builds one table of resolved positions per axis, lists the array in column-major
order, and fills a flat copy whose element at `index` is the listed element at the column-major
number of the index read through the tables. The tables turn each coordinate `i_k` into the
resolved position of `i_k + offset_k` (`entries_of_buildIndex`), which lies on the axis, so the
index read through them is an index of the box (`resolved_of_tables`); the dense column-major
strides number it exactly as the listing does (`weighted_columnStrides`), so the copy reads the
array's own element there.

A table holds one word per position of its axis, so an axis of `2^60` positions or more has a
table that cannot be reserved, and the copy stops with a capacity overflow before any element is
read. So does an array whose column-major copy cannot be reserved; the flat copy then needs no
more room than that copy had.
-/

namespace StridedGrid

namespace Grid

open Traversal

variable {α : Type}

/-- An axis of the zip of extents and offsets is an extent paired with the offset of its axis. -/
theorem mem_zip_iff {dims : List Nat} {offsets : List Int} (lengths : offsets.length = dims.length)
    {axis : Nat × Int} :
    axis ∈ dims.zip offsets ↔ ∃ k < dims.length, axis = (dims.getD k 1, offsets.getD k 0) := by
  rw [List.mem_iff_getElem]
  constructor
  · rintro ⟨k, below, rfl⟩
    have inDims : k < dims.length := by simp at below; omega
    refine ⟨k, inDims, ?_⟩
    rw [List.getElem_zip, List.getD_eq_getElem _ _ inDims, List.getD_eq_getElem _ _ (by omega)]
  · rintro ⟨k, inDims, rfl⟩
    refine ⟨k, by simp [lengths, inDims], ?_⟩
    rw [List.getElem_zip, List.getD_eq_getElem _ _ inDims, List.getD_eq_getElem _ _ (by omega)]

variable {b : Boundary} {dims : List Nat} {offsets : List Int}

/-- Along an axis whose window stays within the signed words, the table is built exactly when its
words can be reserved, and stops with a capacity overflow otherwise. -/
theorem buildIndex_of_near {d : Nat} {offset : Int} (near : |offset| + d ≤ Word.signedMax) :
    (d * Word.size ≤ Word.signedMax.toNat → ∃ table, b.buildIndex d offset = .ok table) ∧
      (Word.signedMax.toNat < d * Word.size → b.buildIndex d offset = Outcome.panic .capacityOverflow) := by
  refine ⟨fun fits => ?_, Boundary.buildIndex_of_capacity b offset⟩
  have low : Word.signedMin ≤ offset := by
    unfold Word.signedMin
    unfold Word.signedMax at near
    have := neg_abs_le offset
    omega
  exact Boundary.buildIndex_eq_ok b low fits fun i inside => by have := le_abs_self offset; omega

/-- The tables of a window that stays within the signed words along every axis are built when
every table's words can be reserved. -/
theorem tables_eq_ok (lengths : offsets.length = dims.length)
    (fits : ∀ d ∈ dims, d * Word.size ≤ Word.signedMax.toNat)
    (near : ∀ k < dims.length, |offsets.getD k 0| + dims.getD k 1 ≤ Word.signedMax) :
    ∃ tables, (dims.zip offsets).mapM (fun axis => b.buildIndex axis.1 axis.2) = .ok tables ∧
      List.Forall₂ (fun axis table => b.buildIndex axis.1 axis.2 = .ok table) (dims.zip offsets) tables := by
  apply Outcome.mapM_eq_ok_of_forall
  intro axis mem
  obtain ⟨k, inDims, rfl⟩ := (mem_zip_iff lengths).mp mem
  have extent : dims.getD k 1 ∈ dims := by
    rw [List.getD_eq_getElem _ _ inDims]
    exact List.getElem_mem inDims
  exact (buildIndex_of_near (near k inDims)).1 (fits _ extent)

/-- With one extent whose table of words cannot be reserved, the tables stop with a capacity
overflow. -/
theorem tables_of_capacity (lengths : offsets.length = dims.length)
    (near : ∀ k < dims.length, |offsets.getD k 0| + dims.getD k 1 ≤ Word.signedMax)
    (big : ∃ d ∈ dims, Word.signedMax.toNat < d * Word.size) :
    (dims.zip offsets).mapM (fun axis => b.buildIndex axis.1 axis.2) = Outcome.panic .capacityOverflow := by
  obtain ⟨d, extent, huge⟩ := big
  obtain ⟨k, inDims, rfl⟩ := List.getElem_of_mem extent
  rw [← List.getD_eq_getElem dims 1 inDims] at huge
  refine Outcome.mapM_eq_panic_of_exists (fun axis mem => ?_)
    ⟨(dims.getD k 1, offsets.getD k 0), (mem_zip_iff lengths).mpr ⟨k, inDims, rfl⟩, ?_⟩
  · obtain ⟨j, inDimsJ, rfl⟩ := (mem_zip_iff lengths).mp mem
    by_cases fits : dims.getD j 1 * Word.size ≤ Word.signedMax.toNat
    · exact .inl ((buildIndex_of_near (near j inDimsJ)).1 fits)
    · exact .inr ((buildIndex_of_near (near j inDimsJ)).2 (Nat.lt_of_not_le fits))
  · exact (buildIndex_of_near (near k inDims)).2 huge

/-- An index of the box read through built tables: one coordinate per axis, each the resolved
shifted coordinate, so an index of the box again. -/
theorem resolved_of_tables {tables : List (List Nat)} (lengths : offsets.length = dims.length)
    (built : List.Forall₂ (fun axis table => b.buildIndex axis.1 axis.2 = .ok table)
      (dims.zip offsets) tables)
    {index : List Nat} (inBox : InBox dims index) :
    ((index.zip tables).map fun p => p.2.getD p.1 0).length = dims.length ∧
      InBox dims ((index.zip tables).map fun p => p.2.getD p.1 0) ∧
      ∀ k < dims.length, b.resolve (index.getD k 0 + offsets.getD k 0) (dims.getD k 1) =
        .ok (((index.zip tables).map fun p => p.2.getD p.1 0).getD k 0) := by
  have tablesLength : tables.length = dims.length := by
    rw [← built.length_eq]
    simp [lengths]
  have indexLength : index.length = dims.length := inBox.length_eq
  have sourceLength : ((index.zip tables).map fun p => p.2.getD p.1 0).length = dims.length := by
    simp [indexLength, tablesLength]
  -- the table of axis `k` holds, at the coordinate `index[k]`, its resolved shifted position
  have entry : ∀ k < dims.length, b.resolve (index.getD k 0 + offsets.getD k 0) (dims.getD k 1) =
      .ok (((index.zip tables).map fun p => p.2.getD p.1 0).getD k 0) ∧
      ((index.zip tables).map fun p => p.2.getD p.1 0).getD k 0 < dims.getD k 1 := by
    intro k inDims
    have inZip : k < (dims.zip offsets).length := by simp [lengths, inDims]
    have inTables : k < tables.length := by omega
    have axisBuilt : b.buildIndex (dims.getD k 1) (offsets.getD k 0) = .ok tables[k] := by
      rw [List.getD_eq_getElem _ _ inDims, List.getD_eq_getElem _ _ (by omega)]
      simpa using built.get inZip inTables
    obtain ⟨tableLength, entries⟩ := Boundary.entries_of_buildIndex axisBuilt
    have coordinate : index.getD k 0 < dims.getD k 1 := (inBox_iff_getD.mp inBox).2 k inDims
    have resolved := entries (index.getD k 0) (by omega)
    have read : ((index.zip tables).map fun p => p.2.getD p.1 0).getD k 0 =
        tables[k].getD (index.getD k 0) 0 := by
      rw [List.getD_eq_getElem _ _ (by omega), List.getElem_map, List.getElem_zip,
        List.getD_eq_getElem index 0 (by omega)]
    rw [read, List.getD_eq_getElem tables[k] 0 (show index.getD k 0 < tables[k].length by omega)]
    exact ⟨resolved, Boundary.entry_lt_of_buildIndex axisBuilt _ _⟩
  refine ⟨sourceLength, inBox_iff_getD.mpr ⟨sourceLength, fun k inDims => (entry k inDims).2⟩,
    fun k inDims => (entry k inDims).1⟩

/-- The shifted copy, once its tables are built and the array is listed: the listed element at
the column-major number of each index read through the tables. -/
theorem shifted_eq_ok [Element α] [Inhabited α] {g : Grid} {buffer : Array α}
    {tables : List (List Nat)} {xs : List α} (ranks : offsets.length = g.rank)
    (built : (g.dims.zip offsets).mapM (fun axis => b.buildIndex axis.1 axis.2) = .ok tables)
    (listed : g.toList buffer = .ok xs) (room : Word.Reservable g.len (Element.byteSize α)) :
    g.shifted offsets b buffer = .ok (⟨g.shape, .flat⟩, ((odometer g.dims).map fun index =>
      xs.getD (columnNumber g.dims ((index.zip tables).map fun p => p.2.getD p.1 0)) default).toArray) := by
  simp only [shifted, ranks, ne_eq, not_true_eq_false, if_false]
  rw [built, Outcome.ok_bind, listed, Outcome.ok_bind, Shape.colMajorStrides_eq,
    fromFn_of_reservable _ room]
  simp only [dims, weighted_columnStrides, Int.toNat_natCast, columnIndices_eq_odometer]

/-- A flat copy of a grid filled along the odometer has one element per index of the box. -/
theorem fits_flat_odometer (g : Grid) (f : List Nat → α) :
    (⟨g.shape, .flat⟩ : Grid).Fits ((odometer g.dims).map f).toArray.size := by
  rw [fits_flat_iff, List.size_toArray, List.length_map, length_odometer]
  rfl

/-- A flat copy of a grid filled along the odometer holds, at each index of the box, the value
written for that index. -/
theorem get_flat_odometer (g : Grid) (f : List Nat → α) {index : List Nat} (inBox : InBox g.dims index) :
    (⟨g.shape, .flat⟩ : Grid).get ((odometer g.dims).map f).toArray index = .ok (f index) := by
  obtain ⟨y, cell, read⟩ := get_ok (fits_flat_odometer g f) inBox
  have numbered : (odometer g.dims)[columnNumber g.shape.dims index]? = some index :=
    getElem?_odometer_columnNumber inBox
  rw [read]
  rw [slot_flat, List.getElem?_toArray, List.getElem?_map, numbered, Option.map_some,
    Option.some.injEq] at cell
  rw [cell]

/-- With its tables built, a shifted copy of an array whose column-major copy cannot be reserved
stops with a capacity overflow. -/
theorem shifted_of_not_hasListingRoom [Element α] [Inhabited α] {g : Grid} {buffer : Array α}
    (ranks : offsets.length = g.rank)
    (near : ∀ k < g.rank, |offsets.getD k 0| + g.dims.getD k 1 ≤ Word.signedMax)
    (tablesFit : ∀ d ∈ g.dims, d * Word.size ≤ Word.signedMax.toNat)
    (full : ¬g.HasListingRoom buffer) :
    g.shifted offsets b buffer = Outcome.panic .capacityOverflow := by
  simp only [shifted, ranks, ne_eq, not_true_eq_false, if_false]
  obtain ⟨tables, built, -⟩ := tables_eq_ok (b := b) ranks tablesFit near
  have tablesBuilt : (g.dims.zip offsets).mapM (fun axis => b.buildIndex axis.1 axis.2) =
      .ok tables := built
  rw [tablesBuilt, Outcome.ok_bind, toList_of_not_hasListingRoom full, Outcome.panic_bind]

/-- A shifted copy of a fitting array is refused for offsets of another length than the rank. With
one offset per axis it stops when a table or the column-major copy cannot be reserved, and is
otherwise a flat array reading the array at each coordinate's boundary resolution. -/
theorem shifted_reads_through_boundary [Element α] [Inhabited α] (g : Grid) (buffer : Array α)
    (fits : g.Fits buffer.size) (bounded : g.Bounded) (b : Boundary) (offsets : List Int) :
    (offsets.length ≠ g.rank →
      g.shifted offsets b buffer = Outcome.reject (.rankMismatch offsets.length g.rank)) ∧
    (offsets.length = g.rank →
      (∀ k < g.rank, |offsets.getD k 0| + g.dims.getD k 1 ≤ Word.signedMax) →
      ((∃ d ∈ g.dims, Word.signedMax.toNat < d * Word.size) ∨ ¬g.HasListingRoom buffer →
        g.shifted offsets b buffer = Outcome.panic .capacityOverflow) ∧
      ((∀ d ∈ g.dims, d * Word.size ≤ Word.signedMax.toNat) → g.HasListingRoom buffer →
        ∃ data, g.shifted offsets b buffer = .ok (⟨g.shape, .flat⟩, data) ∧
          (⟨g.shape, .flat⟩ : Grid).Fits data.size ∧
          ∀ index, InBox g.dims index → ∃ source, source.length = g.rank ∧
            (∀ k < g.rank, b.resolve (index.getD k 0 + offsets.getD k 0) (g.dims.getD k 1) =
              .ok (source.getD k 0)) ∧
            (⟨g.shape, .flat⟩ : Grid).get data index = g.get buffer source)) := by
  refine ⟨fun mismatch => by simp [shifted, mismatch], fun ranks near => ⟨fun stops => ?_,
    fun tablesFit room => ?_⟩⟩
  · by_cases tablesFit : ∀ d ∈ g.dims, d * Word.size ≤ Word.signedMax.toNat
    · exact shifted_of_not_hasListingRoom ranks near tablesFit
        (stops.resolve_left (by simpa using tablesFit))
    · have stopped : (g.dims.zip offsets).mapM (fun axis => b.buildIndex axis.1 axis.2) =
          Outcome.panic .capacityOverflow := tables_of_capacity ranks near (by simpa using tablesFit)
      simp only [shifted, ranks, ne_eq, not_true_eq_false, if_false]
      rw [stopped, Outcome.panic_bind]
  · obtain ⟨tables, built, related⟩ := tables_eq_ok ranks tablesFit near
    obtain ⟨xs, listed, cells⟩ := fits.toList_forall₂ bounded room
    refine ⟨_, shifted_eq_ok ranks built listed (fits.reservable_of_hasListingRoom room),
      fits_flat_odometer g _, fun index inBox => ?_⟩
    obtain ⟨sourceLength, sourceInBox, resolves⟩ := resolved_of_tables ranks related inBox
    refine ⟨_, sourceLength, resolves, ?_⟩
    obtain ⟨x, found, read⟩ := get_of_forall₂ fits cells sourceInBox
    rw [read, get_flat_odometer g _ inBox, List.getD_eq_getElem?_getD, found, Option.getD_some]

/-- The array `i_0 + 10 i_1` of extents `[5, 2]` shifted by two along its first axis under the
mirror: the copy's element at `[3, 1]` is the array's at `[4, 1]`, since `5` folds back to `4`. -/
theorem shifted_reads_through_boundary_mirror :
    let g : Grid := ⟨⟨[5, 2], by decide⟩, .flat⟩
    let buffer : Array Int64 := #[0, 1, 2, 3, 4, 10, 11, 12, 13, 14]
    g.Fits buffer.size ∧ g.Bounded ∧ g.HasListingRoom buffer ∧ ∃ data,
      g.shifted [2, 0] .mirror buffer = .ok (⟨g.shape, .flat⟩, data) ∧
        (⟨g.shape, .flat⟩ : Grid).get data [3, 1] = .ok 14 := by
  intro g buffer
  have fits : g.Fits buffer.size := rfl
  have bounded : g.Bounded := trivial
  have room : g.HasListingRoom buffer := by decide
  obtain ⟨-, shifts⟩ := shifted_reads_through_boundary g buffer fits bounded .mirror [2, 0]
  obtain ⟨data, copied, -, law⟩ := (shifts rfl (by decide)).2 (by decide) room
  have inBox : InBox g.dims [3, 1] := (Shape.contains_iff_inBox g.shape _).mp (by decide)
  obtain ⟨source, length, resolves, read⟩ := law [3, 1] inBox
  have folded : source.getD 0 0 = 4 := Except.ok.inj ((resolves 0 (by decide)).symm.trans (by decide))
  have kept : source.getD 1 0 = 1 := Except.ok.inj ((resolves 1 (by decide)).symm.trans (by decide))
  have pair : source.length = 2 := length
  have resolved : source = [4, 1] := by
    rcases source with _ | ⟨x, _ | ⟨y, _ | ⟨z, rest⟩⟩⟩ <;> simp at pair
    simp only [List.getD_cons_zero, List.getD_cons_succ] at folded kept
    rw [folded, kept]
  refine ⟨fits, bounded, room, data, copied, ?_⟩
  rw [read, resolved]
  rfl

/-- Views with stride zero over a buffer of one element fit their buffer and keep their reach
within the signed words, yet their shifted copies cannot be reserved: an axis of `2^60` positions
has a table of words too large, and `2^61` doubles a column-major copy too large. -/
theorem shifted_refuses_unreservable_room :
    let g : Grid := ⟨⟨[2 ^ 60], by decide⟩, .strided 0 [0] .nonSpecific⟩
    let h : Grid := ⟨⟨[2 ^ 59, 4], by decide⟩, .strided 0 [0, 0] .nonSpecific⟩
    let buffer : Array Float := #[0]
    g.Fits buffer.size ∧ g.Bounded ∧
      (∀ k < g.rank, |([0] : List Int).getD k 0| + g.dims.getD k 1 ≤ Word.signedMax) ∧
      g.shifted [0] .clamp buffer = Outcome.panic .capacityOverflow ∧
      h.Fits buffer.size ∧ h.Bounded ∧ (∀ d ∈ h.dims, d * Word.size ≤ Word.signedMax.toNat) ∧
      (∀ k < h.rank, |([0, 0] : List Int).getD k 0| + h.dims.getD k 1 ≤ Word.signedMax) ∧
      h.shifted [0, 0] .clamp buffer = Outcome.panic .capacityOverflow := by
  intro g h buffer
  have fitsH : h.Fits buffer.size := ⟨by decide, by decide⟩
  have boundedH : h.Bounded := by norm_num [h, Bounded, dims, sweep, Word.signedMax]
  have nearH : ∀ k < h.rank, |([0, 0] : List Int).getD k 0| + h.dims.getD k 1 ≤ Word.signedMax := by
    decide
  have tablesFit : ∀ d ∈ h.dims, d * Word.size ≤ Word.signedMax.toNat := by decide
  have listed : h.shifted [0, 0] .clamp buffer = Outcome.panic .capacityOverflow :=
    shifted_of_not_hasListingRoom rfl nearH tablesFit (by decide)
  refine ⟨⟨by decide, by decide⟩, ?_, by decide, rfl, fitsH, boundedH, tablesFit, nearH, listed⟩
  norm_num [g, Bounded, dims, sweep, Word.signedMax]

end Grid

end StridedGrid
