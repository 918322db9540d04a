import Mathlib
import StridedGrid.Proofs.ViewAddressing
import StridedGrid.Proofs.ColumnWalk

/-!
# What operations keep of the representation

Every way the library makes an array leaves it fitting its buffer (`Grid.Fits`): the flat,
nested and strided constructors, the three kinds of view, and the copying kernels, whose copies
are as long as the array. Every kernel that writes an array keeps the length of its buffer, so
an array that fits a buffer keeps fitting it whatever is written through any array on it.

The copies rest on one fact about listing: a fitting array that lists without overflowing lists
exactly its `len` elements (`Fits.toList_length`).
-/

namespace StridedGrid

open Traversal

namespace Grid

variable {α : Type}

/-! ## Writing keeps the length of the buffer -/

@[simp]
theorem writeAll_size (buffer : Array α) (writes : List (Nat × α)) :
    (writeAll buffer writes).size = buffer.size := by
  induction writes generalizing buffer with
  | nil => rfl
  | cons write rest ih =>
    simp only [writeAll, List.foldl_cons] at ih ⊢
    rw [ih, Array.set!_eq_setIfInBounds, Array.size_setIfInBounds]

@[simp]
theorem mapInPlace_size (g : Grid) (f : α → α) (buffer : Array α) :
    (g.mapInPlace f buffer).buffer.size = buffer.size := by
  unfold mapInPlace
  dsimp only
  generalize (g.visits buffer.size true).calls = visits
  induction visits generalizing buffer with
  | nil => rfl
  | cons p rest ih => simp [ih]

@[simp]
theorem fill_size (g : Grid) (value : α) (buffer : Array α) :
    (g.fill value buffer).buffer.size = buffer.size :=
  mapInPlace_size g _ buffer

@[simp]
theorem assignColumnMajor_size (g : Grid) (values : List α) (buffer : Array α) :
    (g.assignColumnMajor values buffer).buffer.size = buffer.size := by
  unfold assignColumnMajor
  split <;> simp

theorem fillWith_size [Element α] {g : Grid} {values : List α} {buffer : Array α}
    {written : Written α} (filled : g.fillWith values buffer = .ok written) :
    written.buffer.size = buffer.size := by
  rw [fillWith, Word.reserve_bind_eq_ok] at filled
  obtain ⟨-, filled⟩ := filled
  simp only [Outcome.pure_eq, Except.ok.injEq] at filled
  rw [← filled, writeAll_size]

theorem fillFromFn_size [Element α] {g : Grid} {f : List Nat → α} {buffer : Array α}
    {written : Written α} (filled : g.fillFromFn f buffer = .ok written) :
    written.buffer.size = buffer.size := by
  rw [fillFromFn, Word.reserve_bind_eq_ok] at filled
  obtain ⟨-, filled⟩ := filled
  simp only [Outcome.pure_eq, Except.ok.injEq] at filled
  rw [← filled, assignColumnMajor_size]

theorem mapInto_size {σ δ : Type} [Element σ] {dest source : Grid} {shared : Bool} {f : σ → δ}
    {destBuffer : Array δ} {sourceBuffer : Array σ} {written : Written δ}
    (mapped : mapInto dest source shared f destBuffer sourceBuffer = .ok written) :
    written.buffer.size = destBuffer.size := by
  unfold mapInto at mapped
  obtain ⟨-, -, routed⟩ := Outcome.bind_eq_ok.mp mapped
  split at routed
  · simp only [Outcome.pure_eq, Except.ok.injEq] at routed
    rw [← routed, writeAll_size]
  · obtain ⟨xs, -, assigned⟩ := Outcome.bind_eq_ok.mp routed
    simp only [Outcome.pure_eq, Except.ok.injEq] at assigned
    rw [← assigned, assignColumnMajor_size]

theorem set_size {g : Grid} {buffer buffer' : Array α} {index : List Nat} {value : α}
    (written : g.set buffer index value = .ok buffer') : buffer'.size = buffer.size := by
  unfold set at written
  obtain ⟨-, -, stored⟩ := Outcome.bind_eq_ok.mp written
  split at stored
  · rw [Outcome.pure_eq, Except.ok.injEq] at stored
    rw [← stored, Array.set!_eq_setIfInBounds, Array.size_setIfInBounds]
  · cases stored

theorem trySet_size {g : Grid} {buffer buffer' : Array α} {index : List Nat} {value : α}
    (written : g.trySet buffer index value = .ok buffer') : buffer'.size = buffer.size := by
  unfold trySet at written
  obtain ⟨-, -, stored⟩ := Outcome.bind_eq_ok.mp written
  exact set_size stored

/-! ## Listing a fitting array -/

/-- A fitting array read off its buffer without overflowing gives exactly its elements. -/
theorem Fits.listColumnMajor_length {g : Grid} {buffer : Array α} (fits : g.Fits buffer.size)
    {xs : List α} (listed : g.listColumnMajor buffer = .ok xs) : xs.length = g.len := by
  rcases g with ⟨shape, storage⟩
  cases storage with
  | flat =>
    simp only [listColumnMajor, Outcome.pure_eq, Except.ok.injEq] at listed
    subst listed
    have filled : buffer.size = shape.len := fits
    rw [Array.length_toList]
    exact filled
  | nested =>
    simp only [listColumnMajor, Outcome.pure_eq, Except.ok.injEq] at listed
    subst listed
    simpa using fits.2
  | strided offset strides order =>
    have walkFits : WalkFits shape.dims strides offset := by
      by_contra unfit
      rw [listColumnMajor_strided_of_not_walkFits fits unfit] at listed
      cases listed
    rw [listColumnMajor_strided_of_walkFits fits walkFits, Except.ok.injEq] at listed
    subst listed
    rw [List.length_filterMap_eq_countP, List.countP_eq_length.mpr, length_odometer]
    · rfl
    · intro index mem
      have inBox := mem_odometer.mp mem
      have := fits.slot_lt inBox
      simp only [slot, position] at this
      simp [this]

/-- A fitting array that is copied out lists exactly its elements. -/
theorem Fits.toList_length [Element α] {g : Grid} {buffer : Array α} (fits : g.Fits buffer.size)
    {xs : List α} (listed : g.toList buffer = .ok xs) : xs.length = g.len :=
  fits.listColumnMajor_length (listColumnMajor_of_toList listed).2

/-! ## Every way of making an array fits its buffer -/

theorem fits_flat_iff {shape : Shape} {size : Nat} :
    (⟨shape, .flat⟩ : Grid).Fits size ↔ size = shape.len :=
  Iff.rfl

theorem flatOver_fits {shape : Shape} {n : Nat} {g : Grid} (made : flatOver shape n = .ok g) :
    g.Fits n := by
  unfold flatOver at made
  split at made
  · rename_i filled
    cases made
    exact filled
  · cases made

theorem nestedExtents_ok {shape : Shape} {rowLen rowCount : Nat}
    (extents : nestedExtents shape = .ok (rowLen, rowCount)) :
    0 < shape.rank ∧ rowLen * rowCount = shape.len := by
  unfold nestedExtents at extents
  split at extents
  · rename_i first outer dims
    cases extents
    simp [Shape.rank, Shape.len, dims]
  · cases extents

theorem nestedFilled_fits {shape : Shape} {fill : α} {g : Grid} {data : Array α}
    (made : nestedFilled shape fill = .ok (g, data)) : g.Fits data.size := by
  unfold nestedFilled at made
  obtain ⟨⟨rowLen, rowCount⟩, extents, built⟩ := Outcome.bind_eq_ok.mp made
  cases built
  obtain ⟨ranked, filled⟩ := nestedExtents_ok extents
  exact ⟨ranked, by simp [filled, len]⟩

/-- Rows as many and as long as a nested shape asks for fill a buffer of its length. -/
theorem ofRows_fits {shape : Shape} {rows : List (List α)} {g : Grid} {data : Array α}
    (made : ofRows shape rows = .ok (g, data)) : g.Fits data.size := by
  unfold ofRows at made
  obtain ⟨⟨rowLen, rowCount⟩, extents, built⟩ := Outcome.bind_eq_ok.mp made
  obtain ⟨ranked, filled⟩ := nestedExtents_ok extents
  dsimp only at built
  split at built
  · cases built
  · rename_i counted
    split at built
    · cases built
    · rename_i noneShort
      cases built
      have lengths : ∀ row ∈ rows, row.length = rowLen := by
        intro row mem
        by_contra differs
        have := List.find?_eq_none.mp noneShort row mem
        simp [differs] at this
      have total : rows.flatten.length = rowLen * rowCount := by
        rw [List.length_flatten, List.map_congr_left lengths, List.map_const', List.sum_replicate,
          smul_eq_mul, not_not.mp counted, Nat.mul_comm]
      exact ⟨ranked, by simp [total, filled, len]⟩

/-- A strided grid accepted against a buffer fits it, once its offset is a signed word. -/
theorem wrapStrided_fits {n : Nat} {shape : Shape} {offset : Int} {strides : List Int} {g : Grid}
    (made : wrapStrided n shape offset strides = .ok g) (signed : Word.IsSigned offset) :
    g.Fits n := by
  unfold wrapStrided at made
  obtain ⟨order, accepted, built⟩ := Outcome.bind_eq_ok.mp made
  cases built
  exact ⟨signed, accepted⟩

theorem Fits.isSigned_offset {g : Grid} {n : Nat} {offset : Int} {strides : List Int}
    (fits : g.Fits n) (addressed : g.descriptor? = some (offset, strides)) :
    Word.IsSigned offset := by
  rcases g with ⟨shape, storage⟩
  cases storage with
  | flat =>
    simp only [descriptor?, Option.some.injEq, Prod.mk.injEq] at addressed
    rw [← addressed.1]
    exact Word.isSigned_of_mem le_rfl (by unfold Word.signedMax; omega)
  | strided o ss order =>
    simp only [descriptor?, Option.some.injEq, Prod.mk.injEq] at addressed
    rw [← addressed.1]
    exact fits.1
  | nested => simp [descriptor?] at addressed

theorem partsFor_ok {g : Grid} {operation : ViewOperation} {parts : Int × List Int}
    (found : g.partsFor operation = .ok parts) : g.descriptor? = some parts := by
  unfold partsFor at found
  split at found
  · rename_i addressed
    cases found
    exact addressed
  · cases found

/-- A composed offset is a signed word: composing checks it. -/
theorem Range.Compiled.compose_ok_isSigned {c : Range.Compiled} {offset stride composed : Int}
    {composedStride : Int} (composedOk : c.compose offset stride = .ok (composed, composedStride)) :
    Word.IsSigned composed := by
  unfold Range.Compiled.compose at composedOk
  obtain ⟨shift, -, afterShift⟩ := Outcome.bind_eq_ok.mp composedOk
  obtain ⟨moved, movedOk, afterMove⟩ := Outcome.bind_eq_ok.mp afterShift
  obtain ⟨newStride, -, built⟩ := Outcome.bind_eq_ok.mp afterMove
  simp only [Outcome.pure_eq, Except.ok.injEq, Prod.mk.injEq] at built
  obtain ⟨signed, rfl⟩ := (Word.signed_ok_iff _ _).mp movedOk
  rw [← built.1]
  exact signed

/-- Views of a fitting array fit its buffer. -/
theorem view_fits {g v : Grid} {n : Nat} {ranges : List Range} (fits : g.Fits n)
    (viewed : g.view n ranges = .ok v) : v.Fits n := by
  cases addressed : g.descriptor? with
  | none =>
    obtain ⟨-, rfl, -⟩ := (view_eq_ok_iff_of_nested addressed).mp viewed
    exact fits
  | some parts =>
    have ranks := ranks_of_view_ok viewed
    obtain ⟨cs, listed, -⟩ := by
      simp only [view, ranks, ne_eq, not_true_eq_false, if_false] at viewed
      exact Outcome.bind_eq_ok.mp viewed
    exact (view_ok_spec fits addressed (Outcome.mapM_eq_ok_iff.mp listed) viewed).1

/-- Slices of a fitting array fit its buffer: the slice's offset is a composed one, which is
checked to be a signed word. -/
theorem slice_fits {g v : Grid} {n axis : Nat} {index : Int} (sliced : g.slice n axis index = .ok v) :
    v.Fits n := by
  unfold slice at sliced
  split at sliced
  · cases sliced
  · obtain ⟨c, -, afterCompile⟩ := Outcome.bind_eq_ok.mp sliced
    obtain ⟨⟨offset, strides⟩, -, afterParts⟩ := Outcome.bind_eq_ok.mp afterCompile
    obtain ⟨⟨composed, stride⟩, composedOk, afterCompose⟩ := Outcome.bind_eq_ok.mp afterParts
    obtain ⟨shape, -, wrapped⟩ := Outcome.bind_eq_ok.mp afterCompose
    exact wrapStrided_fits wrapped (Range.Compiled.compose_ok_isSigned composedOk)

/-- Permutations of a fitting array fit its buffer: they keep its offset. -/
theorem permute_fits {g v : Grid} {n : Nat} {perm : List Nat} (fits : g.Fits n)
    (permuted : g.permute n perm = .ok v) : v.Fits n := by
  unfold permute at permuted
  split at permuted
  · cases permuted
  · obtain ⟨-, -, afterCheck⟩ := Outcome.bind_eq_ok.mp permuted
    split at afterCheck
    · cases afterCheck
      exact fits
    · obtain ⟨⟨offset, strides⟩, found, afterParts⟩ := Outcome.bind_eq_ok.mp afterCheck
      obtain ⟨shape, -, wrapped⟩ := Outcome.bind_eq_ok.mp afterParts
      exact wrapStrided_fits wrapped (fits.isSigned_offset (partsFor_ok found))

/-! ## Copies are as long as their arrays -/

theorem fromFn_fits [Element α] {shape : Shape} {f : List Nat → α} {g : Grid} {data : Array α}
    (made : fromFn shape f = .ok (g, data)) : g.Fits data.size := by
  rw [fromFn, Word.reserve_bind_eq_ok] at made
  obtain ⟨-, made⟩ := made
  simp only [Outcome.pure_eq, Except.ok.injEq, Prod.mk.injEq] at made
  obtain ⟨rfl, rfl⟩ := made
  rw [fits_flat_iff, List.size_toArray, List.length_map, columnIndices_eq_odometer,
    length_odometer]
  rfl

theorem toFlat_fits [Element α] {g copy : Grid} {buffer data : Array α} (fits : g.Fits buffer.size)
    (copied : g.toFlat buffer = .ok (copy, data)) : copy.Fits data.size := by
  unfold toFlat at copied
  obtain ⟨xs, listed, built⟩ := Outcome.bind_eq_ok.mp copied
  simp only [Outcome.pure_eq, Except.ok.injEq, Prod.mk.injEq] at built
  obtain ⟨rfl, rfl⟩ := built
  rw [fits_flat_iff, List.size_toArray]
  exact fits.toList_length listed

theorem toNested_fits [Element α] {g copy : Grid} {buffer data : Array α}
    (copied : g.toNested buffer = .ok (copy, data)) : copy.Fits data.size := by
  unfold toNested at copied
  cases rows : g.dims with
  | nil => simp [rows, Outcome.reject] at copied
  | cons rowLen rest =>
    simp only [rows, Outcome.pure_eq, Outcome.ok_bind] at copied
    obtain ⟨xs, -, nested⟩ := Outcome.bind_eq_ok.mp copied
    exact ofRows_fits (Outcome.ofExcept_eq_ok.mp (Word.reserve_bind_eq_ok.mp nested).2)

/-- A conversion of a fitting array fits its new buffer: flat and nested copies keep the
buffer's length, a column-major strided array is listed, and any other strided array is
written into a dense buffer of its length. -/
theorem convert_fits {β : Type} [Element α] [Element β] {g copy : Grid} {buffer : Array α}
    {data : Array β} (fits : g.Fits buffer.size)
    (converted : g.convert buffer = .ok (.copy copy data)) : copy.Fits data.size := by
  unfold convert at converted
  dsimp only at converted
  by_cases same : Element.kind (α := α) = Element.kind (α := β)
  · simp [same] at converted
  by_cases refused : (!(Element.kind (α := α)).canCastTo (Element.kind (α := β))) = true
  · rw [if_neg same, if_pos refused] at converted
    cases converted
  rw [if_neg same, if_neg refused] at converted
  rcases g with ⟨shape, storage⟩
  cases storage with
  | flat =>
    obtain ⟨-, built⟩ := Word.reserve_bind_eq_ok.mp converted
    simp only [Outcome.pure_eq, Except.ok.injEq, Converted.copy.injEq] at built
    obtain ⟨rfl, rfl⟩ := built
    rw [fits_flat_iff, Array.size_map]
    exact fits
  | nested =>
    obtain ⟨-, converted⟩ := Word.reserve_bind_eq_ok.mp converted
    obtain ⟨-, built⟩ := Word.reserve_bind_eq_ok.mp converted
    simp only [Outcome.pure_eq, Except.ok.injEq, Converted.copy.injEq] at built
    obtain ⟨rfl, rfl⟩ := built
    exact ⟨fits.1, by rw [Array.size_map]; exact fits.2⟩
  | strided offset strides order =>
    dsimp only at converted
    split at converted
    · obtain ⟨xs, listed, afterList⟩ := Outcome.bind_eq_ok.mp converted
      obtain ⟨-, built⟩ := Word.reserve_bind_eq_ok.mp afterList
      simp only [Outcome.pure_eq, Except.ok.injEq, Converted.copy.injEq] at built
      obtain ⟨rfl, rfl⟩ := built
      rw [fits_flat_iff, List.size_toArray, List.length_map]
      exact fits.toList_length listed
    · obtain ⟨-, afterReserve⟩ := Word.reserve_bind_eq_ok.mp converted
      obtain ⟨out, wrapped, afterWrap⟩ := Outcome.bind_eq_ok.mp afterReserve
      obtain ⟨written, mapped, built⟩ := Outcome.bind_eq_ok.mp afterWrap
      split at built
      · cases built
      simp only [Outcome.pure_eq, Except.ok.injEq, Converted.copy.injEq] at built
      obtain ⟨rfl, rfl⟩ := built
      rw [mapInto_size mapped, Array.size_replicate]
      exact wrapStrided_fits wrapped (Word.isSigned_of_mem le_rfl (by unfold Word.signedMax; omega))

theorem shifted_fits [Element α] [Inhabited α] {g copy : Grid} {buffer data : Array α}
    {offsets : List Int} {condition : Boundary}
    (copied : g.shifted offsets condition buffer = .ok (copy, data)) : copy.Fits data.size := by
  unfold shifted at copied
  split at copied
  · cases copied
  · obtain ⟨tables, -, afterTables⟩ := Outcome.bind_eq_ok.mp copied
    obtain ⟨xs, -, built⟩ := Outcome.bind_eq_ok.mp afterTables
    exact fromFn_fits built

end Grid

end StridedGrid
