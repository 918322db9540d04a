import Mathlib
import StridedGrid.Proofs.Representation
import StridedGrid.Proofs.Outcome
import StridedGrid.Kernel.Copy

/-!
# Column-major walks

A column-major walk (`Traversal.columnWalk`) steps through the box with the successor `bump`,
keeping the buffer position as it goes: stepping axis `k` adds its stride, and an axis that
wraps round takes its span `stride * extent` off again before the next axis steps. Every axis
takes part, extent-one axes included, and the walk also steps once after its last element.

`WalkFits` says exactly when none of those additions leaves the signed word: for every axis,
its stride added to the position of any index whose earlier coordinates are zero, and its
span, are signed words. On an accepted view the walk visits the odometer's positions in order
when `WalkFits` holds, and overflows when it does not (`columnWalk_eq`,
`columnWalk_overflowed_iff`). `validateView` bounds the strides of the axes of extent above
one only, so `WalkFits` can fail on an accepted view through an extent-one axis with a large
stride.

The kernels that read or write a strided array in column-major order all run this walk, so
each of them stops with an overflow exactly when `WalkFits` fails.
-/

namespace StridedGrid

namespace Traversal

/-- Every step of the column-major walk over a view stays in the signed word: the first axis
stepped from any index of the box, the span of the first axis, and the walk over the other
axes with the first coordinate at zero. -/
def WalkFits : List Nat → List Int → Int → Prop
  | d :: dims, s :: strides, offset =>
    (∀ index ∈ odometer (d :: dims), Word.IsSigned (position offset (s :: strides) index + s)) ∧
      Word.IsSigned (s * d) ∧ WalkFits dims strides offset
  | _, _, _ => True

instance decidableWalkFits :
    (dims : List Nat) → (strides : List Int) → (offset : Int) →
      Decidable (WalkFits dims strides offset)
  | _ :: dims, _ :: strides, offset =>
    letI := decidableWalkFits dims strides offset
    inferInstanceAs (Decidable (_ ∧ _ ∧ _))
  | [], _, _ => isTrue trivial
  | _ :: _, [], _ => isTrue trivial

/-- One step of the walk from an index of the box moves to its successor, and the running
position follows the weighted index. -/
theorem advance_eq_some :
    ∀ {dims index next : List Nat} {strides : List Int} {pos nextPos : Int},
      InBox dims index → dims.length = strides.length →
      advance dims strides index pos = some (next, nextPos) →
      next = bump dims index ∧
        nextPos = pos - Extent.weighted index strides + Extent.weighted (bump dims index) strides
  | [], index, _, _, _, _, inBox, _, stepped => by
    rw [inBox_nil_iff.mp inBox] at stepped ⊢
    simp only [advance, Option.some.injEq, Prod.mk.injEq] at stepped
    obtain ⟨rfl, rfl⟩ := stepped
    simp [bump]
  | _ :: _, [], _, _, _, _, inBox, _, _ => absurd inBox inBox_cons_nil
  | _ :: _, _ :: _, _, [], _, _, _, lengths, _ => by simp at lengths
  | d :: dims, i :: index, next, s :: strides, pos, nextPos, inBox, lengths, stepped => by
    rw [inBox_cons_cons] at inBox
    simp only [advance] at stepped
    cases moved : Word.checked? (pos + s) with
    | none => simp [moved] at stepped
    | some moved' =>
      have : moved' = pos + s := by
        unfold Word.checked? at moved
        split at moved <;> simp_all
      subst this
      by_cases step : i + 1 < d
      · simp only [moved, step, if_true, Option.bind_eq_bind, Option.bind_some, pure,
          Option.some.injEq, Prod.mk.injEq] at stepped
        obtain ⟨rfl, rfl⟩ := stepped
        rw [bump_cons_of_lt step]
        simp only [weighted_cons_cons, true_and]
        push_cast
        ring
      · have last : i + 1 = d := by omega
        cases span : Word.checked? (s * d) with
        | none => simp [moved, step, span] at stepped
        | some span' =>
          have : span' = s * d := by
            unfold Word.checked? at span
            split at span <;> simp_all
          subst this
          cases back : Word.checked? (pos + s - s * d) with
          | none => simp [moved, step, span, back] at stepped
          | some back' =>
            have : back' = pos + s - s * d := by
              unfold Word.checked? at back
              split at back <;> simp_all
            subst this
            cases rest : advance dims strides index (pos + s - s * d) with
            | none => simp [moved, step, span, back, rest] at stepped
            | some result =>
              obtain ⟨restNext, restPos⟩ := result
              simp only [moved, step, span, back, rest, if_false, Option.bind_eq_bind,
                Option.bind_some, pure, Option.some.injEq, Prod.mk.injEq] at stepped
              obtain ⟨rfl, rfl⟩ := stepped
              obtain ⟨rfl, rfl⟩ :=
                advance_eq_some inBox.2 (by simpa using lengths) rest
              rw [bump_cons_of_last step]
              simp only [weighted_cons_cons, true_and]
              rw [← last]
              push_cast
              ring

/-- One step from an index of the box, unfolded one axis: the first stride is added, and an
axis at its last value also takes off its span and steps the remaining axes. -/
theorem advance_isSome_cons {d i : Nat} {dims index : List Nat} {s offset : Int}
    {strides : List Int} (below : i < d)
    (signedRest : Word.IsSigned (position offset strides index)) :
    (advance (d :: dims) (s :: strides) (i :: index)
        (position offset (s :: strides) (i :: index))).isSome ↔
      Word.IsSigned (position offset (s :: strides) (i :: index) + s) ∧
        (¬i + 1 < d → Word.IsSigned (s * d) ∧
          (advance dims strides index (position offset strides index)).isSome) := by
  have back : ¬i + 1 < d → position offset (s :: strides) (i :: index) + s - s * d =
      position offset strides index := by
    intro step
    have last : (i : Int) + 1 = d := by omega
    rw [position_cons_cons, ← last]
    ring
  generalize position offset (s :: strides) (i :: index) = pos at back ⊢
  simp only [advance]
  by_cases moved : Word.IsSigned (pos + s)
  · rw [Word.checked?_of_isSigned moved]
    by_cases step : i + 1 < d
    · simp [step, moved]
    · replace back := back step
      by_cases span : Word.IsSigned (s * d)
      · rw [Word.checked?_of_isSigned span]
        simp only [Option.bind_eq_bind, Option.bind_some, step, if_false, back,
          Word.checked?_of_isSigned signedRest, moved, span, true_and, not_false_eq_true,
          forall_const]
        cases advance dims strides index (position offset strides index) <;> simp
      · simp [Word.checked?_of_not_isSigned span, step, span]
  · simp [Word.checked?_of_not_isSigned moved, moved]

/-- The walk takes every step from every index of an accepted view exactly when `WalkFits`
holds. -/
theorem advance_isSome_iff_walkFits :
    ∀ {dims : List Nat} {strides : List Int} {offset : Int},
      (∀ d ∈ dims, 0 < d) → dims.length = strides.length →
      (∀ index, InBox dims index → Word.IsSigned (position offset strides index)) →
      ((∀ index, InBox dims index →
          (advance dims strides index (position offset strides index)).isSome) ↔
        WalkFits dims strides offset)
  | [], [], offset, _, _, _ => by
    simp only [inBox_nil_iff, forall_eq, WalkFits, iff_true]
    simp [advance]
  | d :: dims, s :: strides, offset, positive, lengths, signedPositions => by
    have restPositive : ∀ e ∈ dims, 0 < e := fun e mem => positive e (by simp [mem])
    have dPositive : 0 < d := positive d (by simp)
    have restSigned : ∀ index, InBox dims index →
        Word.IsSigned (position offset strides index) := by
      intro index inBox
      have := signedPositions (0 :: index) (by simpa using ⟨dPositive, inBox⟩)
      rwa [position_zero_cons] at this
    have ih := advance_isSome_iff_walkFits restPositive (by simpa using lengths) restSigned
    simp only [WalkFits]
    constructor
    · intro steps
      have lastRow : ∀ outer, InBox dims outer → Word.IsSigned (s * d) ∧
          (advance dims strides outer (position offset strides outer)).isSome := by
        intro outer inBox
        have := steps ((d - 1) :: outer) (by simpa using ⟨by omega, inBox⟩)
        rw [advance_isSome_cons (by omega) (restSigned outer inBox)] at this
        exact this.2 (by omega)
      refine ⟨fun index mem => ?_, (lastRow _ (zeros_inBox restPositive)).1,
        ih.mp fun outer inBox => (lastRow outer inBox).2⟩
      obtain ⟨i, outer, rfl⟩ : ∃ i outer, index = i :: outer := by
        cases index with
        | nil => simp [mem_odometer] at mem
        | cons i outer => exact ⟨i, outer, rfl⟩
      rw [mem_odometer, inBox_cons_cons] at mem
      have := steps (i :: outer) (by simpa using mem)
      exact ((advance_isSome_cons mem.1 (restSigned outer mem.2)).mp this).1
    · rintro ⟨moves, span, rest⟩ index inBox
      obtain ⟨i, outer, rfl⟩ : ∃ i outer, index = i :: outer := by
        cases index with
        | nil => simp at inBox
        | cons i outer => exact ⟨i, outer, rfl⟩
      rw [inBox_cons_cons] at inBox
      rw [advance_isSome_cons inBox.1 (restSigned outer inBox.2)]
      exact ⟨moves _ (mem_odometer.mpr (by simpa using inBox)),
        fun _ => ⟨span, ih.mpr rest outer inBox.2⟩⟩

/-- A walk whose every step succeeds visits the positions of the successors in order. -/
theorem walkFrom_eq_of_isSome {dims : List Nat} {strides : List Int} {offset : Int}
    (lengths : dims.length = strides.length) :
    ∀ (count : Nat) (index : List Nat), InBox dims index →
      (∀ step ∈ List.iterate (bump dims) index count,
        (advance dims strides step (position offset strides step)).isSome) →
      walkFrom dims strides count index (position offset strides index) =
        ⟨(List.iterate (bump dims) index count).map (position offset strides), false⟩
  | 0, _, _, _ => rfl
  | count + 1, index, inBox, steps => by
    obtain ⟨⟨next, nextPos⟩, stepped⟩ :=
      Option.isSome_iff_exists.mp (steps index (by simp [List.iterate]))
    obtain ⟨rfl, rfl⟩ := advance_eq_some inBox lengths stepped
    have nextPosition : position offset strides index - Extent.weighted index strides +
        Extent.weighted (bump dims index) strides = position offset strides (bump dims index) := by
      simp only [position]
      ring
    have rest := walkFrom_eq_of_isSome lengths count (bump dims index) inBox.bump
      (fun step mem => steps step (by simp only [List.iterate]; exact List.mem_cons_of_mem _ mem))
    simp only [walkFrom, stepped, nextPosition, rest, List.iterate, List.map_cons]

/-- A walk that does not overflow succeeded at every step. -/
theorem isSome_of_walkFrom {dims : List Nat} {strides : List Int} {offset : Int}
    (lengths : dims.length = strides.length) :
    ∀ (count : Nat) (index : List Nat), InBox dims index →
      (walkFrom dims strides count index (position offset strides index)).overflowed = false →
      ∀ step ∈ List.iterate (bump dims) index count,
        (advance dims strides step (position offset strides step)).isSome
  | 0, _, _, _ => by simp
  | count + 1, index, inBox, finished => by
    cases stepped : advance dims strides index (position offset strides index) with
    | none => simp [walkFrom, stepped] at finished
    | some result =>
      obtain ⟨next, nextPos⟩ := result
      obtain ⟨rfl, rfl⟩ := advance_eq_some inBox lengths stepped
      have nextPosition : position offset strides index - Extent.weighted index strides +
          Extent.weighted (bump dims index) strides =
            position offset strides (bump dims index) := by
        simp only [position]
        ring
      simp only [walkFrom, stepped, nextPosition] at finished
      intro step mem
      simp only [List.iterate, List.mem_cons] at mem
      rcases mem with rfl | later
      · simp [stepped]
      · exact isSome_of_walkFrom lengths count (bump dims index) inBox.bump finished step later

/-- On a view whose positions are signed words, the column-major walk visits the odometer's
positions in order when `WalkFits` holds. -/
theorem columnWalk_eq {dims : List Nat} {strides : List Int} {offset : Int}
    (positive : ∀ d ∈ dims, 0 < d) (lengths : dims.length = strides.length)
    (signedPositions : ∀ index, InBox dims index → Word.IsSigned (position offset strides index))
    (fits : WalkFits dims strides offset) :
    columnWalk dims strides offset = ⟨(odometer dims).map (position offset strides), false⟩ := by
  have steps := (advance_isSome_iff_walkFits positive lengths signedPositions).mpr fits
  have start : offset = position offset strides (List.replicate dims.length 0) := by
    simp [position]
  rw [columnWalk, List.map_const', start, walkFrom_eq_of_isSome lengths _ _ (zeros_inBox positive),
    ← odometer_eq_iterate_bump positive, ← start]
  intro step mem
  rw [← odometer_eq_iterate_bump positive, mem_odometer] at mem
  exact steps step mem

/-- On a view whose positions are signed words, the column-major walk overflows exactly when
`WalkFits` fails. -/
theorem columnWalk_overflowed_iff {dims : List Nat} {strides : List Int} {offset : Int}
    (positive : ∀ d ∈ dims, 0 < d) (lengths : dims.length = strides.length)
    (signedPositions : ∀ index, InBox dims index → Word.IsSigned (position offset strides index)) :
    (columnWalk dims strides offset).overflowed = true ↔ ¬WalkFits dims strides offset := by
  constructor
  · intro overflowed fits
    rw [columnWalk_eq positive lengths signedPositions fits] at overflowed
    cases overflowed
  · intro unfit
    by_contra finished
    rw [Bool.not_eq_true] at finished
    apply unfit
    rw [← advance_isSome_iff_walkFits positive lengths signedPositions]
    intro index inBox
    have start : offset = position offset strides (List.replicate dims.length 0) := by
      simp [position]
    rw [columnWalk, List.map_const', start] at finished
    apply isSome_of_walkFrom lengths _ _ (zeros_inBox positive) finished
    rw [← odometer_eq_iterate_bump positive, mem_odometer]
    exact inBox

end Traversal

namespace Grid

open Traversal

section Walks

variable {α : Type} {shape : Shape} {offset : Int} {strides : List Int} {order : Order}

/-- What the walk needs of a fitting strided grid: positive extents, one stride per axis and
signed positions. -/
theorem Fits.walk_conditions {size : Nat}
    (fits : (⟨shape, .strided offset strides order⟩ : Grid).Fits size) :
    (∀ d ∈ shape.dims, 0 < d) ∧ shape.dims.length = strides.length ∧
      ∀ index, InBox shape.dims index → Word.IsSigned (Traversal.position offset strides index) := by
  obtain ⟨lengths, -, inside⟩ := Layout.validateView_ok shape.extentsFit fits.1 fits.2
  exact ⟨fun d mem => (shape.extentsFit d mem).1, lengths,
    fun index inBox => (inside index inBox).2.2⟩

theorem listColumnMajor_strided_of_walkFits {buffer : Array α}
    (fits : (⟨shape, .strided offset strides order⟩ : Grid).Fits buffer.size)
    (walkFits : WalkFits shape.dims strides offset) :
    (⟨shape, .strided offset strides order⟩ : Grid).listColumnMajor buffer =
      .ok ((odometer shape.dims).filterMap fun index =>
        buffer[(Traversal.position offset strides index).toNat]?) := by
  obtain ⟨positive, lengths, signedPositions⟩ := fits.walk_conditions
  simp [listColumnMajor, dims, columnWalk_eq positive lengths signedPositions walkFits,
    List.filterMap_map]

theorem listColumnMajor_strided_of_not_walkFits {buffer : Array α}
    (fits : (⟨shape, .strided offset strides order⟩ : Grid).Fits buffer.size)
    (unfit : ¬WalkFits shape.dims strides offset) :
    (⟨shape, .strided offset strides order⟩ : Grid).listColumnMajor buffer =
      Outcome.panic .overflow := by
  obtain ⟨positive, lengths, signedPositions⟩ := fits.walk_conditions
  have overflowed := (columnWalk_overflowed_iff positive lengths signedPositions).mpr unfit
  simp [listColumnMajor, dims, overflowed]

/-- Writing a fitting strided grid in column-major order overflows exactly when its walk does
not fit. -/
theorem assignColumnMajor_strided_overflowed_iff {buffer : Array α}
    (fits : (⟨shape, .strided offset strides order⟩ : Grid).Fits buffer.size) (values : List α) :
    ((⟨shape, .strided offset strides order⟩ : Grid).assignColumnMajor values buffer).overflowed =
        true ↔ ¬WalkFits shape.dims strides offset := by
  obtain ⟨positive, lengths, signedPositions⟩ := fits.walk_conditions
  simp only [assignColumnMajor, dims]
  exact columnWalk_overflowed_iff positive lengths signedPositions

end Walks

section Copies

variable {α : Type} [Element α]

/-- A column-major copy reads the buffer once its room is reserved. -/
theorem toList_of_hasListingRoom {g : Grid} {buffer : Array α} (room : g.HasListingRoom buffer) :
    g.toList buffer = g.listColumnMajor buffer := by
  rw [toList, Word.reserve_of_reservable room, Outcome.ok_bind]

/-- A column-major copy whose room cannot be reserved stops before it reads anything. -/
theorem toList_of_not_hasListingRoom {g : Grid} {buffer : Array α}
    (full : ¬g.HasListingRoom buffer) : g.toList buffer = Outcome.panic .capacityOverflow := by
  rw [toList, Word.reserve_of_not_reservable full, Outcome.panic_bind]

/-- A column-major copy is the listing when its room can be reserved, and stops otherwise. -/
theorem toList_eq_ite (g : Grid) (buffer : Array α) :
    g.toList buffer =
      if g.HasListingRoom buffer then g.listColumnMajor buffer
      else Outcome.panic .capacityOverflow := by
  by_cases room : g.HasListingRoom buffer
  · rw [toList_of_hasListingRoom room, if_pos room]
  · rw [toList_of_not_hasListingRoom room, if_neg room]

/-- A fitting grid whose copy has room has room for one element per index. -/
theorem Fits.reservable_of_hasListingRoom {g : Grid} {buffer : Array α} (fits : g.Fits buffer.size)
    (room : g.HasListingRoom buffer) : Word.Reservable g.len (Element.byteSize α) := by
  rcases g with ⟨shape, storage⟩
  cases storage with
  | flat =>
    have filled : buffer.size = shape.len := fits
    simp only [HasListingRoom, listingRoom, filled] at room
    exact room
  | strided => exact room
  | nested =>
    have filled : buffer.size = shape.len := fits.2
    have positive : 0 < shape.len := Extent.count_pos shape.dims shape.valid.1
    -- the listing's room grows past the number of elements it holds
    have grown := Word.le_grownCapacity shape.len
      (lt_of_lt_of_le (Word.minCapacity_pos (Element.byteSize α)) (le_max_left _ (shape.dims.headD 0)))
    simp only [HasListingRoom, listingRoom, filled, Nat.pos_iff_ne_zero.mp positive, if_false,
      Word.Reservable] at room
    exact le_trans (Nat.mul_le_mul_right _ grown) room

theorem fromFn_of_reservable {shape : Shape} (f : List Nat → α)
    (room : Word.Reservable shape.len (Element.byteSize α)) :
    fromFn shape f = .ok (⟨shape, .flat⟩, ((columnIndices shape.dims).map f).toArray) := by
  rw [fromFn, Word.reserve_of_reservable room, Outcome.ok_bind, Outcome.pure_eq]

theorem fromFn_of_not_reservable {shape : Shape} (f : List Nat → α)
    (full : ¬Word.Reservable shape.len (Element.byteSize α)) :
    fromFn shape f = Outcome.panic .capacityOverflow := by
  rw [fromFn, Word.reserve_of_not_reservable full, Outcome.panic_bind]

/-- A column-major copy that succeeded had its room and read the buffer. -/
theorem listColumnMajor_of_toList {g : Grid} {buffer : Array α} {xs : List α}
    (listed : g.toList buffer = .ok xs) :
    g.HasListingRoom buffer ∧ g.listColumnMajor buffer = .ok xs :=
  Word.reserve_bind_eq_ok.mp listed

/-- On its snapshot route `mapInto` copies the source out first and writes the copy through the
destination's column-major walk. -/
theorem mapInto_of_snapshot {σ δ : Type} [Element σ] {dest source : Grid} {shared : Bool}
    {f : σ → δ} {destBuffer : Array δ} {sourceBuffer : Array σ} (sameDims : dest.dims = source.dims)
    (snapshot : dest.descriptor? = none ∨ source.descriptor? = none ∨ shared = true) :
    mapInto dest source shared f destBuffer sourceBuffer =
      source.toList sourceBuffer >>= fun xs => pure (dest.assignColumnMajor (xs.map f) destBuffer) := by
  have ensured : dest.shape.ensureSame source.shape = .ok () := if_pos sameDims
  simp only [mapInto, ensured, Outcome.ofExcept_ok, Outcome.ok_bind]
  split
  · simp_all
  · rfl

theorem fillFromFn_of_reservable {g : Grid} {buffer : Array α} (f : List Nat → α)
    (room : Word.Reservable g.len (Element.byteSize α)) :
    g.fillFromFn f buffer = .ok (g.assignColumnMajor ((columnIndices g.dims).map f) buffer) := by
  rw [fillFromFn, Word.reserve_of_reservable room, Outcome.ok_bind, Outcome.pure_eq]

theorem fillFromFn_of_not_reservable {g : Grid} {buffer : Array α} (f : List Nat → α)
    (full : ¬Word.Reservable g.len (Element.byteSize α)) :
    g.fillFromFn f buffer = Outcome.panic .capacityOverflow := by
  rw [fillFromFn, Word.reserve_of_not_reservable full, Outcome.panic_bind]

variable {shape : Shape} {offset : Int} {strides : List Int} {order : Order}

/-- A strided grid's copy needs room for one element per index. -/
theorem hasListingRoom_strided {buffer : Array α} :
    (⟨shape, .strided offset strides order⟩ : Grid).HasListingRoom buffer ↔
      Word.Reservable shape.len (Element.byteSize α) :=
  Iff.rfl

/-- Copying a fitting strided grid out in column-major order overflows exactly when room for the
copy is reserved and the walk does not fit. -/
theorem toList_strided_eq_overflow_iff {buffer : Array α}
    (fits : (⟨shape, .strided offset strides order⟩ : Grid).Fits buffer.size) :
    (⟨shape, .strided offset strides order⟩ : Grid).toList buffer = Outcome.panic .overflow ↔
      Word.Reservable shape.len (Element.byteSize α) ∧ ¬WalkFits shape.dims strides offset := by
  by_cases room : Word.Reservable shape.len (Element.byteSize α)
  · rw [toList_of_hasListingRoom (hasListingRoom_strided.mpr room)]
    by_cases walkFits : WalkFits shape.dims strides offset
    · simp [listColumnMajor_strided_of_walkFits fits walkFits, walkFits, Outcome.panic]
    · simp [listColumnMajor_strided_of_not_walkFits fits walkFits, walkFits, room]
  · rw [toList_of_not_hasListingRoom (mt hasListingRoom_strided.mp room)]
    simp [room, Outcome.panic]

/-- The column-major kernels on a fitting strided array stop with an overflow of its walk
exactly when the room they reserve for its elements was granted and the walk does not fit. -/
theorem columnMajor_kernels_overflow_iff [Inhabited α] {buffer : Array α}
    (fits : (⟨shape, .strided offset strides order⟩ : Grid).Fits buffer.size) :
    let g : Grid := ⟨shape, .strided offset strides order⟩
    let unfit := ¬WalkFits shape.dims strides offset
    let overflows := Word.Reservable shape.len (Element.byteSize α) ∧ unfit
    (g.toList buffer = Outcome.panic .overflow ↔ overflows) ∧
    (g.flatten true buffer = Outcome.panic .overflow ↔ overflows) ∧
    (g.toFlat buffer = Outcome.panic .overflow ↔ overflows) ∧
    (g.toNested buffer = Outcome.panic .overflow ↔ overflows) ∧
    (∀ {β : Type} [Element β], order = .columnMajor →
      Element.kind (α := α) ≠ Element.kind (α := β) →
      (Element.kind (α := α)).canCastTo (Element.kind (α := β)) = true →
      ((g.convert buffer : Outcome (Converted β)) = Outcome.panic .overflow ↔ overflows)) ∧
    (∀ (offsets : List Int) (condition : Boundary) (tables : List (List Nat)),
      offsets.length = g.rank →
      (g.dims.zip offsets).mapM (fun axis => condition.buildIndex axis.1 axis.2) = .ok tables →
      (g.shifted offsets condition buffer = Outcome.panic .overflow ↔ overflows)) ∧
    (∀ f : List Nat → α, Written.overflowed <$> g.fillFromFn f buffer = .ok true ↔ overflows) ∧
    (∀ values : List α, (g.assignColumnMajor values buffer).overflowed = true ↔ unfit) ∧
    (∀ {δ : Type} (dest : Grid) (destBuffer : Array δ) (shared : Bool) (f : α → δ),
      dest.shape = shape → (dest.descriptor? = none ∨ shared = true) →
      (Grid.mapInto dest g shared f destBuffer buffer = Outcome.panic .overflow ↔ overflows)) ∧
    (∀ {σ : Type} [Element σ] (source : Grid) (sourceBuffer : Array σ) (shared : Bool)
      (f : σ → α) (xs : List σ), source.shape = shape →
      (source.descriptor? = none ∨ shared = true) → source.toList sourceBuffer = .ok xs →
      (Written.overflowed <$> Grid.mapInto g source shared f buffer sourceBuffer = .ok true ↔
        unfit)) := by
  intro g unfit overflows
  have listing := toList_strided_eq_overflow_iff fits
  have copied : ∀ {β : Type} (k : List α → Outcome β), (∀ xs, k xs ≠ Outcome.panic .overflow) →
      (g.toList buffer >>= k = Outcome.panic .overflow ↔ overflows) :=
    fun k never => (Outcome.bind_eq_panic_iff never).trans listing
  have reserved : ∀ {β : Type} {count size : Nat} {k : Unit → Outcome β},
      k () ≠ Outcome.panic .overflow → Word.reserve count size >>= k ≠ Outcome.panic .overflow :=
    Word.reserve_bind_ne_panic (by decide)
  have dims : g.dims = shape.dims := rfl
  refine ⟨listing, ?_, ?_, ?_, ?_, ?_, ?_, ?_, ?_, ?_⟩
  · simpa [flatten, Outcome.map_eq_panic_iff] using listing
  · exact copied _ fun _ => by simp [Outcome.panic]
  · cases rows : shape.dims with
    | nil =>
      simp [toNested, dims, rows, overflows, unfit, WalkFits, Outcome.panic, Outcome.reject]
    | cons rowLen rest =>
      simp only [toNested, dims, rows, Outcome.pure_eq, Outcome.ok_bind]
      exact copied _ fun _ => reserved Outcome.ofExcept_ne_panic
  · intro β _ columnMajor differ castable
    subst columnMajor
    have storage : g.storage = .strided offset strides .columnMajor := rfl
    simp only [convert, differ, castable, storage, Bool.not_true, Bool.false_eq_true, if_false,
      if_true]
    exact copied _ fun _ => reserved (by simp [Outcome.panic])
  · intro offsets condition tables ranks built
    simp only [shifted, ranks, ne_eq, not_true_eq_false, if_false]
    rw [built, Outcome.ok_bind]
    exact copied _ fun _ => reserved (by simp [Outcome.panic])
  · intro f
    by_cases room : Word.Reservable shape.len (Element.byteSize α)
    · rw [fillFromFn_of_reservable (g := g) f room]
      simp only [Functor.map, Except.map, Except.ok.injEq, overflows, room, true_and]
      exact assignColumnMajor_strided_overflowed_iff fits _
    · rw [fillFromFn_of_not_reservable (g := g) f room]
      simp [Functor.map, Except.map, Outcome.panic, overflows, room]
  · exact assignColumnMajor_strided_overflowed_iff fits
  · intro δ dest destBuffer shared f sameShape snapshot
    rw [mapInto_of_snapshot (congrArg Shape.dims sameShape) (snapshot.elim .inl (.inr ∘ .inr))]
    exact copied _ fun _ => by simp [Outcome.panic]
  · intro σ _ source sourceBuffer shared f xs sameShape snapshot listed
    rw [mapInto_of_snapshot (congrArg Shape.dims sameShape.symm) (.inr (snapshot.elim .inl .inr)),
      listed]
    simpa [Functor.map, Except.map] using assignColumnMajor_strided_overflowed_iff fits _

/-- A valid view whose second axis has one element and the largest signed stride: the walk
steps that axis past the last element, so the copies of the array overflow. -/
theorem columnMajor_kernels_overflow_past_unit_axis :
    let g : Grid := ⟨⟨[2, 1], by decide⟩, .strided 1 [1, 9223372036854775807] .columnMajor⟩
    g.Fits #[(1 : Float), 2, 3].size ∧
      g.toFlat #[(1 : Float), 2, 3] = Outcome.panic .overflow ∧
      g.toNested #[(1 : Float), 2, 3] = Outcome.panic .overflow := by
  intro g
  have fits : g.Fits #[(1 : Float), 2, 3].size := ⟨by decide, by rfl⟩
  have kernels := columnMajor_kernels_overflow_iff fits
  have overflows : Word.Reservable 2 (Element.byteSize Float) ∧
      ¬WalkFits [2, 1] [1, 9223372036854775807] 1 := by decide
  exact ⟨fits, kernels.2.2.1.mpr overflows, kernels.2.2.2.1.mpr overflows⟩

/-- The same array listed element by element: a view accepted against its buffer whose
column-major listing panics. -/
theorem toList_overflows_past_unit_axis :
    let g : Grid := ⟨⟨[2, 1], by decide⟩, .strided 1 [1, 9223372036854775807] .columnMajor⟩
    g.Fits #[(1 : Float), 2, 3].size ∧ g.toList #[(1 : Float), 2, 3] = Outcome.panic .overflow := by
  intro g
  have fits : g.Fits #[(1 : Float), 2, 3].size := ⟨by decide, by rfl⟩
  exact ⟨fits, (toList_strided_eq_overflow_iff fits).mpr (by decide)⟩

end Copies

end Grid

end StridedGrid
