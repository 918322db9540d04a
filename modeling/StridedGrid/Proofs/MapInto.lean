import Mathlib
import StridedGrid.Proofs.WriteKernels

/-!
# Mapping one array into another

`mapInto` writes `f` of each source element into the destination element at the same index, and
refuses arrays of different shapes. It takes one of two routes. When both arrays have offsets and
strides and read different buffers, one loop nest walks both in the destination's traversal
order. Otherwise the source is listed first, in column-major order, and the list is written
through the destination's column-major walk. Either way it is the loop
`for i in order: dest.set i (f (source.get i))` (`mapEach`) in the route's order (`writeOrder`),
with the source read as it was before the call, as long as the route can be taken (`Routable`):
the nest route needs a walk of each flat operand that stays in signed words, which a view's reach
bound gives it, and the snapshot route room for the copy of the source. A destination that shares
the source's buffer therefore sees the old source.

So each cell of the destination ends holding `f` of the source element at the last index written
to it, and every other cell keeps its value (`mapInto_writes_last`). A destination whose elements
sit in distinct cells ends holding `f` of the source at every index, whichever route was taken.
-/

namespace StridedGrid

namespace Shape

theorem ensureSame_of_dims_eq {s t : Shape} (same : s.dims = t.dims) : s.ensureSame t = .ok () :=
  if_pos same

theorem ensureSame_of_dims_ne {s t : Shape} (differ : s.dims ≠ t.dims) :
    s.ensureSame t = .error (.nonConformableShape s.dims t.dims) :=
  if_neg differ

end Shape

namespace Traversal

/-- One loop per axis in axis order is the odometer. -/
theorem loopIndices_range (dims : List Nat) :
    loopIndices dims (List.range dims.length) = odometer dims := by
  have extents : (List.range dims.length).map (fun a => dims.getD a 1) = dims :=
    List.ext_getElem (by simp) fun i _ below => by simp [below]
  rw [loopIndices_eq_map_alongAxes, extents]
  refine (List.map_congr_left fun coords mem => ?_).trans (List.map_id _)
  have length := length_odometer_mem mem
  apply List.ext_getElem (by simp [length])
  intro i below _
  have place : (List.range dims.length).idxOf i = i := by
    have := List.Nodup.idxOf_getElem List.nodup_range i (by simpa using below)
    simpa using this
  have inside : i < coords.length := by simpa [length] using below
  simp [alongAxes, place, List.getD_eq_getElem?_getD, List.getElem?_eq_getElem inside]

end Traversal

namespace Grid

open Traversal

variable {σ δ : Type}

/-- The order in which `mapInto` writes the destination's indices: the destination's traversal
when both arrays have offsets and strides over distinct buffers, column-major order otherwise. -/
def writeOrder (dest source : Grid) (shared : Bool) : List (List Nat) :=
  match dest.descriptor?, source.descriptor?, shared with
  | some _, some _, false => dest.traversal
  | _, _, _ => odometer dest.dims

/-- The loop `for index in order: dest.set index (f (source.get index))`, stopping at the first
failure; the source is read from its buffer as it was before the loop. -/
def mapEach (dest source : Grid) (f : σ → δ) (order : List (List Nat)) (destBuffer : Array δ)
    (sourceBuffer : Array σ) : Outcome (Array δ) :=
  order.foldlM (fun b index => do dest.set b index (f (← source.get sourceBuffer index))) destBuffer

theorem mem_writeOrder {dest source : Grid} {shared : Bool} {index : List Nat} :
    index ∈ writeOrder dest source shared ↔ InBox dest.dims index := by
  unfold writeOrder
  split
  · exact mem_traversal
  · exact mem_odometer

/-- The writes of `f` of the source's cells at the destination's cells, in a given order of
indices. -/
def mappedWrites (dest source : Grid) (f : σ → δ) (sourceBuffer : Array σ)
    (order : List (List Nat)) : List (Nat × δ) :=
  order.filterMap fun index => (sourceBuffer[source.slot index]?).map fun x => (dest.slot index, f x)

theorem fst_of_mem_mappedWrites {dest source : Grid} {f : σ → δ} {sourceBuffer : Array σ}
    {order : List (List Nat)} {w : Nat × δ} (mem : w ∈ mappedWrites dest source f sourceBuffer order) :
    ∃ index ∈ order, dest.slot index = w.1 := by
  rcases List.mem_filterMap.mp mem with ⟨index, member, written⟩
  rcases Option.map_eq_some_iff.mp written with ⟨x, -, rfl⟩
  exact ⟨index, member, rfl⟩

/-- What `mapInto` needs to write every element of arrays of one shape: on the nest route, each
flat operand's walk through its descriptor stays in signed words; on the snapshot route, the
column-major copy of the source can be reserved. -/
def Routable [Element σ] (dest source : Grid) (shared : Bool) (sourceBuffer : Array σ) : Prop :=
  match dest.descriptor?, source.descriptor?, shared with
  | some d, some s, false =>
    (dest.storage = .flat → Walkable dest.dims d) ∧ (source.storage = .flat → Walkable source.dims s)
  | _, _, _ => source.HasListingRoom sourceBuffer

theorem nodup_writeOrder (dest source : Grid) (shared : Bool) :
    (writeOrder dest source shared).Nodup := by
  unfold writeOrder
  split
  · exact nodup_traversal dest
  · exact nodup_odometer _

section Arrays

variable {dest source : Grid} {destBuffer : Array δ} {sourceBuffer : Array σ}

/-- Reading and writing indices of both boxes one after another writes `f` of the source's cells
at the destination's. -/
theorem mapEach_eq (f : σ → δ) (sourceFits : source.Fits sourceBuffer.size)
    (order : List (List Nat)) :
    ∀ (destBuffer : Array δ), dest.Fits destBuffer.size →
      (∀ index ∈ order, InBox dest.dims index ∧ InBox source.dims index) →
      mapEach dest source f order destBuffer sourceBuffer =
        .ok (writeAll destBuffer (mappedWrites dest source f sourceBuffer order)) := by
  induction order with
  | nil => intro destBuffer _ _; rfl
  | cons index order ih =>
    intro destBuffer destFits inBoxes
    rcases inBoxes index (.head _) with ⟨inDest, inSource⟩
    rcases get_ok sourceFits inSource with ⟨x, cell, read⟩
    have fitsNext : dest.Fits (destBuffer.set! (dest.slot index) (f x)).size := by simpa using destFits
    have rest := ih _ fitsNext fun index' mem => inBoxes index' (.tail _ mem)
    simp only [mapEach, mappedWrites, List.foldlM_cons, List.filterMap_cons, read, cell, bind,
      Except.bind, set_ok destFits inDest, Option.map_some] at rest ⊢
    exact rest

/-- Reading a listing of the source in column-major order pairs each index with its cell. -/
theorem zip_map_eq_mappedWrites (f : σ → δ) {order : List (List Nat)} {xs : List σ}
    (listed : List.Forall₂ (fun index x => sourceBuffer[source.slot index]? = some x) order xs) :
    (order.zip (xs.map f)).map (fun w => (dest.slot w.1, w.2)) =
      mappedWrites dest source f sourceBuffer order := by
  induction listed with
  | nil => rfl
  | cons head _ ih =>
    simp only [List.map_cons, List.zip_cons_cons, mappedWrites, List.filterMap_cons, head,
      Option.map_some] at ih ⊢
    rw [ih]

/-- What the loop nest needs of an array with offsets and strides: one stride per axis, and a
walkable descriptor, which a view's reach bound gives it. -/
theorem walkable_of_descriptor {g : Grid} {size : Nat} (fits : g.Fits size) (bounded : g.Bounded)
    {offset : Int} {strides : List Int}
    (flatWalkable : g.storage = .flat → Walkable g.dims (offset, strides))
    (described : g.descriptor? = some (offset, strides)) :
    strides.length = g.dims.length ∧ Walkable g.dims (offset, strides) := by
  rcases g with ⟨shape, storage⟩
  cases storage with
  | flat =>
    simp only [descriptor?, Option.some.injEq, Prod.mk.injEq] at described
    rcases described with ⟨rfl, rfl⟩
    exact ⟨Shape.length_colMajorStrides shape, flatWalkable rfl⟩
  | strided o s order =>
    simp only [descriptor?, Option.some.injEq, Prod.mk.injEq] at described
    rcases described with ⟨rfl, rfl⟩
    exact ⟨(Layout.validateView_ok shape.extentsFit fits.1 fits.2).1.symm, Or.inl bounded⟩
  | nested => simp [descriptor?] at described

/-- The destination's loop order on the nest route is its traversal. -/
theorem traversal_of_descriptor {g : Grid} {offset : Int} {strides : List Int}
    (described : g.descriptor? = some (offset, strides)) :
    loopIndices g.dims (loopOrder g.dims.length strides g.order) = g.traversal := by
  rcases g with ⟨shape, storage⟩
  cases storage with
  | flat =>
    simp only [descriptor?, Option.some.injEq, Prod.mk.injEq] at described
    rcases described with ⟨rfl, rfl⟩
    exact loopIndices_range _
  | strided o s order =>
    simp only [descriptor?, Option.some.injEq, Prod.mk.injEq] at described
    rcases described with ⟨rfl, rfl⟩
    rfl
  | nested => simp [descriptor?] at described

theorem mapInto_of_dims_ne [Element σ] (shared : Bool) (f : σ → δ) (differ : dest.dims ≠ source.dims) :
    mapInto dest source shared f destBuffer sourceBuffer =
      Outcome.reject (.nonConformableShape dest.dims source.dims) := by
  simp only [mapInto, Shape.ensureSame_of_dims_ne differ, Outcome.ofExcept_error,
    Outcome.reject_bind]
  rfl

/-- On the nest route `mapInto` walks both arrays with one loop nest and writes `f` of the
source's cells the walk reaches, stopping at an overflow of the walk. -/
theorem mapInto_of_nest [Element σ] {dOffset sOffset : Int} {dStrides sStrides : List Int}
    (f : σ → δ) (sameDims : dest.dims = source.dims)
    (destDescribed : dest.descriptor? = some (dOffset, dStrides))
    (sourceDescribed : source.descriptor? = some (sOffset, sStrides)) :
    mapInto dest source false f destBuffer sourceBuffer =
      let walk := LoopNest.walk dest.dims dest.order [(dOffset, dStrides), (sOffset, sStrides)] true
      .ok ⟨writeAll destBuffer (walk.calls.filterMap fun p =>
        (sourceBuffer[(p.getD 1 0).toNat]?).map fun x => ((p.headD 0).toNat, f x)),
        walk.overflowed⟩ := by
  simp only [mapInto, Shape.ensureSame_of_dims_eq sameDims, Outcome.ofExcept_ok, Outcome.ok_bind,
    destDescribed, sourceDescribed]
  rfl

/-- A cell that no index of the order names keeps its value. -/
theorem getElem?_writeAll_mappedWrites_of_unwritten (f : σ → δ) {order : List (List Nat)} {p : Nat}
    (unwritten : ∀ index ∈ order, dest.slot index ≠ p) :
    (writeAll destBuffer (mappedWrites dest source f sourceBuffer order))[p]? = destBuffer[p]? := by
  apply getElem?_writeAll_of_unwritten
  intro w mem
  rcases fst_of_mem_mappedWrites mem with ⟨index, member, named⟩
  rw [← named]
  exact unwritten index member

/-- The last index of the order at a cell decides what the cell holds: `f` of the source's
element at that index. -/
theorem getElem?_writeAll_mappedWrites_last (f : σ → δ) (destFits : dest.Fits destBuffer.size)
    (sourceFits : source.Fits sourceBuffer.size) {order : List (List Nat)}
    (inBoxes : ∀ index ∈ order, InBox dest.dims index ∧ InBox source.dims index)
    {before after : List (List Nat)} {index : List Nat} (split : order = before ++ index :: after)
    (last : ∀ j ∈ after, dest.slot j ≠ dest.slot index) :
    ∃ x, source.get sourceBuffer index = .ok x ∧
      (writeAll destBuffer (mappedWrites dest source f sourceBuffer order))[dest.slot index]? =
        some (f x) := by
  rcases inBoxes index (by simp [split]) with ⟨inDest, inSource⟩
  rcases get_ok sourceFits inSource with ⟨x, cell, read⟩
  have later : ∀ w ∈ mappedWrites dest source f sourceBuffer after, w.1 ≠ dest.slot index := by
    intro w mem
    rcases fst_of_mem_mappedWrites mem with ⟨j, member, named⟩
    rw [← named]
    exact last j member
  have written : lastWrite (mappedWrites dest source f sourceBuffer order) (dest.slot index) =
      some (f x) := by
    rw [split, mappedWrites, List.filterMap_append, List.filterMap_cons, cell, Option.map_some]
    exact lastWrite_append_cons _ (f x) later
  refine ⟨x, read, ?_⟩
  rw [getElem?_writeAll, written, Array.getElem?_eq_getElem (destFits.slot_lt inDest)]
  rfl

section Unaliased

variable (f : σ → δ) (destFits : dest.Fits destBuffer.size)
  (sourceFits : source.Fits sourceBuffer.size) (unaliased : dest.Unaliased)
include destFits sourceFits unaliased

/-- On an unaliased destination every index of an order naming none twice is the last at its
cell. -/
theorem getElem?_writeAll_mappedWrites_of_unaliased {order : List (List Nat)}
    (nodup : order.Nodup) (inBoxes : ∀ index ∈ order, InBox dest.dims index ∧ InBox source.dims index)
    {index : List Nat} (mem : index ∈ order) :
    ∃ x, source.get sourceBuffer index = .ok x ∧
      (writeAll destBuffer (mappedWrites dest source f sourceBuffer order))[dest.slot index]? =
        some (f x) := by
  rcases List.append_of_mem mem with ⟨before, after, split⟩
  have once : index ∉ after := by
    rw [split] at nodup
    exact (List.nodup_cons.mp (List.nodup_append.mp nodup).2.1).1
  apply getElem?_writeAll_mappedWrites_last f destFits sourceFits inBoxes split
  intro j member same
  have other : j ≠ index := fun equal => once (equal ▸ member)
  exact other (unaliased (inBoxes j (by simp [split, member])).1 (inBoxes index mem).1 same)

/-- On an unaliased destination the order of the writes does not matter: any two orders of the
box that name no index twice write the same buffer. -/
theorem writeAll_mappedWrites_congr (sameDims : dest.dims = source.dims)
    {order order' : List (List Nat)} (nodup : order.Nodup) (nodup' : order'.Nodup)
    (box : ∀ index, index ∈ order ↔ InBox dest.dims index)
    (box' : ∀ index, index ∈ order' ↔ InBox dest.dims index) :
    writeAll destBuffer (mappedWrites dest source f sourceBuffer order) =
      writeAll destBuffer (mappedWrites dest source f sourceBuffer order') := by
  have inBoxes : ∀ index, InBox dest.dims index → InBox dest.dims index ∧ InBox source.dims index :=
    fun index inBox => ⟨inBox, sameDims ▸ inBox⟩
  apply Array.ext_getElem?
  intro p
  by_cases named : ∃ index, InBox dest.dims index ∧ dest.slot index = p
  · rcases named with ⟨index, inBox, rfl⟩
    rcases getElem?_writeAll_mappedWrites_of_unaliased f destFits sourceFits unaliased nodup
      (fun j mem => inBoxes j ((box j).mp mem)) ((box index).mpr inBox) with ⟨x, read, cell⟩
    rcases getElem?_writeAll_mappedWrites_of_unaliased f destFits sourceFits unaliased nodup'
      (fun j mem => inBoxes j ((box' j).mp mem)) ((box' index).mpr inBox) with ⟨y, read', cell'⟩
    rw [read, Except.ok.injEq] at read'
    rw [cell, cell', read']
  · have unwritten : ∀ order : List (List Nat), (∀ index, index ∈ order ↔ InBox dest.dims index) →
        ∀ index ∈ order, dest.slot index ≠ p :=
      fun _ box index mem equal => named ⟨index, (box index).mp mem, equal⟩
    rw [getElem?_writeAll_mappedWrites_of_unwritten f (unwritten order box),
      getElem?_writeAll_mappedWrites_of_unwritten f (unwritten order' box')]

end Unaliased

/-- On the nest route, a walk that visits the destination's traversal handing both arrays their
positions makes `mapInto` write `f` of the source's cells at the destination's in that order. -/
theorem mapInto_eq_of_walk [Element σ] {dOffset sOffset : Int} {dStrides sStrides : List Int}
    (f : σ → δ)
    (sameDims : dest.dims = source.dims)
    (destDescribed : dest.descriptor? = some (dOffset, dStrides))
    (sourceDescribed : source.descriptor? = some (sOffset, sStrides))
    (walked : LoopNest.walk dest.dims dest.order [(dOffset, dStrides), (sOffset, sStrides)] true =
      ⟨(loopIndices dest.dims (loopOrder dest.dims.length dStrides dest.order)).map fun index =>
        [Traversal.position dOffset dStrides index, Traversal.position sOffset sStrides index],
        false⟩) :
    mapInto dest source false f destBuffer sourceBuffer =
      .ok ⟨writeAll destBuffer
        (mappedWrites dest source f sourceBuffer (writeOrder dest source false)), false⟩ := by
  rw [mapInto_of_nest f sameDims destDescribed sourceDescribed]
  simp only [writeOrder, destDescribed, sourceDescribed]
  rw [← traversal_of_descriptor destDescribed]
  simp only [walked, mappedWrites, List.filterMap_map, slot,
    position_of_descriptor destDescribed, position_of_descriptor sourceDescribed]
  rfl

variable [Element σ] (destFits : dest.Fits destBuffer.size)
  (sourceFits : source.Fits sourceBuffer.size) (destBounded : dest.Bounded)
  (sourceBounded : source.Bounded)
include destFits sourceFits destBounded sourceBounded

/-- On the snapshot route, with room for the copy of the source, `mapInto` writes `f` of the
source's cells, listed in column-major order, through the destination's column-major walk. -/
theorem mapInto_eq_of_snapshot (shared : Bool) (f : σ → δ) (sameDims : dest.dims = source.dims)
    (snapshot : dest.descriptor? = none ∨ source.descriptor? = none ∨ shared = true)
    (room : source.HasListingRoom sourceBuffer) :
    mapInto dest source shared f destBuffer sourceBuffer =
      .ok ⟨writeAll destBuffer (mappedWrites dest source f sourceBuffer (odometer dest.dims)),
        false⟩ := by
  rcases sourceFits.listColumnMajor_forall₂ sourceBounded with ⟨xs, listed, pairs⟩
  rw [← sameDims] at pairs
  rw [mapInto_of_snapshot sameDims snapshot, toList_of_hasListingRoom room, listed,
    Outcome.ok_bind, Outcome.pure_eq, assignColumnMajor_eq destFits destBounded,
    zip_map_eq_mappedWrites f pairs]

/-- Arrays of one shape on a route that can be taken: `mapInto` writes `f` of the source's cells
at the destination's, in its write order, and never overflows. -/
theorem mapInto_eq (shared : Bool) (f : σ → δ) (sameDims : dest.dims = source.dims)
    (routable : Routable dest source shared sourceBuffer) :
    mapInto dest source shared f destBuffer sourceBuffer =
      .ok ⟨writeAll destBuffer
        (mappedWrites dest source f sourceBuffer (writeOrder dest source shared)), false⟩ := by
  have snapshot := mapInto_eq_of_snapshot destFits sourceFits destBounded sourceBounded shared f
    sameDims
  rcases destDescribed : dest.descriptor? with _ | ⟨dOffset, dStrides⟩
  · simp only [writeOrder, Routable, destDescribed] at routable ⊢
    exact snapshot (.inl destDescribed) routable
  rcases sourceDescribed : source.descriptor? with _ | ⟨sOffset, sStrides⟩
  · simp only [writeOrder, Routable, destDescribed, sourceDescribed] at routable ⊢
    exact snapshot (.inr (.inl sourceDescribed)) routable
  cases shared with
  | true =>
    simp only [writeOrder, Routable, destDescribed, sourceDescribed] at routable ⊢
    exact snapshot (.inr (.inr rfl)) routable
  | false =>
    simp only [Routable, destDescribed, sourceDescribed] at routable
    rcases walkable_of_descriptor destFits destBounded routable.1 destDescribed with
      ⟨destLengths, destWalkable⟩
    rcases walkable_of_descriptor sourceFits sourceBounded routable.2 sourceDescribed with
      ⟨sourceLengths, sourceWalkable⟩
    rw [← sameDims] at sourceLengths sourceWalkable
    have walked := LoopNest.walk_eq_of_walkable dest.shape dest.order true
      [(dOffset, dStrides), (sOffset, sStrides)]
      (by simpa [dims] using And.intro destLengths sourceLengths)
      (by simpa [dims] using And.intro destWalkable sourceWalkable)
      (by intro stepped; cases stepped)
    simp only [List.head?_cons, Option.map_some, Option.getD_some, List.map_cons,
      List.map_nil] at walked
    exact mapInto_eq_of_walk f sameDims destDescribed sourceDescribed walked

end Arrays

/-- `mapInto` refuses arrays of different shapes. Of one shape, on a route that can be taken, it is
the loop of single writes in its write order over the source as it was, so each cell holds `f` of
the last index naming it; the snapshot route without room for the source's copy stops. -/
theorem mapInto_writes_last [Element σ] (dest source : Grid) (shared : Bool) (f : σ → δ)
    (destBuffer : Array δ) (sourceBuffer : Array σ)
    (destFits : dest.Fits destBuffer.size) (sourceFits : source.Fits sourceBuffer.size)
    (destBounded : dest.Bounded) (sourceBounded : source.Bounded) :
    (dest.dims ≠ source.dims →
      mapInto dest source shared f destBuffer sourceBuffer =
        Outcome.reject (.nonConformableShape dest.dims source.dims)) ∧
    (dest.dims = source.dims →
      (dest.descriptor? = none ∨ source.descriptor? = none ∨ shared = true) →
      ¬source.HasListingRoom sourceBuffer →
      mapInto dest source shared f destBuffer sourceBuffer = Outcome.panic .capacityOverflow) ∧
    (dest.dims = source.dims → Routable dest source shared sourceBuffer →
      ∃ b, mapEach dest source f (writeOrder dest source shared) destBuffer sourceBuffer = .ok b ∧
        mapInto dest source shared f destBuffer sourceBuffer = .ok ⟨b, false⟩ ∧
        (∀ before index after, writeOrder dest source shared = before ++ index :: after →
          (∀ j ∈ after, dest.slot j ≠ dest.slot index) →
          ∃ x, source.get sourceBuffer index = .ok x ∧ b[dest.slot index]? = some (f x)) ∧
        (∀ p, (∀ index, InBox dest.dims index → dest.slot index ≠ p) → b[p]? = destBuffer[p]?) ∧
        (dest.Unaliased →
          (∀ index, InBox dest.dims index →
            dest.get b index = f <$> source.get sourceBuffer index) ∧
          ∀ shared', Routable dest source shared' sourceBuffer →
            mapInto dest source shared' f destBuffer sourceBuffer = .ok ⟨b, false⟩)) := by
  refine ⟨mapInto_of_dims_ne shared f, fun sameDims snapshot full => ?_,
    fun sameDims routable => ?_⟩
  · rw [mapInto_of_snapshot sameDims snapshot, toList_of_not_hasListingRoom full, Outcome.panic_bind]
  have inBoxes : ∀ shared', ∀ index ∈ writeOrder dest source shared',
      InBox dest.dims index ∧ InBox source.dims index :=
    fun _ index mem => ⟨mem_writeOrder.mp mem, sameDims ▸ mem_writeOrder.mp mem⟩
  have mapped := mapInto_eq destFits sourceFits destBounded sourceBounded shared f sameDims routable
  refine ⟨_, mapEach_eq f sourceFits _ destBuffer destFits (inBoxes shared), mapped,
    fun before index after split last =>
      getElem?_writeAll_mappedWrites_last f destFits sourceFits (inBoxes shared) split last,
    fun p outside => getElem?_writeAll_mappedWrites_of_unwritten f fun index mem =>
      outside index (mem_writeOrder.mp mem),
    fun unaliased => ⟨fun index inBox => ?_, fun shared' routable' => ?_⟩⟩
  · rcases getElem?_writeAll_mappedWrites_of_unaliased f destFits sourceFits unaliased
      (nodup_writeOrder dest source shared) (inBoxes shared) (mem_writeOrder.mpr inBox) with
      ⟨x, read, cell⟩
    rw [read, get_writeAll destFits _ inBox cell]
    rfl
  · rw [mapInto_eq destFits sourceFits destBounded sourceBounded shared' f sameDims routable',
      writeAll_mappedWrites_congr f destFits sourceFits unaliased sameDims
      (nodup_writeOrder dest source shared') (nodup_writeOrder dest source shared)
      (fun _ => mem_writeOrder) (fun _ => mem_writeOrder)]

/-- Shifting a buffer's head onto its tail through two views of it: the destination starts one
cell after the source, so the source is read before the writes. -/
theorem mapInto_writes_last_shift :
    let dest : Grid := ⟨⟨[2], by decide⟩, .strided 1 [1] .columnMajor⟩
    let source : Grid := ⟨⟨[2], by decide⟩, .strided 0 [1] .columnMajor⟩
    Routable dest source true (#[1, 2, 3] : Array Int64) ∧
      mapInto dest source true id (#[1, 2, 3] : Array Int64) #[1, 2, 3] = .ok ⟨#[1, 1, 2], false⟩ ∧
      ∃ b, mapEach dest source id (writeOrder dest source true) (#[1, 2, 3] : Array Int64)
        #[1, 2, 3] = .ok b ∧
        mapInto dest source true id (#[1, 2, 3] : Array Int64) #[1, 2, 3] = .ok ⟨b, false⟩ := by
  intro dest source
  have destFits : dest.Fits (#[1, 2, 3] : Array Int64).size := ⟨by decide, by rfl⟩
  have sourceFits : source.Fits (#[1, 2, 3] : Array Int64).size := ⟨by decide, by rfl⟩
  have destBounded : dest.Bounded := by norm_num [dest, Bounded, dims, sweep, Word.signedMax]
  have sourceBounded : source.Bounded := by norm_num [source, Bounded, dims, sweep, Word.signedMax]
  have routable : Routable dest source true (#[1, 2, 3] : Array Int64) := by
    show source.HasListingRoom _
    decide
  rcases (mapInto_writes_last dest source true id _ _ destFits sourceFits destBounded
    sourceBounded).2.2 rfl routable with ⟨b, looped, mapped, -⟩
  exact ⟨routable, by rfl, b, looped, mapped⟩

/-- Two ways `mapInto` of arrays of one shape, each within its reach bound, stops. A stride-0
view of `2^60` doubles mapped into itself is copied out first, and the copy cannot be reserved.
A flat array of `8 * 10^18` bytes walked in the loop order of a row-major view steps past the
greatest signed word at the end of its second run. -/
theorem mapInto_stops_off_route :
    let view : Grid := ⟨⟨[1152921504606846976], by decide⟩, .strided 0 [0] .nonSpecific⟩
    let rows : Grid := ⟨⟨[2000000000000000000, 2, 2], by decide⟩, .strided 0 [4, 2, 1] .rowMajor⟩
    let flat : Grid := ⟨⟨[2000000000000000000, 2, 2], by decide⟩, .flat⟩
    let bytes : Array UInt8 := Array.replicate 8000000000000000000 0
    (view.Fits (#[0] : Array Float).size ∧ view.Bounded ∧
      mapInto view view true id (#[0] : Array Float) #[0] = Outcome.panic .capacityOverflow) ∧
    (rows.Fits bytes.size ∧ rows.Bounded ∧ flat.Fits bytes.size ∧
      Written.overflowed <$> mapInto rows flat false id bytes bytes = .ok true) := by
  intro view rows flat bytes
  obtain ⟨viewFits, viewBounded⟩ :=
    zeroStride_fits_bounded (show (#[0] : Array Float).size = 1 from rfl)
  have copied : mapInto view view true id (#[0] : Array Float) #[0] =
      Outcome.panic .capacityOverflow := by
    rw [mapInto_of_snapshot rfl (.inr (.inr rfl)), toList_of_not_hasListingRoom (by decide),
      Outcome.panic_bind]
  have sized : bytes.size = 8000000000000000000 := Array.size_replicate
  have rowsFits : rows.Fits bytes.size := by
    rw [sized]
    exact ⟨by decide, by rfl⟩
  have rowsBounded : rows.Bounded := by norm_num [rows, Bounded, dims, sweep, Word.signedMax]
  have flatFits : flat.Fits bytes.size := sized
  have walked : (LoopNest.walk [2000000000000000000, 2, 2] .rowMajor
      [(0, [4, 2, 1]), (0, [1, 2000000000000000000, 4000000000000000000])] true).overflowed =
      true := by
    decide +kernel
  have rowsDescribed : rows.descriptor? = some (0, [4, 2, 1]) := rfl
  have flatDescribed :
      flat.descriptor? = some (0, [1, 2000000000000000000, 4000000000000000000]) := rfl
  have rowsDims : rows.dims = [2000000000000000000, 2, 2] := rfl
  have rowsOrder : rows.order = .rowMajor := rfl
  refine ⟨⟨viewFits, viewBounded, copied⟩, rowsFits, rowsBounded, flatFits, ?_⟩
  have sameDims : rows.dims = flat.dims := rfl
  rw [mapInto_of_nest id sameDims rowsDescribed flatDescribed]
  simp only [rowsDims, rowsOrder, walked]
  rfl

end Grid

end StridedGrid
