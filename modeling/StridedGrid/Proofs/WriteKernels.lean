import Mathlib
import StridedGrid.Proofs.BoundedWalk
import StridedGrid.Proofs.DistinctPositions

/-!
# Write kernels as loops of single writes

Each write kernel does what a loop of `get` and `set` over the array's indices does, in the
order of its traversal (`traversal`): the loop nest's order for a strided array, column-major
order for flat and nested ones. `mapInPlace` is `for i in traversal: set i (f (get i))`; the
fills first reserve room for one value per element, and with it `fillWith` sets the `k`-th index
of the traversal to the `k`-th value and `fillFromFn` sets every index to `f` of it in
column-major order (`writeKernels_refine_loops`).

That holds for every fitting array whose reach is a signed word, however its indices share
cells: a cell is updated once per visit (`getElem?_foldl_modify`) and keeps the last value written
to it (`getElem?_writeAll`). Cells outside the box never change. When the box's elements sit in
distinct cells, which they do in every array whose storage order is not `nonSpecific`, each
element ends as `f` of its old value, or as its own value, whatever the order.
-/

namespace StridedGrid

namespace Grid

open Traversal

variable {α : Type}

/-! ## Writes one after another -/

/-- The value last written to a cell, if any. -/
def lastWrite (writes : List (Nat × α)) (p : Nat) : Option α :=
  (writes.filterMap fun w => if w.1 = p then some w.2 else none).getLast?

theorem lastWrite_append_singleton (writes : List (Nat × α)) (q : Nat) (v : α) (p : Nat) :
    lastWrite (writes ++ [(q, v)]) p = if q = p then some v else lastWrite writes p := by
  by_cases same : q = p <;> simp [lastWrite, List.filterMap_append, same]

theorem lastWrite_eq_none {writes : List (Nat × α)} {p : Nat} (unwritten : ∀ w ∈ writes, w.1 ≠ p) :
    lastWrite writes p = none := by
  induction writes using List.reverseRecOn with
  | nil => rfl
  | append_singleton writes w ih =>
    rw [lastWrite_append_singleton, if_neg (unwritten w (by simp)),
      ih fun w' mem => unwritten w' (by simp [mem])]

/-- A cell written once holds the value written to it. -/
theorem lastWrite_of_nodup {writes : List (Nat × α)} {p : Nat} {v : α}
    (nodup : (writes.map Prod.fst).Nodup) (mem : (p, v) ∈ writes) : lastWrite writes p = some v := by
  induction writes using List.reverseRecOn with
  | nil => simp at mem
  | append_singleton writes w ih =>
    rcases w with ⟨q, v'⟩
    rw [List.map_append, List.nodup_append] at nodup
    rw [lastWrite_append_singleton]
    rcases List.mem_append.mp mem with earlier | last
    · have earlierAt : p ∈ writes.map Prod.fst := List.mem_map_of_mem earlier
      have other : q ≠ p := fun same => nodup.2.2 p earlierAt q (by simp) same.symm
      rw [if_neg other, ih nodup.1 earlier]
    · simp only [List.mem_singleton, Prod.mk.injEq] at last
      rw [if_pos last.1.symm, last.2]

/-- A cell holds the value of the last write to it, whatever came before. -/
theorem lastWrite_append_cons (writes : List (Nat × α)) {p : Nat} (v : α) {rest : List (Nat × α)}
    (unwritten : ∀ w ∈ rest, w.1 ≠ p) : lastWrite (writes ++ (p, v) :: rest) p = some v := by
  have later : (rest.filterMap fun w => if w.1 = p then some w.2 else none) = [] :=
    List.filterMap_eq_nil_iff.mpr fun w mem => if_neg (unwritten w mem)
  simp [lastWrite, List.filterMap_append, later]

/-- After a sequence of writes each cell of the buffer holds the last value written to it, or
what it held; writes past the end are dropped. -/
theorem getElem?_writeAll (buffer : Array α) (writes : List (Nat × α)) (p : Nat) :
    (writeAll buffer writes)[p]? = (buffer[p]?).map fun x => (lastWrite writes p).getD x := by
  induction writes using List.reverseRecOn with
  | nil => simp [writeAll, lastWrite]
  | append_singleton writes w ih =>
    rcases w with ⟨q, v⟩
    have unwritten : (writeAll buffer writes).size = buffer.size := writeAll_size buffer writes
    have step : writeAll buffer (writes ++ [(q, v)]) = (writeAll buffer writes).set! q v := by
      simp [writeAll, List.foldl_append]
    rw [step, Array.set!_eq_setIfInBounds, Array.getElem?_setIfInBounds, unwritten,
      lastWrite_append_singleton]
    by_cases same : q = p
    · subst same
      by_cases inside : q < buffer.size <;> simp [inside]
    · simp [same, ih]

/-- Updating cells one visit after another applies the update to each cell once per visit. -/
theorem getElem?_foldl_modify (f : α → α) :
    ∀ (positions : List Nat) (buffer : Array α) (q : Nat),
      (positions.foldl (fun b p => b.modify p f) buffer)[q]? = (buffer[q]?).map (f^[positions.count q])
  | [], _, _ => by simp
  | p :: positions, buffer, q => by
    rw [List.foldl_cons, getElem?_foldl_modify f positions, Array.getElem?_modify, List.count_cons]
    by_cases same : p = q
    · subst same
      simp [Option.map_map, Function.iterate_succ]
    · simp [same]

/-! ## Loops of single reads and writes -/

/-- The loop `for index in indices: set index (f (get index))`, stopping at the first failure. -/
def updateEach (g : Grid) (f : α → α) (indices : List (List Nat)) (buffer : Array α) :
    Outcome (Array α) :=
  indices.foldlM (fun b index => do g.set b index (f (← g.get b index))) buffer

/-- The loop `for (index, value) in writes: set index value`, stopping at the first failure. -/
def setEach (g : Grid) (writes : List (List Nat × α)) (buffer : Array α) : Outcome (Array α) :=
  writes.foldlM (fun b w => g.set b w.1 w.2) buffer

theorem modify_eq_set! {buffer : Array α} {p : Nat} {x : α} (cell : buffer[p]? = some x)
    (f : α → α) : buffer.modify p f = buffer.set! p (f x) := by
  apply Array.ext_getElem?
  intro q
  rw [Array.getElem?_modify, Array.set!_eq_setIfInBounds, Array.getElem?_setIfInBounds]
  by_cases same : p = q
  · subst same
    have inside : p < buffer.size := by
      by_contra outside
      rw [Array.getElem?_eq_none (by omega)] at cell
      cases cell
    have held : buffer[p] = x := by simpa [Array.getElem?_eq_getElem inside] using cell
    simp [inside, held]
  · simp [same]

/-- Setting indices of the box of a fitting array one after another writes their slots. -/
theorem setEach_eq {g : Grid} (writes : List (List Nat × α)) :
    ∀ (buffer : Array α), g.Fits buffer.size → (∀ w ∈ writes, InBox g.dims w.1) →
      g.setEach writes buffer = .ok (writeAll buffer (writes.map fun w => (g.slot w.1, w.2))) := by
  induction writes with
  | nil => intro buffer _ _; rfl
  | cons w writes ih =>
    intro buffer fits inBox
    have fitsNext : g.Fits (buffer.set! (g.slot w.1) w.2).size := by simpa using fits
    have rest := ih _ fitsNext fun w' mem => inBox w' (.tail _ mem)
    simp only [setEach, List.foldlM_cons, set_ok fits (inBox w (.head _))] at rest ⊢
    exact rest

/-- Updating indices of the box of a fitting array one after another updates their slots. -/
theorem updateEach_eq {g : Grid} (f : α → α) (indices : List (List Nat)) :
    ∀ (buffer : Array α), g.Fits buffer.size → (∀ index ∈ indices, InBox g.dims index) →
      g.updateEach f indices buffer = .ok (indices.foldl (fun b index => b.modify (g.slot index) f) buffer) := by
  induction indices with
  | nil => intro buffer _ _; rfl
  | cons index indices ih =>
    intro buffer fits inBox
    rcases get_ok fits (inBox index (.head _)) with ⟨x, cell, read⟩
    have fitsNext : g.Fits (buffer.modify (g.slot index) f).size := by simpa using fits
    have rest := ih _ fitsNext fun index' mem => inBox index' (.tail _ mem)
    simp only [updateEach, List.foldlM_cons, List.foldl_cons, read, bind, Except.bind,
      set_ok fits (inBox index (.head _)), ← modify_eq_set! cell] at rest ⊢
    exact rest

/-! ## The kernels -/

/-- The indices of an array in the order its bulk traversals visit them: the loop nest's order
for a strided array, column-major order for flat and nested ones. -/
def traversal (g : Grid) : List (List Nat) :=
  match g.storage with
  | .strided _ strides order => traversalIndices g.dims strides order
  | _ => odometer g.dims

theorem mem_traversal {g : Grid} {index : List Nat} : index ∈ g.traversal ↔ InBox g.dims index := by
  unfold traversal
  split
  · exact mem_loopIndices (loopOrder_perm _ _ _)
  · exact mem_odometer

theorem nodup_traversal (g : Grid) : g.traversal.Nodup := by
  unfold traversal
  split
  · exact nodup_loopIndices (loopOrder_perm _ _ _)
  · exact nodup_odometer _

/-- A flat or nested array's buffer, cell after cell, is its slots in column-major order. -/
theorem range_eq_map_slot {g : Grid} {size : Nat} (fits : g.Fits size)
    (dense : ∀ offset strides order, g.storage ≠ .strided offset strides order) :
    List.range size = (odometer g.dims).map g.slot := by
  have counted : size = Extent.count g.dims := by
    unfold Fits at fits
    split at fits
    · exact fits
    · rename_i offset strides order storage
      exact absurd storage (dense offset strides order)
    · exact fits.2
  rw [List.map_congr_left fun index mem => slot_of_dense dense (mem_odometer.mp mem),
    map_columnNumber_odometer,
    counted]

/-- A fitting array of signed reach is visited at the slots of its traversal, with no overflow.
A walk that does not take slices steps past a lone element, so there the buffer must be no
longer than the greatest signed word. -/
theorem visits_eq {g : Grid} {size : Nat} (fits : g.Fits size) (bounded : g.Bounded)
    (slices : Bool) (past : slices = false → size ≤ Word.signedMax.toNat) :
    g.visits size slices = ⟨g.traversal.map g.slot, false⟩ := by
  rcases g with ⟨shape, storage⟩
  cases storage with
  | flat => simp only [visits, traversal, range_eq_map_slot fits (by simp)]
  | nested => simp only [visits, traversal, range_eq_map_slot fits (by simp)]
  | strided offset strides order =>
    rcases Layout.validateView_ok shape.extentsFit fits.1 fits.2 with ⟨lengths, -, inside⟩
    have first := inside _ (zeros_inBox fun d mem => (shape.extentsFit d mem).1)
    simp only [Traversal.position, weighted_replicate_zero, add_zero] at first
    have walked := LoopNest.walk_eq_of_walkable shape order slices [(offset, strides)]
      (by simp [lengths]) (by simpa [Walkable, Bounded, dims] using Or.inl bounded)
      fun unsliced op mem => by
        have bound := past unsliced
        simp only [List.mem_singleton] at mem
        subst mem
        unfold Word.IsSigned Word.signedMin Word.signedMax at *
        omega
    simp only [visits, dims, walked, traversal, traversalIndices, List.map_map]
    rfl

theorem mapInPlace_eq {g : Grid} {buffer : Array α} (fits : g.Fits buffer.size)
    (bounded : g.Bounded) (f : α → α) :
    g.mapInPlace f buffer =
      ⟨g.traversal.foldl (fun b index => b.modify (g.slot index) f) buffer, false⟩ := by
  simp only [mapInPlace, visits_eq fits bounded true nofun, List.foldl_map]

theorem assignColumnMajor_eq {g : Grid} {buffer : Array α} (fits : g.Fits buffer.size)
    (bounded : g.Bounded) (values : List α) :
    g.assignColumnMajor values buffer =
      ⟨writeAll buffer (((odometer g.dims).zip values).map fun w => (g.slot w.1, w.2)), false⟩ := by
  rcases g with ⟨shape, storage⟩
  cases storage with
  | flat =>
    simp only [assignColumnMajor, range_eq_map_slot fits (by simp), List.zip_map_left]
    rfl
  | nested =>
    simp only [assignColumnMajor, range_eq_map_slot fits (by simp), List.zip_map_left]
    rfl
  | strided offset strides order =>
    obtain ⟨positive, lengths, signedPositions⟩ := fits.walk_conditions
    simp only [assignColumnMajor, dims,
      columnWalk_eq positive lengths signedPositions (walkFits_of_reach_le bounded), List.map_map,
      List.zip_map_left]
    rfl

section Fills

variable [Element α] {g : Grid} {buffer : Array α}

theorem fillWith_of_not_reservable (values : List α)
    (full : ¬Word.Reservable g.len (Element.byteSize α)) :
    g.fillWith values buffer = Outcome.panic .capacityOverflow := by
  rw [fillWith, Word.reserve_of_not_reservable full, Outcome.panic_bind]

/-- A fill that wrote had its room. -/
theorem reservable_of_fillWith {values : List α} {written : Written α}
    (filled : g.fillWith values buffer = .ok written) :
    Word.Reservable g.len (Element.byteSize α) := by
  rw [fillWith, Word.reserve_bind_eq_ok] at filled
  exact filled.1

theorem reservable_of_fillFromFn {f : List Nat → α} {written : Written α}
    (filled : g.fillFromFn f buffer = .ok written) :
    Word.Reservable g.len (Element.byteSize α) := by
  rw [fillFromFn, Word.reserve_bind_eq_ok] at filled
  exact filled.1

variable (fits : g.Fits buffer.size) (bounded : g.Bounded)
  (room : Word.Reservable g.len (Element.byteSize α))
include fits bounded room

theorem fillWith_eq (sized : buffer.size ≤ Word.signedMax.toNat) (values : List α) :
    g.fillWith values buffer =
      .ok ⟨writeAll buffer ((g.traversal.zip values).map fun w => (g.slot w.1, w.2)), false⟩ := by
  simp only [fillWith, Word.reserve_of_reservable room, Outcome.ok_bind,
    visits_eq fits bounded false fun _ => sized, List.zip_map_left]
  rfl

theorem fillFromFn_eq (f : List Nat → α) :
    g.fillFromFn f buffer =
      .ok ⟨writeAll buffer ((odometer g.dims).map fun index => (g.slot index, f index)), false⟩ := by
  rw [fillFromFn_of_reservable f room, columnIndices_eq_odometer, assignColumnMajor_eq fits bounded,
    ← List.map_prod_left_eq_zip, List.map_map]
  rfl

end Fills

/-! ## What the kernels leave in the buffer -/

theorem getElem?_writeAll_of_unwritten {buffer : Array α} {writes : List (Nat × α)} {p : Nat}
    (unwritten : ∀ w ∈ writes, w.1 ≠ p) : (writeAll buffer writes)[p]? = buffer[p]? := by
  rw [getElem?_writeAll, lastWrite_eq_none unwritten]
  simp

theorem getElem?_writeAll_of_nodup {buffer : Array α} {writes : List (Nat × α)} {p : Nat} {v : α}
    (nodup : (writes.map Prod.fst).Nodup) (mem : (p, v) ∈ writes) (inside : p < buffer.size) :
    (writeAll buffer writes)[p]? = some v := by
  rw [getElem?_writeAll, lastWrite_of_nodup nodup mem, Array.getElem?_eq_getElem inside]
  rfl

theorem get_of_getElem? {g : Grid} {buffer : Array α} (fits : g.Fits buffer.size)
    {index : List Nat} (inBox : InBox g.dims index) {x : α} (cell : buffer[g.slot index]? = some x) :
    g.get buffer index = .ok x := by
  rcases get_ok fits inBox with ⟨y, held, read⟩
  rw [cell, Option.some.injEq] at held
  rw [read, held]

/-- An element of a written buffer is what its cell holds after the writes. -/
theorem get_writeAll {g : Grid} {buffer : Array α} (fits : g.Fits buffer.size)
    (writes : List (Nat × α)) {index : List Nat} (inBox : InBox g.dims index) {v : α}
    (cell : (writeAll buffer writes)[g.slot index]? = some v) :
    g.get (writeAll buffer writes) index = .ok v := by
  have fitsAfter : g.Fits (writeAll buffer writes).size := by
    rw [writeAll_size]
    exact fits
  exact get_of_getElem? fitsAfter inBox cell

/-- Indices of the box of an unaliased array, none twice, name no cell twice. -/
theorem nodup_map_slot {g : Grid} (unaliased : g.Unaliased) {indices : List (List Nat)}
    (nodup : indices.Nodup) (inBox : ∀ index ∈ indices, InBox g.dims index) :
    (indices.map g.slot).Nodup :=
  nodup.map_on fun x memX y memY same => unaliased (inBox x memX) (inBox y memY) same

theorem sublist_map_fst_zip {β γ : Type} :
    ∀ (l : List β) (l' : List γ), ((l.zip l').map Prod.fst).Sublist l
  | [], _ => by simp
  | _ :: _, [] => by simp
  | b :: l, _ :: l' => by simpa using (sublist_map_fst_zip l l').cons_cons b

section Kernels

variable {g : Grid} {buffer : Array α} (fits : g.Fits buffer.size) (bounded : g.Bounded)
include fits bounded

/-- What a fill that wrote leaves: its writes in traversal order, with no overflow. -/
theorem written_of_fillWith [Element α] (sized : buffer.size ≤ Word.signedMax.toNat)
    {values : List α} {written : Written α} (filled : g.fillWith values buffer = .ok written) :
    written = ⟨writeAll buffer ((g.traversal.zip values).map fun w => (g.slot w.1, w.2)), false⟩ := by
  rw [fillWith_eq fits bounded (reservable_of_fillWith filled) sized] at filled
  exact (Except.ok.inj filled).symm

theorem written_of_fillFromFn [Element α] {f : List Nat → α} {written : Written α}
    (filled : g.fillFromFn f buffer = .ok written) :
    written = ⟨writeAll buffer ((odometer g.dims).map fun index => (g.slot index, f index)), false⟩ := by
  rw [fillFromFn_eq fits bounded (reservable_of_fillFromFn filled)] at filled
  exact (Except.ok.inj filled).symm

/-- `mapInPlace` updates each cell once for every index of the traversal at it. -/
theorem getElem?_mapInPlace (f : α → α) (p : Nat) :
    (g.mapInPlace f buffer).buffer[p]? = (buffer[p]?).map (f^[(g.traversal.map g.slot).count p]) := by
  have updated := getElem?_foldl_modify f (g.traversal.map g.slot) buffer p
  rw [List.foldl_map] at updated
  rw [mapInPlace_eq fits bounded]
  exact updated

theorem mapInPlace_outside (f : α → α) {p : Nat}
    (outside : ∀ index, InBox g.dims index → g.slot index ≠ p) :
    (g.mapInPlace f buffer).buffer[p]? = buffer[p]? := by
  have unvisited : (g.traversal.map g.slot).count p = 0 :=
    List.count_eq_zero_of_not_mem fun mem => by
      rcases List.mem_map.mp mem with ⟨index, member, rfl⟩
      exact outside index (mem_traversal.mp member) rfl
  rw [getElem?_mapInPlace fits bounded, unvisited]
  simp

theorem fillWith_outside [Element α] (sized : buffer.size ≤ Word.signedMax.toNat) {values : List α}
    {written : Written α} (filled : g.fillWith values buffer = .ok written) {p : Nat}
    (outside : ∀ index, InBox g.dims index → g.slot index ≠ p) :
    written.buffer[p]? = buffer[p]? := by
  rw [written_of_fillWith fits bounded sized filled]
  apply getElem?_writeAll_of_unwritten
  intro w mem
  rcases List.mem_map.mp mem with ⟨⟨index, v⟩, member, rfl⟩
  exact outside index (mem_traversal.mp (List.of_mem_zip member).1)

theorem fillFromFn_outside [Element α] {f : List Nat → α} {written : Written α}
    (filled : g.fillFromFn f buffer = .ok written) {p : Nat}
    (outside : ∀ index, InBox g.dims index → g.slot index ≠ p) :
    written.buffer[p]? = buffer[p]? := by
  rw [written_of_fillFromFn fits bounded filled]
  apply getElem?_writeAll_of_unwritten
  intro w mem
  rcases List.mem_map.mp mem with ⟨index, member, rfl⟩
  exact outside index (mem_odometer.mp member)

variable (unaliased : g.Unaliased)
include unaliased

/-- On an unaliased array `mapInPlace` maps every element once. -/
theorem get_mapInPlace (f : α → α) {index : List Nat} (inBox : InBox g.dims index) :
    g.get (g.mapInPlace f buffer).buffer index = f <$> g.get buffer index := by
  rcases get_ok fits inBox with ⟨x, cell, read⟩
  have once : (g.traversal.map g.slot).count (g.slot index) = 1 :=
    List.count_eq_one_of_mem (nodup_map_slot unaliased (nodup_traversal g) fun _ => mem_traversal.mp)
      (List.mem_map_of_mem (mem_traversal.mpr inBox))
  have fitsAfter : g.Fits (g.mapInPlace f buffer).buffer.size := by
    rw [mapInPlace_size]
    exact fits
  rw [read, get_of_getElem? fitsAfter inBox (by rw [getElem?_mapInPlace fits bounded, once, cell]; rfl)]
  rfl

/-- On an unaliased array `fillWith` leaves every index of the traversal holding its value. -/
theorem get_fillWith [Element α] (sized : buffer.size ≤ Word.signedMax.toNat) {values : List α}
    {written : Written α} (filled : g.fillWith values buffer = .ok written)
    {w : List Nat × α} (mem : w ∈ g.traversal.zip values) :
    g.get written.buffer w.1 = .ok w.2 := by
  have inBox : InBox g.dims w.1 := mem_traversal.mp (List.of_mem_zip mem).1
  have nodup : (((g.traversal.zip values).map fun w => (g.slot w.1, w.2)).map Prod.fst).Nodup := by
    rw [List.map_map]
    have slots := nodup_map_slot unaliased ((sublist_map_fst_zip g.traversal values).nodup
      (nodup_traversal g)) fun index member =>
        mem_traversal.mp ((sublist_map_fst_zip g.traversal values).subset member)
    simpa [List.map_map, Function.comp_def] using slots
  rw [written_of_fillWith fits bounded sized filled]
  exact get_writeAll fits _ inBox
    (getElem?_writeAll_of_nodup nodup (List.mem_map_of_mem mem) (fits.slot_lt inBox))

/-- On an unaliased array `fillFromFn` leaves every index holding the value computed for it. -/
theorem get_fillFromFn [Element α] {f : List Nat → α} {written : Written α}
    (filled : g.fillFromFn f buffer = .ok written) {index : List Nat} (inBox : InBox g.dims index) :
    g.get written.buffer index = .ok (f index) := by
  have nodup : (((odometer g.dims).map fun index => (g.slot index, f index)).map Prod.fst).Nodup := by
    rw [List.map_map]
    exact nodup_map_slot unaliased (nodup_odometer _) fun _ => mem_odometer.mp
  rw [written_of_fillFromFn fits bounded filled]
  exact get_writeAll fits _ inBox (getElem?_writeAll_of_nodup nodup
    (List.mem_map_of_mem (mem_odometer.mpr inBox)) (fits.slot_lt inBox))

end Kernels

/-- The write kernels are loops of single writes: `mapInPlace` in traversal order, and, once their
room is reserved, `fillWith` in traversal order and `fillFromFn` in column-major order. No cell
outside the box changes, and on an unaliased array the result does not depend on the order. -/
theorem writeKernels_refine_loops [Element α] (g : Grid) (buffer : Array α)
    (fits : g.Fits buffer.size) (bounded : g.Bounded) (sized : buffer.size ≤ Word.signedMax.toNat)
    (f : α → α) (values : List α) (h : List Nat → α) :
    (∃ b, g.updateEach f g.traversal buffer = .ok b ∧ g.mapInPlace f buffer = ⟨b, false⟩) ∧
    (¬Word.Reservable g.len (Element.byteSize α) →
      g.fillWith values buffer = Outcome.panic .capacityOverflow ∧
      g.fillFromFn h buffer = Outcome.panic .capacityOverflow) ∧
    (Word.Reservable g.len (Element.byteSize α) →
      (∃ b, g.setEach (g.traversal.zip values) buffer = .ok b ∧
        g.fillWith values buffer = .ok ⟨b, false⟩) ∧
      (∃ b, g.setEach ((odometer g.dims).map fun index => (index, h index)) buffer = .ok b ∧
        g.fillFromFn h buffer = .ok ⟨b, false⟩)) ∧
    (∀ p, (∀ index, InBox g.dims index → g.slot index ≠ p) →
      (g.mapInPlace f buffer).buffer[p]? = buffer[p]? ∧
      (∀ written, g.fillWith values buffer = .ok written → written.buffer[p]? = buffer[p]?) ∧
      (∀ written, g.fillFromFn h buffer = .ok written → written.buffer[p]? = buffer[p]?)) ∧
    (g.order ≠ .nonSpecific → g.Unaliased) ∧
    (g.Unaliased →
      (∀ index, InBox g.dims index →
        g.get (g.mapInPlace f buffer).buffer index = f <$> g.get buffer index ∧
        ∀ written, g.fillFromFn h buffer = .ok written → g.get written.buffer index = .ok (h index)) ∧
      ∀ written, g.fillWith values buffer = .ok written →
        ∀ w ∈ g.traversal.zip values, g.get written.buffer w.1 = .ok w.2) := by
  refine ⟨⟨_, updateEach_eq f _ buffer fits fun _ => mem_traversal.mp, mapInPlace_eq fits bounded f⟩,
    fun full => ⟨fillWith_of_not_reservable values full, fillFromFn_of_not_reservable h full⟩,
    fun room => ⟨⟨_, setEach_eq _ buffer fits (fun w mem => mem_traversal.mp (List.of_mem_zip mem).1),
      fillWith_eq fits bounded room sized values⟩,
      ⟨_, setEach_eq _ buffer fits fun w mem => ?_, ?_⟩⟩,
    fun p outside => ⟨mapInPlace_outside fits bounded f outside,
      fun _ filled => fillWith_outside fits bounded sized filled outside,
      fun _ filled => fillFromFn_outside fits bounded filled outside⟩,
    unaliased_of_order fits, fun unaliased => ⟨fun index inBox =>
      ⟨get_mapInPlace fits bounded unaliased f inBox,
        fun _ filled => get_fillFromFn fits bounded unaliased filled inBox⟩,
      fun _ filled w mem => get_fillWith fits bounded unaliased sized filled mem⟩⟩
  · rcases List.mem_map.mp mem with ⟨index, member, rfl⟩
    exact mem_odometer.mp member
  · rw [fillFromFn_eq fits bounded room, List.map_map]
    rfl

/-- A view whose two axes step by the same stride, so that its middle cell is shared: the write
kernels on it are the loops of single writes. -/
theorem writeKernels_refine_loops_shared_cell :
    let g : Grid := ⟨⟨[2, 2], by decide⟩, .strided 0 [1, 1] .nonSpecific⟩
    g.Fits (#[0, 0, 0] : Array Int64).size ∧ g.Bounded ∧
      (#[0, 0, 0] : Array Int64).size ≤ Word.signedMax.toNat ∧
      ∃ b, g.updateEach (· + 1) g.traversal (#[0, 0, 0] : Array Int64) = .ok b ∧
        g.mapInPlace (· + 1) (#[0, 0, 0] : Array Int64) = ⟨b, false⟩ := by
  intro g
  have fits : g.Fits (#[0, 0, 0] : Array Int64).size := ⟨by decide, by rfl⟩
  have bounded : g.Bounded := by norm_num [g, Bounded, dims, sweep, Word.signedMax]
  have sized : (#[0, 0, 0] : Array Int64).size ≤ Word.signedMax.toNat := by
    norm_num [Word.signedMax]
  rcases writeKernels_refine_loops g _ fits bounded sized (· + 1) [] (fun _ => 0) with ⟨mapped, -⟩
  exact ⟨fits, bounded, sized, mapped⟩

/-- A stride-0 view of `2^60` doubles over one cell: filling it would first reserve `2^63` bytes. -/
theorem fillWith_refuses_unreservable_room :
    let g : Grid := ⟨⟨[1152921504606846976], by decide⟩, .strided 0 [0] .nonSpecific⟩
    g.Fits (#[0] : Array Float).size ∧ g.Bounded ∧
      g.fillWith [(1 : Float)] #[0] = Outcome.panic .capacityOverflow := by
  intro g
  obtain ⟨fits, bounded⟩ := zeroStride_fits_bounded (show (#[0] : Array Float).size = 1 from rfl)
  exact ⟨fits, bounded, fillWith_of_not_reservable _ (by decide)⟩

end Grid

end StridedGrid
