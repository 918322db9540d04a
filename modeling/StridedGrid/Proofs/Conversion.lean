import Mathlib
import StridedGrid.Proofs.Refusal
import StridedGrid.Proofs.DenseStrides

/-!
# Converting the elements of an array

`Grid.convert` casts every element of an array to another element kind. A complex array is
never cast to a real kind; every other conversion succeeds, and the copy holds at each index of
the box the cast of the original's element there (`Grid.CastCopy`, `convert_casts_elementwise`).
Flat arrays and column-major strided arrays become flat, nested arrays stay nested, and any other
strided array is written into a fresh dense buffer of its length whose strides are laid out
along its loop order (`Grid.loopStrides`). That copy is filled by walking it together with the original, the
copy leading. Its strides need no bound of their own: walked in the order they classify as, the
copy's loops count the cells `0, 1, …` in turn, so even one step past a loop's end stays within
the number of elements (`walk_loopStrides_eq`).

In a session, converting an array to its own kind hands back the same array on the same buffer;
any other conversion appends the copy on a new buffer.
-/

namespace StridedGrid

namespace Traversal

/-- Loops at least two wide over which an operand's positions count `m` at a time in column-major
order, up to `m` times the number of their elements within the signed words, reach only signed
words: one step past the end of a loop stops at most at that product. -/
theorem reaches_of_columnNumber : ∀ {dims : List Nat} {strides : List Int} {m : Int},
    (∀ e ∈ dims, 1 < e) → 0 < m →
    (∀ c, InBox dims c → position 0 strides c = m * columnNumber dims c) →
    m * Extent.count dims ≤ Word.signedMax → Reaches dims 0 strides
  | [], _, _, _, _, _, _ => by
    unfold Reaches Word.IsSigned Word.signedMin Word.signedMax
    omega
  | e :: dims, strides, m, wide, pos, numbered, fits => by
    have wideHere := wide e (.head _)
    have positiveRest : ∀ d ∈ dims, 0 < d := fun d mem => by have := wide d (.tail _ mem); omega
    have start := zeros_inBox positiveRest
    -- the outer loops count `m * e` at a time, and the first loop steps `m`
    have outer : ∀ index, InBox dims index →
        position 0 strides.tail index = m * e * columnNumber dims index := by
      intro index inBox
      have atZero := numbered (0 :: index) (inBox_cons_cons.mpr ⟨by omega, inBox⟩)
      rw [position_cons_eq, columnNumber_cons_cons] at atZero
      push_cast at atZero
      linarith
    have stride : strides.headD 0 = m := by
      have atOne := numbered (1 :: List.replicate dims.length 0)
        (inBox_cons_cons.mpr ⟨wideHere, start⟩)
      rw [position_cons_eq, outer _ start, columnNumber_cons_cons,
        columnNumber_replicate_zero] at atOne
      simpa using atOne
    have counted : 0 < Extent.count dims := by
      have := columnNumber_lt start
      omega
    have total : m * e * Extent.count dims ≤ Word.signedMax := by
      rw [Extent.count_cons] at fits
      push_cast at fits
      linarith
    refine ⟨fun index inBox j upTo => ?_, ?_, reaches_of_columnNumber
      (fun d mem => wide d (.tail _ mem)) (by positivity) outer total⟩
    · rw [position_cons_eq, outer index inBox, stride, Word.isSigned_iff]
      have rows : (columnNumber dims index : Int) + 1 ≤ Extent.count dims := by
        exact_mod_cast columnNumber_lt inBox
      have steps : (j : Int) * m ≤ e * m :=
        mul_le_mul_of_nonneg_right (by exact_mod_cast upTo) pos.le
      have within : m * e * (columnNumber dims index + 1) ≤ m * e * Extent.count dims :=
        mul_le_mul_of_nonneg_left rows (by positivity)
      have low : 0 ≤ m * e * columnNumber dims index + j * m := by positivity
      unfold Word.signedMax at total
      constructor <;> linarith
    · rw [stride, Word.isSigned_iff]
      have within : m * e * 1 ≤ m * e * Extent.count dims :=
        mul_le_mul_of_nonneg_left (by exact_mod_cast counted) (by positivity)
      have low : 0 ≤ m * e := by positivity
      unfold Word.signedMax at total
      constructor <;> linarith

namespace LoopNest

/-- A faithful nest whose first operand, starting at zero, visits the cells `0, 1, …` in turn
over the loops of the axes steps through them in the same turn over its own loops. -/
theorem Faithful.numbered {nest : LoopNest} {dims axes : List Nat} {t : List Int}
    {operands : List (Int × List Int)} (faithful : Faithful nest dims ((0, t) :: operands) axes)
    (perm : axes.Perm (List.range dims.length))
    (counted : (ofAxes dims ((0, t) :: operands) axes).calls.map (·.headD 0) =
      (List.range (Extent.count dims)).map Int.ofNat)
    {first : List Int} {rest : List (List Int)} (strides : nest.strides = first :: rest) :
    ∀ c, InBox nest.dims c → position 0 first c = 1 * columnNumber nest.dims c := by
  have offsets : nest.offsets = 0 :: operands.map Prod.fst := faithful.offsets_eq
  have sameCount : Extent.count nest.dims = Extent.count dims := by
    rw [Extent.count_eq_prod, Extent.count_eq_prod, faithful.prod_eq, prod_map_getD_of_perm perm]
  have heads := congrArg (List.map (·.headD 0)) faithful.calls_eq
  rw [counted, calls, List.map_map, ← sameCount, ← map_columnNumber_odometer, List.map_map] at heads
  intro c inBox
  have atC := List.map_inj_left.mp heads c (mem_odometer.mpr inBox)
  simpa [positionsAt, offsets, strides] using atC

/-- Walked in the order its strides classify as, an array laid out densely along a loop order
visits the cells `0, 1, …` in turn: the axes that move are taken in the loop's order. -/
theorem heads_ofAxes_loopStrides (shape : Shape) {loop : List Nat}
    (perm : loop.Perm (List.range shape.dims.length)) (source : Int × List Int)
    (sourceLength : source.2.length = shape.dims.length) :
    (ofAxes shape.dims [(0, Grid.loopStrides shape.dims loop), source]
      (loopOrder shape.dims.length (Grid.loopStrides shape.dims loop)
        (Layout.classifyOrder shape.dims (Grid.loopStrides shape.dims loop)))).calls.map
        (·.headD 0) = (List.range (Extent.count shape.dims)).map Int.ofNat := by
  have positive : ∀ d ∈ shape.dims, 0 < d := shape.valid.1
  have lengths : ∀ op ∈ [(0, Grid.loopStrides shape.dims loop), source],
      op.2.length = shape.dims.length := by
    simp [sourceLength]
  have axesPerm := loopOrder_perm shape.dims.length (Grid.loopStrides shape.dims loop)
    (Layout.classifyOrder shape.dims (Grid.loopStrides shape.dims loop))
  rw [← calls_ofAxes_filter _ _ fun _ => getD_pos_of_mem_perm axesPerm positive,
    Grid.filter_loopOrder_loopStrides perm positive shape.len_le_signedMax,
    calls_ofAxes_filter _ _ fun _ => getD_pos_of_mem_perm perm positive,
    calls_ofAxes_eq perm lengths, List.map_map, ← Grid.map_position_loopIndices perm]
  rfl

/-- Walking a view together with a dense copy laid out along a loop order, the copy leading: the
walk visits every index once in the copy's order with no overflow, since the copy's loops count
the cells `0, 1, …` in turn and need no bound of their own. -/
theorem walk_loopStrides_eq (shape : Shape) {loop : List Nat}
    (perm : loop.Perm (List.range shape.dims.length)) (source : Int × List Int)
    (sourceLength : source.2.length = shape.dims.length) (fit : Walkable shape.dims source) :
    walk shape.dims (Layout.classifyOrder shape.dims (Grid.loopStrides shape.dims loop))
        [(0, Grid.loopStrides shape.dims loop), source] true =
      ⟨(loopIndices shape.dims (loopOrder shape.dims.length (Grid.loopStrides shape.dims loop)
          (Layout.classifyOrder shape.dims (Grid.loopStrides shape.dims loop)))).map fun index =>
        [position 0 (Grid.loopStrides shape.dims loop) index, position source.1 source.2 index],
        false⟩ := by
  have positive : ∀ d ∈ shape.dims, 0 < d := shape.valid.1
  have fitsProd : shape.dims.prod ≤ Word.signedMax.toNat := by
    simpa [Extent.count_eq_prod] using shape.valid.2
  have fits : (Extent.count shape.dims : Int) ≤ Word.signedMax := shape.len_le_signedMax
  have lengths : ∀ op ∈ [(0, Grid.loopStrides shape.dims loop), source],
      op.2.length = shape.dims.length := by
    simp [sourceLength]
  have axesPerm := loopOrder_perm shape.dims.length (Grid.loopStrides shape.dims loop)
    (Layout.classifyOrder shape.dims (Grid.loopStrides shape.dims loop))
  obtain ⟨nest, planned, faithful⟩ : ∃ nest, plan shape.dims
      (Layout.classifyOrder shape.dims (Grid.loopStrides shape.dims loop))
      [(0, Grid.loopStrides shape.dims loop), source] = some nest ∧
      Faithful nest shape.dims [(0, Grid.loopStrides shape.dims loop), source]
        (loopOrder shape.dims.length (Grid.loopStrides shape.dims loop)
          (Layout.classifyOrder shape.dims (Grid.loopStrides shape.dims loop))) :=
    plan_eq_some (Layout.classifyOrder shape.dims (Grid.loopStrides shape.dims loop)) positive
      fitsProd fun a below wide op member => by
        rcases List.mem_pair.mp member with rfl | rfl
        · exact Grid.isSigned_loopStrides_mul perm positive fits below
        · exact fit.signed_span positive sourceLength below wide
  obtain ⟨first, second, strides⟩ := List.length_eq_two.mp
    (faithful.operands_length.trans (by rfl))
  have positions := faithful.positions_mem axesPerm lengths
  have axes := faithful.strides_axes
  rw [strides] at positions axes
  simp only [List.forall₂_cons] at positions axes
  have reaches : List.Forall₂ (Reaches nest.dims) nest.offsets nest.strides := by
    rw [faithful.offsets_eq, strides]
    have nestFits : 1 * (Extent.count nest.dims : Int) ≤ Word.signedMax := by
      rw [one_mul, Extent.count_eq_prod, faithful.prod_eq, prod_map_getD_of_perm axesPerm]
      exact fits
    refine .cons (reaches_of_columnNumber faithful.wide one_pos (faithful.numbered axesPerm
      (heads_ofAxes_loopStrides shape perm source sourceLength) strides) nestFits) (.cons ?_ .nil)
    exact reaches_of_walkable faithful.wide positive sourceLength fit positions.2.1 axes.2.1
  rw [walk, planned]
  dsimp only
  rw [positions_eq_of_reaches true (faithful.extents_fit axesPerm fitsProd) reaches
      (fun _ sliced => absurd sliced (by decide)), faithful.calls_eq,
    calls_ofAxes_eq axesPerm lengths]
  rfl

end LoopNest

end Traversal

namespace Layout

/-- A row-major stride vector moves along at least two axes: over one, column-major is
reported. -/
theorem two_le_length_activeAxes {dims : List Nat} {strides : List Int}
    (row : classifyOrder dims strides = .rowMajor) : 2 ≤ (activeAxes dims strides).length := by
  unfold classifyOrder at row
  dsimp only at row
  split_ifs at row with zero column
  generalize activeAxes dims strides = active at column
  rcases active with _ | ⟨a, _ | ⟨b, rest⟩⟩
  · simp [chainNests] at column
  · simp [chainNests] at column
  · simp

end Layout

/-- A cast succeeds exactly where the kinds allow it: every element of a kind casts to another
kind unless that would drop an imaginary part. -/
theorem Kind.cast_isSome (source target : Kind) (x : source.Carrier) :
    (Element.cast x : Option target.Carrier).isSome = source.canCastTo target := by
  cases source <;> cases target <;> rfl

theorem Kind.canCastTo_self (k : Kind) : k.canCastTo k = true := by
  cases k <;> rfl

namespace Grid

open Layout Traversal

/-- The room a conversion to `β` reserves: the cast buffer of a flat array; the row handles and
a row of a nested one; the column-major copy of a column-major strided array and then its cast;
the dense copy of any other strided array. -/
def CastRoom {α : Type} [Element α] (β : Type) [Element β] (g : Grid) (buffer : Array α) : Prop :=
  match g.storage with
  | .flat => Word.Reservable buffer.size (Element.byteSize β)
  | .nested => Word.Reservable (Extent.count (g.dims.drop 1)) Word.handleSize ∧
      Word.Reservable (g.dims.headD 0) (Element.byteSize β)
  | .strided _ _ order => (order = .columnMajor → g.HasListingRoom buffer) ∧
      Word.Reservable g.len (Element.byteSize β)

instance {α β : Type} [Element α] [Element β] (g : Grid) (buffer : Array α) :
    Decidable (g.CastRoom β buffer) := by
  unfold CastRoom
  split <;> infer_instance

variable {α β : Type} [Element α] [Element β]

omit [Element α] [Element β] in
/-- Reading a mapped buffer reads the mapped element. -/
theorem get_map (f : α → β) (g : Grid) (buffer : Array α) (index : List Nat) :
    g.get (buffer.map f) index = f <$> g.get buffer index := by
  unfold get
  rcases checked : g.checkIndex index with _ | _
  · rfl
  · simp only [Array.getElem?_map]
    cases buffer[g.slot index]? <;> rfl

/-- Converting an array to its own kind hands the array back. -/
theorem convert_of_kind_eq (same : (@Element.kind α _) = (@Element.kind β _)) (g : Grid)
    (buffer : Array α) : (g.convert buffer : Outcome (Converted β)) = .ok .same := by
  simp [convert, same]

/-- Converting an array of a complex kind to a real kind is refused, before anything is read. -/
theorem convert_of_not_canCastTo
    (refused : (@Element.kind α _).canCastTo (@Element.kind β _) = false) (g : Grid)
    (buffer : Array α) :
    (g.convert buffer : Outcome (Converted β)) =
      Outcome.reject (.unsupportedElementKind (@Element.kind α _) (@Element.kind β _)) := by
  have differ : (@Element.kind α _) ≠ (@Element.kind β _) := fun same => by
    rw [same, Kind.canCastTo_self] at refused
    cases refused
  simp [convert, differ, refused]

/-- The dense copy of an array of a shape: a fresh buffer of its length, laid out along a loop
order, in the storage order its strides classify as. -/
def denseOver (shape : Shape) (loop : List Nat) : Grid :=
  ⟨shape, .strided 0 (loopStrides shape.dims loop)
    (classifyOrder shape.dims (loopStrides shape.dims loop))⟩

section Dense

variable {shape : Shape} {loop : List Nat} (perm : loop.Perm (List.range shape.dims.length))
include perm

/-- The dense strides along a loop order view a buffer of the shape's length. -/
theorem validateView_loopStrides :
    validateView shape.len shape.dims (loopStrides shape.dims loop) 0 =
      .ok (classifyOrder shape.dims (loopStrides shape.dims loop)) := by
  refine validateView_eq_ok_of_positions shape.extentsFit (length_loopStrides _ _).symm
    fun index inBox => ?_
  obtain ⟨k, below, atK⟩ := position_loopStrides_mem perm inBox
  have total := shape.len_le_signedMax
  have counted : (k : Int) < shape.len := by exact_mod_cast below
  rw [atK]
  omega

theorem wrapStrided_loopStrides :
    wrapStrided shape.len shape 0 (loopStrides shape.dims loop) = .ok (denseOver shape loop) := by
  simp only [wrapStrided, validateView_loopStrides perm, Outcome.ok_bind]
  rfl

theorem denseOver_fits : (denseOver shape loop).Fits shape.len :=
  ⟨by decide, validateView_loopStrides perm⟩

/-- No two elements of the dense copy share a cell. -/
theorem denseOver_unaliased : (denseOver shape loop).Unaliased := by
  intro x inX y inY same
  obtain ⟨k, -, atX⟩ := position_loopStrides_mem perm inX
  obtain ⟨l, -, atY⟩ := position_loopStrides_mem perm inY
  apply position_loopStrides_injOn perm inX inY
  simp only [slot, position, denseOver, atX, atY, Int.toNat_natCast] at same
  rw [atX, atY, same]

end Dense

/-- The dense copy of a row-major array, laid out along its loop order, is row-major again: a
row-major view moves along at least two axes, and the copy's strides shrink along them. -/
theorem order_denseOver_of_rowMajor {g : Grid} {offset : Int} {strides : List Int} {size : Nat}
    (storage : g.storage = .strided offset strides .rowMajor) (fits : g.Fits size) :
    (denseOver g.shape (loopOrder g.rank strides .rowMajor)).order = .rowMajor := by
  have accepted : Word.IsSigned offset ∧
      validateView size g.dims strides offset = .ok .rowMajor := by
    unfold Fits at fits
    rw [storage] at fits
    exact fits
  obtain ⟨lengths, row, -⟩ := validateView_ok g.shape.extentsFit accepted.1 accepted.2
  have moving := two_le_length_activeAxes row.symm
  rw [activeAxes_eq_map_filter lengths.symm, List.length_map] at moving
  exact classifyOrder_loopStrides_reverse g.shape.valid.1 g.shape.len_le_signedMax moving

/-- A grid over a buffer that copies another array with every element cast: it has the same
shape, fits its buffer, keeps its elements in distinct cells, and holds at each index of the box
the cast of the original's element there. -/
structure CastCopy (g : Grid) (buffer : Array α) (b : Grid) (copy : Array β) : Prop where
  shape : b.shape = g.shape
  fits : b.Fits copy.size
  unaliased : b.Unaliased
  casts : ∀ index, InBox g.dims index → ∃ x y, g.get buffer index = .ok x ∧
    Element.cast x = some y ∧ b.get copy index = .ok y

/-- Outside the box, the copy refuses an index as the original does. -/
theorem CastCopy.get_of_not_inBox {g b : Grid} {buffer : Array α} {copy : Array β}
    (cast : CastCopy g buffer b copy) {index : List Nat} (outside : ¬InBox g.dims index) :
    g.get buffer index = Outcome.panic .indexOutOfRange ∧
      b.get copy index = Outcome.panic .indexOutOfRange := by
  have sameDims : b.dims = g.dims := congrArg Shape.dims cast.shape
  exact ⟨Grid.get_of_not_inBox outside, Grid.get_of_not_inBox (sameDims ▸ outside)⟩

/-- A conversion that casts every element read, where every cast succeeds, holds the cast of
the original's element at each index of the box. -/
theorem casts_of_get_eq {g b : Grid} {buffer : Array α} {copy : Array β}
    (fits : g.Fits buffer.size) (castsSome : ∀ x : α, (Element.cast x : Option β).isSome)
    (same : ∀ index, InBox g.dims index →
      b.get copy index = (fun x => (Element.cast x).getD Element.zero) <$> g.get buffer index) :
    ∀ index, InBox g.dims index → ∃ x y, g.get buffer index = .ok x ∧
      Element.cast x = some y ∧ b.get copy index = .ok y := by
  intro index inBox
  obtain ⟨x, -, read⟩ := get_ok fits inBox
  obtain ⟨y, cast⟩ := Option.isSome_iff_exists.mp (castsSome x)
  refine ⟨x, y, read, cast, ?_⟩
  simp [same index inBox, read, cast]

/-- A flat or nested array copied with every element cast keeps its grid over the cast buffer. -/
theorem castCopy_map {g : Grid} (unstrided : g.storage = .flat ∨ g.storage = .nested)
    {buffer : Array α} (fits : g.Fits buffer.size)
    (castsSome : ∀ x : α, (Element.cast x : Option β).isSome) :
    CastCopy g buffer g (buffer.map fun x => ((Element.cast x).getD Element.zero : β)) := by
  have copyFits : g.Fits (buffer.map fun x => ((Element.cast x).getD Element.zero : β)).size := by
    rw [Array.size_map]
    exact fits
  have ordered : g.order ≠ .nonSpecific := by
    rcases unstrided with storage | storage <;> simp [order, storage]
  exact ⟨rfl, copyFits, unaliased_of_order copyFits ordered,
    casts_of_get_eq fits castsSome fun index _ => get_map _ _ _ _⟩

section Castable

variable (castable : (@Element.kind α _).canCastTo (@Element.kind β _) = true)
  (differ : (@Element.kind α _) ≠ (@Element.kind β _))
include castable differ

/-- A flat or nested array with the room for its copy converts to an array of the same grid over
the cast buffer. -/
theorem convert_of_unstrided {g : Grid} (unstrided : g.storage = .flat ∨ g.storage = .nested)
    {buffer : Array α} (room : g.CastRoom β buffer) :
    (g.convert buffer : Outcome (Converted β)) =
      .ok (.copy g (buffer.map fun x => (Element.cast x).getD Element.zero)) := by
  obtain ⟨shape, storage⟩ := g
  rcases unstrided with rfl | rfl
  · have cast : Word.Reservable buffer.size (Element.byteSize β) := room
    simp only [convert, differ, castable, if_false, Bool.not_true, Bool.false_eq_true,
      Word.reserve_of_reservable cast, Outcome.ok_bind]
    rfl
  · have rows : Word.Reservable (Extent.count (shape.dims.drop 1)) Word.handleSize ∧
        Word.Reservable (shape.dims.headD 0) (Element.byteSize β) := room
    simp only [convert, differ, castable, if_false, Bool.not_true, Bool.false_eq_true, dims,
      Word.reserve_of_reservable rows.1, Word.reserve_of_reservable rows.2, Outcome.ok_bind]
    rfl

/-- A column-major strided array converts to a flat array of its cast listing, once the room for
the cast is reserved. -/
theorem convert_of_columnMajor {g : Grid} {offset : Int} {strides : List Int}
    (storage : g.storage = .strided offset strides .columnMajor) {buffer : Array α} {xs : List α}
    (listed : g.toList buffer = .ok xs) (room : Word.Reservable xs.length (Element.byteSize β)) :
    (g.convert buffer : Outcome (Converted β)) =
      .ok (.copy ⟨g.shape, .flat⟩ (xs.map fun x => (Element.cast x).getD Element.zero).toArray) := by
  simp only [convert, differ, castable, storage, Bool.not_true, Bool.false_eq_true, if_false,
    if_true, listed, Outcome.ok_bind, Word.reserve_of_reservable room]
  rfl

/-- Any other strided array, once the room for its dense copy is reserved, converts to that copy
along its loop order, holding at each index of the box the cast of the original's element. -/
theorem convert_of_strided {g : Grid} {offset : Int} {strides : List Int} {order : Order}
    (storage : g.storage = .strided offset strides order) (notColumn : order ≠ .columnMajor)
    {buffer : Array α} (fits : g.Fits buffer.size) (bounded : g.Bounded)
    (room : Word.Reservable g.len (Element.byteSize β)) :
    ∃ copy, (g.convert buffer : Outcome (Converted β)) =
        .ok (.copy (denseOver g.shape (loopOrder g.rank strides order)) copy) ∧
      copy.size = g.len ∧
      ∀ index, InBox g.dims index →
        (denseOver g.shape (loopOrder g.rank strides order)).get copy index =
          (fun x => (Element.cast x).getD Element.zero) <$> g.get buffer index := by
  have perm := loopOrder_perm g.rank strides order
  have described : g.descriptor? = some (offset, strides) := by simp [descriptor?, storage]
  obtain ⟨lengths, walkable⟩ := walkable_of_descriptor fits bounded
    (fun flat => by rw [storage] at flat; cases flat) described
  set out := denseOver g.shape (loopOrder g.rank strides order) with outDef
  set cast : α → β := fun x => (Element.cast x).getD Element.zero with castDef
  have outFits : out.Fits (Array.replicate g.len (Element.zero : β)).size := by
    rw [Array.size_replicate]
    exact denseOver_fits perm
  have mapped : mapInto out g false cast (Array.replicate g.len Element.zero) buffer =
      .ok ⟨writeAll (Array.replicate g.len Element.zero)
        (mappedWrites out g cast buffer (writeOrder out g false)), false⟩ :=
    mapInto_eq_of_walk cast rfl rfl described
      (LoopNest.walk_loopStrides_eq g.shape perm (offset, strides) lengths walkable)
  refine ⟨writeAll (Array.replicate g.len Element.zero)
    (mappedWrites out g cast buffer (writeOrder out g false)), ?_,
    by rw [writeAll_size, Array.size_replicate], fun index inBox => ?_⟩
  · have wrapped : wrapStrided g.len g.shape 0 (loopStrides g.dims (loopOrder g.rank strides order)) =
        .ok out :=
      wrapStrided_loopStrides perm
    simp only [convert, differ, castable, storage, Bool.not_true, Bool.false_eq_true, if_false,
      if_neg notColumn, Word.reserve_of_reservable room, Outcome.ok_bind]
    rw [wrapped, Outcome.ok_bind, mapped]
    rfl
  · obtain ⟨x, read, cell⟩ := getElem?_writeAll_mappedWrites_of_unaliased cast outFits fits
      (denseOver_unaliased perm) (nodup_writeOrder _ _ false)
      (fun j mem => have inOut := mem_writeOrder.mp mem; ⟨inOut, inOut⟩) (mem_writeOrder.mpr inBox)
    rw [read, get_writeAll outFits _ inBox cell]
    rfl

/-- Without the room it reserves, a conversion between kinds that allow the cast stops with a
capacity overflow. -/
theorem convert_of_not_castRoom {g : Grid} {buffer : Array α} (fits : g.Fits buffer.size)
    (bounded : g.Bounded) (full : ¬g.CastRoom β buffer) :
    (g.convert buffer : Outcome (Converted β)) = Outcome.panic .capacityOverflow := by
  obtain ⟨shape, storage⟩ := g
  cases storage with
  | flat =>
    have cast : ¬Word.Reservable buffer.size (Element.byteSize β) := full
    simp only [convert, differ, castable, if_false, Bool.not_true, Bool.false_eq_true,
      Word.reserve_of_not_reservable cast, Outcome.panic_bind]
  | nested =>
    simp only [convert, differ, castable, if_false, Bool.not_true, Bool.false_eq_true, dims]
    by_cases handles : Word.Reservable (Extent.count (shape.dims.drop 1)) Word.handleSize
    · have row : ¬Word.Reservable (shape.dims.headD 0) (Element.byteSize β) :=
        fun row => full ⟨handles, row⟩
      rw [Word.reserve_of_reservable handles, Outcome.ok_bind, Word.reserve_of_not_reservable row,
        Outcome.panic_bind]
    · rw [Word.reserve_of_not_reservable handles, Outcome.panic_bind]
  | strided offset strides order =>
    by_cases column : order = .columnMajor
    · subst column
      simp only [convert, differ, castable, Bool.not_true, Bool.false_eq_true, if_false, if_true]
      by_cases listing : (⟨shape, .strided offset strides .columnMajor⟩ : Grid).HasListingRoom buffer
      · obtain ⟨xs, listed, related⟩ := fits.listColumnMajor_forall₂ bounded
        have cast : ¬Word.Reservable xs.length (Element.byteSize β) := by
          rw [length_of_forall₂ related]
          exact fun cast => full ⟨fun _ => listing, cast⟩
        rw [toList_of_hasListingRoom listing, listed, Outcome.ok_bind,
          Word.reserve_of_not_reservable cast, Outcome.panic_bind]
      · rw [toList_of_not_hasListingRoom listing, Outcome.panic_bind]
    · have cast : ¬Word.Reservable shape.len (Element.byteSize β) :=
        fun cast => full ⟨fun same => absurd same column, cast⟩
      simp only [convert, differ, castable, Bool.not_true, Bool.false_eq_true, if_false,
        if_neg column, len, Word.reserve_of_not_reservable cast, Outcome.panic_bind]

/-- Converting a fitting array of bounded reach to an element type every element casts to, with
the room the conversion reserves, succeeds with an array of the same shape that fits its buffer,
keeps its elements in distinct cells, and holds at each index of the box the cast of the
original's element. -/
theorem convert_eq_ok (castsSome : ∀ x : α, (Element.cast x : Option β).isSome) {g : Grid}
    {buffer : Array α} (fits : g.Fits buffer.size) (bounded : g.Bounded)
    (room : g.CastRoom β buffer) :
    ∃ b copy, (g.convert buffer : Outcome (Converted β)) = .ok (.copy b copy) ∧
      CastCopy g buffer b copy ∧
      (g.storage = .flat → b.storage = .flat) ∧
      (g.storage = .nested → b.storage = .nested) ∧
      (∀ offset strides, g.storage = .strided offset strides .columnMajor → b.storage = .flat) ∧
      (∀ offset strides order, g.storage = .strided offset strides order →
        order ≠ .columnMajor →
          b = denseOver g.shape (loopOrder g.rank strides order) ∧ copy.size = g.len) := by
  obtain ⟨shape, storage⟩ := g
  cases storage with
  | flat =>
    refine ⟨_, _, convert_of_unstrided castable differ (.inl rfl) room,
      castCopy_map (.inl rfl) fits castsSome, fun _ => rfl, (by intro nested; cases nested),
      (by intro _ _ strided; cases strided), (by intro _ _ _ strided; cases strided)⟩
  | nested =>
    refine ⟨_, _, convert_of_unstrided castable differ (.inr rfl) room,
      castCopy_map (.inr rfl) fits castsSome, (by intro flat; cases flat), fun _ => rfl,
      (by intro _ _ strided; cases strided), (by intro _ _ _ strided; cases strided)⟩
  | strided offset strides order =>
    by_cases column : order = .columnMajor
    · subst column
      obtain ⟨listing, cast⟩ := room
      obtain ⟨xs, columns, related⟩ := fits.listColumnMajor_forall₂ bounded
      have listed : (⟨shape, .strided offset strides .columnMajor⟩ : Grid).toList buffer =
          .ok xs := by
        rw [toList_of_hasListingRoom (listing rfl), columns]
      have length := length_of_forall₂ related
      have copyFits : (⟨shape, .flat⟩ : Grid).Fits
          (xs.map fun x => ((Element.cast x).getD Element.zero : β)).toArray.size := by
        rw [List.size_toArray, List.length_map]
        exact length
      have mapped : (xs.map fun x => ((Element.cast x).getD Element.zero : β)).toArray =
          xs.toArray.map fun x => (Element.cast x).getD Element.zero := by
        simp
      refine ⟨_, _, convert_of_columnMajor castable differ rfl listed (length ▸ cast),
        ⟨rfl, copyFits, unaliased_of_order copyFits (by simp [order]),
        casts_of_get_eq fits castsSome fun index inBox => ?_⟩, (by intro flat; cases flat),
        (by intro nested; cases nested), fun _ _ _ => rfl,
        fun _ _ _ same other => absurd (Storage.strided.inj same).2.2.symm other⟩
      rw [mapped, get_map, get_flat_of_forall₂ fits related inBox]
    · obtain ⟨copy, converted, size, same⟩ :=
        convert_of_strided castable differ rfl column (β := β) fits bounded room.2
      have perm := loopOrder_perm (⟨shape, .strided offset strides order⟩ : Grid).rank strides order
      have copyFits : (denseOver shape (loopOrder shape.dims.length strides order)).Fits
          copy.size := by
        rw [size]
        exact denseOver_fits perm
      refine ⟨_, copy, converted, ⟨rfl, copyFits, denseOver_unaliased perm,
        casts_of_get_eq fits castsSome same⟩, (by intro flat; cases flat),
        (by intro nested; cases nested),
        fun _ _ strided => absurd (Storage.strided.inj strided).2.2 column,
        fun _ _ _ strided _ => ?_⟩
      obtain ⟨rfl, rfl, rfl⟩ := Storage.strided.inj strided
      exact ⟨rfl, size⟩

end Castable

/-- Between kinds that do not allow the cast, converting is refused. -/
theorem convert_of_canCastTo_eq_false {source target : Kind}
    (refused : source.canCastTo target = false) (g : Grid) (buffer : Array source.Carrier) :
    (g.convert buffer : Outcome (Converted target.Carrier)) =
      Outcome.reject (.unsupportedElementKind source target) := by
  have rejected := convert_of_not_canCastTo (α := source.Carrier) (β := target.Carrier)
    (by rw [Kind.element_kind, Kind.element_kind]; exact refused) g buffer
  rwa [Kind.element_kind, Kind.element_kind] at rejected

section Kinds

variable {source target : Kind} (castable : source.canCastTo target = true)
  (other : target ≠ source)
include castable other

theorem castable_carriers :
    (@Element.kind source.Carrier _).canCastTo (@Element.kind target.Carrier _) = true ∧
      (@Element.kind source.Carrier _) ≠ (@Element.kind target.Carrier _) := by
  rw [Kind.element_kind, Kind.element_kind]
  exact ⟨castable, Ne.symm other⟩

/-- Between distinct kinds that allow the cast, a conversion without its room stops with a
capacity overflow. -/
theorem convert_of_canCastTo_of_not_castRoom {g : Grid} {buffer : Array source.Carrier}
    (fits : g.Fits buffer.size) (bounded : g.Bounded) (full : ¬g.CastRoom target.Carrier buffer) :
    (g.convert buffer : Outcome (Converted target.Carrier)) = Outcome.panic .capacityOverflow :=
  convert_of_not_castRoom (castable_carriers castable other).1 (castable_carriers castable other).2
    fits bounded full

/-- Between distinct kinds that allow the cast, converting a fitting array of bounded reach with
its room succeeds with a copy holding the cast elements, in the layout `convert_eq_ok` gives. -/
theorem convert_of_canCastTo {g : Grid} {buffer : Array source.Carrier}
    (fits : g.Fits buffer.size) (bounded : g.Bounded) (room : g.CastRoom target.Carrier buffer) :
    ∃ b copy, (g.convert buffer : Outcome (Converted target.Carrier)) = .ok (.copy b copy) ∧
      CastCopy g buffer b copy ∧
      (∀ index, ¬InBox g.dims index → g.get buffer index = Outcome.panic .indexOutOfRange ∧
        b.get copy index = Outcome.panic .indexOutOfRange) ∧
      (g.storage = .flat → b.storage = .flat) ∧
      (g.storage = .nested → b.storage = .nested) ∧
      (∀ offset strides, g.storage = .strided offset strides .columnMajor → b.storage = .flat) ∧
      (∀ offset strides order, g.storage = .strided offset strides order →
        order ≠ .columnMajor →
          copy.size = g.len ∧
          (∃ dense, b.storage = .strided 0 dense b.order ∧ dense.length = g.rank ∧
            (loopOrder g.rank strides order).map (dense.getD · 0) =
              (Shape.columnStrides
                ((loopOrder g.rank strides order).map (g.dims.getD · 1))).map Int.ofNat) ∧
          (order = .rowMajor → b.order = .rowMajor)) := by
  obtain ⟨b, copy, converted, cast, flat, nested, column, strided⟩ :=
    convert_eq_ok (castable_carriers castable other).1 (castable_carriers castable other).2
      (fun x => by rw [Kind.cast_isSome]; exact castable) fits bounded room
  refine ⟨b, copy, converted, cast, fun index outside => cast.get_of_not_inBox outside, flat,
    nested, column, fun offset strides order storage different => ?_⟩
  obtain ⟨rfl, size⟩ := strided offset strides order storage different
  have perm := loopOrder_perm g.rank strides order
  refine ⟨size, ⟨_, rfl, length_loopStrides _ _, map_getD_loopStrides perm⟩, fun row => ?_⟩
  subst row
  exact order_denseOver_of_rowMajor storage fits

end Kinds

end Grid

namespace Session

variable {α β : Type} {s : Store}

theorem run_bind_of_ok {m : Session α} {f : α → Session β} {a : α} {t : Store}
    (ran : m.run s = .ok a t) : (m >>= f).run s = (f a).run t := by
  rw [EStateM.run_bind, ran]

theorem arrayArg_run {step : Json} {name : String} {id : Nat} {h : Handle}
    (named : step.need name Json.usize? = .ok id) (found : s.handle? id = some h) :
    (arrayArg step name).run s = .ok h s := by
  unfold arrayArg
  rw [named]
  show (need (s.handle? id)).run s = _
  rw [found]
  rfl

section Convert

/-! A conversion step names an array of the store and a kind. -/

variable {step : Json} {id : Nat} {h : Handle} {data : Array h.kind.Carrier} {target : Kind}
  (named : step.need "a" Json.usize? = .ok id) (found : s.handle? id = some h)
  (read : s.data? h = some data) (kind : step.needKind "to" = .ok target)
include named found read kind

/-- Converting an array to its own kind appends the same array, on the same buffer. -/
theorem convert_run_of_eq (same : target = h.kind) :
    (copying "convert" step).run s = (append h).run s := by
  have handed : (h.grid.convert data : Outcome (Grid.Converted target.Carrier)) = .ok .same :=
    Grid.convert_of_kind_eq (by rw [Kind.element_kind, Kind.element_kind, same]) _ _
  unfold copying
  rw [run_bind_of_ok (arrayArg_run named found), run_bind_of_ok (bufferOf_run read)]
  simp only [kind, lift, pure_bind, handed, outcome, Reading.ofOutcome]

/-- A conversion that copies the array appends the copy on a new buffer. -/
theorem convert_run_of_ok {grid : Grid} {copy : Array target.Carrier}
    (converted : (h.grid.convert data : Outcome (Grid.Converted target.Carrier)) =
      .ok (.copy grid copy)) :
    (copying "convert" step).run s =
      (append ⟨target, grid, s.buffers.size⟩).run (s.allocate target copy).1 := by
  unfold copying
  rw [run_bind_of_ok (arrayArg_run named found), run_bind_of_ok (bufferOf_run read)]
  simp only [kind, lift, pure_bind, converted, outcome, Reading.ofOutcome]
  rfl

/-- A conversion the library refuses, or that runs out of room, stops the step with its fault,
the store unchanged. -/
theorem convert_run_of_error {f : Fault}
    (refused : (h.grid.convert data : Outcome (Grid.Converted target.Carrier)) = .error f) :
    (copying "convert" step).run s = .error (.fault f) s := by
  unfold copying
  rw [run_bind_of_ok (arrayArg_run named found), run_bind_of_ok (bufferOf_run read)]
  simp only [kind, lift, pure_bind, refused, outcome, Reading.ofOutcome]
  rfl

end Convert

end Session

open Grid Traversal in
/-- Converting an array between kinds: to its own kind it is handed back, a complex array is never
cast to a real kind, and any other conversion reserves room for its copy and casts every element,
keeping the layout family. In a session the same kind appends the same array, any other kind the
copy on a new buffer. -/
theorem convert_casts_elementwise (source target : Kind) {g : Grid}
    {buffer : Array source.Carrier} (fits : g.Fits buffer.size) (bounded : g.Bounded) :
    (target = source →
      (g.convert buffer : Outcome (Converted target.Carrier)) = .ok .same) ∧
    (source.canCastTo target = false →
      (g.convert buffer : Outcome (Converted target.Carrier)) =
        Outcome.reject (.unsupportedElementKind source target)) ∧
    (target ≠ source → source.canCastTo target = true → ¬g.CastRoom target.Carrier buffer →
      (g.convert buffer : Outcome (Converted target.Carrier)) = Outcome.panic .capacityOverflow) ∧
    (target ≠ source → source.canCastTo target = true → g.CastRoom target.Carrier buffer →
      ∃ b copy, (g.convert buffer : Outcome (Converted target.Carrier)) = .ok (.copy b copy) ∧
        CastCopy g buffer b copy ∧
        (∀ index, ¬InBox g.dims index → g.get buffer index = Outcome.panic .indexOutOfRange ∧
          b.get copy index = Outcome.panic .indexOutOfRange) ∧
        (g.storage = .flat → b.storage = .flat) ∧
        (g.storage = .nested → b.storage = .nested) ∧
        (∀ offset strides, g.storage = .strided offset strides .columnMajor →
          b.storage = .flat) ∧
        (∀ offset strides order, g.storage = .strided offset strides order →
          order ≠ .columnMajor →
            copy.size = g.len ∧
            (∃ dense, b.storage = .strided 0 dense b.order ∧ dense.length = g.rank ∧
              (loopOrder g.rank strides order).map (dense.getD · 0) =
                (Shape.columnStrides
                  ((loopOrder g.rank strides order).map (g.dims.getD · 1))).map Int.ofNat) ∧
            (order = .rowMajor → b.order = .rowMajor))) ∧
    ∀ (s : Store) (step : Json) (id n : Nat), step.need "a" Json.usize? = .ok id →
      s.handle? id = some ⟨source, g, n⟩ → s.data? ⟨source, g, n⟩ = some buffer →
      step.needKind "to" = .ok target →
      (target = source →
        (Session.copying "convert" step).run s = (Session.append ⟨source, g, n⟩).run s) ∧
      (source.canCastTo target = false →
        (Session.copying "convert" step).run s =
          .error (.fault (.error (.unsupportedElementKind source target))) s) ∧
      (target ≠ source → source.canCastTo target = true → ¬g.CastRoom target.Carrier buffer →
        (Session.copying "convert" step).run s = .error (.fault (.panic .capacityOverflow)) s) ∧
      (target ≠ source → source.canCastTo target = true → g.CastRoom target.Carrier buffer →
        n < s.buffers.size ∧ ∃ b copy, CastCopy g buffer b copy ∧
          (Session.copying "convert" step).run s =
            (Session.append ⟨target, b, s.buffers.size⟩).run (s.allocate target copy).1) := by
  refine ⟨fun same => convert_of_kind_eq (by rw [Kind.element_kind, Kind.element_kind, same]) g
      buffer,
    fun refused => convert_of_canCastTo_eq_false refused g buffer,
    fun other castable full => convert_of_canCastTo_of_not_castRoom castable other fits bounded full,
    fun other castable room => convert_of_canCastTo castable other fits bounded room,
    fun s step id n named found read kind =>
    ⟨fun same => ?_, fun refused => ?_, fun other castable full => ?_,
      fun other castable room => ?_⟩⟩
  · exact Session.convert_run_of_eq named found read kind same
  · exact Session.convert_run_of_error named found read kind
      (convert_of_canCastTo_eq_false refused g buffer)
  · exact Session.convert_run_of_error named found read kind
      (convert_of_canCastTo_of_not_castRoom castable other fits bounded full)
  · obtain ⟨b, copy, converted, cast, -⟩ := convert_of_canCastTo castable other fits bounded room
    obtain ⟨_, foundBuffer, -, -⟩ := Store.data?_eq_some read
    exact ⟨(Array.getElem?_eq_some_iff.mp foundBuffer).1, b, copy, cast,
      Session.convert_run_of_ok named found read kind converted⟩

/-- Two rows of three 32-bit integers, viewed row-major, convert to 64-bit floats as a dense
row-major copy of six elements. -/
theorem convert_casts_elementwise_rowMajor_view :
    let g : Grid := ⟨⟨[2, 3], by decide⟩, .strided 0 [3, 1] .rowMajor⟩
    let buffer : Array Int32 := #[0, 1, 2, 3, 4, 5]
    g.Fits buffer.size ∧ g.Bounded ∧ g.CastRoom Float buffer ∧
      ∃ b copy, (g.convert buffer : Outcome (Grid.Converted Float)) = .ok (.copy b copy) ∧
        Grid.CastCopy g buffer b copy ∧ copy.size = 6 ∧ b.order = .rowMajor := by
  intro g buffer
  have fits : g.Fits buffer.size := ⟨by decide, by rfl⟩
  have bounded : g.Bounded := by
    norm_num [g, Grid.Bounded, Grid.dims, Traversal.sweep, Word.signedMax]
  have room : g.CastRoom Float buffer := by decide
  obtain ⟨-, -, -, castable, -⟩ := convert_casts_elementwise .i32 .f64 fits bounded
  obtain ⟨b, copy, converted, cast, -, -, -, -, strided⟩ := castable (by decide) rfl room
  obtain ⟨size, -, row⟩ := strided 0 [3, 1] .rowMajor rfl (by decide)
  exact ⟨fits, bounded, room, b, copy, converted, cast, size, row rfl⟩

/-- A stride-0 view of `2^60` single floats over one cell: its copy as doubles would take `2^63`
bytes, so converting it stops with a capacity overflow. -/
theorem convert_refuses_unreservable_copy :
    let g : Grid := ⟨⟨[1152921504606846976], by decide⟩, .strided 0 [0] .nonSpecific⟩
    g.Fits (#[0] : Array Float32).size ∧ g.Bounded ∧
      (g.convert (#[0] : Array Float32) : Outcome (Grid.Converted Float)) =
        Outcome.panic .capacityOverflow := by
  intro g
  obtain ⟨fits, bounded⟩ :=
    Grid.zeroStride_fits_bounded (show (#[0] : Array Float32).size = 1 from rfl)
  exact ⟨fits, bounded, Grid.convert_of_not_castRoom (by decide) (by decide) fits bounded
    (by decide)⟩

end StridedGrid
