import Mathlib
import StridedGrid.Proofs.LoopNestPlan

/-!
# Walking a loop nest

A walk hands out the runs of the innermost loop and steps every operand's offset as it goes,
in checked arithmetic. Its positions are the closed-form positions of the nest (`calls`), and
nothing overflows, as long as every operand's positions over the box of loops lie in
`[0, bound)` for a bound of at most `2^62` and every loop is at least two wide (`Within`), and
more generally as long as every position the walk computes is a signed word (`Reaches`).

The walk computes a few positions outside the box: every loop steps once past its last
iteration, and the span of a loop, stride times extent, is taken off again. Along a loop of
extent at least two the stride is the difference of two positions of the box, so it is below the
bound in size (`stride_bounds`), and a position one step past the box stays below twice the
bound: still a signed word.

The outer loops run like the column-major successor `bump`: at every index but the last the
carry steps to the next index, and at the last it ends the walk (`carry_eq`). The runs follow the
odometer of the outer loops (`runs_eq`), each expanding to the positions along the inner loop
(`runPositions_eq`), so the walk visits `calls` (`positions_eq`).
-/

namespace StridedGrid

namespace Traversal

/-- An operand's positions at every index of a box of loops lie in `[0, bound)`. -/
def Within (bound : Nat) (dims : List Nat) (offset : Int) (strides : List Int) : Prop :=
  ∀ index, InBox dims index →
    0 ≤ position offset strides index ∧ position offset strides index < bound

/-- The position at an index split by its first coordinate. An operand with no strides left
stays at its offset. -/
theorem position_cons_eq (offset : Int) (strides : List Int) (j : Nat) (index : List Nat) :
    position offset strides (j :: index) = position offset strides.tail index + j * strides.headD 0 := by
  cases strides with
  | nil => simp [position]
  | cons s strides => simp

/-- Along an axis of extent at least two whose first and last positions lie in `[0, bound)`,
the stride is below the bound in size. -/
theorem stride_bounds {bound first stride : Int} {extent : Nat} (wide : 1 < extent)
    (firstIn : 0 ≤ first ∧ first < bound)
    (lastIn : 0 ≤ first + (extent - 1 : Nat) * stride ∧ first + (extent - 1 : Nat) * stride < bound) :
    -bound < stride ∧ stride < bound := by
  have steps : (1 : Int) ≤ (extent - 1 : Nat) := by omega
  rcases le_or_gt 0 stride with nonneg | neg
  · have : stride ≤ (extent - 1 : Nat) * stride := by nlinarith
    constructor <;> linarith
  · have : (extent - 1 : Nat) * stride ≤ stride := by nlinarith
    constructor <;> linarith

section Within

variable {bound : Nat} {extent : Nat} {dims index : List Nat} {offset : Int} {strides : List Int}

theorem Within.tail (within : Within bound (extent :: dims) offset strides) (positive : 0 < extent) :
    Within bound dims offset strides.tail := by
  intro index inBox
  have inside := within (0 :: index) (inBox_cons_cons.mpr ⟨positive, inBox⟩)
  simpa [position_cons_eq] using inside

/-- The first loop's stride of an operand within the bound is below the bound in size. -/
theorem Within.stride_bounds (within : Within bound (extent :: dims) offset strides)
    (wide : 1 < extent) (inBox : InBox dims index) :
    -(bound : Int) < strides.headD 0 ∧ strides.headD 0 < bound := by
  have first := within (0 :: index) (inBox_cons_cons.mpr ⟨by omega, inBox⟩)
  have last := within ((extent - 1) :: index) (inBox_cons_cons.mpr ⟨by omega, inBox⟩)
  rw [position_cons_eq] at first last
  exact Traversal.stride_bounds wide (by simpa using first) last

variable (small : bound ≤ 4611686018427387904)
include small

/-- Every position of the first loop up to one step past its last is a signed word. -/
theorem Within.signed_upTo (within : Within bound (extent :: dims) offset strides)
    (wide : 1 < extent) (inBox : InBox dims index) {j : Nat} (upTo : j ≤ extent) :
    Word.IsSigned (position offset strides (j :: index)) := by
  unfold Word.IsSigned Word.signedMin Word.signedMax
  rcases Nat.lt_or_eq_of_le upTo with inside | rfl
  · have := within (j :: index) (inBox_cons_cons.mpr ⟨inside, inBox⟩)
    omega
  · have last := within ((j - 1) :: index) (inBox_cons_cons.mpr ⟨by omega, inBox⟩)
    have stride := within.stride_bounds wide inBox
    have past : position offset strides (j :: index) =
        position offset strides ((j - 1) :: index) + strides.headD 0 := by
      rw [position_cons_eq, position_cons_eq]
      push_cast [Nat.cast_sub (by omega : 1 ≤ j)]
      ring
    omega

/-- The span of the first loop, stride times extent, is a signed word. -/
theorem Within.signed_span (within : Within bound (extent :: dims) offset strides)
    (wide : 1 < extent) (inBox : InBox dims index) :
    Word.IsSigned (strides.headD 0 * extent) := by
  have first := within (0 :: index) (inBox_cons_cons.mpr ⟨by omega, inBox⟩)
  have last := within ((extent - 1) :: index) (inBox_cons_cons.mpr ⟨by omega, inBox⟩)
  have stride := within.stride_bounds wide inBox
  have span : strides.headD 0 * extent =
      position offset strides ((extent - 1) :: index) - position offset strides (0 :: index) +
        strides.headD 0 := by
    rw [position_cons_eq, position_cons_eq]
    push_cast [Nat.cast_sub (by omega : 1 ≤ extent)]
    ring
  unfold Word.IsSigned Word.signedMin Word.signedMax
  omega

end Within

/-- Every position the walk computes for an operand over a box of loops is a signed word: along
the first loop, with the other loops in the box, every position up to one step past its end;
the first loop's span; and then the same for the loops outside it, the first loop at zero. -/
def Reaches : List Nat → Int → List Int → Prop
  | [], offset, _ => Word.IsSigned offset
  | extent :: dims, offset, strides =>
    (∀ index, InBox dims index → ∀ j ≤ extent, Word.IsSigned (position offset strides (j :: index))) ∧
      Word.IsSigned (strides.headD 0 * extent) ∧ Reaches dims offset strides.tail

/-- An operand within a bound of at most `2^62` over loops at least two wide reaches only signed
words. -/
theorem Within.reaches {bound : Nat} (small : bound ≤ 4611686018427387904) :
    ∀ {dims : List Nat} {offset : Int} {strides : List Int}, Within bound dims offset strides →
      (∀ e ∈ dims, 1 < e) → Reaches dims offset strides
  | [], _, _, within, _ => by
    have := within [] (inBox_nil_iff.mpr rfl)
    simp only [position, weighted_nil_left, add_zero] at this
    unfold Reaches Word.IsSigned Word.signedMin Word.signedMax
    omega
  | extent :: dims, _, _, within, wide => by
    have wideHere := wide extent (.head _)
    have start : InBox dims (List.replicate dims.length 0) :=
      zeros_inBox fun e mem => by have := wide e (.tail _ mem); omega
    exact ⟨fun index inBox j upTo => within.signed_upTo small wideHere inBox upTo,
      within.signed_span small wideHere start,
      (within.tail (by omega)).reaches small fun e mem => wide e (.tail _ mem)⟩

/-! ## Stepping every operand -/

/-- Every operand's position at an index whose first coordinate is `j`: its position at the rest
of the index, moved `j` steps of its first stride. -/
theorem positionsAt_cons (j : Nat) (index : List Nat) :
    ∀ (offsets : List Int) (strides : List (List Int)),
      positionsAt offsets strides (j :: index) =
        shiftOffsets (positionsAt offsets (strides.map List.tail) index)
          (strides.map (·.headD 0)) j
  | offset :: offsets, s :: strides => by
    have rest := positionsAt_cons j index offsets strides
    simp only [positionsAt, shiftOffsets, List.map_cons, List.zipWith_cons_cons] at rest ⊢
    rw [position_cons_eq, rest]
  | [], _ => rfl
  | _ :: _, [] => rfl

theorem positionsAt_zero_cons (index : List Nat) (offsets : List Int)
    (strides : List (List Int)) :
    positionsAt offsets strides (0 :: index) = positionsAt offsets (strides.map List.tail) index := by
  rw [positionsAt_cons]
  exact shiftOffsets_zero (by simp [positionsAt])

/-- A property of every operand's position holds of every position in the list. -/
theorem forall_mem_positionsAt {P : Int → Prop} {index : List Nat} {offsets : List Int}
    {strides : List (List Int)}
    (each : List.Forall₂ (fun offset s => P (position offset s index)) offsets strides) :
    ∀ p ∈ positionsAt offsets strides index, P p := by
  induction each with
  | nil => simp [positionsAt]
  | cons head _ ih =>
    intro p mem
    simp only [positionsAt, List.zipWith_cons_cons, List.mem_cons] at mem ih
    rcases mem with rfl | mem
    · exact head
    · exact ih p mem

/-- Stepping offsets moved `j` steps gives the offsets moved `j + 1` steps, when those are
signed words. -/
theorem stepAll_shiftOffsets (j : Nat) :
    ∀ {offsets steps : List Int}, (∀ p ∈ shiftOffsets offsets steps (j + 1), Word.IsSigned p) →
      stepAll (shiftOffsets offsets steps j) steps = some (shiftOffsets offsets steps (j + 1))
  | offset :: offsets, step :: steps, signed => by
    simp only [shiftOffsets, List.zipWith_cons_cons, List.mem_cons] at signed ⊢
    have rest : stepAll (shiftOffsets offsets steps j) steps = some (shiftOffsets offsets steps (j + 1)) :=
      stepAll_shiftOffsets j fun p mem => signed p (.inr mem)
    have here : Word.checked? (offset + j * step + step) = some (offset + (j + 1 : Nat) * step) := by
      rw [show offset + j * step + step = offset + (j + 1 : Nat) * step by push_cast; ring,
        Word.checked?, if_pos (signed _ (.inl rfl))]
    simp only [shiftOffsets] at rest
    simp only [stepAll, here, rest, Option.bind_eq_bind, Option.bind_some]
    rfl
  | [], _, _ => by simp [shiftOffsets, stepAll]
  | _ :: _, [], _ => by simp [shiftOffsets, stepAll]

/-- Taking every operand's span off its position one step past the end of the first loop brings
it back to the start of the loop, when every span and every position at the start is a signed
word. -/
theorem unwindAll_positionsAt {extent : Nat} (fits : (extent : Int) ≤ Word.signedMax)
    {index : List Nat} {offsets : List Int} {strides : List (List Int)}
    (each : List.Forall₂ (fun offset s => Word.IsSigned (s.headD 0 * extent) ∧
      Word.IsSigned (position offset s (0 :: index))) offsets strides) :
    unwindAll extent (positionsAt offsets strides (extent :: index)) (strides.map (·.headD 0)) =
      some (positionsAt offsets strides (0 :: index)) := by
  have wrap : Word.wrapSigned extent = extent :=
    Word.wrapSigned_of_isSigned _ ⟨by unfold Word.signedMin; omega, fits⟩
  induction each with
  | nil => rfl
  | @cons offset s offsets strides head _ later =>
    obtain ⟨span, start⟩ := head
    have back : position offset s (extent :: index) - s.headD 0 * extent =
        position offset s (0 :: index) := by
      rw [position_cons_eq, position_cons_eq]
      ring
    have spanned : Word.checked? (s.headD 0 * Word.wrapSigned extent) = some (s.headD 0 * extent) := by
      rw [wrap, Word.checked?, if_pos span]
    have unwound : Word.checked? (position offset s (extent :: index) - s.headD 0 * extent) =
        some (position offset s (0 :: index)) := by
      rw [back, Word.checked?, if_pos start]
    simp only [positionsAt, List.zipWith_cons_cons, List.map_cons] at later ⊢
    simp only [unwindAll, spanned, unwound, later, Option.bind_eq_bind, Option.bind_some]
    rfl

/-! ## The carry -/

/-- The last index of a box: every coordinate at its last value. -/
def lastIndex (dims : List Nat) : List Nat := dims.map (· - 1)

theorem cons_eq_lastIndex_iff {extent i : Nat} {dims index : List Nat} (positive : 0 < extent) :
    i :: index = lastIndex (extent :: dims) ↔ i + 1 = extent ∧ index = lastIndex dims := by
  simp only [lastIndex, List.map_cons, List.cons.injEq]
  constructor
  · rintro ⟨first, rest⟩
    exact ⟨by omega, rest⟩
  · rintro ⟨first, rest⟩
    exact ⟨by omega, rest⟩

theorem InBox.iterate_bump {dims index : List Nat} (inBox : InBox dims index) (k : Nat) :
    InBox dims ((Traversal.bump dims)^[k] index) := by
  induction k with
  | zero => exact inBox
  | succ k ih =>
    rw [Function.iterate_succ_apply']
    exact ih.bump

/-- The odometer ends at the last index of the box. -/
theorem getLast?_odometer {dims : List Nat} (positive : ∀ d ∈ dims, 0 < d) :
    (odometer dims).getLast? = some (lastIndex dims) := by
  induction dims with
  | nil => rfl
  | cons d rest ih =>
    obtain ⟨init, split⟩ := List.getLast?_eq_some_iff.mp (ih fun e mem => positive e (by simp [mem]))
    obtain ⟨k, rfl⟩ : ∃ k, d = k + 1 := ⟨d - 1, by have := positive d (by simp); omega⟩
    simp [odometer, split, List.range_succ, lastIndex]

theorem positionsAt_replicate_zero (n : Nat) :
    ∀ {offsets : List Int} {strides : List (List Int)}, offsets.length ≤ strides.length →
      positionsAt offsets strides (List.replicate n 0) = offsets
  | [], _, _ => rfl
  | _ :: _, [], lengths => by simp at lengths
  | offset :: offsets, s :: strides, lengths => by
    have rest : positionsAt offsets strides (List.replicate n 0) = offsets :=
      positionsAt_replicate_zero n (by simpa using lengths)
    simp only [positionsAt, List.zipWith_cons_cons] at rest ⊢
    simp only [position, weighted_replicate_zero, add_zero] at rest ⊢
    rw [rest]

/-- Moving offsets along unit strides is adding to them. -/
theorem shiftOffsets_ones (j : Nat) :
    ∀ {offsets inner : List Int}, offsets.length ≤ inner.length → (∀ s ∈ inner, s = 1) →
      shiftOffsets offsets inner j = offsets.map fun (offset : Int) => offset + (j : Int)
  | [], _, _, _ => rfl
  | _ :: _, [], lengths, _ => by simp at lengths
  | offset :: offsets, s :: inner, lengths, ones => by
    have rest : shiftOffsets offsets inner j = offsets.map fun (offset : Int) => offset + (j : Int) :=
      shiftOffsets_ones j (by simpa using lengths) fun s' mem => ones s' (.tail _ mem)
    simp only [shiftOffsets, List.zipWith_cons_cons, List.map_cons] at rest ⊢
    rw [rest, ones s (.head _), mul_one]

namespace LoopNest

/-- Stepping a run: from offsets moved `j` steps, the `m` elements are the offsets moved `j`
to `j + m - 1` steps, when the offsets moved up to `j + m` steps are signed words. -/
theorem stepRun_shiftOffsets {offsets inner : List Int} :
    ∀ (m j : Nat), (∀ k, j < k → k ≤ j + m → ∀ p ∈ shiftOffsets offsets inner k, Word.IsSigned p) →
      stepRun inner m (shiftOffsets offsets inner j) =
        ⟨(List.range' j m).map (shiftOffsets offsets inner), false⟩
  | 0, _, _ => rfl
  | m + 1, j, signed => by
    have next := stepRun_shiftOffsets m (j + 1) fun k above upTo => signed k (by omega) (by omega)
    simp only [stepRun, stepAll_shiftOffsets j (signed (j + 1) (by omega) (by omega)), next,
      List.range'_succ]
    rfl

/-- A run's positions are its offsets moved along the inner loop, whether it is taken as a
slice or stepped, when every position up to one step past the run is a signed word. -/
theorem runPositions_eq (slices : Bool) {run : Run}
    (lengths : run.offsets.length ≤ run.inner.length)
    (signed : ∀ k ≤ run.length, ∀ p ∈ shiftOffsets run.offsets run.inner k, Word.IsSigned p) :
    runPositions slices run =
      ⟨(List.range run.length).map (shiftOffsets run.offsets run.inner), false⟩ := by
  unfold runPositions
  split
  · rename_i unit
    simp only [Bool.and_eq_true, List.all_eq_true, beq_iff_eq] at unit
    simp only [Visit.mk.injEq, and_true]
    exact List.map_congr_left fun j _ => (shiftOffsets_ones j lengths unit.2).symm
  · have stepped := stepRun_shiftOffsets run.length 0 fun k _ upTo => signed k (by omega)
    rw [shiftOffsets_zero lengths] at stepped
    rw [stepped, List.range_eq_range']

/-- Runs none of which overflows expand to their positions one after another. -/
theorem expand_eq (slices : Bool) :
    ∀ (runs : List Run), (∀ run ∈ runs, (runPositions slices run).overflowed = false) →
      expand slices runs = ⟨runs.flatMap fun run => (runPositions slices run).calls, false⟩
  | [], _ => rfl
  | run :: runs, fine => by
    simp only [expand, fine run (.head _), expand_eq slices runs fun r mem => fine r (.tail _ mem)]
    rfl

/-- At an index of the box of the outer loops, with every operand at its position there, the
carry steps every operand to the next index, or ends the walk at the last index. -/
theorem carry_eq : ∀ {dims : List Nat} {strides : List (List Int)} {index : List Nat}
    {offsets : List Int}, (∀ e ∈ dims, 1 < e ∧ (e : Int) ≤ Word.signedMax) →
    List.Forall₂ (Reaches dims) offsets strides →
    InBox dims index →
    carry dims strides index (positionsAt offsets strides index) =
      if index = lastIndex dims then some none
      else some (some (bump dims index, positionsAt offsets strides (bump dims index)))
  | [], _, index, _, _, _, inBox => by
    rw [inBox_nil_iff.mp inBox]
    rfl
  | _ :: _, _, [], _, _, _, inBox => absurd inBox inBox_cons_nil
  | extent :: dims, strides, i :: index, offsets, wide, reaches, inBox => by
    obtain ⟨below, inBox⟩ := inBox_cons_cons.mp inBox
    obtain ⟨wideHere, fits⟩ := wide extent (by simp)
    -- every operand steps along the first loop, at most one step past its end
    have moved : stepAll (positionsAt offsets strides (i :: index)) (strides.map (·.headD 0)) =
        some (positionsAt offsets strides ((i + 1) :: index)) := by
      rw [positionsAt_cons, positionsAt_cons, stepAll_shiftOffsets]
      rw [← positionsAt_cons]
      exact forall_mem_positionsAt (reaches.imp fun _ _ along => along.1 index inBox (i + 1) below)
    simp only [carry, moved, Option.bind_eq_bind, Option.bind_some]
    by_cases step : i + 1 < extent
    · have notLast : i :: index ≠ lastIndex (extent :: dims) := fun last => by
        have := (cons_eq_lastIndex_iff (by omega) |>.mp last).1
        omega
      rw [if_pos step, if_neg notLast, bump_cons_of_lt step]
      rfl
    · -- the first loop is done: every operand goes back to its start, and the next loop steps
      have past : i + 1 = extent := by omega
      have unwound : unwindAll extent (positionsAt offsets strides ((i + 1) :: index))
          (strides.map (·.headD 0)) = some (positionsAt offsets (strides.map List.tail) index) := by
        rw [past, unwindAll_positionsAt fits (reaches.imp fun _ _ along =>
          ⟨along.2.1, along.1 index inBox 0 (Nat.zero_le _)⟩), positionsAt_zero_cons]
      have reachesRest : List.Forall₂ (Reaches dims) offsets (strides.map List.tail) :=
        List.forall₂_map_right_iff.mpr (reaches.imp fun _ _ along => along.2.2)
      rw [if_neg step, unwound, Option.bind_some,
        carry_eq (fun e mem => wide e (by simp [mem])) reachesRest inBox,
        bump_cons_of_last step]
      by_cases last : index = lastIndex dims
      · rw [if_pos last, if_pos ((cons_eq_lastIndex_iff (by omega)).mpr ⟨past, last⟩)]
        rfl
      · rw [if_neg last, if_neg fun isLast => last ((cons_eq_lastIndex_iff (by omega)).mp isLast).2,
          positionsAt_zero_cons]
        rfl

/-- From the `k`-th index of the outer loops, with every operand at its position there and `m`
runs to go before the end of the box, the walk hands out the runs at the next `m` indices. -/
theorem runsFrom_iterate (length : Nat) (inner : List Int) {dims : List Nat}
    {strides : List (List Int)} {offsets : List Int}
    (wide : ∀ e ∈ dims, 1 < e ∧ (e : Int) ≤ Word.signedMax)
    (reaches : List.Forall₂ (Reaches dims) offsets strides) :
    ∀ (m k : Nat), k + m = Extent.count dims →
      runsFrom length inner dims strides m ((bump dims)^[k] (List.replicate dims.length 0))
          (positionsAt offsets strides ((bump dims)^[k] (List.replicate dims.length 0))) =
        ⟨(List.iterate (bump dims) ((bump dims)^[k] (List.replicate dims.length 0)) m).map
          fun index => ⟨positionsAt offsets strides index, length, inner⟩, false⟩
  | 0, _, _ => rfl
  | m + 1, k, count => by
    have positive : ∀ e ∈ dims, 0 < e := fun e mem => by have := (wide e mem).1; omega
    have inBox := InBox.iterate_bump (zeros_inBox positive) k
    simp only [runsFrom]
    rw [carry_eq wide reaches inBox]
    by_cases last : (bump dims)^[k] (List.replicate dims.length 0) = lastIndex dims
    · have enumerated := odometer_eq_iterate_bump positive
      have nodup := nodup_odometer dims
      have ending := getLast?_odometer positive
      rw [enumerated, List.getLast?_eq_getElem?, List.length_iterate] at ending
      rw [enumerated] at nodup
      have kBelow :
          k < (List.iterate (bump dims) (List.replicate dims.length 0) (Extent.count dims)).length := by
        simp only [List.length_iterate]
        omega
      have lastBelow : Extent.count dims - 1 <
          (List.iterate (bump dims) (List.replicate dims.length 0) (Extent.count dims)).length := by
        simp only [List.length_iterate]
        omega
      have here :
          (List.iterate (bump dims) (List.replicate dims.length 0) (Extent.count dims))[k] =
            lastIndex dims := by
        rw [List.getElem_iterate, last]
      have lastAt : (List.iterate (bump dims) (List.replicate dims.length 0)
          (Extent.count dims))[Extent.count dims - 1] = lastIndex dims := by
        rw [List.getElem?_eq_getElem lastBelow] at ending
        exact Option.some.inj ending
      have atEnd : k = Extent.count dims - 1 := nodup.getElem_inj_iff.mp (here.trans lastAt.symm)
      obtain rfl : m = 0 := by omega
      rw [if_pos last]
      rfl
    · rw [if_neg last]
      have next := runsFrom_iterate length inner wide reaches m (k + 1) (by omega)
      rw [Function.iterate_succ_apply'] at next
      dsimp only
      rw [next]
      rfl

/-- A nest of at least one loop hands out one run per index of its outer loops, in the order
of their odometer, each starting at the operands' positions there. -/
theorem runs_eq {length : Nat} {outer : List Nat} {strides : List (List Int)} {offsets : List Int}
    (wide : ∀ e ∈ length :: outer, 1 < e ∧ (e : Int) ≤ Word.signedMax)
    (reaches : List.Forall₂ (Reaches (length :: outer)) offsets strides) :
    runs ⟨length :: outer, strides, offsets⟩ =
      ⟨(odometer outer).map fun index =>
        ⟨positionsAt offsets (strides.map List.tail) index, length, strides.map (·.headD 0)⟩,
        false⟩ := by
  have positive : ∀ e ∈ outer, 0 < e := fun e mem => by
    have := (wide e (.tail _ mem)).1
    omega
  have reachesOuter : List.Forall₂ (Reaches outer) offsets (strides.map List.tail) :=
    List.forall₂_map_right_iff.mpr (reaches.imp fun _ _ along => along.2.2)
  have start : positionsAt offsets (strides.map List.tail) (List.replicate outer.length 0) = offsets :=
    positionsAt_replicate_zero _ (by simp [reaches.length_eq])
  have walked := runsFrom_iterate length (strides.map (·.headD 0))
    (fun e mem => wide e (.tail _ mem)) reachesOuter (Extent.count outer) 0 (by simp)
  rw [Function.iterate_zero, id, start, ← odometer_eq_iterate_bump positive] at walked
  simp only [runs, List.map_const']
  exact walked

/-- A nest whose loops are at least two wide, each extent a signed word, is walked without
overflow through the positions of `calls` when every position the walk computes is a signed word.
A nest of no loops steps its one element once when it is not taken as a slice. -/
theorem positions_eq_of_reaches (slices : Bool) {nest : LoopNest}
    (wide : ∀ e ∈ nest.dims, 1 < e ∧ (e : Int) ≤ Word.signedMax)
    (reaches : List.Forall₂ (Reaches nest.dims) nest.offsets nest.strides)
    (past : nest.dims = [] → slices = false → ∀ o ∈ nest.offsets, Word.IsSigned (o + 1)) :
    nest.positions slices = ⟨nest.calls, false⟩ := by
  obtain ⟨dims, strides, offsets⟩ := nest
  cases dims with
  | nil =>
    have start : positionsAt offsets strides [] = offsets :=
      positionsAt_replicate_zero 0 (by simp [reaches.length_eq])
    have signed : ∀ o ∈ offsets, Word.IsSigned o := by
      rw [← start]
      exact forall_mem_positionsAt (reaches.imp fun _ _ here => by simpa [Reaches, position] using here)
    cases slices with
    | true => simp [positions, runs, expand, runPositions, calls, odometer, start]
    | false =>
      have only : runPositions false ⟨offsets, 1, offsets.map fun _ => 1⟩ =
          ⟨(List.range 1).map (shiftOffsets offsets (offsets.map fun _ => 1)), false⟩ :=
        runPositions_eq false (by simp) fun k (upTo : k ≤ 1) p member => by
          rw [shiftOffsets_ones k (by simp) (by simp)] at member
          obtain ⟨o, mem, rfl⟩ := List.mem_map.mp member
          rcases Nat.le_one_iff_eq_zero_or_eq_one.mp upTo with rfl | rfl
          · simpa using signed o mem
          · exact past rfl rfl o mem
      simp only [positions, runs, expand, only, calls, odometer]
      simp [shiftOffsets_zero, start]
  | cons length outer =>
    have each : ∀ index ∈ odometer outer,
        runPositions slices ⟨positionsAt offsets (strides.map List.tail) index, length,
          strides.map (·.headD 0)⟩ =
          ⟨(List.range length).map fun j => positionsAt offsets strides (j :: index), false⟩ := by
      intro index mem
      have inBox := mem_odometer.mp mem
      rw [runPositions_eq slices (by simp [positionsAt])]
      · simp only [positionsAt_cons]
      · intro k upTo p member
        rw [← positionsAt_cons] at member
        exact forall_mem_positionsAt (reaches.imp fun _ _ along => along.1 index inBox k upTo) p member
    have expanded := expand_eq slices ((odometer outer).map fun index =>
      (⟨positionsAt offsets (strides.map List.tail) index, length, strides.map (·.headD 0)⟩ : Run))
      (by simp only [List.mem_map]; rintro _ ⟨index, mem, rfl⟩; rw [each index mem])
    simp only [positions, runs_eq wide reaches, expanded, List.flatMap_map, calls, odometer,
      List.map_flatMap, List.map_map, Bool.or_false]
    congr 1
    exact List.flatMap_congr fun index mem => by rw [each index mem]; rfl

/-- A nest whose loops are at least two wide, each extent a signed word, with every operand's
positions over the box of loops in `[0, bound)` for a bound of at most `2^62`, is walked without
overflow through the positions of `calls`. -/
theorem positions_eq {bound : Nat} (small : bound ≤ 4611686018427387904) (slices : Bool)
    {nest : LoopNest} (wide : ∀ e ∈ nest.dims, 1 < e ∧ (e : Int) ≤ Word.signedMax)
    (within : List.Forall₂ (Within bound nest.dims) nest.offsets nest.strides) :
    nest.positions slices = ⟨nest.calls, false⟩ := by
  refine positions_eq_of_reaches slices wide
    (within.imp fun _ _ inside => inside.reaches small fun e mem => (wide e mem).1) ?_
  intro empty _ o mem
  have start : positionsAt nest.offsets nest.strides [] = nest.offsets :=
    positionsAt_replicate_zero 0 (by simp [within.length_eq])
  rw [← start] at mem
  have inRange : ∀ p ∈ positionsAt nest.offsets nest.strides [], 0 ≤ p ∧ p < bound :=
    forall_mem_positionsAt
      (within.imp fun _ _ inside => inside [] (by rw [empty]; exact inBox_nil_iff.mpr rfl))
  have inside := inRange o mem
  unfold Word.IsSigned Word.signedMin Word.signedMax
  omega

end LoopNest

end Traversal

end StridedGrid
