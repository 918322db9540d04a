import Mathlib
import StridedGrid.Proofs.Representation
import StridedGrid.Grid.View

/-!
# Addressing through views

A range compiled against an axis of length `len` selects the positions
`offset + j * stride` for `j < count`. `compile_selects` shows that they all lie on the axis, and
that a trivial range selects every position as itself (`Range.Compiled.Selects`).

A view composes each compiled range with the array's offset and stride on that axis. When
the array fits its buffer, every partial offset of the composition is the position of an
index of the array's box, so the offsets never overflow. A stride never overflows either when
its range selects two or more positions: it is then the difference of two positions of the box.
Only a range that selects one position keeps its raw step as its stride, and that step times the
array's stride can leave the signed word (`composeRanges_eq`, `stridesCompose_iff`).

When the composition succeeds, the view fits the same buffer, its extents are the ranges'
counts, and its index `j` reads the array at `select cs j`, the `j_k`-th position of every range
(`position_select`). The view of a view therefore reads the array through both selections.
A nested array has no strides to compose: its only views are the trivial ones, which return
it unchanged.
-/

namespace StridedGrid

open Traversal

namespace Word

theorem isSigned_of_mem {x : Int} (low : 0 ≤ x) (high : x ≤ signedMax) : IsSigned x :=
  ⟨by unfold signedMin; omega, high⟩

/-- The difference of two words between zero and the largest signed word is a signed word. -/
theorem isSigned_sub {x y : Int} (lowX : 0 ≤ x) (highX : x ≤ signedMax) (lowY : 0 ≤ y)
    (highY : y ≤ signedMax) : IsSigned (x - y) := by
  unfold IsSigned signedMin
  unfold signedMax at *
  omega

end Word

namespace Range

/-- The positions `first + j * stride` for `j < count`: at least one, no more than the axis
holds, and all on an axis of length `len`. -/
def OnAxis (len : Nat) (first stride : Int) (count : Nat) : Prop :=
  0 < count ∧ count ≤ len ∧ ∀ j < count, 0 ≤ first + j * stride ∧ first + j * stride < len

theorem onAxis_single {len : Nat} {first : Int} (stride : Int) (low : 0 ≤ first)
    (high : first < len) : OnAxis len first stride 1 := by
  refine ⟨Nat.one_pos, by omega, fun j below => ?_⟩
  obtain rfl : j = 0 := by omega
  simpa using ⟨low, high⟩

/-- Forward progressions: every step from `first` up to `last` stays on the axis. -/
theorem onAxis_forward {len : Nat} {first last step : Int} (positive : 0 < step)
    (low : 0 ≤ first) (below : first < last) (high : last < len) :
    OnAxis len first step ((last - first) / step + 1).toNat := by
  have quotient := Int.ediv_nonneg (by omega : 0 ≤ last - first) positive.le
  have within := Int.ediv_mul_le (last - first) positive.ne'
  have small := Int.ediv_le_self step (by omega : 0 ≤ last - first)
  refine ⟨by omega, by omega, fun j bound => ?_⟩
  have steps : (j : Int) * step ≤ (last - first) / step * step :=
    mul_le_mul_of_nonneg_right (by omega) positive.le
  have nonneg : 0 ≤ (j : Int) * step := mul_nonneg (by omega) positive.le
  omega

/-- Backward progressions: every step from `first` down to `last` stays on the axis. -/
theorem onAxis_backward {len : Nat} {first last step : Int} (negative : step < 0)
    (low : 0 ≤ last) (above : last < first) (high : first < len) :
    OnAxis len first step ((first - last) / -step + 1).toNat := by
  have back : 0 < -step := by omega
  have quotient := Int.ediv_nonneg (by omega : 0 ≤ first - last) back.le
  have within := Int.ediv_mul_le (first - last) back.ne'
  have small := Int.ediv_le_self (-step) (by omega : 0 ≤ first - last)
  refine ⟨by omega, by omega, fun j bound => ?_⟩
  have steps : (j : Int) * -step ≤ (first - last) / -step * -step :=
    mul_le_mul_of_nonneg_right (by omega) back.le
  have nonneg : 0 ≤ (j : Int) * -step := mul_nonneg (by omega) back.le
  have flip : (j : Int) * step = -((j : Int) * -step) := by ring
  omega

theorem bound_ok {v : Nat} {b : Int} (bounded : bound v = .ok b) : b = v := by
  unfold bound Word.signedOfUnsigned? at bounded
  split_ifs at bounded
  · cases bounded
    rfl

namespace Compiled

/-- A compiled range selects positions of an axis of length `len`: its positions lie on the
axis, and a trivial range selects every position in order. -/
structure Selects (c : Compiled) (len : Nat) : Prop where
  onAxis : OnAxis len c.offset c.stride c.count
  of_trivial : c.trivial = true → c.offset = 0 ∧ c.count = len ∧ (c.stride = 1 ∨ len = 1)

/-- The array index that the view index `j` reads: its `k`-th coordinate is the `j_k`-th
position selected by the `k`-th range. -/
def select (cs : List Compiled) (j : List Nat) : List Nat :=
  List.zipWith (fun c k => (c.index k).toNat) cs j

variable {c : Compiled} {len : Nat}

theorem Selects.count_pos (selects : c.Selects len) : 0 < c.count := selects.onAxis.1

theorem Selects.count_le (selects : c.Selects len) : c.count ≤ len := selects.onAxis.2.1

theorem Selects.index_mem (selects : c.Selects len) {j : Nat} (below : j < c.count) :
    0 ≤ c.index j ∧ c.index j < len :=
  selects.onAxis.2.2 j below

theorem Selects.offset_lt (selects : c.Selects len) : c.offset < len := by
  have first := selects.index_mem selects.count_pos
  simp only [index, Nat.cast_zero, zero_mul, add_zero] at first
  omega

/-- A trivial range reads every position as itself. -/
theorem Selects.index_of_trivial (selects : c.Selects len) (trivial : c.trivial = true)
    {j : Nat} (below : j < c.count) : c.index j = j := by
  obtain ⟨zero, whole, unit⟩ := selects.of_trivial trivial
  rcases unit with unit | single
  · simp [index, zero, unit]
  · obtain rfl : j = 0 := by omega
    simp [index, zero]

end Compiled

/-- What compiling a range gives selects positions of the axis. -/
theorem compile_selects {r : Range} {length : Nat} {c : Compiled}
    (compiled : r.compile length = .ok c) : c.Selects length := by
  unfold compile at compiled
  cases bounded : bound length with
  | error e => simp [bounded, Outcome.reject] at compiled
  | ok len =>
    obtain rfl := bound_ok bounded
    simp only [bounded, Outcome.ofExcept_ok, Outcome.ok_bind] at compiled
    generalize resolveEnd length r.first = first at compiled
    generalize resolveEnd length r.last = last at compiled
    obtain ⟨⟨stride, count⟩, branch, built⟩ := Outcome.bind_eq_ok.mp compiled
    simp only [Outcome.pure_eq, Except.ok.injEq] at built
    subst built
    have placed : 0 ≤ first ∧ OnAxis length first stride count := by
      split at branch
      next same =>
        split at branch
        next => exact absurd branch Outcome.reject_ne_ok
        next inside =>
          simp only [Outcome.pure_eq, Except.ok.injEq, Prod.mk.injEq] at branch
          obtain ⟨rfl, rfl⟩ := branch
          exact ⟨by omega, onAxis_single _ (by omega) (by omega)⟩
      next differ =>
        split at branch
        next ahead =>
          split at branch
          next => exact absurd branch Outcome.reject_ne_ok
          next inside =>
            split at branch
            next => exact absurd branch Outcome.reject_ne_ok
            next forward =>
              simp only [Outcome.pure_eq, Except.ok.injEq, Prod.mk.injEq] at branch
              obtain ⟨rfl, rfl⟩ := branch
              exact ⟨by omega, onAxis_forward (by split <;> omega) (by omega) ahead (by omega)⟩
        next behind =>
          split at branch
          next => exact absurd branch Outcome.reject_ne_ok
          next inside =>
            split at branch
            next => exact absurd branch Outcome.reject_ne_ok
            next backward =>
              obtain ⟨back, negated, built⟩ := Outcome.bind_eq_ok.mp branch
              obtain ⟨-, rfl⟩ := (Word.signed_ok_iff _ _).mp negated
              simp only [Outcome.pure_eq, Except.ok.injEq, Prod.mk.injEq] at built
              obtain ⟨rfl, rfl⟩ := built
              exact ⟨by omega,
                onAxis_backward (by split <;> omega) (by omega) (by omega) (by omega)⟩
    obtain ⟨low, onAxis⟩ := placed
    refine ⟨by simpa [Int.toNat_of_nonneg low] using onAxis, fun trivial => ?_⟩
    simp only [Bool.and_eq_true, beq_iff_eq, Bool.or_eq_true] at trivial
    obtain ⟨⟨zero, whole⟩, unit⟩ := trivial
    exact ⟨zero, whole, unit⟩

end Range

namespace Traversal

/-- Every index of the box of `dims` has its position between zero and the largest signed
word. -/
def Placed (dims : List Nat) (strides : List Int) (offset : Int) : Prop :=
  ∀ index, InBox dims index →
    0 ≤ position offset strides index ∧ position offset strides index ≤ Word.signedMax

theorem position_add_offset (offset shift : Int) (strides : List Int) (index : List Nat) :
    position (offset + shift) strides index = position offset strides index + shift := by
  unfold position
  ring

variable {d : Nat} {dims : List Nat} {s : Int} {strides : List Int} {offset : Int}

/-- Fixing the first coordinate at `i` leaves the box of the other axes, shifted by `i * s`. -/
theorem Placed.cons (placed : Placed (d :: dims) (s :: strides) offset) {i : Nat} (below : i < d) :
    Placed dims strides (offset + i * s) := by
  intro index inBox
  have := placed (i :: index) (inBox_cons_cons.mpr ⟨below, inBox⟩)
  rwa [position_cons_cons, ← position_add_offset] at this

theorem Placed.offset_mem (placed : Placed dims strides offset) (positive : ∀ d ∈ dims, 0 < d) :
    0 ≤ offset ∧ offset ≤ Word.signedMax := by
  simpa [position] using placed _ (zeros_inBox positive)

end Traversal

namespace Range.Compiled

variable {c : Compiled} {d : Nat} {dims : List Nat} {s : Int} {strides : List Int} {offset : Int}

/-- A range that selects two positions or more composes to a signed stride: the composed stride
is the difference of the positions of two indices of the box. -/
theorem isSigned_stride_mul (selects : c.Selects d) (positive : ∀ e ∈ d :: dims, 0 < e)
    (placed : Placed (d :: dims) (s :: strides) offset) (several : 1 < c.count) :
    Word.IsSigned (c.stride * s) := by
  have restPositive : ∀ e ∈ dims, 0 < e := fun e mem => positive e (List.mem_cons_of_mem _ mem)
  obtain ⟨low₀, high₀⟩ := selects.index_mem selects.count_pos
  obtain ⟨low₁, high₁⟩ := selects.index_mem several
  obtain ⟨atFirst, belowFirst⟩ :=
    (placed.cons (i := (c.index 0).toNat) (by omega)).offset_mem restPositive
  obtain ⟨atSecond, belowSecond⟩ :=
    (placed.cons (i := (c.index 1).toNat) (by omega)).offset_mem restPositive
  have difference : offset + ((c.index 1).toNat : Int) * s - (offset + ((c.index 0).toNat : Int) * s) =
      c.stride * s := by
    rw [Int.toNat_of_nonneg low₀, Int.toNat_of_nonneg low₁]
    simp only [index]
    ring
  rw [← difference]
  exact Word.isSigned_sub atSecond belowSecond atFirst belowFirst

/-- Composing a range when both the outer offset and the offset moved to the range's first
position lie between zero and the largest signed word: the shift is their difference, so only
the stride's check can fail. -/
theorem compose_of_mem (low : 0 ≤ offset) (high : offset ≤ Word.signedMax)
    (movedLow : 0 ≤ offset + c.offset * s) (movedHigh : offset + c.offset * s ≤ Word.signedMax) :
    c.compose offset s =
      if Word.IsSigned (c.stride * s) then .ok (offset + c.offset * s, c.stride * s)
      else Outcome.panic .overflow := by
  have shift : Word.IsSigned (c.offset * s) := by
    have := Word.isSigned_sub movedLow movedHigh low high
    rwa [add_sub_cancel_left] at this
  unfold compose
  rw [Word.signed_of_isSigned shift, Outcome.ok_bind,
    Word.signed_of_isSigned (Word.isSigned_of_mem movedLow movedHigh), Outcome.ok_bind]
  split_ifs with signed
  · rw [Word.signed_of_isSigned signed]
    rfl
  · rw [Word.signed_of_not_isSigned signed]
    rfl

/-- Composing a range with an axis of a placed box: the offset moves to the range's first
position, and the only check that can fail is the stride's. -/
theorem compose_eq (selects : c.Selects d) (positive : ∀ e ∈ d :: dims, 0 < e)
    (placed : Placed (d :: dims) (s :: strides) offset) :
    c.compose offset s =
      if Word.IsSigned (c.stride * s) then .ok (offset + c.offset * s, c.stride * s)
      else Outcome.panic .overflow := by
  have restPositive : ∀ e ∈ dims, 0 < e := fun e mem => positive e (List.mem_cons_of_mem _ mem)
  obtain ⟨low, high⟩ := placed.offset_mem positive
  obtain ⟨movedLow, movedHigh⟩ := (placed.cons selects.offset_lt).offset_mem restPositive
  exact compose_of_mem low high movedLow movedHigh

/-- Every compiled range composes to a signed stride with the array's stride on its axis. -/
def StridesCompose (cs : List Compiled) (strides : List Int) : Prop :=
  ∀ p ∈ cs.zip strides, Word.IsSigned (p.1.stride * p.2)

instance (cs : List Compiled) (strides : List Int) : Decidable (StridesCompose cs strides) :=
  inferInstanceAs (Decidable (∀ p ∈ cs.zip strides, _))

@[simp]
theorem stridesCompose_cons {cs : List Compiled} :
    StridesCompose (c :: cs) (s :: strides) ↔
      Word.IsSigned (c.stride * s) ∧ StridesCompose cs strides := by
  simp [StridesCompose]

/-- The composed strides of a view: each range's stride times the array's stride. -/
def composedStrides (cs : List Compiled) (strides : List Int) : List Int :=
  (cs.zip strides).map fun p => p.1.stride * p.2

/-- Only ranges that select one position can break the composition: every other range composes
to a signed stride. -/
theorem stridesCompose_iff {cs : List Compiled} {dims : List Nat}
    (selects : List.Forall₂ Selects cs dims) :
    ∀ {strides : List Int} {offset : Int}, (∀ d ∈ dims, 0 < d) →
      strides.length = dims.length → Placed dims strides offset →
      (StridesCompose cs strides ↔
        ∀ p ∈ cs.zip strides, p.1.count = 1 → Word.IsSigned (p.1.stride * p.2)) := by
  induction selects with
  | nil => simp [StridesCompose]
  | @cons c d cs dims first rest ih =>
    intro strides offset positive lengths placed
    cases strides with
    | nil => simp at lengths
    | cons s strides =>
      have restPositive : ∀ e ∈ dims, 0 < e := fun e mem => positive e (List.mem_cons_of_mem _ mem)
      have restIff := ih restPositive (by simpa using lengths) (placed.cons first.offset_lt)
      have headIff : Word.IsSigned (c.stride * s) ↔ (c.count = 1 → Word.IsSigned (c.stride * s)) := by
        constructor
        · exact fun signed _ => signed
        · intro unit
          by_cases single : c.count = 1
          · exact unit single
          · exact isSigned_stride_mul first positive placed (by have := first.count_pos; omega)
      rw [stridesCompose_cons, restIff, headIff, List.zip_cons_cons, List.forall_mem_cons]

theorem select_cons (c : Compiled) (cs : List Compiled) (k : Nat) (j : List Nat) :
    select (c :: cs) (k :: j) = (c.index k).toNat :: select cs j := rfl

/-- The index a view reads lies in the array's box. -/
theorem select_inBox {cs : List Compiled} {dims : List Nat}
    (selects : List.Forall₂ Selects cs dims) :
    ∀ {j : List Nat}, InBox (cs.map (·.count)) j → InBox dims (select cs j) := by
  induction selects with
  | nil => intro j inBox; simp_all [select]
  | @cons c d cs dims first rest ih =>
    intro j inBox
    cases j with
    | nil => simp at inBox
    | cons k j =>
      rw [List.map_cons, inBox_cons_cons] at inBox
      obtain ⟨low, high⟩ := first.index_mem inBox.1
      rw [select_cons, inBox_cons_cons]
      exact ⟨by omega, ih inBox.2⟩

/-- The addressing law of a view: the position of view index `j`, under the composed offset and
strides, is the array's position of the index it selects. -/
theorem position_select {cs : List Compiled} {dims : List Nat}
    (selects : List.Forall₂ Selects cs dims) :
    ∀ {strides : List Int} {offset : Int} {j : List Nat}, InBox (cs.map (·.count)) j →
      position (position offset strides (cs.map (·.offset))) (composedStrides cs strides) j =
        position offset strides (select cs j) := by
  induction selects with
  | nil => intro strides offset j inBox; simp_all [select, composedStrides, position]
  | @cons c d cs dims first rest ih =>
    intro strides offset j inBox
    cases j with
    | nil => simp at inBox
    | cons k j =>
      rw [List.map_cons, inBox_cons_cons] at inBox
      have nonneg := (first.index_mem inBox.1).1
      cases strides with
      | nil => simp [composedStrides, position, select]
      | cons s strides =>
        have ih' := @ih strides offset j inBox.2
        simp only [composedStrides, List.map_cons, List.zip_cons_cons] at ih' ⊢
        rw [position_cons_cons, position_cons_cons, position_add_offset, ih', select_cons,
          position_cons_cons, Int.toNat_of_nonneg nonneg, index]
        ring

/-- Trivial ranges select the view's index itself. -/
theorem select_of_trivial {cs : List Compiled} {dims : List Nat}
    (selects : List.Forall₂ Selects cs dims) (trivial : cs.all (·.trivial) = true) :
    ∀ {j : List Nat}, InBox (cs.map (·.count)) j → select cs j = j := by
  induction selects with
  | nil => intro j inBox; simp_all [select]
  | @cons c d cs dims first rest ih =>
    intro j inBox
    simp only [List.all_cons, Bool.and_eq_true] at trivial
    cases j with
    | nil => simp at inBox
    | cons k j =>
      rw [List.map_cons, inBox_cons_cons] at inBox
      rw [select_cons, first.index_of_trivial trivial.1 inBox.1, ih trivial.2 inBox.2]
      simp

/-- Trivial ranges keep the extents. -/
theorem counts_of_trivial {cs : List Compiled} {dims : List Nat}
    (selects : List.Forall₂ Selects cs dims) (trivial : cs.all (·.trivial) = true) :
    cs.map (·.count) = dims := by
  induction selects with
  | nil => rfl
  | @cons c d cs dims first rest ih =>
    simp only [List.all_cons, Bool.and_eq_true] at trivial
    rw [List.map_cons, (first.of_trivial trivial.1).2.1, ih trivial.2]

/-- The first positions of the ranges form an index of the array's box. -/
theorem offsets_inBox {cs : List Compiled} {dims : List Nat}
    (selects : List.Forall₂ Selects cs dims) : InBox dims (cs.map (·.offset)) := by
  induction selects with
  | nil => simp
  | @cons c d cs dims first rest ih =>
    rw [List.map_cons, inBox_cons_cons]
    exact ⟨first.offset_lt, ih⟩

theorem counts_pos {cs : List Compiled} {dims : List Nat}
    (selects : List.Forall₂ Selects cs dims) : ∀ k ∈ cs.map (·.count), 0 < k := by
  induction selects with
  | nil => simp
  | @cons c d cs dims first rest ih =>
    rw [List.map_cons, List.forall_mem_cons]
    exact ⟨first.count_pos, ih⟩

/-- A view has no more elements than the array. -/
theorem count_counts_le {cs : List Compiled} {dims : List Nat}
    (selects : List.Forall₂ Selects cs dims) :
    Extent.count (cs.map (·.count)) ≤ Extent.count dims := by
  induction selects with
  | nil => rfl
  | @cons c d cs dims first rest ih =>
    rw [List.map_cons, Extent.count_cons, Extent.count_cons]
    exact Nat.mul_le_mul first.count_le ih

end Range.Compiled

namespace Grid

open Range.Compiled

/-- Composing compiled ranges with a placed box: the view's offset is the position of the
ranges' first positions, its extents are their counts and its strides the composed ones, unless
a composed stride leaves the signed word. The induction runs over the axes, each step fixing
the first coordinate at the range's first position (`Placed.cons`). -/
theorem composeRanges_eq {cs : List Range.Compiled} {dims : List Nat}
    (selects : List.Forall₂ Selects cs dims) :
    ∀ {strides : List Int} {offset : Int}, (∀ d ∈ dims, 0 < d) →
      strides.length = dims.length → Placed dims strides offset →
      composeRanges offset (cs.zip strides) =
        if StridesCompose cs strides then
          .ok (Traversal.position offset strides (cs.map (·.offset)), cs.map (·.count),
            composedStrides cs strides)
        else Outcome.panic .overflow := by
  induction selects with
  | nil =>
    intro strides offset _ lengths _
    rw [List.length_nil, List.length_eq_zero_iff] at lengths
    subst lengths
    simp [composeRanges, StridesCompose, composedStrides, Traversal.position]
  | @cons c d cs dims first rest ih =>
    intro strides offset positive lengths placed
    cases strides with
    | nil => simp at lengths
    | cons s strides =>
      have restPositive : ∀ e ∈ dims, 0 < e := fun e mem => positive e (List.mem_cons_of_mem _ mem)
      rw [List.zip_cons_cons, composeRanges, compose_eq first positive placed]
      by_cases signed : Word.IsSigned (c.stride * s)
      · rw [if_pos signed, Outcome.ok_bind]
        dsimp only
        rw [ih restPositive (by simpa using lengths) (placed.cons first.offset_lt)]
        by_cases restCompose : StridesCompose cs strides
        · rw [if_pos restCompose, if_pos (stridesCompose_cons.mpr ⟨signed, restCompose⟩),
            Outcome.ok_bind]
          simp [composedStrides, position_add_offset]
        · rw [if_neg restCompose, if_neg (fun both => restCompose (stridesCompose_cons.mp both).2)]
          rfl
      · rw [if_neg signed, if_neg (fun both => signed (stridesCompose_cons.mp both).1)]
        rfl

/-- Compiling every range of a view against its axis gives ranges that select positions of
those axes. -/
theorem selects_of_compiled :
    ∀ {ranges : List Range} {dims : List Nat} {cs : List Range.Compiled},
      ranges.length = dims.length →
      List.Forall₂ (fun axis c => axis.1.compile axis.2 = .ok c) (ranges.zip dims) cs →
      List.Forall₂ Selects cs dims
  | [], [], _, _, compiled => by simpa using compiled
  | _ :: _, [], _, lengths, _ => by simp at lengths
  | [], _ :: _, _, lengths, _ => by simp at lengths
  | r :: ranges, d :: dims, _, lengths, compiled => by
    rw [List.zip_cons_cons] at compiled
    obtain ⟨c, cs, first, rest, rfl⟩ := List.forall₂_cons_left_iff.mp compiled
    exact .cons (Range.compile_selects first) (selects_of_compiled (by simpa using lengths) rest)

variable {g : Grid} {offset : Int} {strides : List Int}

theorem position_of_descriptor (addressed : g.descriptor? = some (offset, strides))
    (index : List Nat) : g.position index = Traversal.position offset strides index := by
  rcases g with ⟨shape, storage⟩
  cases storage with
  | flat =>
    simp only [descriptor?, Option.some.injEq, Prod.mk.injEq] at addressed
    obtain ⟨rfl, rfl⟩ := addressed
    simp [position_flat, Traversal.position, Shape.colMajorStrides_eq]
  | strided o ss order =>
    simp only [descriptor?, Option.some.injEq, Prod.mk.injEq] at addressed
    obtain ⟨rfl, rfl⟩ := addressed
    rfl
  | nested => simp [descriptor?] at addressed

/-- Only a nested array has no offset and strides. -/
theorem nested_of_descriptor_eq_none (unaddressed : g.descriptor? = none) : g.storage = .nested := by
  rcases g with ⟨shape, storage⟩
  cases storage <;> simp_all [descriptor?]

/-- A fitting array with offset and strides has one stride per axis, and every index of its box
has its position in the buffer and in the signed word. -/
theorem Fits.descriptor_positions {size : Nat} (fits : g.Fits size)
    (addressed : g.descriptor? = some (offset, strides)) :
    strides.length = g.dims.length ∧ ∀ index, InBox g.dims index →
      0 ≤ Traversal.position offset strides index ∧ Traversal.position offset strides index < size ∧
        Traversal.position offset strides index ≤ Word.signedMax := by
  have inside : ∀ index, InBox g.dims index →
      0 ≤ Traversal.position offset strides index ∧ Traversal.position offset strides index < size := by
    intro index inBox
    rw [← position_of_descriptor addressed]
    exact fits.position_mem inBox
  rcases g with ⟨shape, storage⟩
  cases storage with
  | flat =>
    simp only [descriptor?, Option.some.injEq, Prod.mk.injEq] at addressed
    obtain ⟨rfl, rfl⟩ := addressed
    have small := shape.len_le_signedMax
    have filled : size = shape.len := fits
    refine ⟨shape.length_colMajorStrides, fun index inBox => ?_⟩
    have := inside index inBox
    exact ⟨this.1, this.2, by omega⟩
  | strided o ss order =>
    simp only [descriptor?, Option.some.injEq, Prod.mk.injEq] at addressed
    obtain ⟨rfl, rfl⟩ := addressed
    obtain ⟨lengths, -, accepted⟩ := Layout.validateView_ok shape.extentsFit fits.1 fits.2
    refine ⟨lengths.symm, fun index inBox => ?_⟩
    have := accepted index inBox
    exact ⟨this.1, this.2.1, this.2.2.2⟩
  | nested => simp [descriptor?] at addressed

theorem Fits.placed {size : Nat} (fits : g.Fits size)
    (addressed : g.descriptor? = some (offset, strides)) : Placed g.dims strides offset :=
  fun index inBox =>
    have := (fits.descriptor_positions addressed).2 index inBox
    ⟨this.1, this.2.2⟩

/-- Views whose ranges are all trivial give the array back, whatever its layout. -/
theorem view_of_trivial {n : Nat} {ranges : List Range} {cs : List Range.Compiled}
    (ranks : ranges.length = g.rank)
    (compiled : List.Forall₂ (fun axis c => axis.1.compile axis.2 = .ok c) (ranges.zip g.dims) cs)
    (trivial : cs.all (·.trivial) = true) : g.view n ranges = .ok g := by
  simp only [view, ranks, ne_eq, not_true_eq_false, if_false]
  rw [Outcome.mapM_eq_ok_iff.mpr compiled, Outcome.ok_bind, if_pos trivial]
  rfl

/-- A view with a range that is not trivial composes the ranges with the array's offset and
strides, and checks the result against the buffer. -/
theorem view_of_nontrivial {n : Nat} {ranges : List Range} {cs : List Range.Compiled}
    (addressed : g.descriptor? = some (offset, strides)) (ranks : ranges.length = g.rank)
    (compiled : List.Forall₂ (fun axis c => axis.1.compile axis.2 = .ok c) (ranges.zip g.dims) cs)
    (nontrivial : cs.all (·.trivial) = false) :
    g.view n ranges =
      composeRanges offset (cs.zip strides) >>= fun composed =>
        Outcome.ofExcept (Shape.ofDims composed.2.1) >>= fun shape =>
          wrapStrided n shape composed.1 composed.2.2 := by
  have parts : g.partsFor .view = .ok (offset, strides) := by
    simp [partsFor, addressed]
  simp only [view, ranks, ne_eq, not_true_eq_false, if_false]
  rw [Outcome.mapM_eq_ok_iff.mpr compiled, Outcome.ok_bind, nontrivial, if_neg Bool.false_ne_true,
    parts, Outcome.ok_bind]

/-- A view of a fitting flat or strided array whose composed strides are signed words: a
strided grid that fits the same buffer, whose extents are the ranges' counts and whose offset
and strides are the composed ones. -/
theorem view_of_stridesCompose {n : Nat} {ranges : List Range} {cs : List Range.Compiled}
    (fits : g.Fits n) (addressed : g.descriptor? = some (offset, strides))
    (ranks : ranges.length = g.rank)
    (compiled : List.Forall₂ (fun axis c => axis.1.compile axis.2 = .ok c) (ranges.zip g.dims) cs)
    (nontrivial : cs.all (·.trivial) = false) (composes : StridesCompose cs strides) :
    ∃ v : Grid, g.view n ranges = .ok v ∧ v.Fits n ∧ v.dims = cs.map (·.count) ∧
      v.descriptor? = some (Traversal.position offset strides (cs.map (·.offset)),
        composedStrides cs strides) := by
  have selects := selects_of_compiled ranks compiled
  obtain ⟨lengths, inside⟩ := fits.descriptor_positions addressed
  have placed := fits.placed addressed
  have positive : ∀ d ∈ g.dims, 0 < d := g.shape.valid.1
  have valid : ShapeValid (cs.map (·.count)) := by
    refine ⟨counts_pos selects, ?_⟩
    have := g.shape.valid.2
    have := count_counts_le selects
    omega
  set viewOffset := Traversal.position offset strides (cs.map (·.offset))
  set viewStrides := composedStrides cs strides
  have viewLengths : (cs.map (·.count)).length = viewStrides.length := by
    have csLength : cs.length = g.dims.length := selects.length_eq
    simp [viewStrides, composedStrides, lengths, csLength]
  have viewInside : ∀ j, InBox (cs.map (·.count)) j →
      0 ≤ Traversal.position viewOffset viewStrides j ∧
        Traversal.position viewOffset viewStrides j < n ∧
        Traversal.position viewOffset viewStrides j ≤ Word.signedMax := by
    intro j inBox
    rw [position_select selects inBox]
    exact inside _ (select_inBox selects inBox)
  let shape : Shape := ⟨cs.map (·.count), valid⟩
  have accepted := Layout.validateView_eq_ok_of_positions shape.extentsFit viewLengths viewInside
  have corner := placed _ (offsets_inBox selects)
  refine ⟨⟨shape, .strided viewOffset viewStrides (Layout.classifyOrder shape.dims viewStrides)⟩,
    ?_, ⟨Word.isSigned_of_mem corner.1 corner.2, accepted⟩, rfl, rfl⟩
  rw [view_of_nontrivial addressed ranks compiled nontrivial,
    composeRanges_eq selects positive lengths placed, if_pos composes, Outcome.ok_bind]
  dsimp only
  rw [(Shape.ofDims_ok_iff _ ⟨_, valid⟩).mpr ⟨valid, rfl⟩, Outcome.ofExcept_ok, Outcome.ok_bind]
  unfold wrapStrided
  rw [accepted, Outcome.ok_bind]
  rfl

/-- A view of a fitting flat or strided array with a nontrivial range stops with an overflow
when a composed stride leaves the signed word. -/
theorem view_of_not_stridesCompose {n : Nat} {ranges : List Range} {cs : List Range.Compiled}
    (fits : g.Fits n) (addressed : g.descriptor? = some (offset, strides))
    (ranks : ranges.length = g.rank)
    (compiled : List.Forall₂ (fun axis c => axis.1.compile axis.2 = .ok c) (ranges.zip g.dims) cs)
    (nontrivial : cs.all (·.trivial) = false) (breaks : ¬StridesCompose cs strides) :
    g.view n ranges = Outcome.panic .overflow := by
  have selects := selects_of_compiled ranks compiled
  rw [view_of_nontrivial addressed ranks compiled nontrivial,
    composeRanges_eq selects g.shape.valid.1 (fits.descriptor_positions addressed).1
      (fits.placed addressed), if_neg breaks]
  rfl

/-- A view that returns a grid was given one range per axis. -/
theorem ranks_of_view_ok {n : Nat} {ranges : List Range} {v : Grid}
    (viewed : g.view n ranges = .ok v) : ranges.length = g.rank := by
  by_contra differ
  simp [view, differ, Outcome.reject] at viewed

/-- The addressing law of views: a view of a fitting flat or strided array fits the same
buffer, has offset and strides, has the ranges' counts as extents, and each of its indices sits
at the position of the array's index that the ranges select. -/
theorem view_ok_spec {n : Nat} {ranges : List Range} {cs : List Range.Compiled}
    (fits : g.Fits n) (addressed : g.descriptor? = some (offset, strides))
    (compiled : List.Forall₂ (fun axis c => axis.1.compile axis.2 = .ok c) (ranges.zip g.dims) cs)
    {v : Grid} (viewed : g.view n ranges = .ok v) :
    v.Fits n ∧ v.descriptor?.isSome ∧ v.dims = cs.map (·.count) ∧
      ∀ j, InBox v.dims j → InBox g.dims (select cs j) ∧ v.position j = g.position (select cs j) := by
  have ranks := ranks_of_view_ok viewed
  have selects : List.Forall₂ Selects cs g.dims := selects_of_compiled ranks compiled
  cases trivial : cs.all (·.trivial)
  · by_cases composes : StridesCompose cs strides
    · obtain ⟨w, viewedW, wFits, wDims, wDescriptor⟩ :=
        view_of_stridesCompose fits addressed ranks compiled trivial composes
      rw [viewedW, Except.ok.injEq] at viewed
      subst viewed
      refine ⟨wFits, by simp [wDescriptor], wDims, fun j inBox => ?_⟩
      rw [wDims] at inBox
      refine ⟨select_inBox selects inBox, ?_⟩
      rw [position_of_descriptor wDescriptor, position_select selects inBox,
        position_of_descriptor addressed]
    · rw [view_of_not_stridesCompose fits addressed ranks compiled trivial composes] at viewed
      exact absurd viewed Outcome.panic_ne_ok
  · rw [view_of_trivial ranks compiled trivial, Except.ok.injEq] at viewed
    subst viewed
    have counts := counts_of_trivial selects trivial
    refine ⟨fits, by simp [addressed], counts.symm, fun j inBox => ?_⟩
    rw [← counts] at inBox
    rw [select_of_trivial selects trivial inBox, ← counts]
    exact ⟨inBox, rfl⟩

/-- Two indices at one position of one buffer hold the same element, and a write through either
is the same write. -/
theorem get_set_of_position {α : Type} {v : Grid} {buffer : Array α} {j i : List Nat}
    (inView : InBox v.dims j) (inArray : InBox g.dims i) (same : v.position j = g.position i) :
    v.get buffer j = g.get buffer i ∧ ∀ x, v.set buffer j x = g.set buffer i x := by
  have containsView : v.shape.contains j = true := (Shape.contains_iff_inBox _ _).mpr inView
  have containsArray : g.shape.contains i = true := (Shape.contains_iff_inBox _ _).mpr inArray
  have slots : v.slot j = g.slot i := by simp [slot, same]
  refine ⟨?_, fun x => ?_⟩
  · simp [get, checkIndex, containsView, containsArray, slots]
  · simp [set, checkIndex, containsView, containsArray, slots]

/-- A view of a fitting flat or strided array whose ranges compile either returns a grid or
stops with an overflow, and it overflows exactly when some range is not trivial and a range
that selects one position composes to a stride outside the signed word. -/
theorem view_eq_panic_iff {n : Nat} {ranges : List Range} {cs : List Range.Compiled}
    (fits : g.Fits n) (addressed : g.descriptor? = some (offset, strides))
    (ranks : ranges.length = g.rank)
    (compiled : List.Forall₂ (fun axis c => axis.1.compile axis.2 = .ok c) (ranges.zip g.dims) cs) :
    ((∃ v, g.view n ranges = .ok v) ∨ g.view n ranges = Outcome.panic .overflow) ∧
      (g.view n ranges = Outcome.panic .overflow ↔
        cs.all (·.trivial) = false ∧
          ∃ p ∈ cs.zip strides, p.1.count = 1 ∧ ¬Word.IsSigned (p.1.stride * p.2)) := by
  have selects : List.Forall₂ Selects cs g.dims := selects_of_compiled ranks compiled
  have unitIff := stridesCompose_iff selects g.shape.valid.1
    (fits.descriptor_positions addressed).1 (fits.placed addressed)
  cases trivial : cs.all (·.trivial)
  · by_cases composes : StridesCompose cs strides
    · obtain ⟨v, viewed, -⟩ := view_of_stridesCompose fits addressed ranks compiled trivial composes
      refine ⟨.inl ⟨v, viewed⟩, ?_⟩
      rw [viewed]
      simpa [Outcome.panic] using unitIff.mp composes
    · have viewed := view_of_not_stridesCompose fits addressed ranks compiled trivial composes
      refine ⟨.inr viewed, ?_⟩
      rw [unitIff] at composes
      simp only [not_forall] at composes
      obtain ⟨p, mem, unit, overflow⟩ := composes
      simp only [viewed, true_iff]
      exact ⟨True.intro, p, mem, unit, overflow⟩
  · have viewed := view_of_trivial (n := n) ranks compiled trivial
    exact ⟨.inl ⟨g, viewed⟩, by simp [viewed, Outcome.panic]⟩

/-- A nested array has no strides to compose: its views are the trivial ones, which return it
unchanged. -/
theorem view_eq_ok_iff_of_nested {n : Nat} {ranges : List Range} {v : Grid}
    (unaddressed : g.descriptor? = none) :
    g.view n ranges = .ok v ↔
      ranges.length = g.rank ∧ v = g ∧ ∃ cs : List Range.Compiled,
        List.Forall₂ (fun axis c => axis.1.compile axis.2 = .ok c) (ranges.zip g.dims) cs ∧
          cs.all (·.trivial) = true := by
  constructor
  · intro viewed
    have ranks := ranks_of_view_ok viewed
    simp only [view, ranks, ne_eq, not_true_eq_false, if_false] at viewed
    obtain ⟨cs, listed, rest⟩ := Outcome.bind_eq_ok.mp viewed
    split at rest
    next trivial =>
      rw [Outcome.pure_eq, Except.ok.injEq] at rest
      exact ⟨ranks, rest.symm, cs, Outcome.mapM_eq_ok_iff.mp listed, trivial⟩
    next =>
      simp [partsFor, unaddressed, Outcome.reject] at rest
  · rintro ⟨ranks, rfl, cs, compiled, trivial⟩
    exact view_of_trivial ranks compiled trivial

theorem view_of_rank_mismatch {n : Nat} {ranges : List Range} (differ : ranges.length ≠ g.rank) :
    g.view n ranges = Outcome.reject (.rankMismatch ranges.length g.rank) := by
  simp [view, differ]

/-- Ranges are compiled axis by axis, and the first one that fails stops the view with its
failure. -/
theorem view_of_compile_failure {n : Nat} {ranges : List Range} (ranks : ranges.length = g.rank)
    {before after : List (Range × Nat)} {axis : Range × Nat} {cs : List Range.Compiled}
    {failure : Fault} (axes : ranges.zip g.dims = before ++ axis :: after)
    (compiled : List.Forall₂ (fun axis c => axis.1.compile axis.2 = .ok c) before cs)
    (fails : axis.1.compile axis.2 = .error failure) :
    g.view n ranges = .error failure := by
  have listed : (ranges.zip g.dims).mapM (fun axis => axis.1.compile axis.2) = .error failure := by
    rw [axes, List.mapM_append, Outcome.mapM_eq_ok_iff.mpr compiled, Outcome.ok_bind,
      List.mapM_cons, fails]
    rfl
  simp only [view, ranks, ne_eq, not_true_eq_false, if_false]
  rw [listed]
  rfl

/-- Views of a flat or strided array either return a grid or overflow, exactly when a one-position
range composes to a stride outside the signed words. A returned view fits the same buffer and
reads and writes the array at the selected index; refusals come in the order of the checks. -/
theorem view_addressing {α : Type} (buffer : Array α) (ranges : List Range) :
    (∀ (g : Grid) (offset : Int) (strides : List Int) (cs : List Range.Compiled),
      g.Fits buffer.size → g.descriptor? = some (offset, strides) → ranges.length = g.rank →
      List.Forall₂ (fun axis c => axis.1.compile axis.2 = .ok c) (ranges.zip g.dims) cs →
      ((∃ v, g.view buffer.size ranges = .ok v) ∨
        g.view buffer.size ranges = Outcome.panic .overflow) ∧
      (g.view buffer.size ranges = Outcome.panic .overflow ↔
        cs.all (·.trivial) = false ∧
          ∃ p ∈ cs.zip strides, p.1.count = 1 ∧ ¬Word.IsSigned (p.1.stride * p.2)) ∧
      ∀ v, g.view buffer.size ranges = .ok v →
        v.Fits buffer.size ∧ v.dims = cs.map (·.count) ∧
        (∀ j, InBox v.dims j →
          v.get buffer j = g.get buffer (select cs j) ∧
            ∀ x, v.set buffer j x = g.set buffer (select cs j) x) ∧
        ∀ (inner : List Range) (innerCs : List Range.Compiled) (w : Grid),
          List.Forall₂ (fun axis c => axis.1.compile axis.2 = .ok c) (inner.zip v.dims) innerCs →
          v.view buffer.size inner = .ok w →
          ∀ j, InBox w.dims j → w.get buffer j = g.get buffer (select cs (select innerCs j))) ∧
    (∀ g v : Grid, g.descriptor? = none →
      (g.view buffer.size ranges = .ok v ↔
        ranges.length = g.rank ∧ v = g ∧ ∃ cs : List Range.Compiled,
          List.Forall₂ (fun axis c => axis.1.compile axis.2 = .ok c) (ranges.zip g.dims) cs ∧
            cs.all (·.trivial) = true)) ∧
    (∀ g : Grid, ranges.length ≠ g.rank →
      g.view buffer.size ranges = Outcome.reject (.rankMismatch ranges.length g.rank)) ∧
    (∀ (g : Grid) (before after : List (Range × Nat)) (axis : Range × Nat)
        (cs : List Range.Compiled) (failure : Fault),
      ranges.length = g.rank → ranges.zip g.dims = before ++ axis :: after →
      List.Forall₂ (fun axis c => axis.1.compile axis.2 = .ok c) before cs →
      axis.1.compile axis.2 = .error failure → g.view buffer.size ranges = .error failure) := by
  refine ⟨fun g offset strides cs fits addressed ranks compiled => ?_,
    fun g v unaddressed => view_eq_ok_iff_of_nested unaddressed,
    fun g differ => view_of_rank_mismatch differ,
    fun g before after axis cs failure ranks axes compiled fails =>
      view_of_compile_failure ranks axes compiled fails⟩
  obtain ⟨outcome, panics⟩ := view_eq_panic_iff fits addressed ranks compiled
  refine ⟨outcome, panics, fun v viewed => ?_⟩
  obtain ⟨viewFits, viewAddressed, viewDims, viewLaw⟩ := view_ok_spec fits addressed compiled viewed
  refine ⟨viewFits, viewDims, fun j inBox => ?_,
    fun inner innerCs w compiledInner viewedInner j inBox => ?_⟩
  · obtain ⟨inArray, same⟩ := viewLaw j inBox
    exact get_set_of_position inBox inArray same
  · obtain ⟨⟨viewOffset, viewStrides⟩, viewDescriptor⟩ := Option.isSome_iff_exists.mp viewAddressed
    obtain ⟨-, -, -, innerLaw⟩ := view_ok_spec viewFits viewDescriptor compiledInner viewedInner
    obtain ⟨inView, innerSame⟩ := innerLaw j inBox
    obtain ⟨inArray, same⟩ := viewLaw _ inView
    exact (get_set_of_position inBox inArray (innerSame.trans same)).1

/-- One position of a column of a 2 × 2 array selected with the step 2^62: the range keeps its
step as its stride, and that step times the column stride 2 leaves the signed word, so the view
panics although the range compiles. -/
theorem view_overflows_on_single_position_step :
    let g : Grid := ⟨⟨[2, 2], by decide⟩, .flat⟩
    g.Fits 4 ∧ g.view 4 [Range.all, ⟨0, 0, 4611686018427387904⟩] = Outcome.panic .overflow :=
  ⟨rfl, rfl⟩

end Grid

end StridedGrid
