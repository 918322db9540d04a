import Mathlib
import StridedGrid.Proofs.Refusal

/-!
# Compiling ranges

`Range.compile` resolves a range against an axis in one of four ways, and `compile_eq` says
which, in the order the checks are made: ends off the axis are refused with the raw ends, a step
pointing away from the last end is refused next, a backward step with no negation among the
signed words panics, and every other range compiles to `compiledOn`: it starts at the first end,
takes the range's step (one position towards the last end for a zero step), and counts
`|last - first| / |step| + 1` positions. A length beyond the signed words is refused before
anything else (`compile_of_large`).

Everything else is arithmetic on that closed form. The positions of a compiled range form a
progression from the first end towards the last; `progression` shows that its terms lie between
the ends and that the count is the most that do, reducing the backward case to the forward one
by negation. A compiled range is trivial exactly when it selects every position of the axis as
itself (`trivial_iff_identity`), which is what lets a view of trivial ranges return the array.
-/

namespace StridedGrid

namespace Range

/-- The first end resolved against an axis of length `length`. -/
def firstOn (r : Range) (length : Nat) : Int := resolveEnd length r.first

/-- The last end resolved against an axis of length `length`. -/
def lastOn (r : Range) (length : Nat) : Int := resolveEnd length r.last

/-- Both resolved ends lie on the axis. -/
def EndsOn (r : Range) (length : Nat) : Prop :=
  0 ≤ r.firstOn length ∧ r.firstOn length < length ∧ 0 ≤ r.lastOn length ∧ r.lastOn length < length

instance (r : Range) (length : Nat) : Decidable (r.EndsOn length) :=
  inferInstanceAs (Decidable (_ ∧ _))

/-- The step does not point away from the last end. -/
def Heads (r : Range) (length : Nat) : Prop :=
  (r.firstOn length < r.lastOn length → 0 ≤ r.step) ∧
    (r.lastOn length < r.firstOn length → r.step ≤ 0)

instance (r : Range) (length : Nat) : Decidable (r.Heads length) :=
  inferInstanceAs (Decidable (_ ∧ _))

/-- A backward range whose step has no negation among the signed words. -/
def Unnegatable (r : Range) (length : Nat) : Prop :=
  r.lastOn length < r.firstOn length ∧ r.step ≤ Word.signedMin

instance (r : Range) (length : Nat) : Decidable (r.Unnegatable length) :=
  inferInstanceAs (Decidable (_ ∧ _))

/-- The step a range takes: its own, or one position towards the last end when it is zero. -/
def stepOn (r : Range) (length : Nat) : Int :=
  if r.step = 0 then (if r.firstOn length ≤ r.lastOn length then 1 else -1) else r.step

/-- Positions between the two resolved ends, both included. -/
def Between (r : Range) (length : Nat) (p : Int) : Prop :=
  min (r.firstOn length) (r.lastOn length) ≤ p ∧ p ≤ max (r.firstOn length) (r.lastOn length)

instance (r : Range) (length : Nat) (p : Int) : Decidable (r.Between length p) :=
  inferInstanceAs (Decidable (_ ∧ _))

/-- The compiled range that the closed form predicts: it starts at the first end, takes
`stepOn`, and counts the steps that fit between the ends, plus one. -/
def compiledOn (r : Range) (length : Nat) : Compiled :=
  let count := (|r.lastOn length - r.firstOn length| / |r.stepOn length| + 1).toNat
  { offset := (r.firstOn length).toNat, stride := r.stepOn length, count
    trivial := (r.firstOn length).toNat == 0 && count == length &&
      (r.stepOn length == 1 || length == 1) }

variable {r : Range} {length : Nat}

theorem stepOn_of_le (ahead : r.firstOn length ≤ r.lastOn length) :
    r.stepOn length = if r.step = 0 then 1 else r.step := by
  simp [stepOn, ahead]

theorem stepOn_of_lt (behind : r.lastOn length < r.firstOn length) :
    r.stepOn length = if r.step = 0 then -1 else r.step := by
  simp [stepOn, not_le.mpr behind]

theorem compile_of_large (large : Word.signedMax < length) :
    r.compile length = Outcome.reject .offsetOverflow := by
  have beyond : ¬(length : Int) ≤ Word.signedMax := not_le.mpr large
  simp [compile, bound, Word.signedOfUnsigned?, beyond, Outcome.reject]

/-- What compiling does to a range against an axis whose length is a signed word. -/
theorem compile_eq (small : (length : Int) ≤ Word.signedMax) :
    r.compile length =
      if ¬r.EndsOn length then Outcome.reject (.rangeOutOfBounds r.first r.last length)
      else if ¬r.Heads length then Outcome.reject (.illegalRangeDirection r.first r.last r.step)
      else if r.Unnegatable length then Outcome.panic .overflow
      else .ok (r.compiledOn length) := by
  unfold compile
  rw [bound_of_le small, Outcome.ofExcept_ok, Outcome.ok_bind]
  dsimp only
  generalize firstIs : resolveEnd (length : Int) r.first = f
  generalize lastIs : resolveEnd (length : Int) r.last = l
  have first : r.firstOn length = f := firstIs
  have last : r.lastOn length = l := lastIs
  rcases lt_trichotomy f l with ahead | same | behind
  · have forwardOnly : ¬r.Unnegatable length := by simp only [Unnegatable, first, last]; omega
    rw [if_neg ahead.ne, if_pos ahead]
    by_cases inside : 0 ≤ f ∧ l < length
    · have on : r.EndsOn length := by simp only [EndsOn, first, last]; omega
      rw [if_neg (by omega), if_neg (not_not.mpr on)]
      by_cases backwards : r.step < 0
      · have wrong : ¬r.Heads length := by simp only [Heads, first, last]; omega
        rw [if_pos backwards, if_pos wrong]
        rfl
      · have heads : r.Heads length := by simp only [Heads, first, last]; omega
        rw [if_neg backwards, if_neg (not_not.mpr heads), if_neg forwardOnly]
        have positive : 0 < if r.step = 0 then (1 : Int) else r.step := by split <;> omega
        simp [compiledOn, stepOn_of_le (first ▸ last ▸ ahead.le), first, last,
          abs_of_pos positive, abs_of_pos (sub_pos.mpr ahead)]
    · have off : ¬r.EndsOn length := by simp only [EndsOn, first, last]; omega
      rw [if_pos (by omega), if_pos off]
      rfl
  · subst same
    have heads : r.Heads length := by simp [Heads, first, last]
    have single : ¬r.Unnegatable length := by simp [Unnegatable, first, last]
    rw [if_pos rfl, if_neg (not_not.mpr heads), if_neg single]
    by_cases inside : 0 ≤ f ∧ f < length
    · have on : r.EndsOn length := by simp only [EndsOn, first, last]; omega
      rw [if_neg (by omega), if_neg (not_not.mpr on)]
      simp [compiledOn, stepOn_of_le (first.trans last.symm).le, first, last]
    · have off : ¬r.EndsOn length := by simp only [EndsOn, first, last]; omega
      rw [if_pos (by omega), if_pos off]
      rfl
  · rw [if_neg behind.ne', if_neg (not_lt.mpr behind.le)]
    by_cases inside : f < length ∧ 0 ≤ l
    · have on : r.EndsOn length := by simp only [EndsOn, first, last]; omega
      rw [if_neg (by omega), if_neg (not_not.mpr on)]
      by_cases forwards : r.step > 0
      · have wrong : ¬r.Heads length := by simp only [Heads, first, last]; omega
        rw [if_pos forwards, if_pos wrong]
        rfl
      · have heads : r.Heads length := by simp only [Heads, first, last]; omega
        rw [if_neg forwards, if_neg (not_not.mpr heads)]
        have negative : (if r.step = 0 then (-1 : Int) else r.step) < 0 := by split <;> omega
        by_cases unnegatable : r.Unnegatable length
        · have least : r.step ≤ Word.signedMin := unnegatable.2
          have overflow : ¬Word.IsSigned (-if r.step = 0 then (-1 : Int) else r.step) := by
            unfold Word.IsSigned Word.signedMin Word.signedMax at *
            split <;> omega
          rw [if_pos unnegatable, Word.signed_of_not_isSigned overflow]
          rfl
        · have least : ¬r.step ≤ Word.signedMin := fun least => unnegatable ⟨by omega, least⟩
          have negated : Word.IsSigned (-if r.step = 0 then (-1 : Int) else r.step) := by
            unfold Word.IsSigned Word.signedMin Word.signedMax at *
            split <;> omega
          rw [if_neg unnegatable, Word.signed_of_isSigned negated]
          simp [compiledOn, stepOn_of_lt (first ▸ last ▸ behind), first, last,
            abs_of_neg negative, abs_of_neg (sub_neg.mpr behind)]
    · have off : ¬r.EndsOn length := by simp only [EndsOn, first, last]; omega
      rw [if_pos (by omega), if_pos off]
      rfl

/-- The progression from `f` by a positive step `s` up to `l`: its first `(l - f) / s + 1`
terms lie between the ends, and the next one is past `l`. -/
theorem progression_forward {f l s : Int} (positive : 0 < s) :
    (∀ k : Nat, (k : Int) < (l - f) / s + 1 → f ≤ f + k * s ∧ f + k * s ≤ l) ∧
      l < f + ((l - f) / s + 1) * s := by
  have within := Int.ediv_mul_le (l - f) positive.ne'
  have beyond := Int.lt_ediv_add_one_mul_self (l - f) positive
  refine ⟨fun k below => ?_, by linarith⟩
  have steps : (k : Int) * s ≤ (l - f) / s * s :=
    mul_le_mul_of_nonneg_right (by omega) positive.le
  have nonneg : 0 ≤ (k : Int) * s := mul_nonneg (by omega) positive.le
  omega

/-- A progression from `f` with a step `s` leading towards `l`: its first `|l - f| / |s| + 1`
terms lie between the ends, and the next one does not. -/
theorem progression {f l s : Int} (toward : (f ≤ l ∧ 0 < s) ∨ (l ≤ f ∧ s < 0)) :
    (∀ k : Nat, (k : Int) < |l - f| / |s| + 1 → min f l ≤ f + k * s ∧ f + k * s ≤ max f l) ∧
      ¬(min f l ≤ f + (|l - f| / |s| + 1) * s ∧ f + (|l - f| / |s| + 1) * s ≤ max f l) := by
  rcases toward with ⟨ahead, positive⟩ | ⟨behind, negative⟩
  · obtain ⟨inside, past⟩ := progression_forward (l := l) (f := f) positive
    rw [abs_of_nonneg (sub_nonneg.mpr ahead), abs_of_pos positive, min_eq_left ahead,
      max_eq_right ahead]
    exact ⟨inside, fun between => by omega⟩
  · obtain ⟨inside, past⟩ := progression_forward (l := -l) (f := -f) (neg_pos.mpr negative)
    rw [mul_neg] at past
    have distance : |l - f| = -l - -f := by rw [abs_of_nonpos (by omega)]; ring
    rw [distance, abs_of_neg negative, min_eq_right behind, max_eq_left behind]
    refine ⟨fun k below => ?_, fun between => ?_⟩
    · have mirrored := inside k below
      rw [mul_neg] at mirrored
      constructor <;> linarith
    · linarith

/-- A step the range may take leads from the first end towards the last. -/
theorem stepOn_toward (heads : r.Heads length) :
    (r.firstOn length ≤ r.lastOn length ∧ 0 < r.stepOn length) ∨
      (r.lastOn length ≤ r.firstOn length ∧ r.stepOn length < 0) := by
  unfold Heads at heads
  unfold stepOn
  split_ifs <;> omega

theorem index_compiledOn (on : r.EndsOn length) (k : Nat) :
    (r.compiledOn length).index k = r.firstOn length + k * r.stepOn length := by
  simp [compiledOn, Compiled.index, Int.toNat_of_nonneg on.1]

theorem count_compiledOn :
    ((r.compiledOn length).count : Int) =
      |r.lastOn length - r.firstOn length| / |r.stepOn length| + 1 := by
  have : 0 ≤ |r.lastOn length - r.firstOn length| / |r.stepOn length| :=
    Int.ediv_nonneg (abs_nonneg _) (abs_nonneg _)
  simp only [compiledOn]
  omega

/-- The predicted range selects at least one position, every selected position lies between
the ends and so on the axis, and the position after the last selected one does not. -/
theorem compiledOn_selects (on : r.EndsOn length) (heads : r.Heads length) :
    1 ≤ (r.compiledOn length).count ∧
      (∀ k < (r.compiledOn length).count, r.Between length ((r.compiledOn length).index k) ∧
        0 ≤ (r.compiledOn length).index k ∧ (r.compiledOn length).index k < length) ∧
      ¬r.Between length (r.firstOn length + (r.compiledOn length).count * r.stepOn length) := by
  obtain ⟨inside, past⟩ := progression (stepOn_toward heads)
  have counted : ((r.compiledOn length).count : Int) =
      |r.lastOn length - r.firstOn length| / |r.stepOn length| + 1 := count_compiledOn
  have quotient : 0 ≤ |r.lastOn length - r.firstOn length| / |r.stepOn length| :=
    Int.ediv_nonneg (abs_nonneg _) (abs_nonneg _)
  refine ⟨by omega, fun k below => ?_, by rw [counted]; exact past⟩
  have between := inside k (by omega)
  rw [index_compiledOn on]
  unfold EndsOn at on
  refine ⟨between, ?_, ?_⟩
  · have := min_le_iff.mp between.1
    omega
  · have := le_max_iff.mp between.2
    omega

theorem compile_of_off_axis (small : (length : Int) ≤ Word.signedMax) (off : ¬r.EndsOn length) :
    r.compile length = Outcome.reject (.rangeOutOfBounds r.first r.last length) := by
  rw [compile_eq small, if_pos off]

theorem compile_of_wrong_direction (small : (length : Int) ≤ Word.signedMax)
    (on : r.EndsOn length) (wrong : ¬r.Heads length) :
    r.compile length = Outcome.reject (.illegalRangeDirection r.first r.last r.step) := by
  rw [compile_eq small, if_neg (not_not.mpr on), if_pos wrong]

/-- A backward step with no negation points towards the last end. -/
theorem Unnegatable.heads (unnegatable : r.Unnegatable length) : r.Heads length := by
  unfold Unnegatable Word.signedMin at unnegatable
  unfold Heads
  omega

theorem compile_eq_ok_iff {c : Compiled} :
    r.compile length = .ok c ↔ (length : Int) ≤ Word.signedMax ∧ r.EndsOn length ∧
      r.Heads length ∧ ¬r.Unnegatable length ∧ c = r.compiledOn length := by
  by_cases small : (length : Int) ≤ Word.signedMax
  · rw [compile_eq small]
    by_cases on : r.EndsOn length
    · by_cases heads : r.Heads length
      · by_cases unnegatable : r.Unnegatable length
        · simp [on, heads, unnegatable, Outcome.panic]
        · simp [small, on, heads, unnegatable, eq_comm]
      · simp [on, heads, Outcome.reject]
    · simp [on, Outcome.reject]
  · rw [compile_of_large (by omega)]
    simp [small, Outcome.reject]

theorem compile_eq_panic_iff {p : Panic} :
    r.compile length = Outcome.panic p ↔ p = .overflow ∧ (length : Int) ≤ Word.signedMax ∧
      r.EndsOn length ∧ r.Unnegatable length := by
  by_cases small : (length : Int) ≤ Word.signedMax
  · rw [compile_eq small]
    by_cases on : r.EndsOn length
    · by_cases heads : r.Heads length
      · by_cases unnegatable : r.Unnegatable length
        · simp [small, on, heads, unnegatable, Outcome.panic, eq_comm]
        · simp [on, heads, unnegatable, Outcome.panic]
      · have headsOff : ¬r.Unnegatable length := fun unnegatable => heads unnegatable.heads
        simp [on, heads, headsOff, Outcome.reject, Outcome.panic]
    · simp [on, Outcome.reject, Outcome.panic]
  · rw [compile_of_large (by omega)]
    simp [small, Outcome.reject, Outcome.panic]

/-- The ranges that compile, written as the three directions a range can take. -/
theorem selectable_iff : r.EndsOn length ∧ r.Heads length ∧ ¬r.Unnegatable length ↔
    (r.firstOn length = r.lastOn length ∧ 0 ≤ r.firstOn length ∧ r.firstOn length < length) ∨
      (r.firstOn length < r.lastOn length ∧ 0 ≤ r.firstOn length ∧ r.lastOn length < length ∧
        0 ≤ r.step) ∨
      (r.lastOn length < r.firstOn length ∧ 0 ≤ r.lastOn length ∧ r.firstOn length < length ∧
        r.step ≤ 0 ∧ Word.signedMin < r.step) := by
  unfold EndsOn Heads Unnegatable
  omega

/-- Compiling a range against an axis panics only on a backward range on the axis whose step has
no negation, refuses in the order length, ends, direction, and otherwise selects
`|last - first| / |step| + 1` positions from the first end, all between the ends. -/
theorem compile_outcome (r : Range) (length : Nat) :
    (∀ p : Panic, r.compile length = Outcome.panic p ↔
      p = .overflow ∧ (length : Int) ≤ Word.signedMax ∧ r.EndsOn length ∧
        r.Unnegatable length) ∧
    ((∃ c, r.compile length = .ok c) ↔ (length : Int) ≤ Word.signedMax ∧
      ((r.firstOn length = r.lastOn length ∧ 0 ≤ r.firstOn length ∧ r.firstOn length < length) ∨
        (r.firstOn length < r.lastOn length ∧ 0 ≤ r.firstOn length ∧ r.lastOn length < length ∧
          0 ≤ r.step) ∨
        (r.lastOn length < r.firstOn length ∧ 0 ≤ r.lastOn length ∧ r.firstOn length < length ∧
          r.step ≤ 0 ∧ Word.signedMin < r.step))) ∧
    (Word.signedMax < length → r.compile length = Outcome.reject .offsetOverflow) ∧
    ((length : Int) ≤ Word.signedMax → ¬r.EndsOn length →
      r.compile length = Outcome.reject (.rangeOutOfBounds r.first r.last length)) ∧
    ((length : Int) ≤ Word.signedMax → r.EndsOn length → ¬r.Heads length →
      r.compile length = Outcome.reject (.illegalRangeDirection r.first r.last r.step)) ∧
    ∀ c, r.compile length = .ok c →
      (c.offset : Int) = r.firstOn length ∧ c.stride = r.stepOn length ∧ 1 ≤ c.count ∧
      (∀ k < c.count, c.index k = r.firstOn length + k * r.stepOn length ∧
        0 ≤ c.index k ∧ c.index k < length ∧ r.Between length (c.index k)) ∧
      (c.count : Int) = |r.lastOn length - r.firstOn length| / |r.stepOn length| + 1 ∧
      ¬r.Between length (r.firstOn length + c.count * r.stepOn length) := by
  refine ⟨fun p => compile_eq_panic_iff, ?_, compile_of_large, compile_of_off_axis,
    compile_of_wrong_direction, fun c compiled => ?_⟩
  · rw [← selectable_iff]
    constructor
    · rintro ⟨c, compiled⟩
      obtain ⟨small, on, heads, unnegatable, -⟩ := compile_eq_ok_iff.mp compiled
      exact ⟨small, on, heads, unnegatable⟩
    · rintro ⟨small, on, heads, unnegatable⟩
      exact ⟨_, compile_eq_ok_iff.mpr ⟨small, on, heads, unnegatable, rfl⟩⟩
  · obtain ⟨-, on, heads, -, rfl⟩ := compile_eq_ok_iff.mp compiled
    obtain ⟨positive, selected, past⟩ := compiledOn_selects on heads
    refine ⟨by simp [compiledOn, Int.toNat_of_nonneg on.1], rfl, positive,
      fun k below => ?_, count_compiledOn, past⟩
    exact ⟨index_compiledOn on k, (selected k below).2.1, (selected k below).2.2,
      (selected k below).1⟩

example : (⟨7, 0, -2⟩ : Range).compile 8 = .ok ⟨7, -2, 4, false⟩ := by decide

/-- A backward range of five positions with the least signed word as its step: its ends and its
direction are accepted, but the step has no negation, so compiling it panics. -/
theorem compile_panics_on_least_backward_step :
    (⟨4, 0, Word.signedMin⟩ : Range).compile 5 = Outcome.panic .overflow := by
  decide

/-- A range that selects at least one position selects every position of an axis as itself
exactly when it starts at zero, counts the axis and steps by one, or the axis has one
position. -/
theorem Compiled.identity_iff {c : Compiled} (positive : 1 ≤ c.count) :
    (c.offset = 0 ∧ c.count = length ∧ (c.stride = 1 ∨ length = 1)) ↔
      c.count = length ∧ ∀ k < length, c.index k = k := by
  constructor
  · rintro ⟨zero, whole, unit | single⟩
    · exact ⟨whole, fun k _ => by simp [Compiled.index, zero, unit]⟩
    · refine ⟨whole, fun k below => ?_⟩
      obtain rfl : k = 0 := by omega
      simp [Compiled.index, zero]
  · rintro ⟨whole, identity⟩
    have first := identity 0 (by omega)
    simp only [Compiled.index, Nat.cast_zero, zero_mul, add_zero, Nat.cast_eq_zero] at first
    refine ⟨first, whole, ?_⟩
    by_cases single : length = 1
    · exact .inr single
    · have second := identity 1 (by omega)
      simp only [Compiled.index, first, Nat.cast_zero, Nat.cast_one, one_mul, zero_add] at second
      exact .inl second

/-- A compiled range is trivial exactly when it selects every position of the axis as
itself. -/
theorem trivial_iff_identity {c : Compiled} (compiled : r.compile length = .ok c) :
    c.trivial = true ↔ c.count = length ∧ ∀ k < length, c.index k = k := by
  obtain ⟨-, on, heads, -, rfl⟩ := compile_eq_ok_iff.mp compiled
  rw [← Compiled.identity_iff (compiledOn_selects on heads).1]
  simp [compiledOn, and_assoc]

open Traversal Compiled in
/-- A compiled range is trivial exactly when it selects every position of its axis as itself, so a
view whose ranges are all trivial, which returns the array itself, agrees with composing them. -/
theorem trivial_ranges_select_identity :
    (∀ (r : Range) (length : Nat) (c : Compiled), r.compile length = .ok c →
      (c.trivial = true ↔ c.count = length ∧ ∀ k < length, c.index k = k)) ∧
    ∀ (g : Grid) (size : Nat) (ranges : List Range) (cs : List Compiled),
      ranges.length = g.rank →
      List.Forall₂ (fun axis c => axis.1.compile axis.2 = .ok c) (ranges.zip g.dims) cs →
      cs.all (·.trivial) = true →
      g.view size ranges = .ok g ∧ cs.map (·.count) = g.dims ∧
        (∀ j, InBox g.dims j → select cs j = j) ∧
        ∀ offset strides, g.descriptor? = some (offset, strides) → ∀ j, InBox g.dims j →
          Traversal.position (Traversal.position offset strides (cs.map (·.offset)))
            (composedStrides cs strides) j = g.position j := by
  refine ⟨fun r length c compiled => trivial_iff_identity compiled,
    fun g size ranges cs ranks compiled trivial => ?_⟩
  have selects := Grid.selects_of_compiled ranks compiled
  have counts := counts_of_trivial selects trivial
  have identity : ∀ j, InBox g.dims j → select cs j = j := fun j inBox =>
    select_of_trivial selects trivial (counts ▸ inBox)
  refine ⟨Grid.view_of_trivial ranks compiled trivial, counts, identity,
    fun offset strides addressed j inBox => ?_⟩
  rw [position_select selects (counts ▸ inBox), identity j inBox,
    Grid.position_of_descriptor addressed]

/-- Taking the whole of each axis of a flat two-by-three array gives the array itself. -/
theorem trivial_ranges_select_identity_whole_axes :
    let g : Grid := ⟨⟨[2, 3], by decide⟩, .flat⟩
    g.view 6 [Range.all, ⟨0, 2, 1⟩] = .ok g := by
  intro g
  have compiled : List.Forall₂ (fun axis c => axis.1.compile axis.2 = .ok c)
      ([Range.all, ⟨0, 2, 1⟩].zip g.dims) [⟨0, 1, 2, true⟩, ⟨0, 1, 3, true⟩] :=
    .cons rfl (.cons rfl .nil)
  exact (trivial_ranges_select_identity.2 g 6 _ _ rfl compiled rfl).1

end Range


end StridedGrid
