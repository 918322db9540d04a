import Mathlib
import StridedGrid.Proofs.RangeCompilation

/-!
# Ranges of naturals

A half-open range `start..stop` or a closed range `start..=stop` of naturals becomes the range
with step one from `start` to its last element (`ofHalfOpen_eq`, `ofClosed_eq`). Its ends are
never negative, so they are never counted from the back of an axis: against an axis that holds
its last element it compiles to exactly its own elements in increasing order, and against a
shorter one it is refused with its ends (`compile_unit_step`).

An empty range is refused before it becomes a range. It has no last element, and taking one
anyway would turn `start..start` into the backward range `start..=start - 1`, and `0..0` into
`0..=-1`, which is the whole axis.
-/

namespace StridedGrid

namespace Range

theorem bound_of_lt {v : Nat} (large : Word.signedMax < v) : bound v = .error .offsetOverflow := by
  simp [bound, Word.signedOfUnsigned?, not_le.mpr large]

/-- Bounding the ends of a range of naturals, the first at most the last, refuses it exactly when
the last end is not a signed word: the first end is then either not one either, or below it. -/
theorem bound_ends {first last : Nat} (ahead : first ≤ last) :
    (do
      let a ← bound first
      let b ← bound last
      return (⟨a, b, 1⟩ : Range) : Except GridError Range) =
      if Word.signedMax < (last : Int) then .error .offsetOverflow else .ok ⟨first, last, 1⟩ := by
  by_cases beyond : Word.signedMax < (last : Int)
  · rw [if_pos beyond]
    by_cases firstBeyond : Word.signedMax < (first : Int)
    · rw [bound_of_lt firstBeyond]
      rfl
    · rw [bound_of_le (not_lt.mp firstBeyond), bound_of_lt beyond]
      rfl
  · have firstSmall : (first : Int) ≤ Word.signedMax := by omega
    rw [if_neg beyond, bound_of_le firstSmall, bound_of_le (not_lt.mp beyond)]
    rfl

/-- What a half-open range of naturals becomes: refused when empty, then when its last element
is not a signed word. -/
theorem ofHalfOpen_eq (start stop : Nat) :
    ofHalfOpen start stop =
      if stop ≤ start then .error (.emptyRange start stop)
      else if Word.signedMax < ((stop - 1 : Nat) : Int) then .error .offsetOverflow
      else .ok ⟨start, (stop - 1 : Nat), 1⟩ := by
  unfold ofHalfOpen
  simp only [ge_iff_le]
  by_cases empty : stop ≤ start
  · rw [if_pos empty, if_pos empty]
  · rw [if_neg empty, if_neg empty, bound_ends (by omega)]

/-- What a closed range of naturals becomes: refused when empty, reporting the half-open range
after it with its end saturated at the greatest unsigned word, then when its last element is not
a signed word. -/
theorem ofClosed_eq (start stop : Nat) :
    ofClosed start stop =
      if stop < start then .error (.emptyRange start (min (stop + 1) (Word.unsignedCount - 1)))
      else if Word.signedMax < (stop : Int) then .error .offsetOverflow
      else .ok ⟨start, stop, 1⟩ := by
  unfold ofClosed
  by_cases empty : stop < start
  · rw [if_pos empty, if_pos empty]
  · rw [if_neg empty, if_neg empty, bound_ends (by omega)]

section UnitStep

variable {first last length : Nat}

/-- The first `count` positions of a range that starts at `first` and steps by one are
`first, first + 1, …`. -/
theorem selection_of_unit_step {c : Compiled} (start : (c.offset : Int) = first) (unit : c.stride = 1) :
    (List.range c.count).map c.index = (List.range' first c.count).map Nat.cast := by
  rw [List.range'_eq_map_range, List.map_map]
  apply List.map_congr_left
  intro k _
  simp [Compiled.index, start, unit]

/-- A range of naturals with step one and its ends in order. On an axis that holds its last end
it compiles to `last + 1 - first` positions from `first` on, one apart; on a shorter axis it is
refused with its ends. -/
theorem compile_unit_step (small : (length : Int) ≤ Word.signedMax) (ahead : first ≤ last) :
    (last < length → ∃ c, (⟨first, last, 1⟩ : Range).compile length = .ok c ∧
        (List.range c.count).map c.index = (List.range' first (last + 1 - first)).map Nat.cast) ∧
      (length ≤ last → (⟨first, last, 1⟩ : Range).compile length =
        Outcome.reject (.rangeOutOfBounds first last length)) := by
  have firstOn : (⟨first, last, 1⟩ : Range).firstOn length = first := by
    simp [firstOn, resolveEnd]
  have lastOn : (⟨first, last, 1⟩ : Range).lastOn length = last := by
    simp [lastOn, resolveEnd]
  constructor
  · intro inside
    have on : (⟨first, last, 1⟩ : Range).EndsOn length := by
      simp only [EndsOn, firstOn, lastOn]
      omega
    have heads : (⟨first, last, 1⟩ : Range).Heads length := by
      simp only [Heads, firstOn, lastOn]
      omega
    have forwards : ¬(⟨first, last, 1⟩ : Range).Unnegatable length := by
      simp only [Unnegatable, firstOn, lastOn, Word.signedMin]
      omega
    have unit : (⟨first, last, 1⟩ : Range).stepOn length = 1 := by
      simp [stepOn]
    refine ⟨_, compile_eq_ok_iff.mpr ⟨small, on, heads, forwards, rfl⟩, ?_⟩
    have counted : (compiledOn ⟨first, last, 1⟩ length).count = last + 1 - first := by
      have := @count_compiledOn ⟨first, last, 1⟩ length
      rw [firstOn, lastOn, unit, abs_one, Int.ediv_one, abs_of_nonneg (by omega)] at this
      omega
    have start : ((compiledOn ⟨first, last, 1⟩ length).offset : Int) = first := by
      simp [compiledOn, firstOn]
    have step : (compiledOn ⟨first, last, 1⟩ length).stride = 1 := by
      simp [compiledOn, unit]
    rw [selection_of_unit_step start step, counted]
  · intro outside
    apply compile_of_off_axis small
    simp only [EndsOn, lastOn]
    omega

/-- A range of naturals with step one and its ends in order that compiles selects exactly its own
elements: on a shorter axis it would have been refused. -/
theorem compile_unit_step_selects (small : (length : Int) ≤ Word.signedMax) (ahead : first ≤ last)
    {c : Compiled} (compiled : (⟨first, last, 1⟩ : Range).compile length = .ok c) :
    (List.range c.count).map c.index = (List.range' first (last + 1 - first)).map Nat.cast := by
  obtain ⟨inside, outside⟩ := compile_unit_step small ahead
  by_cases held : last < length
  · obtain ⟨c', compiled', selected⟩ := inside held
    obtain rfl := Except.ok.inj (compiled.symm.trans compiled')
    exact selected
  · rw [outside (by omega)] at compiled
    cases compiled

end UnitStep

/-- Ranges of naturals compile to themselves: a half-open or closed range is refused as empty or
for an end past the signed words, and otherwise selects exactly its own elements, in order, on an
axis that holds them. -/
theorem naturalRanges_compile_to_themselves (start stop length : Nat)
    (small : (length : Int) ≤ Word.signedMax) :
    (ofHalfOpen start stop = .error (.emptyRange start stop) ↔ stop ≤ start) ∧
    (start < stop →
      (ofHalfOpen start stop = .error .offsetOverflow ↔ Word.signedMax < ((stop - 1 : Nat) : Int))) ∧
    (start < stop → ((stop - 1 : Nat) : Int) ≤ Word.signedMax →
      ∃ r, ofHalfOpen start stop = .ok r ∧
        (stop ≤ length → ∃ c, r.compile length = .ok c ∧
          (List.range c.count).map c.index = (List.range' start (stop - start)).map Nat.cast) ∧
        (length < stop →
          r.compile length = Outcome.reject (.rangeOutOfBounds start (stop - 1 : Nat) length))) ∧
    (ofClosed start stop =
        .error (.emptyRange start (min (stop + 1) (Word.unsignedCount - 1))) ↔ stop < start) ∧
    (start ≤ stop → (ofClosed start stop = .error .offsetOverflow ↔ Word.signedMax < (stop : Int))) ∧
    (start ≤ stop → (stop : Int) ≤ Word.signedMax →
      ∃ r, ofClosed start stop = .ok r ∧
        (stop < length → ∃ c, r.compile length = .ok c ∧
          (List.range c.count).map c.index = (List.range' start (stop + 1 - start)).map Nat.cast) ∧
        (length ≤ stop → r.compile length = Outcome.reject (.rangeOutOfBounds start stop length))) ∧
    (∀ r c, ofHalfOpen start stop = .ok r → r.compile length = .ok c →
      start < stop ∧ (List.range c.count).map c.index = (List.range' start (stop - start)).map Nat.cast) ∧
    (∀ r c, ofClosed start stop = .ok r → r.compile length = .ok c →
      start ≤ stop ∧
        (List.range c.count).map c.index = (List.range' start (stop + 1 - start)).map Nat.cast) := by
  have halfOpen := ofHalfOpen_eq start stop
  have closed := ofClosed_eq start stop
  have halfSelects : start < stop → ((stop - 1 : Nat) : Int) ≤ Word.signedMax →
      ofHalfOpen start stop = .ok ⟨start, (stop - 1 : Nat), 1⟩ ∧
        (stop ≤ length → ∃ c, (⟨start, (stop - 1 : Nat), 1⟩ : Range).compile length = .ok c ∧
          (List.range c.count).map c.index = (List.range' start (stop - start)).map Nat.cast) ∧
        (length < stop → (⟨start, (stop - 1 : Nat), 1⟩ : Range).compile length =
          Outcome.reject (.rangeOutOfBounds start (stop - 1 : Nat) length)) := by
    intro nonempty fits
    obtain ⟨inside, outside⟩ := @compile_unit_step start (stop - 1) length small (by omega)
    refine ⟨by rw [halfOpen, if_neg (by omega), if_neg (not_lt.mpr fits)], fun held => ?_,
      fun short => outside (by omega)⟩
    obtain ⟨c, compiled, selected⟩ := inside (by omega)
    exact ⟨c, compiled, by rw [selected, Nat.sub_add_cancel (by omega)]⟩
  have closedSelects : start ≤ stop → (stop : Int) ≤ Word.signedMax →
      ofClosed start stop = .ok ⟨start, stop, 1⟩ ∧
        (stop < length → ∃ c, (⟨start, stop, 1⟩ : Range).compile length = .ok c ∧
          (List.range c.count).map c.index = (List.range' start (stop + 1 - start)).map Nat.cast) ∧
        (length ≤ stop → (⟨start, stop, 1⟩ : Range).compile length =
          Outcome.reject (.rangeOutOfBounds start stop length)) := by
    intro nonempty fits
    obtain ⟨inside, outside⟩ := @compile_unit_step start stop length small nonempty
    exact ⟨by rw [closed, if_neg (by omega), if_neg (not_lt.mpr fits)], inside, outside⟩
  refine ⟨?_, fun nonempty => ?_, fun nonempty fits => ?_, ?_, fun nonempty => ?_,
    fun nonempty fits => ?_, fun r c converted compiled => ?_, fun r c converted compiled => ?_⟩
  · constructor
    · intro refused
      by_contra nonempty
      rw [halfOpen, if_neg nonempty] at refused
      split_ifs at refused
      cases refused
    · intro empty
      rw [halfOpen, if_pos empty]
  · rw [halfOpen, if_neg (by omega)]
    constructor
    · intro refused
      by_contra fits
      rw [if_neg fits] at refused
      cases refused
    · intro beyond
      rw [if_pos beyond]
  · obtain ⟨converted, selects⟩ := halfSelects nonempty fits
    exact ⟨_, converted, selects⟩
  · constructor
    · intro refused
      by_contra nonempty
      rw [closed, if_neg nonempty] at refused
      split_ifs at refused
      cases refused
    · intro empty
      rw [closed, if_pos empty]
  · rw [closed, if_neg (by omega)]
    constructor
    · intro refused
      by_contra fits
      rw [if_neg fits] at refused
      cases refused
    · intro beyond
      rw [if_pos beyond]
  · obtain ⟨converted, selects⟩ := closedSelects nonempty fits
    exact ⟨_, converted, selects⟩
  · have nonempty : start < stop := by
      by_contra empty
      rw [halfOpen, if_pos (by omega)] at converted
      cases converted
    have fits : ((stop - 1 : Nat) : Int) ≤ Word.signedMax := by
      by_contra beyond
      rw [halfOpen, if_neg (by omega), if_pos (not_le.mp beyond)] at converted
      cases converted
    obtain ⟨converted', -, -⟩ := halfSelects nonempty fits
    obtain rfl := Except.ok.inj (converted.symm.trans converted')
    refine ⟨nonempty, ?_⟩
    rw [compile_unit_step_selects small (by omega) compiled, Nat.sub_add_cancel (by omega)]
  · have nonempty : start ≤ stop := by
      by_contra empty
      rw [closed, if_pos (by omega)] at converted
      cases converted
    have fits : (stop : Int) ≤ Word.signedMax := by
      by_contra beyond
      rw [closed, if_neg (by omega), if_pos (not_le.mp beyond)] at converted
      cases converted
    obtain ⟨converted', -, -⟩ := closedSelects nonempty fits
    obtain rfl := Except.ok.inj (converted.symm.trans converted')
    exact ⟨nonempty, compile_unit_step_selects small nonempty compiled⟩

/-- The half-open range `2..5` on an axis of six positions selects `2, 3, 4`. -/
theorem naturalRanges_compile_to_themselves_two_to_five :
    ((6 : Nat) : Int) ≤ Word.signedMax ∧
      ∃ r, ofHalfOpen 2 5 = .ok r ∧ ∃ c, r.compile 6 = .ok c ∧
        (List.range c.count).map c.index = [2, 3, 4] := by
  have small : ((6 : Nat) : Int) ≤ Word.signedMax := by decide
  obtain ⟨-, -, converts, -⟩ := naturalRanges_compile_to_themselves 2 5 6 small
  obtain ⟨r, converted, inside, -⟩ := converts (by decide) (by decide)
  obtain ⟨c, compiled, selected⟩ := inside (by decide)
  exact ⟨small, r, converted, c, compiled, by rw [selected]; rfl⟩

end Range

end StridedGrid
