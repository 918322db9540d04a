import Mathlib
import StridedGrid.Proofs.Box
import StridedGrid.Proofs.Outcome
import StridedGrid.Layout.Basic
import StridedGrid.Layout.Strides

/-!
# The interval a view touches

`Layout.validateView` widens the interval `[offset, offset]` axis by axis: an axis of extent
`d` moves the position by `stride * (d - 1)` in all, downwards when the stride is negative and
upwards otherwise. So the interval it computes is `[offset + reachBelow, offset + reachAbove]`,
the sums of the negative and of the positive moves, and every index of the box has its position
in it. Both ends are positions themselves, of the corners `lowCorner` and `highCorner` of the
box.

The two directions of the check are `validateView_ok` (what an accepted view satisfies) and
`validateView_eq_ok_of_positions` (a view whose positions all lie in the buffer and in a signed
word is accepted). Extents here are at least one and signed words, as the extents of a shape
are.
-/

namespace StridedGrid

namespace Layout

open Traversal

/-- How far below its offset a view reaches: the sum of its negative moves
`stride * (extent - 1)`. -/
def reachBelow : List Nat → List Int → Int
  | d :: dims, s :: strides => min 0 (s * ((d : Int) - 1)) + reachBelow dims strides
  | _, _ => 0

/-- How far above its offset a view reaches: the sum of its positive moves
`stride * (extent - 1)`. -/
def reachAbove : List Nat → List Int → Int
  | d :: dims, s :: strides => max 0 (s * ((d : Int) - 1)) + reachAbove dims strides
  | _, _ => 0

/-- Extents a view may have: each at least one and a signed word. -/
def ExtentsFit (dims : List Nat) : Prop := ∀ d ∈ dims, 0 < d ∧ (d : Int) ≤ Word.signedMax

theorem ExtentsFit.tail {d : Nat} {dims : List Nat} (fit : ExtentsFit (d :: dims)) :
    ExtentsFit dims :=
  fun e mem => fit e (by simp [mem])

theorem ExtentsFit.head {d : Nat} {dims : List Nat} (fit : ExtentsFit (d :: dims)) :
    0 < d ∧ (d : Int) ≤ Word.signedMax :=
  fit d (by simp)

theorem reachBelow_nonpos : ∀ (dims : List Nat) (strides : List Int), reachBelow dims strides ≤ 0
  | _ :: dims, _ :: strides => by
    have rest := reachBelow_nonpos dims strides
    simp only [reachBelow]
    omega
  | [], _ => le_refl 0
  | _ :: _, [] => le_refl 0

theorem reachAbove_nonneg : ∀ (dims : List Nat) (strides : List Int), 0 ≤ reachAbove dims strides
  | _ :: dims, _ :: strides => by
    have rest := reachAbove_nonneg dims strides
    simp only [reachAbove]
    omega
  | [], _ => le_refl 0
  | _ :: _, [] => le_refl 0

/-- An extent that is a signed word reaches `extent - 1` steps along its axis, with no panic. -/
theorem signed_reach {d : Nat} (positive : 0 < d) (small : (d : Int) ≤ Word.signedMax) :
    Word.signed (Word.wrapSigned d - 1) = .ok ((d : Int) - 1) := by
  have wordExtent : Word.wrapSigned d = d :=
    Word.wrapSigned_of_isSigned d (by unfold Word.IsSigned Word.signedMin at *; omega)
  rw [wordExtent, Word.signed_ok_iff]
  unfold Word.IsSigned Word.signedMin at *
  omega

/-- One axis widens the interval by its move, checking the end it moves. -/
theorem widen_eq_ok_iff {lo hi lo' hi' : Int} {d : Nat} {s : Int} (positive : 0 < d)
    (small : (d : Int) ≤ Word.signedMax) :
    widen (lo, hi) (d, s) = .ok (lo', hi') ↔
      (1 < d → Word.IsSigned (s * ((d : Int) - 1)) ∧
        (0 ≤ s * ((d : Int) - 1) → Word.IsSigned (hi + s * ((d : Int) - 1))) ∧
        (s * ((d : Int) - 1) < 0 → Word.IsSigned (lo + s * ((d : Int) - 1)))) ∧
      lo' = lo + min 0 (s * ((d : Int) - 1)) ∧ hi' = hi + max 0 (s * ((d : Int) - 1)) := by
  by_cases several : 1 < d
  · simp only [widen, gt_iff_lt, several, if_true]
    rw [signed_reach positive small, Outcome.ok_bind]
    generalize s * ((d : Int) - 1) = move
    by_cases signedMove : Word.IsSigned move
    · by_cases up : 0 ≤ move
      · by_cases fits : Word.IsSigned (hi + move)
        · simp [signedMove, up, fits, pure, Except.pure]
          omega
        · simp [signedMove, up, fits, Outcome.reject]
      · by_cases fits : Word.IsSigned (lo + move)
        · simp [signedMove, up, fits, pure, Except.pure]
          omega
        · simp [signedMove, up, fits, Outcome.reject]
    · simp [signedMove, Outcome.reject]
  · have single : d = 1 := by omega
    subst single
    simp [widen, pure, Except.pure]
    omega

/-- What an accepted fold of `widen` computes: the interval widened by the two reaches, still
made of signed words. -/
theorem foldlM_widen_eq_ok :
    ∀ {dims : List Nat} {strides : List Int} {lo hi lo' hi' : Int}, ExtentsFit dims →
      Word.IsSigned lo → Word.IsSigned hi →
      (dims.zip strides).foldlM widen (lo, hi) = .ok (lo', hi') →
      lo' = lo + reachBelow dims strides ∧ hi' = hi + reachAbove dims strides ∧
        Word.IsSigned lo' ∧ Word.IsSigned hi'
  | [], _, _, _, _, _, _, signedLo, signedHi, accepted => by
    simp only [List.zip_nil_left, List.foldlM_nil, pure, Except.pure, Except.ok.injEq,
      Prod.mk.injEq] at accepted
    obtain ⟨rfl, rfl⟩ := accepted
    simp [reachBelow, reachAbove, signedLo, signedHi]
  | _ :: _, [], _, _, _, _, _, signedLo, signedHi, accepted => by
    simp only [List.zip_nil_right, List.foldlM_nil, pure, Except.pure, Except.ok.injEq,
      Prod.mk.injEq] at accepted
    obtain ⟨rfl, rfl⟩ := accepted
    simp [reachBelow, reachAbove, signedLo, signedHi]
  | d :: dims, s :: strides, lo, hi, lo', hi', fit, signedLo, signedHi, accepted => by
    rw [List.zip_cons_cons, List.foldlM_cons] at accepted
    cases widened : widen (lo, hi) (d, s) with
    | error e => simp [widened] at accepted
    | ok bounds =>
      obtain ⟨mid, mid'⟩ := bounds
      simp only [widened, Outcome.ok_bind] at accepted
      obtain ⟨checks, rfl, rfl⟩ := (widen_eq_ok_iff fit.head.1 fit.head.2).mp widened
      have signedMid : Word.IsSigned (lo + min 0 (s * ((d : Int) - 1))) ∧
          Word.IsSigned (hi + max 0 (s * ((d : Int) - 1))) := by
        by_cases several : 1 < d
        · obtain ⟨_, up, down⟩ := checks several
          by_cases positive : 0 ≤ s * ((d : Int) - 1)
          · have := up positive
            constructor <;> (unfold Word.IsSigned at *; omega)
          · have := down (by omega)
            constructor <;> (unfold Word.IsSigned at *; omega)
        · have flat : (d : Int) - 1 = 0 := by have := fit.head.1; omega
          simp [flat, signedLo, signedHi]
      obtain ⟨rfl, rfl, signedLo', signedHi'⟩ :=
        foldlM_widen_eq_ok fit.tail signedMid.1 signedMid.2 accepted
      refine ⟨?_, ?_, signedLo', signedHi'⟩ <;> simp only [reachBelow, reachAbove, add_assoc]

/-- A fold of `widen` that stays inside `[0, signedMax]` is accepted. -/
theorem foldlM_widen_eq_ok_of_within :
    ∀ {dims : List Nat} {strides : List Int} {lo hi : Int}, ExtentsFit dims →
      0 ≤ lo + reachBelow dims strides → lo ≤ hi →
      hi + reachAbove dims strides ≤ Word.signedMax →
      (dims.zip strides).foldlM widen (lo, hi) =
        .ok (lo + reachBelow dims strides, hi + reachAbove dims strides)
  | [], _, _, _, _, _, _, _ => by simp [reachBelow, reachAbove, pure, Except.pure]
  | _ :: _, [], _, _, _, _, _, _ => by simp [reachBelow, reachAbove, pure, Except.pure]
  | d :: dims, s :: strides, lo, hi, fit, aboveZero, ordered, belowMax => by
    have restBelow := reachBelow_nonpos dims strides
    have restAbove := reachAbove_nonneg dims strides
    simp only [reachBelow, reachAbove] at aboveZero belowMax
    have widened : widen (lo, hi) (d, s) =
        .ok (lo + min 0 (s * ((d : Int) - 1)), hi + max 0 (s * ((d : Int) - 1))) := by
      rw [widen_eq_ok_iff fit.head.1 fit.head.2]
      refine ⟨fun _ => ⟨?_, fun _ => ?_, fun _ => ?_⟩, rfl, rfl⟩ <;>
        (unfold Word.IsSigned Word.signedMin Word.signedMax at *; omega)
    rw [List.zip_cons_cons, List.foldlM_cons, widened, Outcome.ok_bind,
      foldlM_widen_eq_ok_of_within fit.tail (by omega) (by omega) (by omega)]
    simp only [reachBelow, reachAbove, add_assoc]

/-- Every index of the box lies between the two reaches. -/
theorem weighted_mem_reach :
    ∀ {dims index : List Nat} (strides : List Int), InBox dims index →
      reachBelow dims strides ≤ Extent.weighted index strides ∧
        Extent.weighted index strides ≤ reachAbove dims strides
  | [], _, _, inBox => by
    rw [inBox_nil_iff.mp inBox]
    simp [reachBelow, reachAbove]
  | _ :: _, [], _, inBox => absurd inBox inBox_cons_nil
  | _ :: _, _ :: _, [], _ => by simp [reachBelow, reachAbove]
  | d :: dims, i :: index, s :: strides, inBox => by
    rw [inBox_cons_cons] at inBox
    obtain ⟨rest, rest'⟩ := weighted_mem_reach strides inBox.2
    have below : (i : Int) ≤ (d : Int) - 1 := by omega
    have low : min 0 (s * ((d : Int) - 1)) ≤ (i : Int) * s := by
      rcases le_or_gt 0 s with nonneg | neg
      · have := mul_nonneg (Int.natCast_nonneg i) nonneg
        omega
      · have := mul_le_mul_of_nonpos_right below neg.le
        rw [mul_comm s] at *
        omega
    have high : (i : Int) * s ≤ max 0 (s * ((d : Int) - 1)) := by
      rcases le_or_gt 0 s with nonneg | neg
      · have := mul_le_mul_of_nonneg_right below nonneg
        rw [mul_comm s] at *
        omega
      · have := mul_nonpos_of_nonneg_of_nonpos (Int.natCast_nonneg i) neg.le
        omega
    simp only [reachBelow, reachAbove, weighted_cons_cons]
    omega

/-- The corner of the box at the lowest position: the last value along axes of negative
stride, the first along the others. -/
def lowCorner : List Nat → List Int → List Nat
  | d :: dims, s :: strides => (if s < 0 then d - 1 else 0) :: lowCorner dims strides
  | _, _ => []

/-- The corner of the box at the highest position: the last value along axes of positive
stride, the first along the others. -/
def highCorner : List Nat → List Int → List Nat
  | d :: dims, s :: strides => (if 0 < s then d - 1 else 0) :: highCorner dims strides
  | _, _ => []

theorem lowCorner_inBox :
    ∀ {dims : List Nat} {strides : List Int}, ExtentsFit dims →
      dims.length = strides.length → InBox dims (lowCorner dims strides)
  | [], [], _, _ => by simp [lowCorner]
  | d :: dims, s :: strides, fit, lengths => by
    have := fit.head.1
    simp only [lowCorner, inBox_cons_cons]
    exact ⟨by split <;> omega, lowCorner_inBox fit.tail (by simpa using lengths)⟩

theorem highCorner_inBox :
    ∀ {dims : List Nat} {strides : List Int}, ExtentsFit dims →
      dims.length = strides.length → InBox dims (highCorner dims strides)
  | [], [], _, _ => by simp [highCorner]
  | d :: dims, s :: strides, fit, lengths => by
    have := fit.head.1
    simp only [highCorner, inBox_cons_cons]
    exact ⟨by split <;> omega, highCorner_inBox fit.tail (by simpa using lengths)⟩

theorem weighted_lowCorner :
    ∀ {dims : List Nat} (strides : List Int), ExtentsFit dims →
      Extent.weighted (lowCorner dims strides) strides = reachBelow dims strides
  | [], _, _ => by simp [lowCorner, reachBelow]
  | _ :: _, [], _ => by simp [lowCorner, reachBelow]
  | d :: dims, s :: strides, fit => by
    have positive := fit.head.1
    simp only [lowCorner, reachBelow, weighted_cons_cons, weighted_lowCorner strides fit.tail]
    congr 1
    split
    · have := mul_le_mul_of_nonpos_left (show (0 : Int) ≤ (d : Int) - 1 by omega) (by omega : s ≤ 0)
      push_cast [Nat.cast_sub positive]
      rw [mul_comm]
      omega
    · have := mul_nonneg (show (0 : Int) ≤ s by omega) (show (0 : Int) ≤ (d : Int) - 1 by omega)
      simp only [Nat.cast_zero, zero_mul]
      omega

theorem weighted_highCorner :
    ∀ {dims : List Nat} (strides : List Int), ExtentsFit dims →
      Extent.weighted (highCorner dims strides) strides = reachAbove dims strides
  | [], _, _ => by simp [highCorner, reachAbove]
  | _ :: _, [], _ => by simp [highCorner, reachAbove]
  | d :: dims, s :: strides, fit => by
    have positive := fit.head.1
    simp only [highCorner, reachAbove, weighted_cons_cons, weighted_highCorner strides fit.tail]
    congr 1
    split
    · have := mul_nonneg (show (0 : Int) ≤ s by omega) (show (0 : Int) ≤ (d : Int) - 1 by omega)
      push_cast [Nat.cast_sub positive]
      rw [mul_comm]
      omega
    · have := mul_le_mul_of_nonpos_left (show (0 : Int) ≤ (d : Int) - 1 by omega) (by omega : s ≤ 0)
      simp only [Nat.cast_zero, zero_mul]
      omega

/-- An accepted view keeps every index of its box inside the buffer, at a signed position,
and reports the storage order of its strides. -/
theorem validateView_ok {bufferLen : Nat} {dims : List Nat} {strides : List Int} {offset : Int}
    {order : Order} (fit : ExtentsFit dims) (signedOffset : Word.IsSigned offset)
    (accepted : validateView bufferLen dims strides offset = .ok order) :
    dims.length = strides.length ∧ order = classifyOrder dims strides ∧
      ∀ index, InBox dims index →
        0 ≤ position offset strides index ∧ position offset strides index < bufferLen ∧
          Word.IsSigned (position offset strides index) := by
  unfold validateView at accepted
  split at accepted
  · simp [Outcome.reject] at accepted
  · rename_i lengths
    cases interval : touchedInterval dims strides offset with
    | error e => simp [interval] at accepted
    | ok bounds =>
      obtain ⟨lo, hi⟩ := bounds
      simp only [interval, Outcome.ok_bind] at accepted
      split at accepted
      · simp [Outcome.reject] at accepted
      · rename_i inside
        simp only [pure, Except.pure, Except.ok.injEq] at accepted
        obtain ⟨rfl, rfl, signedLo, signedHi⟩ :=
          foldlM_widen_eq_ok fit signedOffset signedOffset interval
        refine ⟨not_not.mp lengths, accepted.symm, fun index inBox => ?_⟩
        obtain ⟨low, high⟩ := weighted_mem_reach strides inBox
        unfold position
        unfold Word.IsSigned at *
        omega

/-- A view whose every position lies in the buffer and in a signed word is accepted. -/
theorem validateView_eq_ok_of_positions {bufferLen : Nat} {dims : List Nat}
    {strides : List Int} {offset : Int} (fit : ExtentsFit dims)
    (lengths : dims.length = strides.length)
    (inside : ∀ index, InBox dims index →
      0 ≤ position offset strides index ∧ position offset strides index < bufferLen ∧
        position offset strides index ≤ Word.signedMax) :
    validateView bufferLen dims strides offset = .ok (classifyOrder dims strides) := by
  obtain ⟨lowNonneg, -, -⟩ := inside _ (lowCorner_inBox fit lengths)
  obtain ⟨-, highInside, highSmall⟩ := inside _ (highCorner_inBox fit lengths)
  rw [position, weighted_lowCorner strides fit] at lowNonneg
  rw [position, weighted_highCorner strides fit] at highInside highSmall
  have within := foldlM_widen_eq_ok_of_within fit lowNonneg (le_refl offset)
    highSmall
  have belowNonpos := reachBelow_nonpos dims strides
  have aboveNonneg := reachAbove_nonneg dims strides
  unfold validateView touchedInterval
  simp only [lengths, ne_eq, not_true_eq_false, if_false, within, Outcome.ok_bind]
  have : ¬(offset + reachBelow dims strides < 0 ∨ offset + reachAbove dims strides < 0 ∨
      offset + reachAbove dims strides ≥ bufferLen) := by omega
  simp [this, pure, Except.pure]

/-! ## Refusals -/

/-- One axis refuses only with an overflow of the bounds, never with a panic. -/
theorem widen_eq_error {bounds : Int × Int} {d : Nat} {s : Int} {fault : Fault} (positive : 0 < d)
    (small : (d : Int) ≤ Word.signedMax) (refused : widen bounds (d, s) = .error fault) :
    fault = .error .offsetOverflow := by
  obtain ⟨lo, hi⟩ := bounds
  by_cases several : 1 < d
  · simp only [widen, gt_iff_lt, several, if_true] at refused
    rw [signed_reach positive small, Outcome.ok_bind] at refused
    split_ifs at refused <;> first
      | (simp only [Outcome.reject, Except.error.injEq] at refused; exact refused.symm)
      | cases refused
  · simp [widen, several] at refused

/-- The interval a view touches is refused only with an overflow of its bounds. -/
theorem foldlM_widen_eq_error :
    ∀ {dims : List Nat} {strides : List Int} {bounds : Int × Int} {fault : Fault}, ExtentsFit dims →
      (dims.zip strides).foldlM widen bounds = .error fault → fault = .error .offsetOverflow
  | [], _, _, _, _, refused => by cases refused
  | _ :: _, [], _, _, _, refused => by cases refused
  | d :: dims, s :: strides, bounds, fault, fit, refused => by
    rw [List.zip_cons_cons, List.foldlM_cons] at refused
    cases widened : widen bounds (d, s) with
    | error e =>
      rw [widened] at refused
      cases refused
      exact widen_eq_error fit.head.1 fit.head.2 widened
    | ok bounds' =>
      rw [widened, Outcome.ok_bind] at refused
      exact foldlM_widen_eq_error fit.tail refused

/-- Strides of another length than the extents are refused before anything else is looked at. -/
theorem validateView_of_length_ne {bufferLen : Nat} {dims : List Nat} {strides : List Int}
    {offset : Int} (differ : dims.length ≠ strides.length) :
    validateView bufferLen dims strides offset = Outcome.reject .strideLengthMismatch := by
  simp [validateView, differ]

/-- What a refusal can be: a length mismatch, exactly when the lengths differ; an overflow of the
bounds; or a view that leaves the buffer, reported with its bounds and the buffer's length. -/
theorem validateView_eq_error {bufferLen : Nat} {dims : List Nat} {strides : List Int}
    {offset : Int} {fault : Fault} (fit : ExtentsFit dims)
    (refused : validateView bufferLen dims strides offset = .error fault) :
    (fault = .error .strideLengthMismatch ∧ dims.length ≠ strides.length) ∨
      fault = .error .offsetOverflow ∨ ∃ lo hi, fault = .error (.viewOutOfBounds lo hi bufferLen) := by
  unfold validateView at refused
  split at refused
  · rename_i differ
    simp only [Outcome.reject, Except.error.injEq] at refused
    exact .inl ⟨refused.symm, differ⟩
  · cases interval : touchedInterval dims strides offset with
    | error e =>
      rw [interval] at refused
      cases refused
      exact .inr (.inl (foldlM_widen_eq_error fit interval))
    | ok bounds =>
      obtain ⟨lo, hi⟩ := bounds
      rw [interval, Outcome.ok_bind] at refused
      dsimp only at refused
      split at refused
      · simp only [Outcome.reject, Except.error.injEq] at refused
        exact .inr (.inr ⟨lo, hi, refused.symm⟩)
      · cases refused

/-- The check of a view is exact: a view is accepted, with the storage order of its strides,
exactly when it has one stride per axis and every index of its box lies in the buffer. A refusal
is never a panic. -/
theorem validateView_exact {bufferLen : Nat} {dims : List Nat} {strides : List Int} {offset : Int}
    (bounded : (bufferLen : Int) ≤ Word.signedMax) (fit : ExtentsFit dims)
    (signedOffset : Word.IsSigned offset) :
    (∀ order, validateView bufferLen dims strides offset = .ok order ↔
      dims.length = strides.length ∧
        (∀ index, InBox dims index →
          0 ≤ position offset strides index ∧ position offset strides index < bufferLen) ∧
        order = classifyOrder dims strides) ∧
    (∀ fault, validateView bufferLen dims strides offset = .error fault →
      fault = .error .strideLengthMismatch ∨ fault = .error .offsetOverflow ∨
        ∃ lo hi, fault = .error (.viewOutOfBounds lo hi bufferLen)) ∧
    (validateView bufferLen dims strides offset = Outcome.reject .strideLengthMismatch ↔
      dims.length ≠ strides.length) := by
  refine ⟨fun order => ⟨fun accepted => ?_, fun ⟨lengths, inside, classified⟩ => ?_⟩,
    fun fault refused => ?_, ⟨fun refused => ?_, validateView_of_length_ne⟩⟩
  · obtain ⟨lengths, classified, inside⟩ := validateView_ok fit signedOffset accepted
    exact ⟨lengths, fun index inBox => ⟨(inside index inBox).1, (inside index inBox).2.1⟩,
      classified⟩
  · rw [classified]
    exact validateView_eq_ok_of_positions fit lengths fun index inBox =>
      ⟨(inside index inBox).1, (inside index inBox).2, by have := (inside index inBox).2; omega⟩
  · rcases validateView_eq_error fit refused with ⟨mismatch, -⟩ | overflow | outside
    · exact .inl mismatch
    · exact .inr (.inl overflow)
    · exact .inr (.inr outside)
  · have mismatch : validateView bufferLen dims strides offset =
        .error (.error .strideLengthMismatch) := refused
    rcases validateView_eq_error fit mismatch with ⟨-, differ⟩ | overflow | ⟨lo, hi, outside⟩
    · exact differ
    · cases overflow
    · cases outside

/-- The reversed columns of a dense 3 × 4 buffer, read from offset 9 with stride `-3`, keep every
index inside the buffer: the check accepts them. -/
theorem validateView_exact_reversed_columns :
    ((12 : Nat) : Int) ≤ Word.signedMax ∧ ExtentsFit [3, 4] ∧ Word.IsSigned 9 ∧
      ∀ index, InBox [3, 4] index →
        0 ≤ position 9 [1, -3] index ∧ position 9 [1, -3] index < (12 : Nat) := by
  have bounded : ((12 : Nat) : Int) ≤ Word.signedMax := by decide
  have fit : ExtentsFit [3, 4] := by
    intro d mem
    simp only [List.mem_cons, List.not_mem_nil, or_false] at mem
    rcases mem with rfl | rfl <;> decide
  have signed : Word.IsSigned 9 := by decide
  have checked : validateView 12 [3, 4] [1, -3] 9 = .ok .columnMajor := rfl
  have accepted := ((validateView_exact bounded fit signed).1 .columnMajor).mp checked
  exact ⟨bounded, fit, signed, accepted.2.1⟩

end Layout

end StridedGrid
