import Mathlib
import StridedGrid.Proofs.Outcome
import StridedGrid.Boundary

/-!
# Resolving indices at a boundary

On a length that is a positive signed word every condition resolves every index, and each one
has a closed form (`resolve_clamp`, `resolve_periodic`, `resolve_mirror`): `clamp` is the
nearest end, `periodic` the Euclidean remainder, and `mirror` folds the distance from position
zero, `k = |index| mod 2·length`, back into the axis (`mirrorFold`).

The mirror fold is what sets the two edges apart. Folding the distance from zero makes the lower
edge a reflection about position zero (`-1` resolves to `1`), while the upper half of a period
counts back from `2·length - 1`, a reflection about `length - 1/2` (`length` resolves to
`length - 1`). Half a period later the fold is reversed (`mirrorFold_add_half`), which is what
`resolve_reversed` turns into the one law that holds on both sides: `clamp` and `periodic` look
the same from both edges, and `mirror` does only once the index moved past an edge is taken one
step further.

A table of shifted positions (`buildIndex`) first reserves a word per position, then resolves
`i + offset` for each position in order; the sum is a signed word before it is resolved, so a
window that runs past the greatest signed word stops with an overflow.
-/

namespace StridedGrid

namespace Outcome

variable {α β : Type}

/-- A mapping whose every step answers gives the list of the answers. -/
theorem mapM_eq_ok_of_forall {f : α → Outcome β} :
    ∀ {xs : List α}, (∀ x ∈ xs, ∃ y, f x = .ok y) →
      ∃ ys, xs.mapM f = .ok ys ∧ List.Forall₂ (fun x y => f x = .ok y) xs ys
  | [], _ => ⟨[], rfl, .nil⟩
  | x :: xs, answers => by
    obtain ⟨y, first⟩ := answers x (by simp)
    have restAnswers : ∀ x' ∈ xs, ∃ y, f x' = .ok y := fun x' mem =>
      answers x' (List.mem_cons_of_mem x mem)
    obtain ⟨ys, rest, related⟩ := mapM_eq_ok_of_forall restAnswers
    exact ⟨y :: ys, mapM_eq_ok_iff.mpr (.cons first related), .cons first related⟩

/-- A mapping whose steps either answer or stop with one panic, and one of which stops, stops
with that panic. -/
theorem mapM_eq_panic_of_exists {f : α → Outcome β} {p : Panic} :
    ∀ {xs : List α}, (∀ x ∈ xs, (∃ y, f x = .ok y) ∨ f x = panic p) →
      (∃ x ∈ xs, f x = panic p) → xs.mapM f = panic p
  | [], _, ⟨_, mem, _⟩ => by simp at mem
  | x :: xs, each, ⟨bad, mem, stops⟩ => by
    rw [List.mapM_cons]
    rcases each x (by simp) with ⟨y, first⟩ | first
    · have later : bad ∈ xs := by
        rcases List.mem_cons.mp mem with rfl | later
        · rw [first] at stops
          cases stops
        · exact later
      rw [first, ok_bind, mapM_eq_panic_of_exists (fun x' mem' => each x' (by simp [mem']))
        ⟨bad, later, stops⟩, panic_bind]
    · rw [first, panic_bind]

@[simp]
theorem map_ok (f : α → β) (a : α) : f <$> (Except.ok a : Outcome α) = .ok (f a) := rfl

end Outcome

namespace Boundary

variable {length : Nat}

/-- A length that is a signed word reads as itself. -/
theorem wrapSigned_length (small : (length : Int) ≤ Word.signedMax) :
    Word.wrapSigned length = length :=
  Word.wrapSigned_of_isSigned _ ⟨by unfold Word.signedMin; omega, small⟩

/-- The mirror fold of a distance `k` from position zero: its remainder modulo the period
`2 * length`, counted back from the end of the period in the upper half. -/
def mirrorFold (length k : Nat) : Nat :=
  if length ≤ k % (2 * length) then 2 * length - 1 - k % (2 * length) else k % (2 * length)

theorem mirrorFold_lt (pos : 0 < length) (k : Nat) : mirrorFold length k < length := by
  have below : k % (2 * length) < 2 * length := Nat.mod_lt _ (by omega)
  unfold mirrorFold
  split <;> omega

theorem mirrorFold_of_lt {k : Nat} (inside : k < length) : mirrorFold length k = k := by
  have small : k % (2 * length) = k := Nat.mod_eq_of_lt (by omega)
  simp [mirrorFold, small, Nat.not_le.mpr inside]

@[simp]
theorem mirrorFold_add_period (k : Nat) : mirrorFold length (k + 2 * length) = mirrorFold length k := by
  simp [mirrorFold]

/-- Half a period further the fold runs the other way. -/
theorem mirrorFold_add_half (pos : 0 < length) (k : Nat) :
    mirrorFold length (k + length) = length - 1 - mirrorFold length k := by
  have below : k % (2 * length) < 2 * length := Nat.mod_lt _ (by omega)
  have moved : (k + length) % (2 * length) =
      if k % (2 * length) < length then k % (2 * length) + length else k % (2 * length) - length := by
    rw [Nat.add_mod, Nat.mod_eq_of_lt (show length < 2 * length by omega)]
    split
    · exact Nat.mod_eq_of_lt (by omega)
    · rw [Nat.mod_eq_sub_mod (by omega), Nat.mod_eq_of_lt (by omega)]
      omega
  unfold mirrorFold
  by_cases lower : k % (2 * length) < length
  · rw [moved, if_pos lower, if_pos (by omega), if_neg (by omega)]
    omega
  · rw [moved, if_neg lower, if_neg (by omega), if_pos (by omega)]
    omega

theorem resolve_clamp (pos : 0 < length) (small : (length : Int) ≤ Word.signedMax) (index : Int) :
    clamp.resolve index length = .ok (max 0 (min index (length - 1))).toNat := by
  have top : Word.IsSigned ((length : Int) - 1) := ⟨by unfold Word.signedMin; omega, by omega⟩
  simp [resolve, pos.ne', wrapSigned_length small, Word.signed_of_isSigned top,
    show ¬((length : Int) - 1 < 0) by omega]

theorem resolve_periodic (pos : 0 < length) (small : (length : Int) ≤ Word.signedMax) (index : Int) :
    periodic.resolve index length = .ok (index % length).toNat := by
  simp [resolve, pos.ne', wrapSigned_length small]

theorem resolve_mirror (pos : 0 < length) (small : 2 * length < Word.unsignedCount) (index : Int) :
    mirror.resolve index length = .ok (mirrorFold length index.natAbs) := by
  have period : Word.unsigned (2 * (length : Int)) = .ok (2 * length) := by
    have fits : 2 * (length : Int) < Word.unsignedCount := by exact_mod_cast small
    unfold Word.unsigned
    rw [if_pos ⟨by omega, fits⟩, show (2 * (length : Int)).toNat = 2 * length by omega]
  simp [resolve, pos.ne', period, mirrorFold]

theorem resolve_mirror_of_signed (pos : 0 < length) (small : (length : Int) ≤ Word.signedMax)
    (index : Int) : mirror.resolve index length = .ok (mirrorFold length index.natAbs) :=
  resolve_mirror pos (by unfold Word.signedMax at small; unfold Word.unsignedCount; omega) index

/-- A mirror reads the same distance from position zero on both sides of it. -/
theorem mirror_resolve_neg (index : Int) (length : Nat) :
    mirror.resolve (-index) length = mirror.resolve index length := by
  simp [resolve, Int.natAbs_neg]

/-- A mirror repeats itself a period further up. -/
theorem mirror_resolve_add_period {index : Int} (nonneg : 0 ≤ index) (length : Nat) :
    mirror.resolve (index + 2 * length) length = mirror.resolve index length := by
  have distance : (index + 2 * (length : Int)).natAbs = index.natAbs + 2 * length := by omega
  unfold resolve
  split
  · rfl
  · cases period : Word.unsigned (2 * (length : Int)) with
    | error e => rfl
    | ok p =>
      have twice : p = 2 * length := by
        unfold Word.unsigned at period
        split at period
        · cases period
          omega
        · cases period
      subst twice
      simp [distance]

/-- Every condition resolves every index on a length that is a positive signed word, to a
position of the axis; an index on the axis is its own position. -/
theorem resolve_total (b : Boundary) (pos : 0 < length) (small : (length : Int) ≤ Word.signedMax)
    (index : Int) :
    ∃ r, b.resolve index length = .ok r ∧ r < length ∧
      (0 ≤ index → index < length → (r : Int) = index) := by
  cases b with
  | clamp => exact ⟨_, resolve_clamp pos small index, by omega, by omega⟩
  | periodic =>
    have low := Int.emod_nonneg index (show (length : Int) ≠ 0 by omega)
    have high := Int.emod_lt_of_pos index (show 0 < (length : Int) by omega)
    refine ⟨_, resolve_periodic pos small index, by omega, fun nonneg inside => ?_⟩
    rw [Int.toNat_of_nonneg low, Int.emod_eq_of_lt nonneg inside]
  | mirror =>
    refine ⟨_, resolve_mirror_of_signed pos small index, mirrorFold_lt pos _, fun nonneg inside => ?_⟩
    rw [mirrorFold_of_lt (by omega)]
    omega

/-- A length whose table of words can be reserved is a signed word. -/
theorem length_le_of_reserve (fits : length * Word.size ≤ Word.signedMax.toNat) :
    (length : Int) ≤ Word.signedMax := by
  unfold Word.size at fits
  unfold Word.signedMax at *
  omega

/-- An entry of a table is the resolved shifted position, once the shift is a signed word. -/
theorem entry_of_signed (b : Boundary) {i : Nat} {offset : Int} (inside : i < length)
    (small : (length : Int) ≤ Word.signedMax) (signed : Word.IsSigned (i + offset)) :
    (Word.signed (Word.wrapSigned i + offset) >>= (b.resolve · length)) = b.resolve (i + offset) length := by
  rw [Word.wrapSigned_of_isSigned _ ⟨by unfold Word.signedMin; omega, by omega⟩,
    Word.signed_of_isSigned signed, Outcome.ok_bind]

theorem entry_of_not_signed (b : Boundary) {i : Nat} {offset : Int} (inside : i < length)
    (small : (length : Int) ≤ Word.signedMax) (overflow : ¬Word.IsSigned (i + offset)) :
    (Word.signed (Word.wrapSigned i + offset) >>= (b.resolve · length)) = Outcome.panic .overflow := by
  rw [Word.wrapSigned_of_isSigned _ ⟨by unfold Word.signedMin; omega, by omega⟩,
    Word.signed_of_not_isSigned overflow, Outcome.panic_bind]

/-- A table whose words cannot be reserved is refused before any entry. -/
theorem buildIndex_of_capacity (b : Boundary) (offset : Int)
    (big : Word.signedMax.toNat < length * Word.size) :
    b.buildIndex length offset = Outcome.panic .capacityOverflow := by
  rw [buildIndex, Word.reserve_of_not_reservable (Nat.not_le.mpr big)]
  rfl

theorem buildIndex_of_reserve (b : Boundary) (offset : Int)
    (fits : length * Word.size ≤ Word.signedMax.toNat) :
    b.buildIndex length offset =
      (List.range length).mapM fun (i : Nat) =>
        Word.signed (Word.wrapSigned i + offset) >>= (b.resolve · length) := by
  rw [buildIndex, Word.reserve_of_reservable fits]
  rfl

/-- A table that is built had its words reserved. -/
theorem fits_of_buildIndex {b : Boundary} {offset : Int} {table : List Nat}
    (built : b.buildIndex length offset = .ok table) : length * Word.size ≤ Word.signedMax.toNat := by
  by_contra big
  rw [buildIndex_of_capacity b offset (Nat.lt_of_not_le big)] at built
  cases built

/-- A table that is built holds, at each position, the resolved shifted position. -/
theorem entries_of_buildIndex {b : Boundary} {offset : Int} {table : List Nat}
    (built : b.buildIndex length offset = .ok table) :
    table.length = length ∧ ∀ i (h : i < table.length), b.resolve (i + offset) length = .ok table[i] := by
  have fits := fits_of_buildIndex built
  have small := length_le_of_reserve fits
  rw [buildIndex_of_reserve b offset fits, Outcome.mapM_eq_ok_iff] at built
  have lengths : table.length = length := by simpa using built.length_eq.symm
  refine ⟨lengths, fun i below => ?_⟩
  have inside : i < length := lengths ▸ below
  have entry := built.get (by simpa using inside) below
  simp only [List.get_eq_getElem, List.getElem_range] at entry
  by_cases signed : Word.IsSigned (i + offset)
  · rwa [entry_of_signed b inside small signed] at entry
  · rw [entry_of_not_signed b inside small signed] at entry
    cases entry

/-- Every entry of a built table is a position of the axis. -/
theorem entry_lt_of_buildIndex {b : Boundary} {offset : Int} {table : List Nat}
    (built : b.buildIndex length offset = .ok table) (i : Nat) (h : i < table.length) :
    table[i] < length := by
  have small := length_le_of_reserve (fits_of_buildIndex built)
  obtain ⟨lengths, entries⟩ := entries_of_buildIndex built
  obtain ⟨r, resolved, bound, -⟩ := resolve_total b (by omega) small (i + offset)
  rw [entries i h, Except.ok.injEq] at resolved
  omega

/-- A table whose words can be reserved and whose window stays within the signed words is
built, one resolved position per position of the axis. -/
theorem buildIndex_eq_ok (b : Boundary) {offset : Int} (low : Word.signedMin ≤ offset)
    (fits : length * Word.size ≤ Word.signedMax.toNat)
    (high : ∀ i < length, (i : Int) + offset ≤ Word.signedMax) :
    ∃ table, b.buildIndex length offset = .ok table := by
  have small := length_le_of_reserve fits
  rw [buildIndex_of_reserve b offset fits]
  have answers : ∀ i ∈ List.range length,
      ∃ r, (Word.signed (Word.wrapSigned i + offset) >>= (b.resolve · length)) = .ok r := by
    intro i mem
    have inside := List.mem_range.mp mem
    rw [entry_of_signed b inside small ⟨by omega, high i inside⟩]
    obtain ⟨r, resolved, -⟩ := resolve_total b (by omega) small (i + offset)
    exact ⟨r, resolved⟩
  obtain ⟨table, built, -⟩ := Outcome.mapM_eq_ok_of_forall answers
  exact ⟨table, built⟩

/-- A window that runs past the greatest signed word stops with an overflow. -/
theorem buildIndex_of_overflow (b : Boundary) {offset : Int}
    (fits : length * Word.size ≤ Word.signedMax.toNat)
    (past : ∃ i < length, Word.signedMax < i + offset) :
    b.buildIndex length offset = Outcome.panic .overflow := by
  have small := length_le_of_reserve fits
  rw [buildIndex_of_reserve b offset fits]
  obtain ⟨last, inside, beyond⟩ := past
  refine Outcome.mapM_eq_panic_of_exists (fun i mem => ?_) ⟨last, List.mem_range.mpr inside, ?_⟩
  · have inside := List.mem_range.mp mem
    by_cases signed : Word.IsSigned (i + offset)
    · rw [entry_of_signed b inside small signed]
      obtain ⟨r, resolved, -⟩ := resolve_total b (by omega) small (i + offset)
      exact .inl ⟨r, resolved⟩
    · exact .inr (entry_of_not_signed b inside small signed)
  · exact entry_of_not_signed b inside small fun signed => by have := signed.2; omega

/-- Resolution is total and lands on the axis; a mirror is symmetric about zero and repeats with
period `2 * length`. A table of shifted positions is built exactly when its words can be reserved
and the window stays within the signed words. -/
theorem resolve_total_in_range (b : Boundary) {length : Nat} (small : (length : Int) ≤ Word.signedMax) :
    (0 < length → ∀ index : Int, ∃ r, b.resolve index length = .ok r ∧ r < length ∧
      (0 ≤ index → index < length → (r : Int) = index) ∧
      (b = .clamp → (r : Int) = min (max index 0) (length - 1)) ∧
      (b = .periodic → (r : Int) ≡ index [ZMOD length])) ∧
    (b = .mirror → ∀ index : Int, b.resolve (-index) length = b.resolve index length ∧
      (0 ≤ index → b.resolve (index + 2 * length) length = b.resolve index length)) ∧
    (∀ offset : Int, Word.IsSigned offset →
      (length * Word.size ≤ Word.signedMax.toNat → (∀ i < length, (i : Int) + offset ≤ Word.signedMax) →
        ∃ table, b.buildIndex length offset = .ok table ∧ table.length = length ∧
          ∀ i (h : i < table.length), b.resolve (i + offset) length = .ok table[i]) ∧
      (Word.signedMax.toNat < length * Word.size →
        b.buildIndex length offset = Outcome.panic .capacityOverflow) ∧
      (length * Word.size ≤ Word.signedMax.toNat → (∃ i < length, Word.signedMax < i + offset) →
        b.buildIndex length offset = Outcome.panic .overflow)) := by
  refine ⟨fun pos index => ?_, ?_, fun offset signed => ⟨fun fits high => ?_,
    buildIndex_of_capacity b offset, buildIndex_of_overflow b⟩⟩
  · obtain ⟨r, resolved, below, onAxis⟩ := resolve_total b pos small index
    refine ⟨r, resolved, below, onAxis, fun clamped => ?_, fun periodic => ?_⟩
    · subst clamped
      rw [resolve_clamp pos small, Except.ok.injEq] at resolved
      omega
    · subst periodic
      rw [resolve_periodic pos small, Except.ok.injEq] at resolved
      rw [← resolved, Int.toNat_of_nonneg (Int.emod_nonneg _ (by omega))]
      exact Int.mod_modEq index length
  · rintro rfl index
    exact ⟨mirror_resolve_neg index length, fun nonneg => mirror_resolve_add_period nonneg length⟩
  · obtain ⟨table, built⟩ := buildIndex_eq_ok b signed.1 fits high
    exact ⟨table, built, entries_of_buildIndex built⟩

theorem resolve_total_in_range_mirror_seven :
    ((7 : Nat) : Int) ≤ Word.signedMax ∧
      ∃ table, mirror.buildIndex 7 (-2) = .ok table ∧ table.length = 7 := by
  have small : ((7 : Nat) : Int) ≤ Word.signedMax := by decide
  obtain ⟨-, -, tables⟩ := resolve_total_in_range .mirror small
  obtain ⟨table, built, length, -⟩ := (tables (-2) (by decide)).1 (by decide) (by decide)
  exact ⟨small, table, built, length⟩

/-- A window of two positions from the greatest signed word overflows, and a table of `2^60`
words cannot be reserved: neither table is built. -/
theorem buildIndex_refuses_window_past_words :
    clamp.buildIndex 2 Word.signedMax = Outcome.panic .overflow ∧
      clamp.buildIndex (2 ^ 60) 0 = Outcome.panic .capacityOverflow := by
  decide

/-- A clamp reads the axis the same way from both ends. -/
theorem clamp_resolve_reversed (pos : 0 < length) (small : (length : Int) ≤ Word.signedMax)
    (index : Int) :
    clamp.resolve (length - 1 - index) length = (length - 1 - ·) <$> clamp.resolve index length := by
  rw [resolve_clamp pos small, resolve_clamp pos small, Outcome.map_ok]
  congr 1
  omega

/-- A periodic axis reads the same way from both ends. -/
theorem periodic_resolve_reversed (pos : 0 < length) (small : (length : Int) ≤ Word.signedMax)
    (index : Int) :
    periodic.resolve (length - 1 - index) length =
      (length - 1 - ·) <$> periodic.resolve index length := by
  have low := Int.emod_nonneg index (show (length : Int) ≠ 0 by omega)
  have high := Int.emod_lt_of_pos index (show 0 < (length : Int) by omega)
  -- the reflected index is the reflected remainder, a whole number of periods away
  have reflected : ((length : Int) - 1 - index) % length = length - 1 - index % length := by
    have whole := Int.emod_add_mul_ediv index length
    rw [show (length : Int) - 1 - index = (length - 1 - index % length) + length * -(index / length) by
        linarith,
      Int.add_mul_emod_self_left, Int.emod_eq_of_lt (by omega) (by omega)]
  rw [resolve_periodic pos small, resolve_periodic pos small, Outcome.map_ok, reflected]
  congr 1
  omega

theorem resolve_reversed_of_ne_mirror {b : Boundary} (symmetric : b ≠ .mirror) (pos : 0 < length)
    (small : (length : Int) ≤ Word.signedMax) (index : Int) :
    b.resolve (length - 1 - index) length = (length - 1 - ·) <$> b.resolve index length := by
  cases b with
  | clamp => exact clamp_resolve_reversed pos small index
  | periodic => exact periodic_resolve_reversed pos small index
  | mirror => exact absurd rfl symmetric

/-- On the axis a mirror reads the same way from both ends. -/
theorem mirror_resolve_reversed_inside (pos : 0 < length) (small : (length : Int) ≤ Word.signedMax)
    {index : Int} (nonneg : 0 ≤ index) (inside : index < length) :
    mirror.resolve (length - 1 - index) length = (length - 1 - ·) <$> mirror.resolve index length := by
  rw [resolve_mirror_of_signed pos small, resolve_mirror_of_signed pos small, Outcome.map_ok,
    mirrorFold_of_lt (by omega), mirrorFold_of_lt (by omega)]
  congr 1
  omega

/-- Off the axis a mirror reads the reflected index as it reads the next index from the other
end: the lower edge reflects about position zero and the upper edge about `length - 1/2`. -/
theorem mirror_resolve_reversed_outside (pos : 0 < length) (small : (length : Int) ≤ Word.signedMax)
    {index : Int} (outside : index < 0 ∨ length ≤ index) :
    mirror.resolve (length - 1 - index) length =
      (length - 1 - ·) <$> mirror.resolve (index + 1) length := by
  rw [resolve_mirror_of_signed pos small, resolve_mirror_of_signed pos small, Outcome.map_ok]
  congr 1
  rcases outside with below | above
  · rw [show ((length : Int) - 1 - index).natAbs = (index + 1).natAbs + length by omega,
      mirrorFold_add_half pos]
  · have bound := mirrorFold_lt pos ((length : Int) - 1 - index).natAbs
    rw [show (index + 1).natAbs = ((length : Int) - 1 - index).natAbs + length by omega,
      mirrorFold_add_half pos]
    omega

/-- Under a condition that reads both ends alike, the table of the reversed axis shifted the
other way, reversed back, is the table of the axis. -/
theorem buildIndex_reversed {b : Boundary} (symmetric : b ≠ .mirror) {offset : Int}
    {table reversed : List Nat} (built : b.buildIndex length offset = .ok table)
    (builtBack : b.buildIndex length (-offset) = .ok reversed) :
    table = (reversed.map (length - 1 - ·)).reverse := by
  have small := length_le_of_reserve (fits_of_buildIndex built)
  obtain ⟨lengths, entries⟩ := entries_of_buildIndex built
  obtain ⟨lengthsBack, entriesBack⟩ := entries_of_buildIndex builtBack
  apply List.ext_getElem (by simp [lengths, lengthsBack])
  intro i below _
  have inside : i < length := lengths ▸ below
  have forward := entries i below
  have back := entriesBack (length - 1 - i) (by omega)
  rw [show ((length - 1 - i : Nat) : Int) + -offset = length - 1 - (i + offset) by omega,
    resolve_reversed_of_ne_mirror symmetric (by omega) small, forward, Outcome.map_ok,
    Except.ok.injEq] at back
  have bound := entry_lt_of_buildIndex built i below
  rw [List.getElem_reverse, List.getElem_map]
  simp only [List.length_map, lengthsBack]
  rw [← back]
  omega

/-- `clamp` and `periodic` read an axis the same way from both ends, for single indices and for
whole tables of shifted positions; `mirror` does on the axis, and off it reads the reflected index
as it reads the next index from the other end. -/
theorem resolve_reversed (b : Boundary) {length : Nat} (pos : 0 < length)
    (small : (length : Int) ≤ Word.signedMax) (index : Int) :
    (b ≠ .mirror →
      b.resolve (length - 1 - index) length = (length - 1 - ·) <$> b.resolve index length) ∧
    (b ≠ .mirror → ∀ (offset : Int) (table reversed : List Nat),
      b.buildIndex length offset = .ok table → b.buildIndex length (-offset) = .ok reversed →
        table = (reversed.map (length - 1 - ·)).reverse) ∧
    (b = .mirror →
      (0 ≤ index → index < length →
        b.resolve (length - 1 - index) length = (length - 1 - ·) <$> b.resolve index length) ∧
      (index < 0 ∨ length ≤ index →
        b.resolve (length - 1 - index) length = (length - 1 - ·) <$> b.resolve (index + 1) length)) := by
  refine ⟨fun symmetric => resolve_reversed_of_ne_mirror symmetric pos small index,
    fun symmetric _ _ _ built builtBack => buildIndex_reversed symmetric built builtBack, ?_⟩
  rintro rfl
  exact ⟨mirror_resolve_reversed_inside pos small, fun outside =>
    mirror_resolve_reversed_outside pos small outside⟩

theorem resolve_reversed_mirror_past_end :
    0 < 5 ∧ ((5 : Nat) : Int) ≤ Word.signedMax ∧
      mirror.resolve (5 - 1 - 6) 5 = (5 - 1 - ·) <$> mirror.resolve (6 + 1) 5 := by
  have pos : 0 < 5 := by decide
  have small : ((5 : Nat) : Int) ≤ Word.signedMax := by decide
  exact ⟨pos, small, ((resolve_reversed .mirror pos small 6).2.2 rfl).2 (.inr (by decide))⟩

/-- A mirror of three positions reads `-1` as `1` but `3`, its reflection from the other end, as
`2` rather than `1`. -/
theorem mirror_reads_edges_unevenly :
    mirror.resolve (3 - 1 - (-1)) 3 ≠ (3 - 1 - ·) <$> mirror.resolve (-1) 3 := by
  decide

end Boundary

end StridedGrid
