import Mathlib
import StridedGrid.Proofs.LoopOrder
import StridedGrid.Traversal.LoopNest

/-!
# Planning a loop nest

A nest of loops visits, for each index of its loops' box (the first loop fastest), every
operand's position at that index (`LoopNest.calls`). Planning changes the loops but not that
list. Starting from one loop per axis in loop order (`LoopNest.ofAxes`):

* an axis of extent one contributes coordinate zero only, so dropping it changes nothing
  (`calls_ofAxes_filter`);
* an axis that continues the last loop for every operand, its stride being that loop's stride
  times its extent, runs through the positions of one longer loop (`calls_fuse`): coordinate
  `i` of the loop and `j` of the axis give the same positions as coordinate `i + E * j` of the
  loop widened `e` times.

Both are read off one decomposition of a box by its outermost loop (`calls_snoc`). The fold of
`LoopNest.plan` keeps the invariant `Planned`: the loops built so far visit what the axes taken
so far visit, unfused. That invariant also bounds the products the plan computes: the stride of
the last loop times its extent is the stride times the extent of the last axis it took, so the
test that fuses an axis overflows only if a span of the view does. A plan over positive extents
whose product and spans are signed words therefore succeeds, with a nest that is `Faithful` to
one loop per axis of the loop order (`plan_eq_some`).
-/

namespace StridedGrid

theorem Extent.count_eq_prod (dims : List Nat) : Extent.count dims = dims.prod := rfl

namespace Traversal

/-- The operands' positions at an index of loops, each operand given by its offset and its
strides along the loops. -/
def positionsAt (offsets : List Int) (strides : List (List Int)) (index : List Nat) :
    List Int :=
  List.zipWith (fun offset s => position offset s index) offsets strides

/-- Each operand's strides with one more loop outside the others. -/
def pushLoop (strides : List (List Int)) (axisStrides : List Int) : List (List Int) :=
  List.zipWith (fun acc s => acc ++ [s]) strides axisStrides

/-- Each operand's offset moved `j` steps of its stride. -/
def shiftOffsets (offsets axisStrides : List Int) (j : Nat) : List Int :=
  List.zipWith (fun offset s => offset + j * s) offsets axisStrides

namespace LoopNest

/-- What a walk of the nest visits, in closed form: the operands' positions at every index of
the box of its loops, the first loop fastest. -/
def calls (nest : LoopNest) : List (List Int) :=
  (odometer nest.dims).map (positionsAt nest.offsets nest.strides)

/-- The nest of one loop per axis, in the given order, neither dropped nor fused. -/
def ofAxes (dims : List Nat) (operands : List (Int × List Int)) (axes : List Nat) : LoopNest :=
  ⟨axes.map (dims.getD · 0), operands.map fun op => axes.map (op.2.getD · 0),
    operands.map Prod.fst⟩

end LoopNest

/-! ## The outermost loop -/

theorem odometer_append_singleton (dims : List Nat) (e : Nat) :
    odometer (dims ++ [e]) = (List.range e).flatMap fun j => (odometer dims).map (· ++ [j]) := by
  induction dims with
  | nil => simp [odometer, List.map_eq_flatMap]
  | cons d rest ih =>
    simp only [List.cons_append, odometer, ih, List.flatMap_assoc, List.flatMap_map,
      List.map_flatMap, List.map_map]
    rfl

theorem weighted_append_singleton : ∀ {index : List Nat} {strides : List Int} (j : Nat) (t : Int),
    index.length = strides.length →
      Extent.weighted (index ++ [j]) (strides ++ [t]) = Extent.weighted index strides + j * t
  | [], [], j, t, _ => by simp [Extent.weighted]
  | [], _ :: _, _, _, lengths => by simp at lengths
  | _ :: _, [], _, _, lengths => by simp at lengths
  | i :: index, s :: strides, j, t, lengths => by
    simp only [List.cons_append, weighted_cons_cons,
      weighted_append_singleton j t (by simpa using lengths)]
    ring

theorem position_append_singleton {offset t : Int} {strides : List Int} {index : List Nat}
    (j : Nat) (lengths : index.length = strides.length) :
    position offset (strides ++ [t]) (index ++ [j]) = position (offset + j * t) strides index := by
  simp only [position, weighted_append_singleton j t lengths]
  ring

theorem positionsAt_pushLoop {index : List Nat} (j : Nat) :
    ∀ {offsets axisStrides : List Int} {strides : List (List Int)},
      (∀ s ∈ strides, s.length = index.length) →
      positionsAt offsets (pushLoop strides axisStrides) (index ++ [j]) =
        positionsAt (shiftOffsets offsets axisStrides j) strides index
  | offset :: offsets, t :: axisStrides, s :: strides, lengths => by
    have rest : positionsAt offsets (pushLoop strides axisStrides) (index ++ [j]) =
        positionsAt (shiftOffsets offsets axisStrides j) strides index :=
      positionsAt_pushLoop j fun s' mem => lengths s' (List.mem_cons_of_mem _ mem)
    simp only [positionsAt, pushLoop, shiftOffsets, List.zipWith_cons_cons] at rest ⊢
    rw [position_append_singleton j (lengths s (by simp)).symm, rest]
  | [], _, _, _ => rfl
  | _ :: _, [], _, _ => by simp [positionsAt, pushLoop, shiftOffsets]
  | _ :: _, _ :: _, [], _ => rfl

/-- Giving every operand one more stride makes their strides one longer. -/
theorem length_of_mem_zipWith {n : Nat} {f : List Int → Int → List Int}
    (grows : ∀ acc s, (f acc s).length = acc.length + 1) {strides : List (List Int)}
    {axisStrides : List Int} (lengths : ∀ s ∈ strides, s.length = n) :
    ∀ s ∈ List.zipWith f strides axisStrides, s.length = n + 1 := by
  intro s mem
  obtain ⟨i, below, rfl⟩ := List.mem_iff_getElem.mp mem
  rw [List.getElem_zipWith, grows, lengths _ (List.getElem_mem _)]

/-- Moving `j` steps of strides `t * E`, then `i` steps of `t`, is moving `i + E * j` steps
of `t`. -/
theorem shiftOffsets_fuse {E : Nat} {t axisStrides : List Int}
    (continues : List.Forall₂ (fun (ti s : Int) => ti * E = s) t axisStrides) (offsets : List Int)
    (i j : Nat) :
    shiftOffsets (shiftOffsets offsets axisStrides j) t i = shiftOffsets offsets t (i + E * j) := by
  induction continues generalizing offsets with
  | nil => cases offsets <;> rfl
  | cons same _ ih =>
    cases offsets with
    | nil => rfl
    | cons offset offsets =>
      simp only [shiftOffsets, List.zipWith_cons_cons] at ih ⊢
      rw [ih, ← same]
      push_cast
      ring_nf

theorem shiftOffsets_zero {offsets axisStrides : List Int}
    (lengths : offsets.length ≤ axisStrides.length) : shiftOffsets offsets axisStrides 0 = offsets := by
  induction offsets generalizing axisStrides with
  | nil => rfl
  | cons offset offsets ih =>
    cases axisStrides with
    | nil => simp at lengths
    | cons s axisStrides =>
      simp only [shiftOffsets, List.zipWith_cons_cons] at ih ⊢
      rw [ih (by simpa using lengths)]
      simp

/-- The first `E * e` numbers, as `e` rows of `E`. -/
theorem range_mul (E e : Nat) :
    List.range (E * e) = (List.range e).flatMap fun j => (List.range E).map (· + E * j) := by
  induction e with
  | zero => simp
  | succ e ih =>
    rw [Nat.mul_succ, List.range_add, ih, List.range_succ, List.flatMap_append,
      List.flatMap_singleton]
    congr 1
    exact List.map_congr_left fun i _ => Nat.add_comm _ _

namespace LoopNest

/-- A box split by its outermost loop: for each value `j` of the outermost coordinate, the
inner loops visit their positions with every operand moved `j` steps of its outer stride. -/
theorem calls_snoc {dims : List Nat} {strides : List (List Int)} {offsets axisStrides : List Int}
    (e : Nat) (lengths : ∀ s ∈ strides, s.length = dims.length) :
    calls ⟨dims ++ [e], pushLoop strides axisStrides, offsets⟩ =
      (List.range e).flatMap fun j => calls ⟨dims, strides, shiftOffsets offsets axisStrides j⟩ := by
  simp only [calls, odometer_append_singleton, List.map_flatMap, List.map_map]
  refine List.flatMap_congr fun j _ => List.map_congr_left fun index mem => ?_
  have length : index.length = dims.length := length_odometer_mem mem
  exact positionsAt_pushLoop j fun s mem' => (lengths s mem').trans length.symm

/-- Fusing: an axis whose stride is, for every operand, the last loop's stride `t` times the
loop's extent `E` visits, with that loop, what the loop widened to `E * e` visits. -/
theorem calls_fuse {dims : List Nat} {strides : List (List Int)} {offsets t axisStrides : List Int}
    {E : Nat} (e : Nat) (lengths : ∀ s ∈ strides, s.length = dims.length)
    (continues : List.Forall₂ (fun (ti s : Int) => ti * E = s) t axisStrides) :
    calls ⟨dims ++ [E * e], pushLoop strides t, offsets⟩ =
      calls ⟨dims ++ [E] ++ [e], pushLoop (pushLoop strides t) axisStrides, offsets⟩ := by
  have pushedLengths : ∀ s ∈ pushLoop strides t, s.length = (dims ++ [E]).length :=
    fun s mem => by simpa using length_of_mem_zipWith (fun _ _ => by simp) lengths s mem
  rw [calls_snoc _ lengths, calls_snoc _ pushedLengths, range_mul, List.flatMap_assoc]
  refine List.flatMap_congr fun j _ => ?_
  rw [calls_snoc _ lengths, List.flatMap_map]
  refine List.flatMap_congr fun i _ => ?_
  rw [shiftOffsets_fuse continues]

/-! ## Dropping axes of extent one -/

/-- Each operand moved `j` steps of its stride along axis `a`. -/
def shiftAlong (operands : List (Int × List Int)) (a j : Nat) : List (Int × List Int) :=
  operands.map fun op => (op.1 + j * op.2.getD a 0, op.2)

theorem strides_ofAxes_length {dims : List Nat} {operands : List (Int × List Int)}
    {axes : List Nat} :
    ∀ s ∈ (ofAxes dims operands axes).strides, s.length = (ofAxes dims operands axes).dims.length := by
  intro s mem
  simp only [ofAxes, List.mem_map] at mem
  obtain ⟨op, -, rfl⟩ := mem
  simp [ofAxes]

theorem pushLoop_map {operands : List (Int × List Int)} (f : Int × List Int → List Int)
    (g : Int × List Int → Int) :
    pushLoop (operands.map f) (operands.map g) = operands.map fun op => f op ++ [g op] := by
  induction operands with
  | nil => rfl
  | cons op operands ih => simp only [pushLoop] at ih ⊢; simp [ih]

/-- One loop per axis, the last axis outermost. -/
theorem ofAxes_append_singleton (dims : List Nat) (operands : List (Int × List Int))
    (axes : List Nat) (a : Nat) :
    ofAxes dims operands (axes ++ [a]) =
      ⟨(ofAxes dims operands axes).dims ++ [dims.getD a 0],
        pushLoop (ofAxes dims operands axes).strides (operands.map fun op => op.2.getD a 0),
        operands.map Prod.fst⟩ := by
  simp [ofAxes, pushLoop_map]

/-- The axes in loop order, split by the outermost: for each value `j` of its coordinate, the
inner axes visit their positions with every operand moved `j` steps along it. -/
theorem calls_ofAxes_append_singleton (dims : List Nat) (operands : List (Int × List Int))
    (axes : List Nat) (a : Nat) :
    (ofAxes dims operands (axes ++ [a])).calls =
      (List.range (dims.getD a 0)).flatMap fun j => (ofAxes dims (shiftAlong operands a j) axes).calls := by
  rw [ofAxes_append_singleton, calls_snoc _ strides_ofAxes_length]
  refine List.flatMap_congr fun j _ => ?_
  have shifted : shiftOffsets (operands.map Prod.fst) (operands.map fun op => op.2.getD a 0) j =
      (shiftAlong operands a j).map Prod.fst := by
    simp [shiftOffsets, shiftAlong, List.zipWith_map, List.zipWith_self]
  simp only [ofAxes]
  rw [shifted]
  simp [shiftAlong, Function.comp_def]

theorem shiftAlong_zero (operands : List (Int × List Int)) (a : Nat) :
    shiftAlong operands a 0 = operands := by
  simp [shiftAlong]

/-- Dropping the axes of extent one changes nothing that the loops visit. -/
theorem calls_ofAxes_filter (dims axes : List Nat) (positive : ∀ a ∈ axes, 0 < dims.getD a 0) :
    ∀ operands : List (Int × List Int),
      (ofAxes dims operands (axes.filter fun a => 1 < dims.getD a 0)).calls =
        (ofAxes dims operands axes).calls := by
  induction axes using List.reverseRecOn with
  | nil => intro operands; rfl
  | append_singleton axes a ih =>
    intro operands
    have restPositive : ∀ b ∈ axes, 0 < dims.getD b 0 := fun b mem => positive b (by simp [mem])
    rw [List.filter_append, calls_ofAxes_append_singleton]
    by_cases wide : 1 < dims.getD a 0
    · have kept : [a].filter (fun a => 1 < dims.getD a 0) = [a] := by
        simp only [List.filter_singleton, wide, decide_true, cond_true]
      rw [kept, calls_ofAxes_append_singleton]
      exact List.flatMap_congr fun j _ => ih restPositive _
    · have one : dims.getD a 0 = 1 := by have := positive a (by simp); omega
      have dropped : [a].filter (fun a => 1 < dims.getD a 0) = [] := by
        simp only [List.filter_singleton, wide, decide_false, cond_false]
      rw [dropped, List.append_nil, one, List.range_one, List.flatMap_singleton, shiftAlong_zero]
      exact ih restPositive operands


/-! ## The fusion test -/

/-- With the last loop no wider than a signed word and every product of its strides by its
extent a signed word, the fusion test overflows nowhere and says whether each operand's stride
along the axis is its last stride times the extent. -/
theorem continuesAll_eq_some {extent : Nat} (fits : (extent : Int) ≤ Word.signedMax)
    {strides : List (List Int)} {axisStrides : List Int}
    (admissible : List.Forall₂
      (fun (acc : List Int) (_ : Int) => acc ≠ [] ∧ Word.IsSigned (acc.headD 0 * extent))
      strides axisStrides) :
    ∃ b, continuesAll extent strides axisStrides = some b ∧
      (b = true ↔
        List.Forall₂ (fun (acc : List Int) (s : Int) => acc.headD 0 * extent = s) strides axisStrides) := by
  have wrap : Word.wrapSigned extent = extent :=
    Word.wrapSigned_of_isSigned _ ⟨by unfold Word.signedMin; omega, fits⟩
  induction admissible with
  | nil => exact ⟨true, rfl, by simp⟩
  | @cons acc s strides axisStrides head _ ih =>
    obtain ⟨nonempty, signed⟩ := head
    obtain ⟨t, rest, rfl⟩ := List.exists_cons_of_ne_nil nonempty
    have product : Word.checked? (t * Word.wrapSigned extent) = some (t * extent) := by
      rw [wrap]
      simpa [Word.checked?] using signed
    obtain ⟨b, tested, iff⟩ := ih
    by_cases same : t * extent = s
    · refine ⟨b, by simp [continuesAll, product, same, tested], ?_⟩
      rw [iff, List.forall₂_cons]
      simp [same]
    · refine ⟨false, by simp [continuesAll, product, same], ?_⟩
      rw [List.forall₂_cons]
      simp [same]

/-! ## The fold of the plan -/

/-- The invariant of planning after the axes `done`, with the loops held last first: from any
offsets, the loops visit what one loop per axis of `done` visits; every loop is wider than one
and the extents multiply to the axes' extents; every operand has one stride per loop; and the
last loop's stride times its extent is, for every operand, its stride times the extent along an
axis of `done`, the last one the loop took; and every loop's stride of an operand is its stride
along some axis. -/
structure Planned (dims : List Nat) (operands : List (Int × List Int)) (done : List Nat)
    (revDims : List Nat) (revStrides : List (List Int)) : Prop where
  calls_eq : ∀ offsets, calls ⟨revDims.reverse, revStrides.map List.reverse, offsets⟩ =
    calls ⟨(ofAxes dims operands done).dims, (ofAxes dims operands done).strides, offsets⟩
  prod_eq : revDims.prod = (done.map (dims.getD · 0)).prod
  wide : ∀ e ∈ revDims, 1 < e
  strides_length : ∀ s ∈ revStrides, s.length = revDims.length
  operands_length : revStrides.length = operands.length
  lastSpan : ∀ last outer, revDims = last :: outer → ∃ a ∈ done,
    List.Forall₂ (fun (acc : List Int) (op : Int × List Int) =>
      acc.headD 0 * (last : Int) = op.2.getD a 0 * (dims.getD a 0 : Int)) revStrides operands
  strides_axes : List.Forall₂ (fun (acc : List Int) (op : Int × List Int) =>
    ∀ j, ∃ a, acc.getD j 0 = op.2.getD a 0) revStrides operands

theorem planned_nil (dims : List Nat) (operands : List (Int × List Int)) :
    Planned dims operands [] [] (operands.map fun _ => []) where
  calls_eq offsets := by simp [ofAxes]
  prod_eq := rfl
  wide := by simp
  strides_length := by simp
  operands_length := by simp
  lastSpan := by simp
  strides_axes := List.forall₂_map_left_iff.mpr
    (List.forall₂_same.mpr fun op _ j => ⟨op.2.length, by simp⟩)

/-- Putting each operand's stride first keeps a relation that holds with it put first. -/
theorem forall₂_zipWith_cons {R : List Int → Int × List Int → Prop} {f : Int × List Int → Int}
    {revStrides : List (List Int)} {operands : List (Int × List Int)}
    (related : List.Forall₂ (fun acc op => R (f op :: acc) op) revStrides operands) :
    List.Forall₂ R (List.zipWith (fun acc s => s :: acc) revStrides (operands.map f)) operands := by
  induction related with
  | nil => exact .nil
  | cons head _ ih =>
    simp only [List.map_cons, List.zipWith_cons_cons]
    exact .cons head ih

/-- Each operand's strides, last loop first, with the axis's stride put first. -/
theorem map_reverse_zipWith_cons (revStrides : List (List Int)) (axisStrides : List Int) :
    (List.zipWith (fun acc s => s :: acc) revStrides axisStrides).map List.reverse =
      pushLoop (revStrides.map List.reverse) axisStrides := by
  simp [pushLoop, List.map_zipWith, List.zipWith_map_left]

/-- Strides held last loop first, split into each operand's last stride and the rest. -/
theorem map_reverse_eq_pushLoop_heads :
    ∀ {revStrides : List (List Int)}, (∀ acc ∈ revStrides, acc ≠ []) →
      revStrides.map List.reverse =
        pushLoop ((revStrides.map List.tail).map List.reverse) (revStrides.map (·.headD 0))
  | [], _ => rfl
  | acc :: revStrides, nonempty => by
    obtain ⟨t, rest, rfl⟩ := List.exists_cons_of_ne_nil (nonempty acc (by simp))
    have tail : revStrides.map List.reverse =
        pushLoop ((revStrides.map List.tail).map List.reverse) (revStrides.map (·.headD 0)) :=
      map_reverse_eq_pushLoop_heads fun acc' mem => nonempty acc' (List.mem_cons_of_mem _ mem)
    simp only [List.map_cons, pushLoop, List.zipWith_cons_cons, List.reverse_cons, List.tail_cons,
      List.headD_cons] at tail ⊢
    rw [tail]

section Planned

variable {dims : List Nat} {operands : List (Int × List Int)} {done : List Nat}
  {revDims : List Nat} {revStrides : List (List Int)}

/-- The loops so far with one more loop outside, for axis `a`, visit what the axes so far and
then `a` visit. -/
theorem Planned.calls_push (planned : Planned dims operands done revDims revStrides) (a : Nat)
    (offsets : List Int) :
    calls ⟨revDims.reverse ++ [dims.getD a 0],
        pushLoop (revStrides.map List.reverse) (operands.map fun op => op.2.getD a 0), offsets⟩ =
      calls ⟨(ofAxes dims operands (done ++ [a])).dims, (ofAxes dims operands (done ++ [a])).strides,
        offsets⟩ := by
  have lengths : ∀ s ∈ revStrides.map List.reverse, s.length = revDims.reverse.length := by
    intro s mem
    obtain ⟨s', mem', rfl⟩ := List.mem_map.mp mem
    simp [planned.strides_length s' mem']
  rw [calls_snoc _ lengths, ofAxes_append_singleton]
  dsimp only
  rw [calls_snoc _ strides_ofAxes_length]
  exact List.flatMap_congr fun j _ => planned.calls_eq _

/-- An axis that opens a new loop keeps the invariant. -/
theorem Planned.push (planned : Planned dims operands done revDims revStrides) {a : Nat}
    (wideAxis : 1 < dims.getD a 0) :
    Planned dims operands (done ++ [a]) (dims.getD a 0 :: revDims)
      (List.zipWith (fun acc s => s :: acc) revStrides (operands.map fun op => op.2.getD a 0)) where
  calls_eq offsets := by
    rw [List.reverse_cons, map_reverse_zipWith_cons]
    exact planned.calls_push a offsets
  prod_eq := by simp [List.prod_append, planned.prod_eq, Nat.mul_comm]
  wide e mem := by
    rcases List.mem_cons.mp mem with rfl | mem
    · exact wideAxis
    · exact planned.wide e mem
  strides_length := by
    simpa using length_of_mem_zipWith (fun _ _ => by simp) planned.strides_length
  operands_length := by simp [planned.operands_length]
  lastSpan := by
    rintro last outer ⟨rfl, rfl⟩
    refine ⟨a, by simp, ?_⟩
    rw [List.forall₂_iff_get]
    refine ⟨by simp [planned.operands_length], fun i _ _ => ?_⟩
    simp
  strides_axes := forall₂_zipWith_cons (planned.strides_axes.imp fun acc op axes j => by
    cases j with
    | zero => exact ⟨a, by simp⟩
    | succ j => simpa using axes j)

/-- An axis that continues the last loop for every operand keeps the invariant, the loop
widened by the axis's extent. -/
theorem Planned.fuse {last : Nat} {outer : List Nat}
    (planned : Planned dims operands done (last :: outer) revStrides) {a : Nat}
    (wideAxis : 1 < dims.getD a 0)
    (continues : List.Forall₂ (fun (acc : List Int) (s : Int) => acc.headD 0 * (last : Int) = s)
      revStrides (operands.map fun op => op.2.getD a 0)) :
    Planned dims operands (done ++ [a]) (last * dims.getD a 0 :: outer) revStrides where
  calls_eq offsets := by
    have nonempty : ∀ acc ∈ revStrides, acc ≠ [] := fun acc mem =>
      List.ne_nil_of_length_pos (by simp [planned.strides_length acc mem])
    have tailLengths : ∀ s ∈ (revStrides.map List.tail).map List.reverse,
        s.length = outer.reverse.length := by
      intro s mem
      simp only [List.map_map, List.mem_map, Function.comp_apply] at mem
      obtain ⟨acc, mem, rfl⟩ := mem
      simp [planned.strides_length acc mem]
    have heads := map_reverse_eq_pushLoop_heads nonempty
    rw [List.reverse_cons, heads, calls_fuse _ tailLengths (List.forall₂_map_left_iff.mpr continues),
      ← heads, ← List.reverse_cons]
    exact planned.calls_push a offsets
  prod_eq := by
    rw [List.map_append, List.prod_append, ← planned.prod_eq]
    simp only [List.prod_cons, List.map_cons, List.map_nil, List.prod_nil]
    ring
  wide e mem := by
    rcases List.mem_cons.mp mem with rfl | mem
    · have := planned.wide last (by simp)
      exact Nat.lt_of_lt_of_le this (Nat.le_mul_of_pos_right _ (by omega))
    · exact planned.wide e (by simp [mem])
  strides_length := by simpa using planned.strides_length
  operands_length := planned.operands_length
  lastSpan := by
    rintro _ _ ⟨rfl, rfl⟩
    refine ⟨a, by simp, (List.forall₂_map_right_iff.mp continues).imp fun acc op same => ?_⟩
    rw [Nat.cast_mul, ← mul_assoc, same]
  strides_axes := planned.strides_axes

/-- Adding an axis wider than one keeps the invariant, with no overflow, when the operands'
spans along the axes taken so far are signed words and the extents, the axis's included,
multiply to a signed word. -/
theorem Planned.addAxis_eq_some (planned : Planned dims operands done revDims revStrides)
    {a : Nat} (wideAxis : 1 < dims.getD a 0)
    (spans : ∀ b ∈ done, ∀ op ∈ operands, Word.IsSigned (op.2.getD b 0 * dims.getD b 0))
    (fits : ((done ++ [a]).map (dims.getD · 0)).prod ≤ Word.signedMax.toNat) :
    ∃ next, addAxis (dims.getD a 0) (operands.map fun op => op.2.getD a 0) revDims revStrides =
      some next ∧ Planned dims operands (done ++ [a]) next.1 next.2 := by
  cases revDims with
  | nil => exact ⟨_, rfl, planned.push wideAxis⟩
  | cons last outer =>
    have bound : last * outer.prod * dims.getD a 0 ≤ Word.signedMax.toNat := by
      rw [List.map_append, List.prod_append, ← planned.prod_eq, List.prod_cons] at fits
      simpa using fits
    have outerPositive : 0 < outer.prod :=
      List.prod_pos fun e mem => Nat.lt_trans Nat.zero_lt_one (planned.wide e (by simp [mem]))
    have widened : last * dims.getD a 0 ≤ last * outer.prod * dims.getD a 0 :=
      Nat.mul_le_mul_right _ (Nat.le_mul_of_pos_right _ outerPositive)
    have lastFits : (last : Int) ≤ Word.signedMax := by
      have : last ≤ last * dims.getD a 0 := Nat.le_mul_of_pos_right _ (by omega)
      unfold Word.signedMax at bound ⊢
      omega
    obtain ⟨b, mem, span⟩ := planned.lastSpan last outer rfl
    have admissible : List.Forall₂
        (fun (acc : List Int) (_ : Int) => acc ≠ [] ∧ Word.IsSigned (acc.headD 0 * last))
        revStrides (operands.map fun op => op.2.getD a 0) := by
      rw [List.forall₂_map_right_iff]
      rw [List.forall₂_iff_zip] at span ⊢
      refine ⟨span.1, fun member => ⟨?_, ?_⟩⟩
      · exact List.ne_nil_of_length_pos
          (by simp [planned.strides_length _ (List.of_mem_zip member).1])
      · rw [span.2 member]
        exact spans b mem _ (List.of_mem_zip member).2
    obtain ⟨continued, tested, iff⟩ := continuesAll_eq_some lastFits admissible
    cases continued with
    | true =>
      have unsigned : Word.IsUnsigned (last * dims.getD a 0) := by
        unfold Word.IsUnsigned Word.unsignedCount
        unfold Word.signedMax at bound
        omega
      refine ⟨(last * dims.getD a 0 :: outer, revStrides), ?_, planned.fuse wideAxis (iff.mp rfl)⟩
      simp only [addAxis, tested]
      rw [if_pos unsigned]
      rfl
    | false =>
      refine ⟨(dims.getD a 0 :: last :: outer, List.zipWith (fun acc s => s :: acc) revStrides
        (operands.map fun op => op.2.getD a 0)), ?_, planned.push wideAxis⟩
      simp only [addAxis, tested]
      rfl

/-- The fold of the plan over the axes still to take keeps the invariant, with no overflow,
when those axes are wider than one, every span along the axes is a signed word, and the
extents multiply to a signed word. -/
theorem Planned.foldlM_eq_some :
    ∀ (rest : List Nat) {done revDims : List Nat} {revStrides : List (List Int)},
      Planned dims operands done revDims revStrides →
      (∀ a ∈ rest, 1 < dims.getD a 0) →
      (∀ b ∈ done ++ rest, ∀ op ∈ operands, Word.IsSigned (op.2.getD b 0 * dims.getD b 0)) →
      ((done ++ rest).map (dims.getD · 0)).prod ≤ Word.signedMax.toNat →
      ∃ final, rest.foldlM (fun planned d =>
          addAxis (dims.getD d 0) (operands.map fun op => op.2.getD d 0) planned.1 planned.2)
          (revDims, revStrides) = some final ∧
        Planned dims operands (done ++ rest) final.1 final.2
  | [], _, revDims, revStrides, planned, _, _, _ => ⟨(revDims, revStrides), rfl, by simpa using planned⟩
  | a :: rest, done, _, _, planned, wideRest, spans, fits => by
    have restPositive : 0 < (rest.map (dims.getD · 0)).prod :=
      List.prod_pos fun e member => by
        obtain ⟨b, mem, rfl⟩ := List.mem_map.mp member
        exact Nat.lt_trans Nat.zero_lt_one (wideRest b (by simp [mem]))
    have split : done ++ a :: rest = (done ++ [a]) ++ rest := by simp
    have fitsHere : ((done ++ [a]).map (dims.getD · 0)).prod ≤ Word.signedMax.toNat := by
      rw [split, List.map_append, List.prod_append] at fits
      exact le_trans (Nat.le_mul_of_pos_right _ restPositive) fits
    obtain ⟨next, added, plannedNext⟩ := planned.addAxis_eq_some (wideRest a (by simp))
      (fun b mem => spans b (by simp [mem])) fitsHere
    obtain ⟨final, folded, plannedFinal⟩ := plannedNext.foldlM_eq_some rest
      (fun b mem => wideRest b (by simp [mem])) (by simpa using spans) (by simpa using fits)
    refine ⟨final, ?_, by simpa using plannedFinal⟩
    rw [List.foldlM_cons, added]
    exact folded

end Planned

/-- What a plan promises of its nest: it visits what one loop per axis of `axes` visits, from
the operands' own offsets; its loops are wider than one; every operand has one stride per loop;
and each of those strides is the operand's stride along some axis. -/
structure Faithful (nest : LoopNest) (dims : List Nat) (operands : List (Int × List Int))
    (axes : List Nat) : Prop where
  calls_eq : nest.calls = (ofAxes dims operands axes).calls
  offsets_eq : nest.offsets = operands.map Prod.fst
  wide : ∀ e ∈ nest.dims, 1 < e
  strides_length : ∀ s ∈ nest.strides, s.length = nest.dims.length
  operands_length : nest.strides.length = operands.length
  strides_axes : List.Forall₂ (fun (s : List Int) (op : Int × List Int) =>
    ∀ j, ∃ a, s.getD j 0 = op.2.getD a 0) nest.strides operands

/-- Every entry of a reversed list is an entry of the list, or the default past both ends. -/
theorem exists_getD_reverse (acc : List Int) (j : Nat) : ∃ i, acc.reverse.getD j 0 = acc.getD i 0 := by
  by_cases inside : j < acc.length
  · refine ⟨acc.length - 1 - j, ?_⟩
    simp [List.getD_eq_getElem?_getD, List.getElem?_reverse inside]
  · exact ⟨acc.length, by simp [List.getD_eq_getElem?_getD, not_lt.mp inside]⟩

theorem map_getD_range (dims : List Nat) : (List.range dims.length).map (dims.getD · 0) = dims :=
  List.ext_getElem (by simp) fun i _ below => by simp [below]

/-- The extents along a permutation of the axes multiply to the box's count. -/
theorem prod_map_getD_of_perm {dims axes : List Nat} (perm : axes.Perm (List.range dims.length)) :
    (axes.map (dims.getD · 0)).prod = dims.prod := by
  rw [(perm.map _).prod_eq, map_getD_range]

/-- A faithful nest's extents multiply to the extents of the axes: both count what they visit. -/
theorem Faithful.prod_eq {nest : LoopNest} {dims : List Nat} {operands : List (Int × List Int)}
    {axes : List Nat} (faithful : Faithful nest dims operands axes) :
    nest.dims.prod = (axes.map (dims.getD · 0)).prod := by
  have counted := congrArg List.length faithful.calls_eq
  simpa [calls, length_odometer, ofAxes, Extent.count_eq_prod] using counted

/-- Planning the walk of operands over a box of positive extents that multiply to a signed word,
where every operand's span along every axis wider than one is a signed word, succeeds, and the
nest visits what one loop per axis of the loop order visits. -/
theorem plan_eq_some {dims : List Nat} (order : Order) {operands : List (Int × List Int)}
    (positive : ∀ d ∈ dims, 0 < d) (fits : dims.prod ≤ Word.signedMax.toNat)
    (spans : ∀ a < dims.length, 1 < dims.getD a 0 →
      ∀ op ∈ operands, Word.IsSigned (op.2.getD a 0 * dims.getD a 0)) :
    ∃ nest, plan dims order operands = some nest ∧
      Faithful nest dims operands
        (loopOrder dims.length ((operands.head?.map Prod.snd).getD []) order) := by
  have perm := loopOrder_perm dims.length ((operands.head?.map Prod.snd).getD []) order
  have positiveAxes : ∀ a ∈ loopOrder dims.length ((operands.head?.map Prod.snd).getD []) order,
      0 < dims.getD a 0 := fun a mem => getD_pos_of_mem_perm perm positive mem
  have wideFits : (((loopOrder dims.length ((operands.head?.map Prod.snd).getD []) order).filter
      fun d => 1 < dims.getD d 0).map (dims.getD · 0)).prod ≤ Word.signedMax.toNat := by
    refine le_trans (Nat.le_of_dvd ?_ ((List.filter_sublist.map _).prod_dvd_prod))
      ((prod_map_getD_of_perm perm).symm ▸ fits)
    exact List.prod_pos fun e member => by
      obtain ⟨a, mem, rfl⟩ := List.mem_map.mp member
      exact positiveAxes a mem
  obtain ⟨final, folded, planned⟩ := (planned_nil dims operands).foldlM_eq_some
    ((loopOrder dims.length ((operands.head?.map Prod.snd).getD []) order).filter
      fun d => 1 < dims.getD d 0)
    (fun a mem => by simpa using (List.mem_filter.mp mem).2)
    (fun b mem op member => by
      have kept := List.mem_filter.mp mem
      exact spans b (lt_of_mem_perm perm kept.1) (of_decide_eq_true kept.2) op member)
    (by simpa using wideFits)
  refine ⟨⟨final.1.reverse, final.2.map List.reverse, operands.map Prod.fst⟩, ?_, ?_⟩
  · simp only [plan, folded]
    rfl
  · refine ⟨?_, rfl, ?_, ?_, ?_, ?_⟩
    · rw [← calls_ofAxes_filter dims _ positiveAxes operands]
      exact planned.calls_eq (operands.map Prod.fst)
    · exact fun e mem => planned.wide e (List.mem_reverse.mp mem)
    · intro s mem
      obtain ⟨s', mem', rfl⟩ := List.mem_map.mp mem
      simp [planned.strides_length s' mem']
    · simp [planned.operands_length]
    · refine List.forall₂_map_left_iff.mpr (planned.strides_axes.imp fun acc op axes j => ?_)
      obtain ⟨i, reversed⟩ := exists_getD_reverse acc j
      obtain ⟨a, same⟩ := axes i
      exact ⟨a, reversed.trans same⟩

/-- Three contiguous axes fuse into one loop. -/
example : plan [2, 3, 4] .columnMajor [(7, [1, 2, 6])] = some ⟨[24], [[1]], [7]⟩ := rfl

/-- An axis of extent one is dropped, and the two axes around it, not contiguous, keep a loop
each. -/
example : plan [2, 1, 3] .rowMajor [(0, [5, 100, 1])] = some ⟨[3, 2], [[1, 5]], [0]⟩ := rfl

end LoopNest

end Traversal

end StridedGrid
