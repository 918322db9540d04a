import Mathlib
import StridedGrid.Proofs.Contiguity

/-!
# Arrays whose elements never share a cell

A stride vector is column-major when, along the axes that move, every stride is non-zero and at
least the span of the axis before it (`Layout.classifyOrder`). Two different indices of the box
then lie at least the innermost moving stride apart: where the outermost axis on which they
differ moves them, the axes inside it cannot bring them back (`separated`). A row-major vector
is the mirror image, its axes reversed. Flat and nested arrays number their elements in
column-major order, so every array whose storage order is not `nonSpecific` keeps the elements
of its box in pairwise distinct cells (`unaliased_of_order`).
-/

namespace StridedGrid

namespace Layout

theorem chainNests_cons {a : Nat × Nat} {rest : List (Nat × Nat)}
    (chain : chainNests (a :: rest) = true) :
    chainNests rest = true ∧ ∀ b ∈ rest.head?, nestsIn a b = true := by
  cases rest with
  | nil => simp [chainNests]
  | cons b rest =>
    simp only [chainNests, Bool.and_eq_true] at chain
    exact ⟨chain.2, by simpa using chain.1⟩

theorem activeAxes_append_singleton {dims : List Nat} {strides : List Int} (d : Nat) (s : Int)
    (lengths : dims.length = strides.length) :
    activeAxes (dims ++ [d]) (strides ++ [s]) = activeAxes dims strides ++ activeAxes [d] [s] := by
  simp [activeAxes, List.zip_append lengths]

/-- The moving axes of the reversed vectors are the moving axes reversed. -/
theorem activeAxes_reverse : ∀ {dims : List Nat} {strides : List Int},
    dims.length = strides.length →
      activeAxes dims.reverse strides.reverse = (activeAxes dims strides).reverse
  | [], [], _ => rfl
  | [], _ :: _, lengths => by simp at lengths
  | _ :: _, [], lengths => by simp at lengths
  | d :: dims, s :: strides, lengths => by
    have rest : dims.length = strides.length := by simpa using lengths
    rw [List.reverse_cons, List.reverse_cons,
      activeAxes_append_singleton d s (by simpa using rest), activeAxes_reverse rest,
      activeAxes_cons_cons]
    by_cases wide : 1 < d <;> simp [activeAxes, wide]

end Layout

namespace Traversal

open Layout

theorem weighted_reverse : ∀ {index : List Nat} {strides : List Int},
    index.length = strides.length →
      Extent.weighted index.reverse strides.reverse = Extent.weighted index strides
  | [], [], _ => rfl
  | [], _ :: _, lengths => by simp at lengths
  | _ :: _, [], lengths => by simp at lengths
  | i :: index, s :: strides, lengths => by
    have rest : index.length = strides.length := by simpa using lengths
    rw [List.reverse_cons, List.reverse_cons,
      weighted_append_singleton i s (by simpa using rest), weighted_reverse rest,
      weighted_cons_cons, add_comm]

/-- Two different indices of the box of a chain of nesting axes with non-zero strides lie at
least the innermost moving stride apart. -/
theorem separated : ∀ {dims : List Nat} {strides : List Int} {x y : List Nat},
    dims.length = strides.length → (∀ a ∈ activeAxes dims strides, a.2 ≠ 0) →
    chainNests (activeAxes dims strides) = true → InBox dims x → InBox dims y → x ≠ y →
    ∃ a ∈ (activeAxes dims strides).head?,
      (a.2 : Int) ≤ |Extent.weighted x strides - Extent.weighted y strides|
  | [], _, _, _, _, _, _, inX, inY, apart =>
    absurd ((inBox_nil_iff.mp inX).trans (inBox_nil_iff.mp inY).symm) apart
  | _ :: _, [], _, _, lengths, _, _, _, _, _ => by simp at lengths
  | _ :: _, _ :: _, [], _, _, _, _, inX, _, _ => absurd inX inBox_cons_nil
  | _ :: _, _ :: _, _ :: _, [], _, _, _, _, inY, _ => absurd inY inBox_cons_nil
  | d :: dims, s :: strides, i :: x, j :: y, lengths, nonzero, chain, inX, inY, apart => by
    rcases inBox_cons_cons.mp inX with ⟨belowI, inRestX⟩
    rcases inBox_cons_cons.mp inY with ⟨belowJ, inRestY⟩
    have rest : dims.length = strides.length := by simpa using lengths
    have split : Extent.weighted (i :: x) (s :: strides) - Extent.weighted (j :: y) (s :: strides) =
        ((i : Int) - j) * s + (Extent.weighted x strides - Extent.weighted y strides) := by
      simp only [weighted_cons_cons]
      ring
    rw [split]
    rw [activeAxes_cons_cons] at nonzero chain ⊢
    by_cases wide : 1 < d
    · rw [if_pos wide] at nonzero chain ⊢
      rcases chainNests_cons chain with ⟨chainRest, nests⟩
      have magnitude : ((s.natAbs : Nat) : Int) = |s| := Int.natCast_natAbs s
      refine ⟨(d, s.natAbs), rfl, ?_⟩
      rw [magnitude]
      by_cases same : x = y
      · subst same
        have differ : i ≠ j := fun equal => apart (by rw [equal])
        have gap : (1 : Int) ≤ |((i : Int) - j)| := by
          rw [le_abs]
          omega
        rw [sub_self, add_zero, abs_mul]
        exact le_mul_of_one_le_left (abs_nonneg s) gap
      · -- an outer axis moves them at least its stride, which the first axis cannot undo
        rcases separated rest (fun a mem => nonzero a (.tail _ mem)) chainRest inRestX inRestY same with
          ⟨b, mem, far⟩
        have nest := nests b mem
        simp only [nestsIn, Bool.and_eq_true, decide_eq_true_eq] at nest
        have within : (s.natAbs * d : Nat) ≤ (b.2 : Int) := by exact_mod_cast nest.2
        push_cast at within
        have gap : |((i : Int) - j)| ≤ (d : Int) - 1 := by
          rw [abs_le]
          constructor <;> omega
        have near : |((i : Int) - j) * s| ≤ ((d : Int) - 1) * |s| := by
          rw [abs_mul]
          exact mul_le_mul_of_nonneg_right gap (abs_nonneg s)
        have triangle := abs_sub_abs_le_abs_add (Extent.weighted x strides - Extent.weighted y strides)
          (((i : Int) - j) * s)
        rw [add_comm (((i : Int) - j) * s)]
        linarith
    · rw [if_neg wide] at nonzero chain ⊢
      obtain rfl : i = 0 := by omega
      obtain rfl : j = 0 := by omega
      have differ : x ≠ y := fun same => apart (by rw [same])
      simpa using separated rest nonzero chain inRestX inRestY differ

/-- Along a chain of nesting axes with non-zero strides, distinct indices of the box have
distinct weighted sums. -/
theorem weighted_injOn_of_chainNests {dims : List Nat} {strides : List Int}
    (lengths : dims.length = strides.length) (nonzero : ∀ a ∈ activeAxes dims strides, a.2 ≠ 0)
    (chain : chainNests (activeAxes dims strides) = true) :
    Set.InjOn (fun index => Extent.weighted index strides) {index | InBox dims index} := by
  intro x inX y inY same
  by_contra apart
  rcases separated lengths nonzero chain inX inY apart with ⟨a, mem, far⟩
  simp only at same
  rw [same, sub_self, abs_zero] at far
  have := nonzero a (List.mem_of_mem_head? mem)
  omega

/-- A stride vector of column-major or row-major order gives distinct indices of the box
distinct weighted sums. -/
theorem weighted_injOn_of_classifyOrder {dims : List Nat} {strides : List Int}
    (lengths : dims.length = strides.length) (ordered : classifyOrder dims strides ≠ .nonSpecific) :
    Set.InjOn (fun index => Extent.weighted index strides) {index | InBox dims index} := by
  unfold classifyOrder at ordered
  by_cases zero : ((activeAxes dims strides).any fun a => a.2 == 0) = true
  · rw [if_pos zero] at ordered
    exact absurd rfl ordered
  rw [if_neg zero] at ordered
  have nonzero : ∀ a ∈ activeAxes dims strides, a.2 ≠ 0 := by
    intro a mem isZero
    exact zero (List.any_eq_true.mpr ⟨a, mem, by simp [isZero]⟩)
  by_cases column : chainNests (activeAxes dims strides) = true
  · exact weighted_injOn_of_chainNests lengths nonzero column
  rw [if_neg column] at ordered
  by_cases row : chainNests (activeAxes dims strides).reverse = true
  · have reversed : dims.reverse.length = strides.reverse.length := by simpa using lengths
    rw [← activeAxes_reverse lengths] at row
    have injective := weighted_injOn_of_chainNests reversed
      (by rw [activeAxes_reverse lengths]; exact fun a mem => nonzero a (List.mem_reverse.mp mem)) row
    intro x inX y inY same
    have lengthX : x.length = strides.length := (inX.length_eq).trans lengths
    have lengthY : y.length = strides.length := (inY.length_eq).trans lengths
    have flipped := injective (List.forall₂_reverse_iff.mpr inX) (List.forall₂_reverse_iff.mpr inY)
      (by simpa [weighted_reverse lengthX, weighted_reverse lengthY] using same)
    exact List.reverse_injective flipped
  · rw [if_neg row] at ordered
    exact absurd rfl ordered

/-- The column-major number tells the indices of the box apart. -/
theorem columnNumber_injOn (dims : List Nat) :
    Set.InjOn (columnNumber dims) {index | InBox dims index} := by
  intro x inX y inY same
  have atX : (odometer dims)[columnNumber dims x]? = some x := getElem?_odometer_columnNumber inX
  rw [same, getElem?_odometer_columnNumber inY] at atX
  exact (Option.some.inj atX).symm

end Traversal

namespace Grid

open Traversal

/-- The elements of an array's box sit in pairwise distinct cells of its buffer. -/
def Unaliased (g : Grid) : Prop := Set.InjOn g.slot {index | InBox g.dims index}

/-- Every fitting array whose storage order is column-major or row-major, flat and nested ones
included, keeps the elements of its box in pairwise distinct cells. -/
theorem unaliased_of_order {g : Grid} {size : Nat} (fits : g.Fits size)
    (ordered : g.order ≠ .nonSpecific) : g.Unaliased := by
  rcases g with ⟨shape, storage⟩
  cases storage with
  | flat =>
    intro x inX y inY same
    rw [slot_flat, slot_flat] at same
    exact columnNumber_injOn shape.dims inX inY same
  | nested =>
    intro x inX y inY same
    rw [slot_of_dense (by simp) inX, slot_of_dense (by simp) inY] at same
    exact columnNumber_injOn shape.dims inX inY same
  | strided offset strides order =>
    rcases Layout.validateView_ok shape.extentsFit fits.1 fits.2 with ⟨lengths, classified, -⟩
    have distinct := weighted_injOn_of_classifyOrder lengths (classified ▸ ordered)
    intro x inX y inY same
    have atX := (fits.position_mem inX).1
    have atY := (fits.position_mem inY).1
    simp only [slot, position, Traversal.position] at same atX atY
    exact distinct inX inY (by simp only; omega)

variable {α : Type}

/-- Writing one element of an array whose elements sit in distinct cells leaves every other
element as it was. -/
theorem get_set!_of_ne {g : Grid} {buffer : Array α} (unaliased : g.Unaliased) {i j : List Nat}
    (inI : InBox g.dims i) (inJ : InBox g.dims j) (other : i ≠ j) (v : α) :
    g.get (buffer.set! (g.slot i) v) j = g.get buffer j := by
  have apart : g.slot i ≠ g.slot j := fun same => other (unaliased inI inJ same)
  simp only [get, Array.set!_eq_setIfInBounds, Array.getElem?_setIfInBounds_ne apart]

/-- Strides that classify as column-major or row-major never alias: distinct indices of the box
have distinct weighted sums. So any traversal that lists every index of the box once visits
every touched position once, and a write at one index of an array with these strides changes
the element at no other index. -/
theorem ordered_strides_never_alias {dims : List Nat} {strides : List Int}
    (lengths : dims.length = strides.length)
    (ordered : Layout.classifyOrder dims strides = .columnMajor ∨
      Layout.classifyOrder dims strides = .rowMajor) :
    Set.InjOn (fun index => Extent.weighted index strides) {index | InBox dims index} ∧
    (∀ (offset : Int) (walk : List (List Nat)), walk.Nodup →
      (∀ index, index ∈ walk ↔ InBox dims index) →
        (walk.map (Traversal.position offset strides)).Nodup) ∧
    ∀ {β : Type} (shape : Shape) (offset : Int) (order : Order) (buffer : Array β),
      shape.dims = dims → (⟨shape, .strided offset strides order⟩ : Grid).Fits buffer.size →
      ∀ i j, InBox dims i → InBox dims j → i ≠ j → ∀ v written,
        (⟨shape, .strided offset strides order⟩ : Grid).set buffer i v = .ok written →
        (⟨shape, .strided offset strides order⟩ : Grid).get written j =
          (⟨shape, .strided offset strides order⟩ : Grid).get buffer j := by
  have notNonSpecific : Layout.classifyOrder dims strides ≠ .nonSpecific := by
    rcases ordered with column | row
    · rw [column]; decide
    · rw [row]; decide
  have distinct := weighted_injOn_of_classifyOrder lengths notNonSpecific
  refine ⟨distinct, fun offset walk nodup box => ?_,
    fun shape offset order buffer sameDims fits i j inI inJ other v written wrote => ?_⟩
  · refine nodup.map_on fun x memX y memY same => distinct ((box x).mp memX) ((box y).mp memY) ?_
    simp only [Traversal.position] at same
    simp only
    omega
  · have classified := (Layout.validateView_ok shape.extentsFit fits.1 fits.2).2.1
    have unaliased := unaliased_of_order fits (by
      change order ≠ .nonSpecific
      rw [classified, sameDims]
      exact notNonSpecific)
    subst sameDims
    rw [set_ok fits inI] at wrote
    cases wrote
    exact get_set!_of_ne unaliased inI inJ other v

/-- A 2 × 3 × 2 view read backwards along its last axis nests column-major, and its odometer
visits twelve distinct positions. -/
theorem ordered_strides_never_alias_reversed_outer :
    [2, 3, 2].length = [(2 : Int), 6, -18].length ∧
      (Layout.classifyOrder [2, 3, 2] [2, 6, -18] = .columnMajor ∨
        Layout.classifyOrder [2, 3, 2] [2, 6, -18] = .rowMajor) ∧
      ((odometer [2, 3, 2]).map (Traversal.position 18 [2, 6, -18])).Nodup := by
  have lengths : [2, 3, 2].length = [(2 : Int), 6, -18].length := rfl
  have ordered : Layout.classifyOrder [2, 3, 2] [2, 6, -18] = .columnMajor ∨
      Layout.classifyOrder [2, 3, 2] [2, 6, -18] = .rowMajor := .inl rfl
  exact ⟨lengths, ordered, (ordered_strides_never_alias lengths ordered).2.1 18 _
    (nodup_odometer _) fun _ => mem_odometer⟩

end Grid

end StridedGrid
