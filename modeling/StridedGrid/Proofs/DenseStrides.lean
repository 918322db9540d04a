import Mathlib
import StridedGrid.Proofs.MapInto

/-!
# Dense strides along a loop order

`Grid.loopStrides dims loop` lays a dense buffer out along a loop order: the first axis of the
loop gets stride one, and each later axis the product of the extents of the axes before it. It
is what a conversion gives the copy of a strided array that is not column-major, so that the
copy is walked in the order of the original.

Along the loop the strides are the column-major strides of the permuted extents
(`map_getD_loopStrides`), so walking the box in the loop's order visits the cells `0, 1, …` in
turn (`map_position_loopIndices`): the copy needs exactly `count` cells and no two indices share
one. Each axis spans at most the stride of every later axis (`pairwise_loopStrides`), so the
moving axes, those of extent at least two, have strictly growing strides along the loop. The
storage order that such strides classify as therefore has a loop order that visits the moving
axes in the loop's own order (`filter_loopOrder_loopStrides`), and the strides of the reversed
axis order over two or more moving axes are row-major (`classifyOrder_loopStrides_reverse`).
-/

namespace StridedGrid

namespace Shape

theorem length_columnStrides : ∀ E : List Nat, (columnStrides E).length = E.length
  | [] => rfl
  | _ :: E => by simp [columnStrides, length_columnStrides E]

/-- The dense stride of the `i`-th axis is the product of the extents before it. -/
theorem getElem_columnStrides :
    ∀ (E : List Nat) (i : Nat) (below : i < (columnStrides E).length),
      (columnStrides E)[i] = (E.take i).prod
  | [], _, below => absurd below (by simp [columnStrides])
  | _ :: _, 0, _ => by simp [columnStrides]
  | e :: E, i + 1, below => by
    simp [columnStrides, getElem_columnStrides E i (by simpa [columnStrides] using below)]

end Shape

namespace Layout

/-- The moving axes of a stride vector of one stride per axis, in axis order. -/
theorem activeAxes_eq_map_filter {dims : List Nat} {strides : List Int}
    (lengths : strides.length = dims.length) :
    activeAxes dims strides = ((List.range dims.length).filter fun a => 1 < dims.getD a 0).map
      fun a => (dims.getD a 0, (strides.getD a 0).natAbs) := by
  have zipped : dims.zip strides =
      (List.range dims.length).map fun a => (dims.getD a 0, strides.getD a 0) := by
    apply List.ext_getElem (by simp [lengths])
    intro i _ inRange
    have inDims : i < dims.length := by simpa using inRange
    have inStrides : i < strides.length := lengths ▸ inDims
    simp [List.getD_eq_getElem?_getD, inDims, inStrides]
  rw [activeAxes, zipped, List.filter_map, List.map_map]
  rfl

theorem chainNests_iff_isChain :
    ∀ l : List (Nat × Nat), chainNests l = true ↔ l.IsChain fun p q => nestsIn p q = true
  | [] => by simp [chainNests]
  | [_] => by simp [chainNests]
  | a :: b :: rest => by
    rw [chainNests, Bool.and_eq_true, chainNests_iff_isChain (b :: rest), List.isChain_cons_cons]

/-- Of two predicates, one implying the other and failing where the other holds at a member, the
weaker holds of more members. -/
theorem countP_lt_countP {α : Type} {p q : α → Bool} {l : List α} (imp : ∀ x, p x → q x)
    {x : α} (mem : x ∈ l) (holds : q x) (fails : ¬p x) : l.countP p < l.countP q := by
  rw [List.countP_eq_length_filter, List.countP_eq_length_filter]
  have sub : List.Sublist (l.filter p) (l.filter q) := List.monotone_filter_right l imp
  refine lt_of_le_of_ne sub.length_le fun same => fails ?_
  have kept : x ∈ l.filter q := List.mem_filter.mpr ⟨mem, holds⟩
  rw [← sub.eq_of_length_le same.ge] at kept
  exact (List.mem_filter.mp kept).2

end Layout

namespace Grid

open Layout Traversal

/-! ## The strides along the loop -/

/-- One step of the fold that lays dense strides along a loop: the running product becomes the
stride of the axis, then grows by its extent. -/
def loopStep (dims : List Nat) (acc : Int × List Int) (d : Nat) : Int × List Int :=
  (acc.1 * dims.getD d 1, acc.2.set d acc.1)

theorem loopStrides_eq (dims loop : List Nat) :
    loopStrides dims loop = (loop.foldl (loopStep dims) (1, dims.map fun _ => 0)).2 :=
  rfl

theorem length_foldl_loopStep (dims : List Nat) :
    ∀ (loop : List Nat) (acc : Int × List Int),
      (loop.foldl (loopStep dims) acc).2.length = acc.2.length
  | [], _ => rfl
  | d :: loop, acc => by
    rw [List.foldl_cons, length_foldl_loopStep dims loop]
    simp [loopStep]

@[simp]
theorem length_loopStrides (dims loop : List Nat) :
    (loopStrides dims loop).length = dims.length := by
  simp [loopStrides_eq, length_foldl_loopStep]

/-- The fold sets the stride of each axis of the loop to the running product at its turn and
leaves every other entry alone. -/
theorem foldl_loopStep (dims : List Nat) :
    ∀ (loop : List Nat) (m : Int) (v : List Int), loop.Nodup → (∀ a ∈ loop, a < v.length) →
      (∀ a ∉ loop, (loop.foldl (loopStep dims) (m, v)).2.getD a 0 = v.getD a 0) ∧
      loop.map (fun a => (loop.foldl (loopStep dims) (m, v)).2.getD a 0) =
        (Shape.columnStrides (loop.map (dims.getD · 1))).map fun c : Nat => m * (c : Int)
  | [], _, _, _, _ => ⟨fun _ _ => rfl, rfl⟩
  | d :: loop, m, v, nodup, below => by
    obtain ⟨fresh, nodup⟩ := List.nodup_cons.mp nodup
    have inside : d < v.length := below d (.head _)
    obtain ⟨others, along⟩ := foldl_loopStep dims loop (m * dims.getD d 1) (v.set d m) nodup
      fun a mem => by simpa using below a (.tail _ mem)
    refine ⟨fun a outside => ?_, ?_⟩
    · have apart : d ≠ a := fun same => outside (same ▸ .head _)
      rw [List.foldl_cons, loopStep, others a fun mem => outside (.tail _ mem)]
      simp [List.getD_eq_getElem?_getD, List.getElem?_set_ne apart]
    · rw [List.map_cons, List.foldl_cons, loopStep]
      dsimp only
      rw [along, others d fresh]
      simp [List.getD_eq_getElem?_getD, inside, Shape.columnStrides, mul_assoc]

variable {dims loop : List Nat}

/-- Read along the loop, the strides are the column-major strides of the permuted extents. -/
theorem map_getD_loopStrides (perm : loop.Perm (List.range dims.length)) :
    loop.map (fun a => (loopStrides dims loop).getD a 0) =
      (Shape.columnStrides (loop.map (dims.getD · 1))).map Int.ofNat := by
  have below : ∀ a ∈ loop, a < (dims.map fun _ => (0 : Int)).length := fun a mem => by
    simpa using lt_of_mem_perm perm mem
  rw [loopStrides_eq,
    (foldl_loopStep dims loop 1 _ (perm.nodup_iff.mpr List.nodup_range) below).2]
  simp

/-- Along the loop, each axis's stride is the product of the extents of the axes before it. -/
theorem getD_loopStrides (perm : loop.Perm (List.range dims.length)) {i : Nat}
    (below : i < loop.length) :
    (loopStrides dims loop).getD loop[i] 0 = (((loop.take i).map (dims.getD · 1)).prod : Nat) := by
  have atI := congrArg (·[i]?) (map_getD_loopStrides perm)
  have inStrides : i < (Shape.columnStrides (loop.map (dims.getD · 1))).length := by
    simpa [Shape.length_columnStrides] using below
  simp only [List.getElem?_map, List.getElem?_eq_getElem below, List.getElem?_eq_getElem inStrides,
    Option.map_some, Option.some.injEq, Shape.getElem_columnStrides, Int.ofNat_eq_natCast] at atI
  rw [atI, List.map_take]

/-- Along the loop, an axis's stride times its extent is the product of the extents up to it. -/
theorem getD_loopStrides_mul (perm : loop.Perm (List.range dims.length)) {i : Nat}
    (below : i < loop.length) :
    (loopStrides dims loop).getD loop[i] 0 * dims.getD loop[i] 1 =
      (((loop.take (i + 1)).map (dims.getD · 1)).prod : Nat) := by
  rw [getD_loopStrides perm below, List.map_take, List.map_take,
    List.prod_take_succ _ _ (by simpa using below)]
  simp

theorem count_map_getD_of_perm (perm : loop.Perm (List.range dims.length)) :
    Extent.count (loop.map (dims.getD · 1)) = Extent.count dims := by
  rw [Extent.count_eq_prod, Extent.count_eq_prod, (perm.map _).prod_eq]
  congr 1
  exact List.ext_getElem (by simp) fun i _ below => by simp [List.getD_eq_getElem?_getD, below]

/-! ## Positions of the box -/

/-- Walked in the loop's order, the box steps through the cells `0, 1, …` in turn. -/
theorem map_position_loopIndices (perm : loop.Perm (List.range dims.length)) :
    (loopIndices dims loop).map (Traversal.position 0 (loopStrides dims loop)) =
      (List.range (Extent.count dims)).map Int.ofNat := by
  rw [← count_map_getD_of_perm perm, ← map_columnNumber_odometer, loopIndices_eq_map_alongAxes,
    List.map_map, List.map_map]
  refine List.map_congr_left fun coords mem => ?_
  have coordsLength : coords.length = dims.length := by
    simpa [perm.length_eq] using length_odometer_mem mem
  rw [Function.comp_apply, Function.comp_apply, position_alongAxes perm coordsLength 0
    (length_loopStrides dims loop), map_getD_loopStrides perm, Traversal.position, zero_add,
    weighted_columnStrides]
  rfl

/-- Every index of the box sits at one of the cells `0, …, count - 1`. -/
theorem position_loopStrides_mem (perm : loop.Perm (List.range dims.length)) {index : List Nat}
    (inBox : InBox dims index) :
    ∃ k < Extent.count dims, Traversal.position 0 (loopStrides dims loop) index = k := by
  have listed := List.mem_map_of_mem (f := Traversal.position 0 (loopStrides dims loop))
    ((mem_loopIndices perm).mpr inBox)
  rw [map_position_loopIndices perm] at listed
  obtain ⟨k, mem, same⟩ := List.mem_map.mp listed
  exact ⟨k, List.mem_range.mp mem, same.symm⟩

/-- No two indices of the box share a cell. -/
theorem position_loopStrides_injOn (perm : loop.Perm (List.range dims.length)) :
    Set.InjOn (Traversal.position 0 (loopStrides dims loop)) {index | InBox dims index} := by
  intro x inX y inY same
  have nodup :
      ((loopIndices dims loop).map (Traversal.position 0 (loopStrides dims loop))).Nodup := by
    rw [map_position_loopIndices perm]
    exact List.nodup_range.map fun _ _ cast => Int.ofNat.inj cast
  exact List.inj_on_of_nodup_map nodup ((mem_loopIndices perm).mpr inX)
    ((mem_loopIndices perm).mpr inY) same

/-! ## Sizes of the strides -/

section Positive

variable (perm : loop.Perm (List.range dims.length))
include perm

theorem mem_wide {a : Nat} (mem : a ∈ loop.filter fun a => 1 < dims.getD a 0) :
    a < dims.length ∧ 1 < dims.getD a 0 := by
  obtain ⟨inLoop, wide⟩ := List.mem_filter.mp mem
  exact ⟨lt_of_mem_perm perm inLoop, of_decide_eq_true wide⟩

variable (positive : ∀ d ∈ dims, 0 < d)
include positive

theorem prod_take_pos (i : Nat) : 0 < ((loop.take i).map (dims.getD · 1)).prod :=
  List.prod_pos fun e mem => by
    obtain ⟨a, member, rfl⟩ := List.mem_map.mp mem
    have inDims : a < dims.length := lt_of_mem_perm perm (List.mem_of_mem_take member)
    rw [List.getD_eq_getElem _ _ inDims]
    exact positive _ (List.getElem_mem inDims)

theorem loopStrides_pos {a : Nat} (inDims : a < dims.length) :
    0 < (loopStrides dims loop).getD a 0 := by
  obtain ⟨i, below, rfl⟩ :=
    List.mem_iff_getElem.mp (mem_of_lt_perm perm inDims)
  rw [getD_loopStrides perm below]
  exact_mod_cast prod_take_pos perm positive i

theorem natAbs_loopStrides {a : Nat} (inDims : a < dims.length) :
    (((loopStrides dims loop).getD a 0).natAbs : Int) = (loopStrides dims loop).getD a 0 :=
  Int.natAbs_of_nonneg (loopStrides_pos perm positive inDims).le

/-- An axis's stride times its extent is at most the number of elements. -/
theorem loopStrides_mul_le {a : Nat} (inDims : a < dims.length) :
    (loopStrides dims loop).getD a 0 * dims.getD a 1 ≤ Extent.count dims := by
  obtain ⟨i, below, rfl⟩ :=
    List.mem_iff_getElem.mp (mem_of_lt_perm perm inDims)
  rw [getD_loopStrides_mul perm below, ← count_map_getD_of_perm perm, Extent.count_eq_prod]
  refine Nat.cast_le.mpr
    (Nat.le_of_dvd (by simpa using prod_take_pos perm positive loop.length) ?_)
  simpa using ((List.take_sublist (i + 1) loop).map (dims.getD · 1)).prod_dvd_prod

/-- Along every axis the dense strides span a signed word: at most the element count. -/
theorem isSigned_loopStrides_mul (fits : (Extent.count dims : Int) ≤ Word.signedMax) {a : Nat}
    (inDims : a < dims.length) :
    Word.IsSigned ((loopStrides dims loop).getD a 0 * dims.getD a 0) := by
  have spanned := loopStrides_mul_le perm positive inDims
  have pos := loopStrides_pos perm positive inDims
  rw [List.getD_eq_getElem _ _ inDims] at spanned ⊢
  rw [Word.isSigned_iff]
  unfold Word.signedMax at fits
  constructor <;> nlinarith

/-- Along the loop, each axis spans at most the stride of every later axis. -/
theorem pairwise_loopStrides :
    loop.Pairwise fun a b =>
      (loopStrides dims loop).getD a 0 * dims.getD a 1 ≤ (loopStrides dims loop).getD b 0 := by
  rw [List.pairwise_iff_getElem]
  intro i j below inLoop before
  rw [getD_loopStrides_mul perm below, getD_loopStrides perm inLoop]
  refine Nat.cast_le.mpr (Nat.le_of_dvd (prod_take_pos perm positive j) ?_)
  exact ((List.take_sublist_take_left before).map (dims.getD · 1)).prod_dvd_prod

/-- Along the loop, the moving axes have strictly growing strides. -/
theorem pairwise_wide_loopStrides :
    (loop.filter fun a => 1 < dims.getD a 0).Pairwise fun a b =>
      (loopStrides dims loop).getD a 0 < (loopStrides dims loop).getD b 0 := by
  refine ((pairwise_loopStrides perm positive).sublist List.filter_sublist).imp_of_mem ?_
  intro a b mem _ nested
  obtain ⟨inDims, wide⟩ := mem_wide perm mem
  have pos := loopStrides_pos perm positive inDims
  have extent : (2 : Int) ≤ dims.getD a 1 := by
    rw [List.getD_eq_getElem _ _ inDims] at wide ⊢
    exact_mod_cast wide
  nlinarith

/-! ## The storage order of the strides -/

/-- The moving axes, listed in some order, nest one in the next exactly when that order is the
loop's. -/
theorem chainNests_map_iff (fits : (Extent.count dims : Int) ≤ Word.signedMax) {l : List Nat}
    (same : l.Perm (loop.filter fun a => 1 < dims.getD a 0)) :
    chainNests (l.map fun a => (dims.getD a 0, ((loopStrides dims loop).getD a 0).natAbs)) =
        true ↔
      l = loop.filter fun a => 1 < dims.getD a 0 := by
  rw [chainNests_iff_isChain, List.isChain_map]
  constructor
  · intro chain
    -- nesting axes have growing strides, and the loop's order is the only such order
    have growing : l.IsChain fun a b =>
        (loopStrides dims loop).getD a 0 < (loopStrides dims loop).getD b 0 := by
      refine chain.imp_of_mem_imp fun a b memA memB nested => ?_
      obtain ⟨inDims, wide⟩ := mem_wide perm (same.subset memA)
      obtain ⟨inDimsB, -⟩ := mem_wide perm (same.subset memB)
      have pos := loopStrides_pos perm positive inDims
      simp only [nestsIn, Bool.and_eq_true, decide_eq_true_eq] at nested
      have within : ((((loopStrides dims loop).getD a 0).natAbs * dims.getD a 0 : Nat) : Int) ≤
          (((loopStrides dims loop).getD b 0).natAbs : Int) := by exact_mod_cast nested.2
      push_cast at within
      rw [abs_of_pos pos, abs_of_pos (loopStrides_pos perm positive inDimsB)] at within
      have extent : (2 : Int) ≤ dims.getD a 0 := by exact_mod_cast wide
      nlinarith
    have sorted :=
      List.pairwise_map.mp ((List.isChain_map (R := (· < ·)) _).mpr growing).pairwise
    exact same.eq_of_pairwise (fun _ _ _ _ lt gt => absurd (lt.trans gt) (lt_irrefl _)) sorted
      (pairwise_wide_loopStrides perm positive)
  · rintro rfl
    refine List.Pairwise.isChain
      (((pairwise_loopStrides perm positive).sublist List.filter_sublist).imp_of_mem ?_)
    intro a b memA memB nested
    obtain ⟨inDims, -⟩ := mem_wide perm memA
    obtain ⟨inDimsB, -⟩ := mem_wide perm memB
    have bounded := loopStrides_mul_le perm positive inDims
    rw [List.getD_eq_getElem _ _ inDims] at nested bounded ⊢
    rw [← natAbs_loopStrides perm positive inDims, ← natAbs_loopStrides perm positive inDimsB]
      at nested
    rw [← natAbs_loopStrides perm positive inDims] at bounded
    simp only [nestsIn, Bool.and_eq_true, decide_eq_true_eq]
    unfold Word.signedMax at fits
    unfold Word.unsignedCount
    constructor <;> omega

/-- A stride strictly smaller than another ranks strictly lower. -/
theorem indexOrder_loopStrides_lt {a b : Nat} (inA : a < dims.length) (inB : b < dims.length)
    (smaller : (loopStrides dims loop).getD a 0 < (loopStrides dims loop).getD b 0) :
    (indexOrder (loopStrides dims loop)).getD a 0 <
      (indexOrder (loopStrides dims loop)).getD b 0 := by
  have lengths := length_loopStrides dims loop
  have posA := loopStrides_pos perm positive inA
  rw [List.getD_eq_getElem _ _ (lengths ▸ inA)] at smaller posA
  rw [List.getD_eq_getElem _ _ (lengths ▸ inB)] at smaller
  rw [indexOrder, getD_map_of_lt _ (lengths ▸ inA), getD_map_of_lt _ (lengths ▸ inB),
    if_neg posA.ne', if_neg (posA.trans smaller).ne']
  have inStrides : a < (loopStrides dims loop).length := lengths ▸ inA
  refine Nat.add_lt_add_left
    (countP_lt_countP (fun t below => ?_) (List.getElem_mem inStrides) ?_ ?_) 1
  · simp only [Bool.and_eq_true, decide_eq_true_eq] at below ⊢
    omega
  · simp only [Bool.and_eq_true, decide_eq_true_eq]
    omega
  · simp

/-- Sorted by the rank of their strides, the axes put the moving ones in the loop's order. -/
theorem filter_loopOrder_nonSpecific :
    (loopOrder dims.length (loopStrides dims loop) .nonSpecific).filter
      (fun a => 1 < dims.getD a 0) = loop.filter fun a => 1 < dims.getD a 0 := by
  have permSorted := ((loopOrder_perm dims.length (loopStrides dims loop) .nonSpecific).trans
    perm.symm).filter fun a => 1 < dims.getD a 0
  have ranked : ((List.range dims.length).mergeSort fun a b =>
      decide ((indexOrder (loopStrides dims loop)).getD a 0 ≤
        (indexOrder (loopStrides dims loop)).getD b 0)).Pairwise fun a b =>
      decide ((indexOrder (loopStrides dims loop)).getD a 0 ≤
        (indexOrder (loopStrides dims loop)).getD b 0) = true :=
    List.pairwise_mergeSort (fun _ _ _ first second => by simp only [decide_eq_true_eq] at *; omega)
      (fun _ _ => by simp only [Bool.or_eq_true, decide_eq_true_eq]; omega) _
  have nodup := permSorted.nodup_iff.mpr ((perm.nodup_iff.mpr List.nodup_range).filter _)
  have distinct := (List.pairwise_map.mpr (pairwise_wide_loopStrides perm positive)).nodup
  refine permSorted.eq_of_pairwise (fun _ _ _ _ lt gt => absurd (lt.trans gt) (lt_irrefl _)) ?_
    (pairwise_wide_loopStrides perm positive)
  refine ((ranked.sublist List.filter_sublist).and nodup).imp_of_mem fun memA memB ordered => ?_
  obtain ⟨inA, -⟩ := mem_wide perm (permSorted.subset memA)
  obtain ⟨inB, -⟩ := mem_wide perm (permSorted.subset memB)
  rcases lt_trichotomy ((loopStrides dims loop).getD _ 0) ((loopStrides dims loop).getD _ 0) with
    lt | same | gt
  · exact lt
  · exact absurd (List.inj_on_of_nodup_map distinct (permSorted.subset memA)
      (permSorted.subset memB) same) ordered.2
  · exact absurd (of_decide_eq_true ordered.1)
      (not_le.mpr (indexOrder_loopStrides_lt perm positive inB inA gt))

/-- The loop order of the strides laid along a loop visits the moving axes in that loop's order,
whatever storage order the strides classify as. -/
theorem filter_loopOrder_loopStrides (fits : (Extent.count dims : Int) ≤ Word.signedMax) :
    (loopOrder dims.length (loopStrides dims loop)
        (classifyOrder dims (loopStrides dims loop))).filter (fun a => 1 < dims.getD a 0) =
      loop.filter fun a => 1 < dims.getD a 0 := by
  have active := activeAxes_eq_map_filter (length_loopStrides dims loop)
  unfold classifyOrder
  dsimp only
  split_ifs with zero column row
  · exact filter_loopOrder_nonSpecific perm positive
  · rw [active] at column
    exact (chainNests_map_iff perm positive fits (perm.symm.filter _)).mp column
  · rw [active, ← List.map_reverse, ← List.filter_reverse] at row
    exact (chainNests_map_iff perm positive fits
      (((List.reverse_perm _).trans perm.symm).filter _)).mp row
  · exact filter_loopOrder_nonSpecific perm positive

end Positive

/-- A list that names nothing twice and reads the same backwards has at most one element. -/
theorem length_le_one_of_eq_reverse {α : Type} {l : List α} (nodup : l.Nodup)
    (same : l = l.reverse) : l.length ≤ 1 := by
  by_contra long
  have inside : 0 < l.length := by omega
  have ends := congrArg (·[0]?) same
  simp only [List.getElem?_reverse inside, List.getElem?_eq_getElem inside,
    List.getElem?_eq_getElem (show l.length - 1 - 0 < l.length by omega), Option.some.injEq] at ends
  have := (nodup.getElem_inj_iff).mp ends
  omega

/-- Dense strides laid out with the last axis innermost, over at least two moving axes, are
row-major. -/
theorem classifyOrder_loopStrides_reverse (positive : ∀ d ∈ dims, 0 < d)
    (fits : (Extent.count dims : Int) ≤ Word.signedMax)
    (moving : 2 ≤ ((List.range dims.length).filter fun a => 1 < dims.getD a 0).length) :
    classifyOrder dims (loopStrides dims (List.range dims.length).reverse) = .rowMajor := by
  have perm := List.reverse_perm (List.range dims.length)
  have inOrder := perm.symm.filter fun a => 1 < dims.getD a 0
  unfold classifyOrder
  dsimp only
  rw [activeAxes_eq_map_filter (length_loopStrides _ _), if_neg, if_neg, if_pos]
  · rw [← List.map_reverse, ← List.filter_reverse]
    exact (chainNests_map_iff perm positive fits (List.Perm.refl _)).mpr rfl
  · rw [chainNests_map_iff perm positive fits inOrder, List.filter_reverse]
    intro same
    have := length_le_one_of_eq_reverse (List.nodup_range.filter _) same
    omega
  · simp only [List.any_map, List.any_eq_true, Function.comp_apply, beq_iff_eq,
      Int.natAbs_eq_zero, not_exists, not_and]
    intro a mem
    exact (loopStrides_pos perm positive (mem_wide (List.Perm.refl _) mem).1).ne'

end Grid

end StridedGrid
