import Mathlib
import StridedGrid.Proofs.LoopNestExact
import StridedGrid.Proofs.Listing

/-!
# Loop nests over views of bounded reach

The reach of a view is `|offset| + Σ |stride_k| * extent_k`. When it is a signed word, so is
every position a loop nest computes while walking the view, whatever buffer it lies in: a
position of the box moved by one more stride of any axis, and a loop's span, are both at most
the reach from zero (`abs_weighted_sub_add_le`). A planned nest keeps each operand's positions and
strides among the view's (`Faithful.forall₂_of_positions`), so its walk reaches only signed
words (`Faithful.reaches`) and visits every index of the box once, in loop order, with no
overflow (`walk_eq_of_walkable`). A view whose positions lie below `2^62` walks safely too, its
steps bounded as in `Within`.
-/

namespace StridedGrid

namespace Traversal

/-- Two indices of the box move a view apart by at most its sweep less one stride, of any axis. -/
theorem abs_weighted_sub_add_le : ∀ {dims x y : List Nat} {strides : List Int},
    strides.length ≤ dims.length → InBox dims x → InBox dims y → ∀ a,
      |Extent.weighted x strides - Extent.weighted y strides| + |strides.getD a 0| ≤
        sweep dims strides
  | [], x, y, strides, short, inX, inY, a => by
    have empty : strides = [] := List.eq_nil_of_length_eq_zero (by simpa using short)
    rw [inBox_nil_iff.mp inX, inBox_nil_iff.mp inY, empty]
    simp [sweep]
  | _ :: _, [], _, _, _, inX, _, _ => absurd inX inBox_cons_nil
  | _ :: _, _ :: _, [], _, _, _, inY, _ => absurd inY inBox_cons_nil
  | d :: dims, i :: x, j :: y, [], _, _, _, _ => by simp [sweep]
  | d :: dims, i :: x, j :: y, s :: strides, short, inX, inY, a => by
    rcases inBox_cons_cons.mp inX with ⟨belowI, inX⟩
    rcases inBox_cons_cons.mp inY with ⟨belowJ, inY⟩
    have rest := abs_weighted_sub_add_le (by simpa using short) inX inY
    have gap : |((i : Int) - j)| ≤ (d : Int) - 1 := by
      rw [abs_le]
      constructor <;> omega
    have apart : |((i : Int) - j) * s| ≤ ((d : Int) - 1) * |s| := by
      rw [abs_mul]
      exact mul_le_mul_of_nonneg_right gap (abs_nonneg s)
    have split : Extent.weighted (i :: x) (s :: strides) - Extent.weighted (j :: y) (s :: strides) =
        ((i : Int) - j) * s + (Extent.weighted x strides - Extent.weighted y strides) := by
      simp only [weighted_cons_cons]
      ring
    have triangle := abs_add_le (((i : Int) - j) * s)
      (Extent.weighted x strides - Extent.weighted y strides)
    rw [split, sweep_cons_cons]
    cases a with
    | zero =>
      have restApart := rest strides.length
      simp only [List.getD_eq_getElem?_getD, List.getElem?_eq_none le_rfl, Option.getD_none,
        abs_zero, add_zero] at restApart
      simp only [List.getD_cons_zero]
      linarith
    | succ a =>
      have restApart := rest a
      simp only [List.getD_cons_succ]
      have : 0 ≤ |s| := abs_nonneg s
      linarith

/-- A stride times its extent is at most the sweep. -/
theorem abs_getD_mul_le_sweep : ∀ (dims : List Nat) (strides : List Int) (a : Nat),
    |strides.getD a 0| * dims.getD a 0 ≤ sweep dims strides
  | [], strides, a => by simp [sweep]
  | _ :: _, [], a => by simp [sweep]
  | d :: dims, s :: strides, 0 => by
    have := sweep_nonneg dims strides
    simp only [List.getD_cons_zero, sweep_cons_cons]
    linarith
  | d :: dims, s :: strides, a + 1 => by
    have := abs_getD_mul_le_sweep dims strides a
    have : 0 ≤ |s| * d := by positivity
    simp only [List.getD_cons_succ, sweep_cons_cons]
    linarith

/-- An operand reaches only signed words when its positions over the box, and the differences of
two of them, each moved by one more stride of any loop, stay no farther from zero than the
greatest signed word. -/
theorem reaches_of_abs_le : ∀ {dims : List Nat} {offset : Int} {strides : List Int},
    (∀ e ∈ dims, 0 < e) →
    (∀ index, InBox dims index → ∀ k,
      |position offset strides index| + |strides.getD k 0| ≤ Word.signedMax) →
    (∀ index, InBox dims index → ∀ other, InBox dims other → ∀ k,
      |position offset strides index - position offset strides other| + |strides.getD k 0| ≤
        Word.signedMax) →
    Reaches dims offset strides
  | [], offset, strides, _, step, _ => by
    have here := step [] (inBox_nil_iff.mpr rfl) 0
    have : |offset| ≤ Word.signedMax := by
      simp only [position, weighted_nil_left, add_zero] at here
      linarith [abs_nonneg (strides.getD 0 0)]
    exact Word.isSigned_of_abs_le this
  | extent :: dims, offset, strides, positive, step, span => by
    have positiveHere : 0 < extent := positive extent (.head _)
    have positiveRest : ∀ e ∈ dims, 0 < e := fun e mem => positive e (.tail _ mem)
    have headStride : strides.getD 0 0 = strides.headD 0 := by cases strides <;> rfl
    have tailStride : ∀ k, strides.tail.getD k 0 = strides.getD (k + 1) 0 := by
      intro k
      cases strides <;> simp
    refine ⟨fun index inBox j upTo => ?_, ?_, reaches_of_abs_le positiveRest ?_ ?_⟩
    · rcases Nat.lt_or_eq_of_le upTo with inside | rfl
      · have := step (j :: index) (inBox_cons_cons.mpr ⟨inside, inBox⟩) 0
        exact Word.isSigned_of_abs_le (by linarith [abs_nonneg (strides.getD 0 0)])
      · have last := step ((j - 1) :: index) (inBox_cons_cons.mpr ⟨by omega, inBox⟩) 0
        have past : position offset strides (j :: index) =
            position offset strides ((j - 1) :: index) + strides.headD 0 := by
          rw [position_cons_eq, position_cons_eq]
          push_cast [Nat.cast_sub (by omega : 1 ≤ j)]
          ring
        rw [headStride] at last
        rw [past]
        exact Word.isSigned_of_abs_le ((abs_add_le _ _).trans last)
    · have start := zeros_inBox positiveRest
      have ends := span ((extent - 1) :: List.replicate dims.length 0)
        (inBox_cons_cons.mpr ⟨by omega, start⟩) (0 :: List.replicate dims.length 0)
        (inBox_cons_cons.mpr ⟨positiveHere, start⟩) 0
      have spanned : strides.headD 0 * extent =
          position offset strides ((extent - 1) :: List.replicate dims.length 0) -
            position offset strides (0 :: List.replicate dims.length 0) + strides.headD 0 := by
        rw [position_cons_eq, position_cons_eq]
        push_cast [Nat.cast_sub (by omega : 1 ≤ extent)]
        ring
      rw [headStride] at ends
      rw [spanned]
      exact Word.isSigned_of_abs_le ((abs_add_le _ _).trans ends)
    · intro index inBox k
      have := step (0 :: index) (inBox_cons_cons.mpr ⟨positiveHere, inBox⟩) (k + 1)
      simpa [position_cons_eq, tailStride] using this
    · intro index inBox other inOther k
      have := span (0 :: index) (inBox_cons_cons.mpr ⟨positiveHere, inBox⟩) (0 :: other)
        (inBox_cons_cons.mpr ⟨positiveHere, inOther⟩) (k + 1)
      simpa [position_cons_eq, tailStride] using this

/-- What a walk needs of an operand over a box: its reach is a signed word, or its positions over
the box lie in `[0, 2^62)`. -/
def Walkable (dims : List Nat) (op : Int × List Int) : Prop :=
  |op.1| + sweep dims op.2 ≤ Word.signedMax ∨ Within 4611686018427387904 dims op.1 op.2

/-- A walkable view spans a signed word along every axis wider than one. -/
theorem Walkable.signed_span {dims : List Nat} {op : Int × List Int} (fit : Walkable dims op)
    (positive : ∀ d ∈ dims, 0 < d) (length : op.2.length = dims.length) {a : Nat}
    (below : a < dims.length) (wide : 1 < dims.getD a 0) :
    Word.IsSigned (op.2.getD a 0 * dims.getD a 0) := by
  rcases fit with bound | within
  · have spanned := abs_getD_mul_le_sweep dims op.2 a
    have := abs_nonneg op.1
    apply Word.isSigned_of_abs_le
    rw [abs_mul, Nat.abs_cast]
    linarith
  · exact LoopNest.signed_span_of_inside positive le_rfl length within below wide

namespace LoopNest

variable {dims axes : List Nat} {operands : List (Int × List Int)}

/-- Loops at least two wide whose every position is a position of a walkable view, and whose
every stride is one of its strides, reach only signed words. -/
theorem reaches_of_walkable {nestDims : List Nat} {op : Int × List Int} {s : List Int}
    (wide : ∀ e ∈ nestDims, 1 < e) (positive : ∀ d ∈ dims, 0 < d)
    (length : op.2.length = dims.length) (fit : Walkable dims op)
    (positions : ∀ c, InBox nestDims c →
      ∃ index, InBox dims index ∧ position op.1 s c = position op.1 op.2 index)
    (axes : ∀ j, ∃ a, s.getD j 0 = op.2.getD a 0) :
    Reaches nestDims op.1 s := by
  rcases fit with bound | within
  · have short : op.2.length ≤ dims.length := length.le
    apply reaches_of_abs_le fun e mem => by have := wide e mem; omega
    · intro c inBox k
      rcases positions c inBox with ⟨index, inDims, same⟩
      rcases axes k with ⟨a, stride⟩
      have apart := abs_weighted_sub_add_le short inDims (zeros_inBox positive) a
      rw [weighted_replicate_zero, sub_zero] at apart
      have triangle := abs_add_le op.1 (Extent.weighted index op.2)
      rw [same, stride, position]
      linarith
    · intro c inBox c' inBox' k
      rcases positions c inBox with ⟨index, inDims, same⟩
      rcases positions c' inBox' with ⟨index', inDims', same'⟩
      rcases axes k with ⟨a, stride⟩
      have apart := abs_weighted_sub_add_le short inDims inDims' a
      have moved : position op.1 op.2 index - position op.1 op.2 index' =
          Extent.weighted index op.2 - Extent.weighted index' op.2 := by
        unfold position
        ring
      rw [same, same', stride, moved]
      linarith [abs_nonneg op.1]
  · refine Within.reaches le_rfl (fun c inBox => ?_) wide
    rcases positions c inBox with ⟨index, inDims, same⟩
    rw [same]
    exact within index inDims

/-- A faithful nest over walkable views reaches only signed words. -/
theorem Faithful.reaches {nest : LoopNest} (faithful : Faithful nest dims operands axes)
    (perm : axes.Perm (List.range dims.length))
    (lengths : ∀ op ∈ operands, op.2.length = dims.length) (positive : ∀ d ∈ dims, 0 < d)
    (fit : ∀ op ∈ operands, Walkable dims op) :
    List.Forall₂ (Reaches nest.dims) nest.offsets nest.strides :=
  faithful.forall₂_of_positions perm lengths fun op member _ positions axes =>
    reaches_of_walkable faithful.wide positive (lengths op member) (fit op member) positions axes

/-- A faithful nest over a box whose extents multiply to a signed word has every extent a
signed word. -/
theorem Faithful.extents_fit {nest : LoopNest} (faithful : Faithful nest dims operands axes)
    (perm : axes.Perm (List.range dims.length)) (fits : dims.prod ≤ Word.signedMax.toNat) :
    ∀ e ∈ nest.dims, 1 < e ∧ (e : Int) ≤ Word.signedMax := by
  intro e mem
  have bounded : e ≤ nest.dims.prod :=
    Nat.le_of_dvd (List.prod_pos fun d member => by have := faithful.wide d member; omega)
      (List.dvd_prod mem)
  rw [faithful.prod_eq, prod_map_getD_of_perm perm] at bounded
  refine ⟨faithful.wide e mem, ?_⟩
  unfold Word.signedMax at fits ⊢
  omega

/-- Walking walkable operands over a shape visits every index of the box once, in the loop order
of the first operand, handing every operand its position there, and no step overflows. Without
slices a box of extents one is stepped past, so every offset plus one must be a signed word. -/
theorem walk_eq_of_walkable (shape : Shape) (order : Order) (slices : Bool)
    (operands : List (Int × List Int))
    (lengths : ∀ op ∈ operands, op.2.length = shape.dims.length)
    (fit : ∀ op ∈ operands, Walkable shape.dims op)
    (past : slices = false → ∀ op ∈ operands, Word.IsSigned (op.1 + 1)) :
    walk shape.dims order operands slices =
      ⟨(loopIndices shape.dims
          (loopOrder shape.dims.length ((operands.head?.map Prod.snd).getD []) order)).map
        fun index => operands.map fun op => position op.1 op.2 index, false⟩ := by
  have perm := loopOrder_perm shape.dims.length ((operands.head?.map Prod.snd).getD []) order
  have positive : ∀ d ∈ shape.dims, 0 < d := shape.valid.1
  have fits : shape.dims.prod ≤ Word.signedMax.toNat := by
    simpa [Extent.count_eq_prod] using shape.valid.2
  obtain ⟨nest, planned, faithful⟩ := plan_eq_some order positive fits
    fun a below wide op member => (fit op member).signed_span positive (lengths op member) below wide
  rw [walk, planned]
  dsimp only
  rw [positions_eq_of_reaches slices (faithful.extents_fit perm fits)
      (faithful.reaches perm lengths positive fit), faithful.calls_eq, calls_ofAxes_eq perm lengths]
  intro _ unsliced o mem
  rw [faithful.offsets_eq] at mem
  rcases List.mem_map.mp mem with ⟨op, member, rfl⟩
  exact past unsliced op member

end LoopNest

end Traversal

end StridedGrid
