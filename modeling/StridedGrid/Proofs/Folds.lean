import Mathlib
import StridedGrid.Proofs.WriteKernels
import StridedGrid.Kernel.Basic

/-!
# Folds in traversal order

`Grid.scan`, `Grid.reduce` and `Grid.sum` fold the elements of an array in the order its bulk
traversals visit them (`Grid.traversal`): the whole buffer in order for flat and nested arrays,
the loop nest of the storage order for strided ones. `values_spec` says what that read gives:
for every array that fits its buffer and has a signed reach, it never overflows, it reads the
element at each index of the traversal, and the elements are the column-major listing's
(`Grid.listColumnMajor`), permuted, because the traversal visits each index of the box once (`traversal_perm_odometer`).

A fold over a permutation is the same fold when its operator is associative and commutative.
For `scan`, which seeds with the first element, the argument goes through `seeded`, the step
that turns a fold seeded by its first element into a fold from nothing; it commutes under those
laws, so `List.Perm.foldl_eq'` applies. An integer sum wraps at every step, and the wrap of one
step is undone by the next (`foldl_wraps`), so the sum is the wrapped sum of the elements in any
order.
-/

namespace StridedGrid

open Traversal

/-! ## Folds over a list -/

section Lists

variable {α β : Type}

/-- Reading every member of a list, where each read succeeds, is `filterMap` of the read. -/
theorem eq_filterMap_of_forall₂ {f : β → Option α} :
    ∀ {l : List β} {xs : List α}, List.Forall₂ (fun b x => f b = some x) l xs → xs = l.filterMap f
  | [], [], .nil => rfl
  | b :: l, x :: xs, .cons read rest => by
    rw [List.filterMap_cons, read, eq_filterMap_of_forall₂ rest]

/-- The step of a fold seeded by its first element: the first element becomes the accumulator,
each later one is combined into it. -/
def seeded (r : α → α → α) (acc : Option α) (x : α) : Option α :=
  some (match acc with
    | none => x
    | some prev => r prev x)

theorem foldl_seeded_some (r : α → α → α) (x : α) (rest : List α) :
    rest.foldl (seeded r) (some x) = some (rest.foldl r x) := by
  induction rest generalizing x with
  | nil => rfl
  | cons y rest ih => exact ih (r x y)

/-- A fold of an addition that wraps its sum, read through `val`, wraps the sum of the values:
the wrap of each step is undone by the next. -/
theorem foldl_wraps (add : α → α → α) (val : α → Int) (wrap : Int → Int)
    (val_add : ∀ a b, val (add a b) = wrap (val a + val b))
    (wrap_add : ∀ x y, wrap (wrap x + y) = wrap (x + y)) :
    ∀ (xs : List α) (acc : α), wrap (val acc) = val acc →
      val (xs.foldl add acc) = wrap (val acc + (xs.map val).sum)
  | [], acc, wrapped => by simp [wrapped]
  | x :: xs, acc, _ => by
    have wrapped : wrap (val (add acc x)) = val (add acc x) := by
      simpa [val_add] using wrap_add (val acc + val x) 0
    rw [List.foldl_cons, foldl_wraps add val wrap val_add wrap_add xs _ wrapped, val_add,
      wrap_add, List.map_cons, List.sum_cons, add_assoc]

variable {r : α → α → α} (assoc : ∀ a b c, r (r a b) c = r a (r b c)) (comm : ∀ a b, r a b = r b a)
include assoc comm

/-- With an associative and commutative operator, the seeded fold may take its elements in any
order. -/
theorem seeded_right_comm (acc : Option α) (x y : α) :
    seeded r (seeded r acc x) y = seeded r (seeded r acc y) x := by
  cases acc with
  | none => simp [seeded, comm x y]
  | some prev => simp [seeded, assoc, comm x y]

theorem mapped_right_comm (m : β → α) (acc : α) (x y : β) :
    r (r acc (m x)) (m y) = r (r acc (m y)) (m x) := by
  rw [assoc, comm (m x), ← assoc]

/-- A fold seeded by its first element gives the same result over a permutation of its list. -/
theorem foldl_seeded_perm {x y : α} {rest rest' : List α} (perm : (x :: rest).Perm (y :: rest')) :
    rest.foldl r x = rest'.foldl r y := by
  have reordered := perm.foldl_eq' (fun a _ b _ acc => seeded_right_comm assoc comm acc a b) none
  simpa [seeded, foldl_seeded_some] using reordered

/-- A fold of the images of the elements gives the same result over a permutation. -/
theorem foldl_mapped_perm (m : β → α) {xs ys : List β} (perm : xs.Perm ys) (init : α) :
    xs.foldl (fun acc x => r acc (m x)) init = ys.foldl (fun acc x => r acc (m x)) init :=
  perm.foldl_eq' (fun x _ y _ acc => mapped_right_comm assoc comm m acc x y) init

end Lists

namespace Kind

/-- An integer reduced modulo `2^bits` into the range of an integer kind of `bits` bits: two's
complement for the signed kinds, the residue for the unsigned byte. Other kinds leave it. -/
def wrapInt : Kind → Int → Int
  | .i8, v => v.bmod 256
  | .i16, v => v.bmod 65536
  | .i32, v => v.bmod 4294967296
  | .i64, v => v.bmod 18446744073709551616
  | .u8, v => v % 256
  | _, v => v

end Kind

namespace Grid

variable {α : Type}

/-- The traversal of an array visits the indices of its box in some order. -/
theorem traversal_perm_odometer (g : Grid) : g.traversal.Perm (odometer g.dims) :=
  (List.perm_ext_iff_of_nodup (nodup_traversal g) (nodup_odometer _)).mpr fun _ =>
    mem_traversal.trans mem_odometer.symm

theorem length_traversal (g : Grid) : g.traversal.length = g.len := by
  rw [(traversal_perm_odometer g).length_eq, length_odometer]
  rfl

section Reading

variable {g : Grid} {buffer : Array α} (fits : g.Fits buffer.size) (bounded : g.Bounded)
  (sized : buffer.size ≤ Word.signedMax.toNat)
include fits bounded sized

/-- A fitting array of signed reach, on a buffer no longer than the greatest signed word, is read
in traversal order without overflow: its values are the cells at the slots of its traversal. -/
theorem values_eq :
    g.values buffer = .ok (g.traversal.filterMap fun index => buffer[g.slot index]?) := by
  simp only [values, visits_eq fits bounded false fun _ => sized, List.filterMap_map]
  rfl

end Reading

/-- Cells read at the slots of indices of the box are the array's elements there. -/
theorem forall₂_get_of_cells {g : Grid} {buffer : Array α} (fits : g.Fits buffer.size)
    {indices : List (List Nat)} {xs : List α} (inBox : ∀ index ∈ indices, InBox g.dims index)
    (cells : List.Forall₂ (fun index x => buffer[g.slot index]? = some x) indices xs) :
    List.Forall₂ (fun index x => g.get buffer index = .ok x) indices xs :=
  ((List.forall₂_and_left _ _).mpr ⟨inBox, cells⟩).imp fun _ _ read =>
    get_of_getElem? fits read.1 read.2

theorem cells_traversal {g : Grid} {buffer : Array α} (fits : g.Fits buffer.size) :
    List.Forall₂ (fun index x => buffer[g.slot index]? = some x) g.traversal
      (g.traversal.filterMap fun index => buffer[g.slot index]?) :=
  forall₂_filterMap fun index mem => by
    simpa using fits.slot_lt (mem_traversal.mp mem)

/-- A fitting array of signed reach, on a buffer no longer than the greatest signed word, is read
without overflow: at each index of its traversal it reads the element there, one element per
index of the box, and the elements are those its column-major listing holds, in another order. -/
theorem values_spec {g : Grid} {buffer : Array α} (fits : g.Fits buffer.size) (bounded : g.Bounded)
    (sized : buffer.size ≤ Word.signedMax.toNat) :
    ∃ xs, g.values buffer = .ok xs ∧
      List.Forall₂ (fun index x => g.get buffer index = .ok x) g.traversal xs ∧
      xs.length = g.len ∧ ∃ ys, g.listColumnMajor buffer = .ok ys ∧
        List.Forall₂ (fun index y => g.get buffer index = .ok y) (odometer g.dims) ys ∧
        xs.Perm ys := by
  obtain ⟨ys, listed, cells⟩ := fits.listColumnMajor_forall₂ bounded
  refine ⟨_, values_eq fits bounded sized,
    forall₂_get_of_cells fits (fun _ mem => mem_traversal.mp mem) (cells_traversal fits),
    (cells_traversal fits).length_eq.symm.trans (length_traversal g), ys, listed,
    forall₂_get_of_cells fits (fun _ mem => mem_odometer.mp mem) cells, ?_⟩
  rw [eq_filterMap_of_forall₂ cells]
  exact (traversal_perm_odometer g).filterMap _

section Folds

variable {g : Grid} {buffer : Array α}

theorem scan_of_values {x : α} {rest : List α} (listed : g.values buffer = .ok (x :: rest))
    (r : α → α → α) : g.scan r buffer = .ok (some (rest.foldl r x)) := by
  simp only [scan, listed, Outcome.ok_bind]
  rfl

theorem reduce_of_values {xs : List α} (listed : g.values buffer = .ok xs) {β : Type}
    (m : α → β) (r : β → β → β) (init : β) :
    g.reduce m r init buffer = .ok (xs.foldl (fun acc x => r acc (m x)) init) := by
  simp only [reduce, listed, Outcome.ok_bind]
  rfl

end Folds

section Sums

variable [Element α] {g : Grid} {buffer : Array α}

/-- The sum of an array whose elements are integers that add by wrapping is the wrapped sum of
its elements over the box, whatever its traversal order. -/
theorem sum_of_wrapping (val : α → Int) (wrap : Int → Int)
    (scalar : ∀ x, Element.toScalar x = .int (val x))
    (val_add : ∀ a b, val (Element.add a b) = wrap (val a + val b))
    (wrap_add : ∀ x y, wrap (wrap x + y) = wrap (x + y))
    (zero : val Element.zero = 0) (wrap_zero : wrap 0 = 0)
    (fits : g.Fits buffer.size) (bounded : g.Bounded) (sized : buffer.size ≤ Word.signedMax.toNat) :
    ∃ s vs, g.sum buffer = .ok s ∧
      List.Forall₂ (fun index v => ∃ x, g.get buffer index = .ok x ∧ Element.toScalar x = .int v)
        (odometer g.dims) vs ∧
      Element.toScalar s = .int (wrap vs.sum) := by
  obtain ⟨xs, listed, -, -, ys, -, gets, perm⟩ := values_spec fits bounded sized
  refine ⟨_, ys.map val, reduce_of_values listed id Element.add Element.zero, ?_, ?_⟩
  · rw [List.forall₂_map_right_iff]
    exact gets.imp fun index x read => ⟨x, read, scalar x⟩
  · have unmapped : (fun acc x => Element.add acc (id x)) = (Element.add : α → α → α) := rfl
    rw [scalar, unmapped, foldl_wraps Element.add val wrap val_add wrap_add xs _ (by rw [zero, wrap_zero]),
      zero, zero_add, (perm.map val).sum_eq]

/-- Summing an array of any integer kind wraps: its sum is the sum of its elements over the box,
reduced modulo `2^bits` into the kind's range. -/
theorem sum_wraps (k : Kind) (integer : k.isInteger = true) {buffer : Array k.Carrier}
    (fits : g.Fits buffer.size) (bounded : g.Bounded) (sized : buffer.size ≤ Word.signedMax.toNat) :
    ∃ s vs, g.sum buffer = .ok s ∧
      List.Forall₂ (fun index v => ∃ x, g.get buffer index = .ok x ∧ Element.toScalar x = .int v)
        (odometer g.dims) vs ∧
      Element.toScalar s = .int (k.wrapInt vs.sum) := by
  cases k with
  | i8 =>
    exact sum_of_wrapping Int8.toInt (·.bmod 256) (fun _ => rfl) Int8.toInt_add
      (fun _ _ => Int.bmod_add_bmod) rfl rfl fits bounded sized
  | i16 =>
    exact sum_of_wrapping Int16.toInt (·.bmod 65536) (fun _ => rfl) Int16.toInt_add
      (fun _ _ => Int.bmod_add_bmod) rfl rfl fits bounded sized
  | i32 =>
    exact sum_of_wrapping Int32.toInt (·.bmod 4294967296) (fun _ => rfl) Int32.toInt_add
      (fun _ _ => Int.bmod_add_bmod) rfl rfl fits bounded sized
  | i64 =>
    exact sum_of_wrapping Int64.toInt (·.bmod 18446744073709551616) (fun _ => rfl) Int64.toInt_add
      (fun _ _ => Int.bmod_add_bmod) rfl rfl fits bounded sized
  | u8 =>
    refine sum_of_wrapping (fun x : UInt8 => (x.toNat : Int)) (· % 256) (fun _ => rfl)
      (fun a b => ?_) (fun x y => Int.emod_add_emod x 256 y) rfl rfl fits bounded sized
    change ((a + b).toNat : Int) = _
    rw [UInt8.toNat_add, Int.natCast_mod]
    rfl
  | f32 | f64 | c32 | c64 => simp [Kind.isInteger] at integer

end Sums

/-- Folds follow the traversal order: `scan` and `reduce` fold the elements along the traversal,
and with an associative and commutative operator the column-major listing, which `toList` copies
out when its room can be reserved. An integer sum is the wrapped sum over the box. -/
theorem folds_follow_traversal :
    (∀ {α : Type} [Element α] (g : Grid) (buffer : Array α), g.Fits buffer.size → g.Bounded →
      buffer.size ≤ Word.signedMax.toNat →
      ∃ xs, List.Forall₂ (fun index x => g.get buffer index = .ok x) g.traversal xs ∧
        xs.length = g.len ∧
        (∀ r : α → α → α, ∃ x rest, xs = x :: rest ∧ rest.length = g.len - 1 ∧
          g.scan r buffer = .ok (some (rest.foldl r x))) ∧
        (∀ {β : Type} (m : α → β) (r : β → β → β) (init : β),
          g.reduce m r init buffer = .ok (xs.foldl (fun acc x => r acc (m x)) init)) ∧
        ∃ ys, g.listColumnMajor buffer = .ok ys ∧
          g.toList buffer =
            (if g.HasListingRoom buffer then .ok ys else Outcome.panic .capacityOverflow) ∧
          (∀ r : α → α → α, (∀ a b c, r (r a b) c = r a (r b c)) → (∀ a b, r a b = r b a) →
            ∃ y rest, ys = y :: rest ∧ g.scan r buffer = .ok (some (rest.foldl r y))) ∧
          ∀ {β : Type} (m : α → β) (r : β → β → β), (∀ a b c, r (r a b) c = r a (r b c)) →
            (∀ a b, r a b = r b a) → ∀ init : β,
              g.reduce m r init buffer = .ok (ys.foldl (fun acc x => r acc (m x)) init)) ∧
    ∀ (k : Kind), k.isInteger = true → ∀ (g : Grid) (buffer : Array k.Carrier),
      g.Fits buffer.size → g.Bounded → buffer.size ≤ Word.signedMax.toNat →
      ∃ s vs, g.sum buffer = .ok s ∧
        List.Forall₂ (fun index v => ∃ x, g.get buffer index = .ok x ∧ Element.toScalar x = .int v)
          (odometer g.dims) vs ∧
        Element.toScalar s = .int (k.wrapInt vs.sum) := by
  refine ⟨fun g buffer fits bounded sized => ?_,
    fun k integer g buffer fits bounded sized => sum_wraps k integer fits bounded sized⟩
  obtain ⟨xs, listed, gets, length, ys, columns, -, perm⟩ := values_spec fits bounded sized
  -- every shape holds an element, so both listings have a first one
  have held : 0 < xs.length := by rw [length]; exact g.shape.len_pos
  obtain ⟨x, rest, rfl⟩ := List.exists_cons_of_length_pos held
  have listedHeld : 0 < ys.length := by rw [← perm.length_eq]; exact held
  obtain ⟨y, rest', rfl⟩ := List.exists_cons_of_length_pos listedHeld
  refine ⟨x :: rest, gets, length, fun r => ⟨x, rest, rfl, ?_, scan_of_values listed r⟩,
    fun m r init => reduce_of_values listed m r init, y :: rest', columns,
    by rw [toList_eq_ite, columns], fun r assoc comm => ⟨y, rest', rfl, ?_⟩,
    fun m r assoc comm init => ?_⟩
  · rw [← length, List.length_cons, Nat.add_sub_cancel]
  · rw [scan_of_values listed, foldl_seeded_perm assoc comm perm]
  · rw [reduce_of_values listed, foldl_mapped_perm assoc comm m perm]

/-- A view of `2^60` doubles that all read the one cell of its buffer: `scan` folds its elements,
but their column-major copy would take `2^63` bytes and cannot be made. -/
theorem scan_without_listing_room :
    let g : Grid := ⟨⟨[1152921504606846976], by decide⟩, .strided 0 [0] .nonSpecific⟩
    g.Fits (#[0] : Array Float).size ∧ g.Bounded ∧
      (∃ s, g.scan Element.add (#[0] : Array Float) = .ok (some s)) ∧
      g.toList (#[0] : Array Float) = Outcome.panic .capacityOverflow := by
  intro g
  obtain ⟨fits, bounded⟩ := zeroStride_fits_bounded (show (#[0] : Array Float).size = 1 from rfl)
  obtain ⟨xs, listed, -, length, -⟩ := values_spec fits bounded (by decide)
  have held : 0 < xs.length := by rw [length]; exact g.shape.len_pos
  obtain ⟨x, rest, rfl⟩ := List.exists_cons_of_length_pos held
  exact ⟨fits, bounded, ⟨_, scan_of_values listed Element.add⟩,
    toList_of_not_hasListingRoom (by decide)⟩

end Grid

end StridedGrid
