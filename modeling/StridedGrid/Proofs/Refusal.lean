import Mathlib
import StridedGrid.Proofs.StoreInvariant
import StridedGrid.Proofs.LoopOrder

/-!
# Refusals keep the store

A step that fails other than by a broken precondition leaves the store exactly as it found it:
every buffer, and so every row of every nested array, holds what it held, and no buffer or array
is added (`Session.clean_step`). Every step reads first: its fields, the arrays it names and their
buffers. Every check it makes comes before its one write, which replaces a buffer, appends an
array on an existing buffer or appends one on a new buffer; after the write only a broken
precondition can stop it (a kernel that overflows, a buffer too large to reserve).

The library's own refusals follow the order of its checks. An element index is refused exactly
when it has the wrong length or a coordinate past its extent, which is exactly when reading or
writing it unchecked breaks the precondition. A view reports a rank mismatch before a range and a
range before the layout; a slice reports an invalid axis before a position outside the axis, and
that before the layout.
-/

namespace StridedGrid

namespace Failure

/-- Whether a failure is a broken precondition of the library. -/
def isPanic : Failure → Bool
  | .fault (.panic _) => true
  | _ => false

end Failure

namespace Session

open Traversal

variable {α β : Type} {s : Store} {m : Session α}

/-- A run of `m` from `s` that fails other than by a broken precondition leaves the store as it
found it. -/
def Clean (m : Session α) (s : Store) : Prop :=
  ∀ f t, m.run s = .error f t → f.isPanic = false → t = s

/-- Every failure of a run of `m` from `s` is a broken precondition. -/
def Commits (m : Session α) (s : Store) : Prop :=
  ∀ f t, m.run s = .error f t → f.isPanic = true

theorem Commits.clean (commits : Commits m s) : Clean m s := by
  intro f t ran notPanic
  rw [commits f t ran] at notPanic
  cases notPanic

theorem Reads.clean {P : α → Prop} (reads : Reads m s P) : Clean m s := by
  intro f t ran _
  rcases reads with ⟨a, ran', -⟩ | ⟨e, ran'⟩ <;> rw [ran'] at ran <;> cases ran
  rfl

/-- After a read, a run is clean when the rest is, from what the read answered. -/
theorem Clean.bind_reads {P : α → Prop} {f : α → Session β} (first : Reads m s P)
    (rest : ∀ a, P a → Clean (f a) s) : Clean (m >>= f) s := by
  intro e t ran notPanic
  rcases first with ⟨a, ran', holds⟩ | ⟨e', ran'⟩ <;> rw [EStateM.run_bind, ran'] at ran
  · exact rest a holds e t ran notPanic
  · cases ran
    rfl

/-- A run fails only by broken preconditions when its first part does and the rest does from
wherever the first part answers. -/
theorem Commits.bind {f : α → Session β} (first : Commits m s)
    (rest : ∀ a t, m.run s = .ok a t → Commits (f a) t) : Commits (m >>= f) s := by
  intro e u ran
  cases ran' : m.run s with
  | ok a t =>
    rw [EStateM.run_bind, ran'] at ran
    exact rest a t ran' e u ran
  | error e' t =>
    have broken := first e' t ran'
    rw [EStateM.run_bind, ran'] at ran
    cases ran
    exact broken

/-- A run that always answers never fails. -/
theorem commits_of_run {a : α} {t : Store} (ran : m.run s = .ok a t) : Commits m s := by
  intro f u failed
  rw [ran] at failed
  cases failed

theorem commits_pure (a : α) : Commits (pure a) s := commits_of_run rfl

theorem commits_modifyGet (f : Store → α × Store) : Commits (modifyGet f : Session α) s :=
  commits_of_run (show (modifyGet f : Session α).run s = .ok (f s).1 (f s).2 from rfl)

/-- A library outcome that never refuses fails only by a broken precondition. -/
theorem commits_outcome {o : Outcome α} (never : ∀ e, o ≠ Outcome.reject e) :
    Commits (outcome o) s := by
  intro f t ran
  cases o with
  | ok a => cases ran
  | error fault =>
    cases fault with
    | error e => exact absurd rfl (never e)
    | panic p =>
      cases ran
      rfl

/-- Listing an array never refuses: it can only run out of room or overflow. -/
theorem Grid.toList_ne_reject [Element α] (g : Grid) (buffer : Array α) (e : GridError) :
    g.toList buffer ≠ Outcome.reject e := by
  rw [Grid.toList_eq_ite]
  split
  · unfold Grid.listColumnMajor
    split
    · dsimp only
      split <;> simp [Outcome.panic, Outcome.reject]
    · simp [Outcome.reject]
  · simp [Outcome.panic, Outcome.reject]

/-- The buffer of an array that the store holds is read without failing. -/
theorem bufferOf_run {h : Handle} {data : Array h.kind.Carrier} (found : s.data? h = some data) :
    (bufferOf h).run s = .ok data s := by
  show (need (s.data? h)).run s = _
  rw [found]
  rfl

/-- Describing an array whose buffer is found fails only by a broken precondition. -/
theorem commits_describe {h : Handle} {data : Array h.kind.Carrier} (found : s.data? h = some data) :
    Commits (describe h) s := by
  unfold describe
  refine Commits.bind (commits_of_run (bufferOf_run found)) fun buffer t ran => ?_
  rw [bufferOf_run found] at ran
  cases ran
  exact Commits.bind (commits_outcome (Grid.toList_ne_reject _ _)) fun _ _ _ => commits_pure _

/-- Appending an array reads it out first and appends it last. -/
theorem clean_append (h : Handle) : Clean (append h) s := by
  unfold append
  exact Clean.bind_reads (reads_describe h) fun _ _ =>
    (Commits.bind (commits_modifyGet _) fun _ _ _ => commits_pure _).clean

/-- Appending an array on a new buffer fails only by a broken precondition: the buffer is
there to be read out. -/
theorem commits_create (k : Kind) (grid : Grid) (data : Array k.Carrier) :
    Commits (create k grid data) s := by
  unfold create append
  refine Commits.bind (commits_modifyGet _) fun buffer t ran => ?_
  cases ran
  have found : (s.allocate k data).1.data? ⟨k, grid, (s.allocate k data).2⟩ = some data := by
    simp [Store.data?, Store.allocate_found]
  exact Commits.bind (commits_describe found) fun _ _ _ =>
    Commits.bind (commits_modifyGet _) fun _ _ _ => commits_pure _

/-- Keeping what a kernel wrote fails only at the kernel's overflow. -/
theorem commits_storeWritten (h : Handle) (w : Written h.kind.Carrier) :
    Commits (storeWritten h w) s := by
  unfold storeWritten
  refine Commits.bind (commits_of_run rfl) fun _ t _ => ?_
  split
  · intro f u ran
    cases ran
    rfl
  · exact commits_pure _

theorem commits_store (h : Handle) (data : Array h.kind.Carrier) : Commits (store h data) s :=
  commits_of_run rfl

/-! ## The steps -/

/-- Views only read until they append the view. -/
theorem clean_viewing (op : String) (step : Json) : Clean (viewing op step) s := by
  unfold viewing
  refine Clean.bind_reads (reads_arrayArg step "a") fun h _ => ?_
  refine Clean.bind_reads (reads_bufferOf h) fun data _ => ?_
  dsimp only
  split
  · refine Clean.bind_reads (reads_lift _) fun ranges _ => ?_
    exact Clean.bind_reads (reads_outcome _) fun _ _ => clean_append _
  · refine Clean.bind_reads (reads_lift _) fun axis _ => ?_
    refine Clean.bind_reads (reads_lift _) fun index _ => ?_
    exact Clean.bind_reads (reads_outcome _) fun _ _ => clean_append _
  · refine Clean.bind_reads (reads_lift _) fun perm _ => ?_
    exact Clean.bind_reads (reads_outcome _) fun _ _ => clean_append _

/-- Element access writes last, after every check. -/
theorem clean_access (op : String) (step : Json) : Clean (access op step) s := by
  unfold access
  refine Clean.bind_reads (reads_arrayArg step "a") fun h _ => ?_
  refine Clean.bind_reads (reads_bufferOf h) fun data _ => ?_
  split
  case h_1 | h_2 =>
    refine Clean.bind_reads (reads_lift _) fun index _ => ?_
    exact ((reads_outcome _).bind fun _ _ => reads_pure (P := fun _ => True) trivial).clean
  case h_3 | h_4 =>
    refine Clean.bind_reads (reads_lift _) fun index _ => ?_
    refine Clean.bind_reads (reads_elementArg step "value" h.kind) fun v _ => ?_
    refine Clean.bind_reads (reads_outcome _) fun written _ => ?_
    exact (Commits.bind (commits_store h written) fun _ _ _ => commits_pure _).clean
  · exact (reads_describe h).clean
  · exact ((reads_arrayArg step "b").bind fun _ _ => reads_pure (P := fun _ => True) trivial).clean
  · exact (reads_pure (P := fun _ => True) trivial).clean

/-- Writing one array from another reads both and checks their shapes before it writes. -/
theorem clean_mapInto (dest source : Handle) (f : source.kind.Carrier → dest.kind.Carrier) :
    Clean (mapInto dest source f) s := by
  unfold mapInto
  refine Clean.bind_reads (reads_bufferOf dest) fun destData _ => ?_
  refine Clean.bind_reads (reads_bufferOf source) fun sourceData _ => ?_
  exact Clean.bind_reads (reads_outcome _) fun w _ => (commits_storeWritten dest w).clean

/-- A clean run followed by an answer is clean. -/
theorem Clean.bind_pure (first : Clean m s) (answer : α → β) :
    Clean (m >>= fun a => pure (answer a)) s := by
  intro e t ran notPanic
  cases ran' : m.run s with
  | ok a u =>
    rw [EStateM.run_bind, ran'] at ran
    cases ran
  | error e' u =>
    rw [EStateM.run_bind, ran'] at ran
    cases ran
    exact first _ _ ran' notPanic

/-- In-place kernels read their arguments, then keep what they wrote. -/
theorem clean_writing (op : String) (step : Json) : Clean (writing op step) s := by
  unfold writing
  split
  · refine Clean.bind_reads (reads_arrayArg step "dest") fun dest _ => ?_
    refine Clean.bind_reads (reads_arrayArg step "src") fun source _ => ?_
    refine Clean.bind_reads (reads_elementOr _ _ _ _) fun mul _ => ?_
    refine Clean.bind_reads (reads_elementOr _ _ _ _) fun add _ => ?_
    dsimp only
    split
    · exact Clean.bind_reads (reads_throw (P := fun _ => False) _) fun _ => False.elim
    · exact (clean_mapInto _ _ _).bind_pure _
  · refine Clean.bind_reads (reads_arrayArg step "dest") fun dest _ => ?_
    refine Clean.bind_reads (reads_arrayArg step "src") fun source _ => ?_
    split
    · exact (clean_mapInto _ _ _).bind_pure _
    · exact (reads_throw (P := fun _ => True) _).clean
  · refine Clean.bind_reads (reads_arrayArg step "a") fun h _ => ?_
    refine Clean.bind_reads (reads_bufferOf h) fun data _ => ?_
    have kept : ∀ w : Written h.kind.Carrier,
        Clean (storeWritten h w >>= fun _ => pure ([] : List (String × Json))) s :=
      fun w => (commits_storeWritten h w).clean.bind_pure _
    split
    · exact Clean.bind_reads (reads_elementArg _ _ _) fun v _ => kept _
    · refine Clean.bind_reads (reads_elementsArg _ _ _) fun values _ => ?_
      dsimp only
      split
      · exact Clean.bind_reads (reads_throw (P := fun _ => False) _) fun _ => False.elim
      · exact Clean.bind_reads (reads_outcome _) fun w _ => kept w
    · refine Clean.bind_reads (reads_lift _) fun coefs _ => ?_
      refine Clean.bind_reads (reads_lift _) fun base _ => ?_
      exact Clean.bind_reads (reads_outcome _) fun w _ => (commits_storeWritten h w).clean.bind_pure _
    · refine Clean.bind_reads (reads_elementOr _ _ _ _) fun mul _ => ?_
      exact Clean.bind_reads (reads_elementOr _ _ _ _) fun add _ => kept _
    · exact Clean.bind_reads (reads_elementArg _ _ _) fun v _ => kept _
    · exact Clean.bind_reads (reads_elementArg _ _ _) fun v _ => kept _
    · exact (reads_throw (P := fun _ => True) _).clean

/-- Folds only read. -/
theorem reads_folding (op : String) (step : Json) : Reads (folding op step) s fun _ => True := by
  unfold folding
  refine (reads_arrayArg step "a").bind fun h _ => (reads_bufferOf h).bind fun data _ => ?_
  have answered : ∀ {γ : Type} (o : Outcome γ) (answer : γ → List (String × Json)),
      Reads (outcome o >>= fun x => pure (answer x)) s fun _ => True :=
    fun o answer => (reads_outcome o).bind fun _ _ => reads_pure trivial
  split
  · refine (reads_lift _).bind fun name _ => (reads_need _).bind fun r _ => ?_
    exact (reads_outcome _).bind fun _ _ => answered _ _
  · refine (reads_lift _).bind fun name _ => (reads_need _).bind fun r _ => ?_
    refine (reads_elementArg _ _ _).bind fun init _ => ?_
    refine (reads_elementOr _ _ _ _).bind fun mul _ => ?_
    exact (reads_elementOr _ _ _ _).bind fun _ _ => answered _ _
  · exact answered _ _
  · exact answered _ _

/-- Copies read the array and check everything before they append the copy. -/
theorem clean_copying (op : String) (step : Json) : Clean (copying op step) s := by
  unfold copying
  refine Clean.bind_reads (reads_arrayArg step "a") fun h _ => ?_
  refine Clean.bind_reads (reads_bufferOf h) fun data _ => ?_
  have created : ∀ (k : Kind) (copied : Grid × Array k.Carrier),
      Clean (create k copied.1 copied.2) s := fun k copied => (commits_create _ _ _).clean
  split
  · refine Clean.bind_reads (reads_lift _) fun forceCopy _ => ?_
    refine Clean.bind_reads (reads_lift _) fun into _ => ?_
    refine Clean.bind_reads (reads_outcome _) fun flat _ => ?_
    dsimp only
    cases into with
    | none => exact (reads_pure (P := fun _ => True) trivial).clean
    | some dims =>
      refine Clean.bind_reads (reads_check _) fun shape _ => ?_
      refine Clean.bind_reads (reads_check _) fun grid _ => ?_
      cases flat with
      | shared => exact (clean_append _).bind_pure _
      | owned xs => exact (commits_create _ _ _).clean.bind_pure _
  · exact Clean.bind_reads (reads_outcome _) fun _ _ => (reads_pure (P := fun _ => True) trivial).clean
  · exact Clean.bind_reads (reads_outcome _) fun copied _ => created _ copied
  · exact Clean.bind_reads (reads_outcome _) fun copied _ => created _ copied
  · refine Clean.bind_reads (reads_lift _) fun target _ => ?_
    refine Clean.bind_reads (reads_outcome _) fun converted _ => ?_
    cases converted with
    | same => exact clean_append h
    | copy grid copy => exact (commits_create _ _ _).clean
  · refine Clean.bind_reads (reads_outcome _) fun converted _ => ?_
    cases converted <;>
      exact Clean.bind_reads ((reads_outcome _).map _) fun _ _ =>
        (reads_pure (P := fun _ => True) trivial).clean
  · refine Clean.bind_reads (reads_lift _) fun condition _ => ?_
    refine Clean.bind_reads (reads_lift _) fun offsets _ => ?_
    exact Clean.bind_reads (reads_outcome _) fun copied _ => created _ copied

/-- New arrays are appended on new buffers, or on existing ones, after every field is read. -/
theorem clean_creation (op : String) (step : Json) (k : Kind) : Clean (creation op step k) s := by
  unfold creation
  have created : ∀ (grid : Grid) (data : Array k.Carrier), Clean (create k grid data) s :=
    fun grid data => (commits_create _ _ _).clean
  split
  · exact Clean.bind_reads (reads_elementArg _ _ _) fun v _ => created _ _
  case h_2 | h_3 =>
    refine Clean.bind_reads (reads_shapeArg _ _) fun shape _ => ?_
    exact Clean.bind_reads (reads_reserve _ _) fun _ _ => created _ _
  · refine Clean.bind_reads (reads_shapeArg _ _) fun shape _ => ?_
    refine Clean.bind_reads (reads_elementArg _ _ _) fun v _ => ?_
    exact Clean.bind_reads (reads_reserve _ _) fun _ _ => created _ _
  · refine Clean.bind_reads (reads_shapeArg _ _) fun shape _ => ?_
    refine Clean.bind_reads (reads_check _) fun extents _ => ?_
    obtain ⟨rowLen, rowCount⟩ := extents
    refine Clean.bind_reads (reads_reserve _ _) fun _ _ => ?_
    refine Clean.bind_reads (reads_outcome _) fun _ _ => ?_
    refine Clean.bind_reads (reads_check _) fun filled _ => ?_
    exact created _ _
  · refine Clean.bind_reads (reads_shapeArg _ _) fun shape _ => ?_
    refine Clean.bind_reads (reads_elementsArg _ _ _) fun data _ => ?_
    exact Clean.bind_reads (reads_check _) fun grid _ => created _ _
  · refine Clean.bind_reads (reads_shapeArg _ _) fun shape _ => ?_
    refine Clean.bind_reads (reads_lift _) fun coefs _ => ?_
    refine Clean.bind_reads (reads_lift _) fun base _ => ?_
    refine Clean.bind_reads (reads_outcome _) fun made _ => ?_
    obtain ⟨grid, data⟩ := made
    exact created _ _
  · refine Clean.bind_reads (reads_lift _) fun rows _ => ?_
    refine Clean.bind_reads
      (reads_mapM (fun row => (reads_mapM (fun _ => reads_element _ _) row).mono fun _ _ =>
        True.intro) _) fun rows _ => ?_
    refine Clean.bind_reads (reads_shapeArg _ _) fun shape _ => ?_
    exact Clean.bind_reads (reads_check _) fun made _ => created _ _
  · refine Clean.bind_reads (reads_sourceBuffer _ _) fun source _ => ?_
    refine Clean.bind_reads (reads_shapeArg _ _) fun shape _ => ?_
    refine Clean.bind_reads (reads_lift _) fun offset _ => ?_
    refine Clean.bind_reads (reads_lift _) fun strides _ => ?_
    cases source with
    | inl buffer =>
      refine Clean.bind_reads (reads_bufferSize buffer) fun n _ => ?_
      exact Clean.bind_reads (reads_outcome _) fun grid _ => clean_append _
    | inr data => exact Clean.bind_reads (reads_outcome _) fun grid _ => created _ _
  · refine Clean.bind_reads (reads_sourceBuffer _ _) fun source _ => ?_
    refine Clean.bind_reads (reads_shapeArg _ _) fun shape _ => ?_
    cases source with
    | inl buffer =>
      refine Clean.bind_reads (reads_bufferSize buffer) fun n _ => ?_
      exact Clean.bind_reads (reads_check _) fun grid _ => clean_append _
    | inr data => exact Clean.bind_reads (reads_check _) fun grid _ => created _ _
  · exact (reads_throw (P := fun _ => True) _).clean

/-- The step lemma: a step that fails other than by a broken precondition leaves the store as
it found it. -/
theorem clean_step (default : Kind) (step : Json) : Clean (Session.step default step) s := by
  unfold Session.step
  refine Clean.bind_reads (reads_lift _) fun op _ => ?_
  refine Clean.bind_reads (reads_lift _) fun kind _ => ?_
  -- one goal per operation name, each handed to its group
  split
  all_goals first
    | with_reducible exact clean_creation _ _ _
    | with_reducible exact clean_viewing _ _
    | with_reducible exact clean_access _ _
    | with_reducible exact clean_writing _ _
    | with_reducible exact (reads_folding _ _).clean
    | with_reducible exact clean_copying _ _
    | with_reducible exact (reads_throw (P := fun _ => True) _).clean

end Session

end StridedGrid

namespace StridedGrid

open Traversal

namespace Range

theorem bound_of_le {length : Nat} (small : (length : Int) ≤ Word.signedMax) :
    bound length = .ok length := by
  simp [bound, Word.signedOfUnsigned?, small]

/-- A single position outside an axis, counted from either end, is refused as out of bounds. -/
theorem compile_single_of_outside {length : Nat} {index : Int}
    (small : (length : Int) ≤ Word.signedMax)
    (outside : index < -(length : Int) ∨ (length : Int) ≤ index) :
    (single index).compile length = Outcome.reject (.rangeOutOfBounds index index length) := by
  have resolved : resolveEnd length index < 0 ∨ resolveEnd length index ≥ length := by
    unfold resolveEnd
    split <;> omega
  simp [compile, single, bound_of_le small, resolved, Outcome.reject]

/-- A single position on an axis, counted from either end, compiles. -/
theorem compile_single_of_inside {length : Nat} {index : Int}
    (small : (length : Int) ≤ Word.signedMax)
    (inside : -(length : Int) ≤ index ∧ index < length) :
    ∃ c, (single index).compile length = .ok c := by
  have resolved : ¬(resolveEnd length index < 0 ∨ resolveEnd length index ≥ length) := by
    unfold resolveEnd
    split <;> omega
  simp [compile, single, bound_of_le small, resolved]

end Range

namespace Grid

variable {α : Type} {g : Grid} {buffer : Array α} {index : List Nat}

/-- An index lies outside an array's box exactly when it has the wrong length or a coordinate at
or past its extent. -/
theorem not_inBox_iff :
    ¬InBox g.dims index ↔ index.length ≠ g.rank ∨ ∃ k < g.rank, g.dims.getD k 1 ≤ index.getD k 0 := by
  rw [inBox_iff_getD, not_and_or]
  simp [rank, Shape.rank, dims]

theorem contains_eq_false (outside : ¬InBox g.dims index) : g.shape.contains index = false := by
  cases contained : g.shape.contains index with
  | false => rfl
  | true => exact absurd ((Shape.contains_iff_inBox _ _).mp contained) outside

theorem tryGet_of_not_inBox (outside : ¬InBox g.dims index) :
    g.tryGet buffer index = Outcome.reject (.indexOutOfBounds index g.dims) := by
  simp [tryGet, ensureIndex, contains_eq_false outside]

theorem trySet_of_not_inBox (outside : ¬InBox g.dims index) (v : α) :
    g.trySet buffer index v = Outcome.reject (.indexOutOfBounds index g.dims) := by
  simp [trySet, ensureIndex, contains_eq_false outside]

theorem get_of_not_inBox (outside : ¬InBox g.dims index) :
    g.get buffer index = Outcome.panic .indexOutOfRange := by
  simp [get, checkIndex, contains_eq_false outside]

theorem set_of_not_inBox (outside : ¬InBox g.dims index) (v : α) :
    g.set buffer index v = Outcome.panic .indexOutOfRange := by
  simp [set, checkIndex, contains_eq_false outside]

theorem tryGet_of_inBox (inBox : InBox g.dims index) : g.tryGet buffer index = g.get buffer index := by
  simp [tryGet, ensureIndex, (Shape.contains_iff_inBox _ _).mpr inBox]

theorem trySet_of_inBox (inBox : InBox g.dims index) (v : α) :
    g.trySet buffer index v = g.set buffer index v := by
  simp [trySet, ensureIndex, (Shape.contains_iff_inBox _ _).mpr inBox]

/-- Checked access to an element of a fitting array refuses exactly the indices that break
unchecked access, and otherwise is unchecked access. -/
theorem index_refusals (fits : g.Fits buffer.size) (index : List Nat) (v : α) :
    (g.tryGet buffer index = Outcome.reject (.indexOutOfBounds index g.dims) ↔
      ¬InBox g.dims index) ∧
    (g.trySet buffer index v = Outcome.reject (.indexOutOfBounds index g.dims) ↔
      ¬InBox g.dims index) ∧
    (g.get buffer index = Outcome.panic .indexOutOfRange ↔ ¬InBox g.dims index) ∧
    (g.set buffer index v = Outcome.panic .indexOutOfRange ↔ ¬InBox g.dims index) ∧
    (InBox g.dims index →
      g.tryGet buffer index = g.get buffer index ∧ g.trySet buffer index v = g.set buffer index v) := by
  by_cases inBox : InBox g.dims index
  · obtain ⟨x, -, read⟩ := get_ok fits inBox
    have written := set_ok fits inBox v
    rw [tryGet_of_inBox inBox, trySet_of_inBox inBox, read, written]
    simp [inBox, Outcome.reject, Outcome.panic]
  · rw [tryGet_of_not_inBox inBox, trySet_of_not_inBox inBox, get_of_not_inBox inBox,
      set_of_not_inBox inBox]
    simp [inBox]

/-- A view with one range too many or too few is refused for its rank, before any range is
looked at. -/
theorem view_of_rank_ne {size : Nat} {ranges : List Range} (differ : ranges.length ≠ g.rank) :
    g.view size ranges = Outcome.reject (.rankMismatch ranges.length g.rank) := by
  simp [view, differ]

/-- A range that does not compile is reported before the layout is looked at. -/
theorem view_of_compile_error {size : Nat} {ranges : List Range} (same : ranges.length = g.rank)
    {fault : Fault} (refused : (ranges.zip g.dims).mapM (fun p => p.1.compile p.2) = .error fault) :
    g.view size ranges = .error fault := by
  simp only [view, same, ne_eq, not_true_eq_false, if_false]
  rw [refused]
  rfl

/-- A view that moves a nested array is refused for its layout once its ranges compile. -/
theorem view_of_nested {size : Nat} {ranges : List Range} (same : ranges.length = g.rank)
    {compiled : List Range.Compiled}
    (accepted : (ranges.zip g.dims).mapM (fun p => p.1.compile p.2) = .ok compiled)
    (moved : compiled.all (·.trivial) = false) (nested : g.storage = .nested) :
    g.view size ranges = Outcome.reject (.unsupportedLayout .nested .view) := by
  simp only [view, same, ne_eq, not_true_eq_false, if_false]
  rw [accepted, Outcome.ok_bind, moved]
  simp [partsFor, descriptor?, layout, nested]

/-- An axis past the rank is refused before the position is looked at. -/
theorem slice_of_rank_le {size axis : Nat} {index : Int} (beyond : g.rank ≤ axis) :
    g.slice size axis index = Outcome.reject (.invalidAxis axis g.rank) := by
  simp [slice, beyond]

theorem getD_dims_le {axis : Nat} (below : axis < g.rank) :
    (g.dims.getD axis 1 : Int) ≤ Word.signedMax := by
  have inDims : axis < g.dims.length := below
  have member : g.dims.getD axis 1 ∈ g.dims := by
    rw [List.getD_eq_getElem _ _ inDims]
    exact List.getElem_mem _
  exact (g.shape.extentsFit _ member).2

/-- A position outside the axis is refused before the layout is looked at. -/
theorem slice_of_outside {size axis : Nat} {index : Int} (below : axis < g.rank)
    (outside : index < -(g.dims.getD axis 1 : Int) ∨ (g.dims.getD axis 1 : Int) ≤ index) :
    g.slice size axis index =
      Outcome.reject (.rangeOutOfBounds index index (g.dims.getD axis 1)) := by
  have beyond : ¬g.rank ≤ axis := by omega
  simp only [slice, ge_iff_le, beyond, if_false]
  rw [Range.compile_single_of_outside (getD_dims_le below) outside]
  rfl

/-- A position on the axis of a nested array is refused for the layout. -/
theorem slice_of_nested {size axis : Nat} {index : Int} (below : axis < g.rank)
    (inside : -(g.dims.getD axis 1 : Int) ≤ index ∧ index < g.dims.getD axis 1)
    (nested : g.storage = .nested) :
    g.slice size axis index = Outcome.reject (.unsupportedLayout .nested .slice) := by
  have beyond : ¬g.rank ≤ axis := by omega
  obtain ⟨c, compiled⟩ := Range.compile_single_of_inside (getD_dims_le below) inside
  simp only [slice, ge_iff_le, beyond, if_false]
  rw [compiled]
  simp [partsFor, descriptor?, layout, nested]

end Grid

/-- Failed operations leave the state intact: a step failing other than by a broken precondition
leaves the store as it was. Element access refuses exactly the indices outside the box, and views
and slices report their refusals in the order of their checks. -/
theorem refusals_keep_state :
    (∀ (default : Kind) (step : Json) (s t : Store) (f : Failure),
      (Session.step default step).run s = .error f t → f.isPanic = false → t = s) ∧
    (∀ {α : Type} (g : Grid) (buffer : Array α) (index : List Nat) (v : α), g.Fits buffer.size →
      (¬InBox g.dims index ↔
        index.length ≠ g.rank ∨ ∃ k < g.rank, g.dims.getD k 1 ≤ index.getD k 0) ∧
      (g.tryGet buffer index = Outcome.reject (.indexOutOfBounds index g.dims) ↔
        ¬InBox g.dims index) ∧
      (g.trySet buffer index v = Outcome.reject (.indexOutOfBounds index g.dims) ↔
        ¬InBox g.dims index) ∧
      (g.get buffer index = Outcome.panic .indexOutOfRange ↔ ¬InBox g.dims index) ∧
      (g.set buffer index v = Outcome.panic .indexOutOfRange ↔ ¬InBox g.dims index)) ∧
    (∀ (g : Grid) (size : Nat) (ranges : List Range),
      (ranges.length ≠ g.rank →
        g.view size ranges = Outcome.reject (.rankMismatch ranges.length g.rank)) ∧
      (ranges.length = g.rank → ∀ fault,
        (ranges.zip g.dims).mapM (fun p => p.1.compile p.2) = .error fault →
        g.view size ranges = .error fault) ∧
      (ranges.length = g.rank → ∀ compiled,
        (ranges.zip g.dims).mapM (fun p => p.1.compile p.2) = .ok compiled →
        compiled.all (·.trivial) = false → g.storage = .nested →
        g.view size ranges = Outcome.reject (.unsupportedLayout .nested .view))) ∧
    (∀ (g : Grid) (size axis : Nat) (index : Int),
      (g.rank ≤ axis → g.slice size axis index = Outcome.reject (.invalidAxis axis g.rank)) ∧
      (axis < g.rank →
        (index < -(g.dims.getD axis 1 : Int) ∨ (g.dims.getD axis 1 : Int) ≤ index) →
        g.slice size axis index =
          Outcome.reject (.rangeOutOfBounds index index (g.dims.getD axis 1))) ∧
      (axis < g.rank →
        (-(g.dims.getD axis 1 : Int) ≤ index ∧ index < g.dims.getD axis 1) →
        g.storage = .nested →
        g.slice size axis index = Outcome.reject (.unsupportedLayout .nested .slice))) := by
  refine ⟨fun default step s t f ran notPanic => Session.clean_step default step f t ran notPanic,
    fun g buffer index v fits => ?_, fun g size ranges => ?_, fun g size axis index => ?_⟩
  · obtain ⟨tryGet, trySet, get, set, -⟩ := Grid.index_refusals fits index v
    exact ⟨Grid.not_inBox_iff, tryGet, trySet, get, set⟩
  · exact ⟨Grid.view_of_rank_ne, fun same _ refused => Grid.view_of_compile_error same refused,
      fun same _ accepted moved nested => Grid.view_of_nested same accepted moved nested⟩
  · exact ⟨Grid.slice_of_rank_le, Grid.slice_of_outside, Grid.slice_of_nested⟩

/-- A view of a two-element array asking for position three is refused with the range's bounds,
and the store holding the array is left as it was. -/
theorem refusals_keep_state_range_past_end :
    let zeros : Json := .obj [("op", .str "zeros"), ("dims", .arr [.nat 2])]
    let view : Json := .obj [("op", .str "view"), ("a", .nat 0),
      ("ranges", .arr [.obj [("first", .nat 3), ("last", .nat 3)]])]
    ∃ answer s t, (Session.step .f64 zeros).run ({} : Store) = .ok answer s ∧
      (Session.step .f64 view).run s = .error (.fault (.error (.rangeOutOfBounds 3 3 2))) t ∧
      t = s := by
  intro zeros view
  exact ⟨_, _, _, rfl, rfl, refusals_keep_state.1 .f64 view _ _ _ rfl rfl⟩

end StridedGrid
