import Mathlib
import StridedGrid.Proofs.Preservation
import StridedGrid.Session.Program

/-!
# The representation invariant of a store

A store is well formed when every array in it names a buffer of its own kind that its grid fits
(`Store.WellFormed`). Arrays share buffers, so the invariant must survive writes made through
any array. It does, because no operation changes the length or the kind of a buffer once it is
made, and no operation removes an array: every step of a program runs from a store to one that
extends it (`Store.Extends`), and fitting a buffer depends on nothing else.

The proof follows the shape of a step. A step first reads: its fields, the arrays it names and
their buffers. Reads leave the store as it is (`Session.Reads`). It then writes at most once in
one of three ways, each of which keeps the invariant given what the reads established
(`Session.Keeps`): it replaces a buffer by one of the same length, it appends an array on an
existing buffer, or it appends an array on a new buffer. The facts the writes need come from
the lemmas of `Preservation`: what the library makes fits its buffer, and what it writes keeps
the length of the buffer.
-/

namespace StridedGrid

open Traversal

namespace Handle

/-- An array fits a store: its buffer is there, holds elements of the array's kind, and the
array's grid fits the buffer's length. -/
def FitsIn (h : Handle) (s : Store) : Prop :=
  ∃ b, s.buffers[h.buffer]? = some b ∧ b.kind = h.kind ∧ h.grid.Fits b.data.size

end Handle

namespace Store

/-- The representation invariant: every array of the store fits it. -/
def WellFormed (s : Store) : Prop := ∀ h ∈ s.arrays, h.FitsIn s

/-- A later store keeps every buffer of an earlier one, with its kind and length, and every
array, under the same numbers. -/
structure Extends (s t : Store) : Prop where
  buffers : ∀ (i : Nat) (b : Buffer), s.buffers[i]? = some b →
    ∃ b', t.buffers[i]? = some b' ∧ b'.kind = b.kind ∧ b'.data.size = b.data.size
  arrays : s.arrays.toList <+: t.arrays.toList

theorem Extends.refl (s : Store) : s.Extends s :=
  ⟨fun _ b found => ⟨b, found, rfl, rfl⟩, List.prefix_refl _⟩

theorem Extends.trans {s t u : Store} (first : s.Extends t) (second : t.Extends u) :
    s.Extends u := by
  refine ⟨fun i b found => ?_, first.arrays.trans second.arrays⟩
  obtain ⟨b', found', kind', size'⟩ := first.buffers i b found
  obtain ⟨b'', found'', kind'', size''⟩ := second.buffers i b' found'
  exact ⟨b'', found'', kind''.trans kind', size''.trans size'⟩

theorem Extends.mem {s t : Store} (later : s.Extends t) {h : Handle} (member : h ∈ s.arrays) :
    h ∈ t.arrays := by
  rw [← Array.mem_toList_iff] at member ⊢
  exact later.arrays.subset member

end Store

/-- Fitting a store depends only on the kinds and lengths of its buffers. -/
theorem Handle.FitsIn.mono {h : Handle} {s t : Store} (fits : h.FitsIn s) (later : s.Extends t) :
    h.FitsIn t := by
  obtain ⟨b, found, kind, gridFits⟩ := fits
  obtain ⟨b', found', kind', size'⟩ := later.buffers _ b found
  exact ⟨b', found', kind'.trans kind, size' ▸ gridFits⟩

namespace Store

variable {s : Store}

theorem allocate_extends (k : Kind) (data : Array k.Carrier) : s.Extends (s.allocate k data).1 := by
  refine ⟨fun i b found => ⟨b, ?_, rfl, rfl⟩, List.prefix_refl _⟩
  have below : i < s.buffers.size := (Array.getElem?_eq_some_iff.mp found).1
  simp only [allocate]
  rw [Array.getElem?_push_lt below]
  exact (Array.getElem?_eq_getElem below).symm.trans found

theorem allocate_wellFormed (wellFormed : s.WellFormed) (k : Kind) (data : Array k.Carrier) :
    (s.allocate k data).1.WellFormed :=
  fun h member => (wellFormed h member).mono (allocate_extends k data)

/-- A new buffer is found under the number allocation answers. -/
theorem allocate_found (k : Kind) (data : Array k.Carrier) :
    (s.allocate k data).1.buffers[(s.allocate k data).2]? = some ⟨k, data⟩ := by
  simp [allocate]

theorem register_extends (h : Handle) : s.Extends (s.register h).1 :=
  ⟨fun _ b found => ⟨b, found, rfl, rfl⟩, by simp [register]⟩

theorem register_wellFormed (wellFormed : s.WellFormed) {h : Handle} (fits : h.FitsIn s) :
    (s.register h).1.WellFormed := by
  intro h' member
  simp only [register, Array.mem_push] at member
  rcases member with old | rfl
  · exact (wellFormed h' old).mono (register_extends h)
  · exact fits.mono (register_extends _)

/-- Replacing a buffer by one of the same kind and length. -/
theorem write_extends {i : Nat} {k : Kind} {data : Array k.Carrier} {b : Buffer}
    (found : s.buffers[i]? = some b) (kind : b.kind = k) (size : data.size = b.data.size) :
    s.Extends (s.write i k data) := by
  refine ⟨fun j c foundC => ?_, List.prefix_refl _⟩
  simp only [write, Array.set!_eq_setIfInBounds, Array.getElem?_setIfInBounds]
  by_cases same : i = j
  · subst same
    rw [found] at foundC
    cases foundC
    have below : i < s.buffers.size := (Array.getElem?_eq_some_iff.mp found).1
    exact ⟨⟨k, data⟩, by simp [below], kind.symm, size⟩
  · exact ⟨c, by simp [same, foundC], rfl, rfl⟩

theorem write_wellFormed (wellFormed : s.WellFormed) {i : Nat} {k : Kind} {data : Array k.Carrier}
    {b : Buffer} (found : s.buffers[i]? = some b) (kind : b.kind = k)
    (size : data.size = b.data.size) : (s.write i k data).WellFormed :=
  fun h member => (wellFormed h member).mono (write_extends found kind size)

/-- The buffer that `data?` gives an array is the array's buffer, at the array's kind. -/
theorem data?_eq_some {h : Handle} {data : Array h.kind.Carrier} (found : s.data? h = some data) :
    ∃ b, s.buffers[h.buffer]? = some b ∧ b.kind = h.kind ∧ b.data.size = data.size := by
  unfold data? at found
  cases foundB : s.buffers[h.buffer]? with
  | none => simp [foundB] at found
  | some b =>
    rw [foundB] at found
    obtain ⟨kind, bufferData⟩ := b
    dsimp only at found
    by_cases same : kind = h.kind
    · rw [dif_pos same] at found
      cases found
      subst same
      exact ⟨_, rfl, rfl, rfl⟩
    · rw [dif_neg same] at found
      cases found

/-- An array that fits its store finds its buffer. -/
theorem FitsIn.data?_isSome {h : Handle} (fits : h.FitsIn s) : ∃ data, s.data? h = some data := by
  obtain ⟨b, found, kind, -⟩ := fits
  refine ⟨kind ▸ b.data, ?_⟩
  simp [data?, found, kind]

end Store

namespace Json

/-- A field read as a signed word holds a signed word. -/
theorem isize?_isSigned {j : Json} {n : Int} (read : isize? j = some n) : Word.IsSigned n := by
  cases j with
  | nat m =>
    simp only [isize?] at read
    split at read
    · rename_i bounded
      cases read
      exact ⟨by unfold Word.signedMin; omega, bounded⟩
    · cases read
  | int m =>
    simp only [isize?] at read
    split at read
    · cases read
      assumption
    · cases read
  | _ => cases read

theorem need_isize_isSigned {j : Json} {name : String} {n : Int}
    (read : j.need name isize? = .ok n) : Word.IsSigned n := by
  unfold need Reading.need at read
  split at read
  · rename_i found
    cases read
    obtain ⟨v, -, readV⟩ := Option.bind_eq_some_iff.mp found
    exact isize?_isSigned readV
  · cases read

end Json

namespace Session

variable {α β : Type} {s : Store} {m : Session α}

/-- A run of `m` from `s` ends in the store `t`, with an answer or a failure. -/
def EndsIn (m : Session α) (s t : Store) : Prop :=
  (∃ a, m.run s = .ok a t) ∨ ∃ e, m.run s = .error e t

/-- Running `m` from `s` leaves a well-formed store that extends `s`, however the run ends. -/
def Keeps (m : Session α) (s : Store) : Prop :=
  ∀ t, EndsIn m s t → t.WellFormed ∧ s.Extends t

/-- A read leaves the store as it is: it answers a value with property `P`, or fails. -/
def Reads (m : Session α) (s : Store) (P : α → Prop) : Prop :=
  (∃ a, m.run s = .ok a s ∧ P a) ∨ ∃ e, m.run s = .error e s

theorem Reads.keeps {P : α → Prop} (reads : Reads m s P) (wellFormed : s.WellFormed) :
    Keeps m s := by
  intro t ends
  have same : t = s := by
    rcases reads with ⟨a, ran, -⟩ | ⟨e, ran⟩ <;> rcases ends with ⟨a', ran'⟩ | ⟨e', ran'⟩ <;>
      rw [ran] at ran' <;> cases ran' <;> rfl
  subst same
  exact ⟨wellFormed, .refl t⟩

theorem Reads.mono {P Q : α → Prop} (reads : Reads m s P) (weaker : ∀ a, P a → Q a) :
    Reads m s Q := by
  rcases reads with ⟨a, ran, holds⟩ | failed
  · exact .inl ⟨a, ran, weaker a holds⟩
  · exact .inr failed

theorem Reads.bind {P : α → Prop} {Q : β → Prop} {f : α → Session β} (first : Reads m s P)
    (rest : ∀ a, P a → Reads (f a) s Q) : Reads (m >>= f) s Q := by
  rcases first with ⟨a, ran, holds⟩ | ⟨e, ran⟩
  · rcases rest a holds with ⟨b, ran', holds'⟩ | ⟨e, ran'⟩
    · exact .inl ⟨b, by rw [EStateM.run_bind, ran]; exact ran', holds'⟩
    · exact .inr ⟨e, by rw [EStateM.run_bind, ran]; exact ran'⟩
  · exact .inr ⟨e, by rw [EStateM.run_bind, ran]⟩

theorem EndsIn.of_bind {f : α → Session β} {a : α} {t u : Store} (ran : m.run s = .ok a t)
    (ends : EndsIn (m >>= f) s u) : EndsIn (f a) t u := by
  rcases ends with ⟨b, ran'⟩ | ⟨e, ran'⟩ <;> rw [EStateM.run_bind, ran] at ran'
  · exact .inl ⟨b, ran'⟩
  · exact .inr ⟨e, ran'⟩

theorem EndsIn.of_bind_error {f : α → Session β} {e : Failure} {t u : Store}
    (ran : m.run s = .error e t) (ends : EndsIn (m >>= f) s u) : u = t := by
  rcases ends with ⟨b, ran'⟩ | ⟨e', ran'⟩ <;> rw [EStateM.run_bind, ran] at ran'
  · cases ran'
  · cases ran'
    rfl

/-- A run keeps the invariant when its first part does and the rest does from wherever the
first part answers. -/
theorem Keeps.bind {f : α → Session β} (first : Keeps m s)
    (rest : ∀ a t, m.run s = .ok a t → t.WellFormed → Keeps (f a) t) : Keeps (m >>= f) s := by
  intro u ends
  cases ran : m.run s with
  | ok a t =>
    obtain ⟨wellFormed, later⟩ := first t (.inl ⟨a, ran⟩)
    obtain ⟨wellFormed', later'⟩ := rest a t ran wellFormed u (ends.of_bind ran)
    exact ⟨wellFormed', later.trans later'⟩
  | error e t =>
    rw [ends.of_bind_error ran]
    exact first t (.inr ⟨e, ran⟩)

/-- After a read, a run keeps the invariant when the rest does from what the read answered. -/
theorem Keeps.bind_reads {P : α → Prop} {f : α → Session β} (wellFormed : s.WellFormed)
    (first : Reads m s P) (rest : ∀ a, P a → Keeps (f a) s) : Keeps (m >>= f) s := by
  intro t ends
  rcases first with ⟨a, ran, holds⟩ | ⟨e, ran⟩
  · exact rest a holds t (ends.of_bind ran)
  · rw [ends.of_bind_error ran]
    exact ⟨wellFormed, .refl s⟩

/-- A run that answers in a well-formed store extending `s` keeps the invariant. -/
theorem keeps_of_run {a : α} {t : Store} (ran : m.run s = .ok a t) (wellFormed : t.WellFormed)
    (later : s.Extends t) : Keeps m s := by
  intro u ends
  have same : u = t := by
    rcases ends with ⟨b, ran'⟩ | ⟨e, ran'⟩ <;> rw [ran] at ran'
    · cases ran'
      rfl
    · cases ran'
  subst same
  exact ⟨wellFormed, later⟩

/-- A first part that answers in a store extending `s` hands the run on to the rest from
there. -/
theorem Keeps.bind_ok {f : α → Session β} {a : α} {s' : Store} (ran : m.run s = .ok a s')
    (later : s.Extends s') (rest : Keeps (f a) s') : Keeps (m >>= f) s := by
  intro t ends
  obtain ⟨wellFormed', later'⟩ := rest t (ends.of_bind ran)
  exact ⟨wellFormed', later.trans later'⟩

/-! ## Reads -/

theorem reads_pure {P : α → Prop} {a : α} (holds : P a) : Reads (pure a) s P :=
  .inl ⟨a, rfl, holds⟩

theorem reads_throw {P : α → Prop} (e : Failure) : Reads (throw e : Session α) s P :=
  .inr ⟨e, rfl⟩

theorem Reads.map {P : α → Prop} (reads : Reads m s P) (f : α → β) :
    Reads (f <$> m) s fun _ => True := by
  rw [map_eq_pure_bind]
  exact reads.bind fun _ _ => reads_pure True.intro

theorem reads_get : Reads (get : Session Store) s (· = s) :=
  .inl ⟨s, rfl, rfl⟩

theorem reads_lift (r : Reading α) : Reads (lift r) s (fun a => r = .ok a) := by
  cases r with
  | ok a => exact .inl ⟨a, rfl, rfl⟩
  | error e => exact .inr ⟨e, rfl⟩

theorem reads_outcome (o : Outcome α) : Reads (outcome o) s (fun a => o = .ok a) := by
  cases o with
  | ok a => exact .inl ⟨a, rfl, rfl⟩
  | error e => exact .inr ⟨_, rfl⟩

theorem reads_check (r : Except GridError α) : Reads (check r) s (fun a => r = .ok a) := by
  cases r with
  | ok a => exact .inl ⟨a, rfl, rfl⟩
  | error e => exact .inr ⟨_, rfl⟩

theorem reads_need (o : Option α) : Reads (need o) s (fun a => o = some a) := by
  cases o with
  | some a => exact .inl ⟨a, rfl, rfl⟩
  | none => exact .inr ⟨_, rfl⟩

theorem reads_arrayArg (step : Json) (name : String) :
    Reads (arrayArg step name) s (· ∈ s.arrays) := by
  unfold arrayArg
  refine (reads_lift _).bind fun id _ => reads_get.bind fun current same => ?_
  subst same
  refine (reads_need _).mono fun h found => ?_
  exact Array.mem_of_getElem? found

theorem reads_bufferOf (h : Handle) : Reads (bufferOf h) s (fun data => s.data? h = some data) := by
  unfold bufferOf
  refine reads_get.bind fun current same => ?_
  subst same
  exact reads_need _

/-- A mapping by reads is a read, and answers one value for each item. -/
theorem reads_mapM {γ : Type} {f : γ → Session α} (each : ∀ x, Reads (f x) s fun _ => True) :
    ∀ xs : List γ, Reads (xs.mapM f) s (fun ys => ys.length = xs.length)
  | [] => reads_pure rfl
  | x :: xs => by
    rw [List.mapM_cons]
    refine (each x).bind fun y _ => (reads_mapM each xs).bind fun ys counted => ?_
    exact reads_pure (by simp [counted])

theorem reads_element (k : Kind) (v : Scalar) : Reads (element k v) s fun _ => True :=
  (reads_need _).mono fun _ _ => trivial

theorem reads_elementArg (step : Json) (name : String) (k : Kind) :
    Reads (elementArg step name k) s fun _ => True :=
  (reads_lift _).bind fun v _ => reads_element k v

theorem reads_elementOr (step : Json) (name : String) (k : Kind) (default : k.Carrier) :
    Reads (elementOr step name k default) s fun _ => True := by
  unfold elementOr
  refine (reads_lift _).bind fun v _ => ?_
  cases v with
  | none => exact reads_pure trivial
  | some v => exact reads_element k v

theorem reads_elementsArg (step : Json) (name : String) (k : Kind) :
    Reads (elementsArg step name k) s fun _ => True :=
  (reads_lift _).bind fun vs _ =>
    (reads_mapM (fun v => reads_element k v) vs).mono fun _ _ => trivial

theorem reads_shapeArg (step : Json) (name : String) : Reads (shapeArg step name) s fun _ => True :=
  (reads_lift _).bind fun _ _ => (reads_check _).mono fun _ _ => trivial

theorem reads_reserve (k : Kind) (count : Nat) : Reads (reserve k count) s fun _ => True :=
  (reads_outcome _).mono fun _ _ => trivial

theorem reads_describe (h : Handle) : Reads (describe h) s fun _ => True := by
  unfold describe
  exact (reads_bufferOf h).bind fun _ _ => (reads_outcome _).bind fun _ _ => reads_pure trivial

/-- A source buffer named by `on` is the buffer of an array of the store of the requested kind;
otherwise the values are new. -/
theorem reads_sourceBuffer (step : Json) (k : Kind) :
    Reads (sourceBuffer step k) s fun source =>
      ∀ buffer, source = .inl buffer → ∃ h ∈ s.arrays, h.buffer = buffer ∧ h.kind = k := by
  unfold sourceBuffer
  split
  · refine (reads_arrayArg step "on").bind fun h member => ?_
    split
    · exact reads_throw _
    · rename_i accepted
      refine reads_pure fun buffer named => ?_
      cases named
      simp only [not_or, not_not] at accepted
      exact ⟨h, member, rfl, accepted.1⟩
  · refine (reads_elementsArg step "buffer" k).bind fun _ _ => reads_pure ?_
    intro buffer named
    cases named

theorem reads_bufferSize (buffer : Nat) :
    Reads (bufferSize buffer) s fun n => n = (s.buffers[buffer]?.map fun b => b.data.size).getD 0 := by
  unfold bufferSize
  refine reads_get.bind fun current same => ?_
  subst same
  exact reads_pure rfl

theorem keeps_pure (wellFormed : s.WellFormed) (a : α) : Keeps (pure a) s :=
  (reads_pure (P := fun _ => True) trivial).keeps wellFormed

theorem keeps_throw (wellFormed : s.WellFormed) (e : Failure) : Keeps (throw e : Session α) s :=
  (reads_throw (P := fun _ => True) e).keeps wellFormed

theorem Keeps.bind_pure (first : Keeps m s) (answer : α → β) :
    Keeps (m >>= fun a => pure (answer a)) s :=
  first.bind fun a _ _ wellFormed => keeps_pure wellFormed (answer a)

/-! ## Writes -/

/-- Replacing an array's buffer by one of the same length keeps the invariant. -/
theorem keeps_store {h : Handle} {old data : Array h.kind.Carrier} (wellFormed : s.WellFormed)
    (found : s.data? h = some old) (size : data.size = old.size) : Keeps (store h data) s := by
  obtain ⟨b, foundB, kind, sizeB⟩ := Store.data?_eq_some found
  exact keeps_of_run rfl (Store.write_wellFormed wellFormed foundB kind (size.trans sizeB.symm))
    (Store.write_extends foundB kind (size.trans sizeB.symm))

/-- Keeping what a kernel wrote keeps the invariant when the kernel kept the buffer's length,
whether it stops at an overflow or not. -/
theorem keeps_storeWritten {h : Handle} {old : Array h.kind.Carrier} {w : Written h.kind.Carrier}
    (wellFormed : s.WellFormed) (found : s.data? h = some old) (size : w.buffer.size = old.size) :
    Keeps (storeWritten h w) s := by
  unfold storeWritten
  refine (keeps_store wellFormed found size).bind fun _ t _ written => ?_
  split
  · exact keeps_throw written _
  · exact keeps_pure written _

/-- Appending an array that fits the store keeps the invariant. -/
theorem keeps_append {h : Handle} (wellFormed : s.WellFormed) (fits : h.FitsIn s) :
    Keeps (append h) s := by
  unfold append
  refine Keeps.bind_reads wellFormed (reads_describe h) fun _ _ => ?_
  refine (keeps_of_run (a := (s.register h).2) ?_ (Store.register_wellFormed wellFormed fits)
    (Store.register_extends h)).bind_pure _
  rfl

/-- Appending an array on a new buffer that its grid fits keeps the invariant. -/
theorem keeps_create {k : Kind} {grid : Grid} {data : Array k.Carrier} (wellFormed : s.WellFormed)
    (fits : grid.Fits data.size) : Keeps (create k grid data) s := by
  unfold create
  have allocated := Store.allocate_wellFormed wellFormed k data
  exact Keeps.bind_ok rfl (Store.allocate_extends k data)
    (keeps_append allocated ⟨⟨k, data⟩, Store.allocate_found k data, rfl, fits⟩)

/-- An array of a well-formed store finds its buffer, and fits its length. -/
theorem fits_bufferOf {h : Handle} {data : Array h.kind.Carrier} (wellFormed : s.WellFormed)
    (member : h ∈ s.arrays) (found : s.data? h = some data) : h.grid.Fits data.size := by
  obtain ⟨b, foundB, -, fits⟩ := wellFormed h member
  obtain ⟨b', foundB', -, size⟩ := Store.data?_eq_some found
  rw [foundB] at foundB'
  cases foundB'
  rwa [← size]

/-- A grid that fits the buffer of an array of the store, at that array's kind, fits the store
as an array on that buffer. -/
theorem fitsIn_of_bufferOf {h : Handle} {data : Array h.kind.Carrier} {grid : Grid}
    (found : s.data? h = some data) (fits : grid.Fits data.size) :
    (⟨h.kind, grid, h.buffer⟩ : Handle).FitsIn s := by
  obtain ⟨b, foundB, kind, size⟩ := Store.data?_eq_some found
  exact ⟨b, foundB, kind, size ▸ fits⟩

/-- A grid that fits the length of the buffer of an existing array of kind `k` fits the store as
an array of that kind on that buffer. -/
theorem fitsIn_of_source (wellFormed : s.WellFormed) {buffer : Nat} {k : Kind} {grid : Grid}
    (source : ∃ h ∈ s.arrays, h.buffer = buffer ∧ h.kind = k)
    (fits : grid.Fits ((s.buffers[buffer]?.map fun b => b.data.size).getD 0)) :
    (⟨k, grid, buffer⟩ : Handle).FitsIn s := by
  obtain ⟨h, member, rfl, rfl⟩ := source
  obtain ⟨b, found, kind, -⟩ := wellFormed h member
  refine ⟨b, found, kind, ?_⟩
  simpa [found] using fits

/-! ## The steps -/

/-- Views are appended on their array's buffer, which they fit. -/
theorem keeps_viewing (wellFormed : s.WellFormed) (op : String) (step : Json) :
    Keeps (viewing op step) s := by
  unfold viewing
  refine Keeps.bind_reads wellFormed (reads_arrayArg step "a") fun h member => ?_
  refine Keeps.bind_reads wellFormed (reads_bufferOf h) fun data found => ?_
  have fits := fits_bufferOf wellFormed member found
  have appended : ∀ grid : Grid, grid.Fits data.size → Keeps (append ⟨h.kind, grid, h.buffer⟩) s :=
    fun grid gridFits => keeps_append wellFormed (fitsIn_of_bufferOf found gridFits)
  dsimp only
  split
  · refine Keeps.bind_reads wellFormed (reads_lift _) fun ranges _ => ?_
    exact Keeps.bind_reads wellFormed (reads_outcome _) fun _ viewed =>
      appended _ (Grid.view_fits fits viewed)
  · refine Keeps.bind_reads wellFormed (reads_lift _) fun axis _ => ?_
    refine Keeps.bind_reads wellFormed (reads_lift _) fun index _ => ?_
    exact Keeps.bind_reads wellFormed (reads_outcome _) fun _ sliced =>
      appended _ (Grid.slice_fits sliced)
  · refine Keeps.bind_reads wellFormed (reads_lift _) fun perm _ => ?_
    exact Keeps.bind_reads wellFormed (reads_outcome _) fun _ permuted =>
      appended _ (Grid.permute_fits fits permuted)

/-- Element access writes at most one element, in place. -/
theorem keeps_access (wellFormed : s.WellFormed) (op : String) (step : Json) :
    Keeps (access op step) s := by
  unfold access
  refine Keeps.bind_reads wellFormed (reads_arrayArg step "a") fun h member => ?_
  refine Keeps.bind_reads wellFormed (reads_bufferOf h) fun data found => ?_
  split
  case h_1 | h_2 =>
    refine Keeps.bind_reads wellFormed (reads_lift _) fun index _ => ?_
    exact Keeps.bind_reads wellFormed (reads_outcome _) fun _ _ => keeps_pure wellFormed _
  case h_3 | h_4 =>
    refine Keeps.bind_reads wellFormed (reads_lift _) fun index _ => ?_
    refine Keeps.bind_reads wellFormed (reads_elementArg step "value" h.kind) fun v _ => ?_
    refine Keeps.bind_reads wellFormed (reads_outcome _) fun written stored => ?_
    have size : written.size = data.size := by
      split at stored
      · exact Grid.set_size stored
      · exact Grid.trySet_size stored
    exact (keeps_store wellFormed found size).bind fun _ _ _ written => keeps_pure written _
  · exact (reads_describe h).keeps wellFormed
  · exact Keeps.bind_reads wellFormed (reads_arrayArg step "b") fun _ _ => keeps_pure wellFormed _
  · exact keeps_pure wellFormed _

/-- Writing one array from another replaces the destination's buffer by one of its length. -/
theorem keeps_mapInto (wellFormed : s.WellFormed) (dest source : Handle)
    (f : source.kind.Carrier → dest.kind.Carrier) : Keeps (mapInto dest source f) s := by
  unfold mapInto
  refine Keeps.bind_reads wellFormed (reads_bufferOf dest) fun destData destFound => ?_
  refine Keeps.bind_reads wellFormed (reads_bufferOf source) fun sourceData _ => ?_
  exact Keeps.bind_reads wellFormed (reads_outcome _) fun _ mapped =>
    keeps_storeWritten wellFormed destFound (Grid.mapInto_size mapped)

theorem keeps_writing (wellFormed : s.WellFormed) (op : String) (step : Json) :
    Keeps (writing op step) s := by
  unfold writing
  split
  · refine Keeps.bind_reads wellFormed (reads_arrayArg step "dest") fun dest _ => ?_
    refine Keeps.bind_reads wellFormed (reads_arrayArg step "src") fun source _ => ?_
    refine Keeps.bind_reads wellFormed (reads_elementOr _ _ _ _) fun mul _ => ?_
    refine Keeps.bind_reads wellFormed (reads_elementOr _ _ _ _) fun add _ => ?_
    dsimp only
    split
    · exact Keeps.bind_reads wellFormed (reads_throw (P := fun _ => False) _) fun _ => False.elim
    · exact (keeps_mapInto wellFormed _ _ _).bind_pure _
  · refine Keeps.bind_reads wellFormed (reads_arrayArg step "dest") fun dest _ => ?_
    refine Keeps.bind_reads wellFormed (reads_arrayArg step "src") fun source _ => ?_
    split
    · exact (keeps_mapInto wellFormed _ _ _).bind_pure _
    · exact keeps_throw wellFormed _
  · refine Keeps.bind_reads wellFormed (reads_arrayArg step "a") fun h member => ?_
    refine Keeps.bind_reads wellFormed (reads_bufferOf h) fun data found => ?_
    split
    · refine Keeps.bind_reads wellFormed (reads_elementArg _ _ _) fun v _ => ?_
      exact (keeps_storeWritten wellFormed found (Grid.fill_size _ _ _)).bind_pure _
    · refine Keeps.bind_reads wellFormed (reads_elementsArg _ _ _) fun values _ => ?_
      dsimp only
      split
      · exact Keeps.bind_reads wellFormed (reads_throw (P := fun _ => False) _) fun _ => False.elim
      · refine Keeps.bind_reads wellFormed (reads_outcome _) fun _ filled => ?_
        exact (keeps_storeWritten wellFormed found (Grid.fillWith_size filled)).bind_pure _
    · refine Keeps.bind_reads wellFormed (reads_lift _) fun coefs _ => ?_
      refine Keeps.bind_reads wellFormed (reads_lift _) fun base _ => ?_
      refine Keeps.bind_reads wellFormed (reads_outcome _) fun _ filled => ?_
      exact (keeps_storeWritten wellFormed found (Grid.fillFromFn_size filled)).bind_pure _
    · refine Keeps.bind_reads wellFormed (reads_elementOr _ _ _ _) fun mul _ => ?_
      refine Keeps.bind_reads wellFormed (reads_elementOr _ _ _ _) fun add _ => ?_
      exact (keeps_storeWritten wellFormed found (Grid.mapInPlace_size _ _ _)).bind_pure _
    · refine Keeps.bind_reads wellFormed (reads_elementArg _ _ _) fun v _ => ?_
      exact (keeps_storeWritten wellFormed found (Grid.mapInPlace_size _ _ _)).bind_pure _
    · refine Keeps.bind_reads wellFormed (reads_elementArg _ _ _) fun v _ => ?_
      exact (keeps_storeWritten wellFormed found (Grid.mapInPlace_size _ _ _)).bind_pure _
    · exact keeps_throw wellFormed _

/-- Folds only read. -/
theorem keeps_folding (wellFormed : s.WellFormed) (op : String) (step : Json) :
    Keeps (folding op step) s := by
  unfold folding
  refine Keeps.bind_reads wellFormed (reads_arrayArg step "a") fun h _ => ?_
  refine Keeps.bind_reads wellFormed (reads_bufferOf h) fun data _ => ?_
  have answered : ∀ {γ : Type} (o : Outcome γ) (answer : γ → List (String × Json)),
      Keeps (outcome o >>= fun x => pure (answer x)) s :=
    fun o answer => Keeps.bind_reads wellFormed (reads_outcome o) fun _ _ => keeps_pure wellFormed _
  split
  · refine Keeps.bind_reads wellFormed (reads_lift _) fun name _ => ?_
    refine Keeps.bind_reads wellFormed (reads_need _) fun r _ => ?_
    exact Keeps.bind_reads wellFormed (reads_outcome _) fun _ _ => answered _ _
  · refine Keeps.bind_reads wellFormed (reads_lift _) fun name _ => ?_
    refine Keeps.bind_reads wellFormed (reads_need _) fun r _ => ?_
    refine Keeps.bind_reads wellFormed (reads_elementArg _ _ _) fun init _ => ?_
    refine Keeps.bind_reads wellFormed (reads_elementOr _ _ _ _) fun mul _ => ?_
    exact Keeps.bind_reads wellFormed (reads_elementOr _ _ _ _) fun _ _ => answered _ _
  · exact answered _ _
  · exact answered _ _

/-- Copies are appended on new buffers they fit, or on the array's own buffer when they
share it. -/
theorem keeps_copying (wellFormed : s.WellFormed) (op : String) (step : Json) :
    Keeps (copying op step) s := by
  unfold copying
  refine Keeps.bind_reads wellFormed (reads_arrayArg step "a") fun h member => ?_
  refine Keeps.bind_reads wellFormed (reads_bufferOf h) fun data found => ?_
  have fits := fits_bufferOf wellFormed member found
  split
  · refine Keeps.bind_reads wellFormed (reads_lift _) fun forceCopy _ => ?_
    refine Keeps.bind_reads wellFormed (reads_lift _) fun into _ => ?_
    refine Keeps.bind_reads wellFormed (reads_outcome _) fun flat _ => ?_
    dsimp only
    cases into with
    | none => exact keeps_pure wellFormed _
    | some dims =>
      refine Keeps.bind_reads wellFormed (reads_check _) fun shape _ => ?_
      refine Keeps.bind_reads wellFormed (reads_check _) fun grid made => ?_
      have gridFits := Grid.flatOver_fits made
      cases flat with
      | shared =>
        have length : (FlatData.toList data .shared).length = data.size := Array.length_toList
        rw [length] at gridFits
        exact (keeps_append wellFormed (fitsIn_of_bufferOf found gridFits)).bind_pure _
      | owned xs =>
        exact (keeps_create wellFormed (xs.size_toArray ▸ gridFits)).bind_pure _
  · exact Keeps.bind_reads wellFormed (reads_outcome _) fun _ _ => keeps_pure wellFormed _
  · refine Keeps.bind_reads wellFormed (reads_outcome _) fun copied made => ?_
    obtain ⟨grid, copy⟩ := copied
    exact keeps_create wellFormed (Grid.toFlat_fits fits made)
  · refine Keeps.bind_reads wellFormed (reads_outcome _) fun copied made => ?_
    obtain ⟨grid, copy⟩ := copied
    exact keeps_create wellFormed (Grid.toNested_fits made)
  · refine Keeps.bind_reads wellFormed (reads_lift _) fun target _ => ?_
    refine Keeps.bind_reads wellFormed (reads_outcome _) fun converted made => ?_
    cases converted with
    | same => exact keeps_append wellFormed (wellFormed h member)
    | copy grid copy => exact keeps_create wellFormed (Grid.convert_fits fits made)
  · refine Keeps.bind_reads wellFormed (reads_outcome _) fun converted _ => ?_
    cases converted <;>
      exact Keeps.bind_reads wellFormed ((reads_outcome _).map _) fun _ _ => keeps_pure wellFormed _
  · refine Keeps.bind_reads wellFormed (reads_lift _) fun condition _ => ?_
    refine Keeps.bind_reads wellFormed (reads_lift _) fun offsets _ => ?_
    refine Keeps.bind_reads wellFormed (reads_outcome _) fun copied made => ?_
    obtain ⟨grid, copy⟩ := copied
    exact keeps_create wellFormed (Grid.shifted_fits made)

/-- New arrays fit the buffers they are made on. -/
theorem keeps_creation (wellFormed : s.WellFormed) (op : String) (step : Json) (k : Kind) :
    Keeps (creation op step k) s := by
  unfold creation
  split
  · refine Keeps.bind_reads wellFormed (reads_elementArg _ _ _) fun v _ => ?_
    exact keeps_create wellFormed rfl
  case h_2 | h_3 =>
    refine Keeps.bind_reads wellFormed (reads_shapeArg _ _) fun shape _ => ?_
    refine Keeps.bind_reads wellFormed (reads_reserve _ _) fun _ _ => ?_
    exact keeps_create wellFormed (Grid.fits_flat_iff.mpr Array.size_replicate)
  · refine Keeps.bind_reads wellFormed (reads_shapeArg _ _) fun shape _ => ?_
    refine Keeps.bind_reads wellFormed (reads_elementArg _ _ _) fun v _ => ?_
    refine Keeps.bind_reads wellFormed (reads_reserve _ _) fun _ _ => ?_
    exact keeps_create wellFormed (Grid.fits_flat_iff.mpr Array.size_replicate)
  · refine Keeps.bind_reads wellFormed (reads_shapeArg _ _) fun shape _ => ?_
    refine Keeps.bind_reads wellFormed (reads_check _) fun extents _ => ?_
    obtain ⟨rowLen, rowCount⟩ := extents
    refine Keeps.bind_reads wellFormed (reads_reserve _ _) fun _ _ => ?_
    refine Keeps.bind_reads wellFormed (reads_outcome _) fun _ _ => ?_
    refine Keeps.bind_reads wellFormed (reads_check _) fun filled made => ?_
    obtain ⟨grid, data⟩ := filled
    exact keeps_create wellFormed (Grid.nestedFilled_fits made)
  · refine Keeps.bind_reads wellFormed (reads_shapeArg _ _) fun shape _ => ?_
    refine Keeps.bind_reads wellFormed (reads_elementsArg _ _ _) fun data _ => ?_
    refine Keeps.bind_reads wellFormed (reads_check _) fun grid made => ?_
    exact keeps_create wellFormed (data.size_toArray ▸ Grid.flatOver_fits made)
  · refine Keeps.bind_reads wellFormed (reads_shapeArg _ _) fun shape _ => ?_
    refine Keeps.bind_reads wellFormed (reads_lift _) fun coefs _ => ?_
    refine Keeps.bind_reads wellFormed (reads_lift _) fun base _ => ?_
    refine Keeps.bind_reads wellFormed (reads_outcome _) fun made' made => ?_
    obtain ⟨grid, data⟩ := made'
    exact keeps_create wellFormed (Grid.fromFn_fits made)
  · refine Keeps.bind_reads wellFormed (reads_lift _) fun rows _ => ?_
    refine Keeps.bind_reads wellFormed
      (reads_mapM (fun row => (reads_mapM (fun _ => reads_element _ _) row).mono fun _ _ =>
        True.intro) _) fun rows _ => ?_
    refine Keeps.bind_reads wellFormed (reads_shapeArg _ _) fun shape _ => ?_
    refine Keeps.bind_reads wellFormed (reads_check _) fun made' made => ?_
    obtain ⟨grid, data⟩ := made'
    exact keeps_create wellFormed (Grid.ofRows_fits made)
  · refine Keeps.bind_reads wellFormed (reads_sourceBuffer _ _) fun source onArray => ?_
    refine Keeps.bind_reads wellFormed (reads_shapeArg _ _) fun shape _ => ?_
    refine Keeps.bind_reads wellFormed (reads_lift _) fun offset offsetRead => ?_
    have signed := Json.need_isize_isSigned offsetRead
    refine Keeps.bind_reads wellFormed (reads_lift _) fun strides _ => ?_
    cases source with
    | inl buffer =>
      refine Keeps.bind_reads wellFormed (reads_bufferSize buffer) fun n size => ?_
      refine Keeps.bind_reads wellFormed (reads_outcome _) fun grid made => ?_
      have fits := Grid.wrapStrided_fits made signed
      rw [size] at fits
      exact keeps_append wellFormed (fitsIn_of_source wellFormed (onArray buffer rfl) fits)
    | inr data =>
      refine Keeps.bind_reads wellFormed (reads_outcome _) fun grid made => ?_
      exact keeps_create wellFormed (Grid.wrapStrided_fits made signed)
  · refine Keeps.bind_reads wellFormed (reads_sourceBuffer _ _) fun source onArray => ?_
    refine Keeps.bind_reads wellFormed (reads_shapeArg _ _) fun shape _ => ?_
    cases source with
    | inl buffer =>
      refine Keeps.bind_reads wellFormed (reads_bufferSize buffer) fun n size => ?_
      refine Keeps.bind_reads wellFormed (reads_check _) fun grid made => ?_
      have fits := Grid.flatOver_fits made
      rw [size] at fits
      exact keeps_append wellFormed (fitsIn_of_source wellFormed (onArray buffer rfl) fits)
    | inr data =>
      refine Keeps.bind_reads wellFormed (reads_check _) fun grid made => ?_
      exact keeps_create wellFormed (Grid.flatOver_fits made)
  · exact keeps_throw wellFormed _

/-- Every step keeps the representation invariant, whether it answers or fails. -/
theorem keeps_step (wellFormed : s.WellFormed) (default : Kind) (step : Json) :
    Keeps (Session.step default step) s := by
  unfold Session.step
  refine Keeps.bind_reads wellFormed (reads_lift _) fun op _ => ?_
  refine Keeps.bind_reads wellFormed (reads_lift _) fun kind _ => ?_
  -- one goal per operation name, each handed to its group
  split
  all_goals first
    | with_reducible exact keeps_creation wellFormed _ _ _
    | with_reducible exact keeps_viewing wellFormed _ _
    | with_reducible exact keeps_access wellFormed _ _
    | with_reducible exact keeps_writing wellFormed _ _
    | with_reducible exact keeps_folding wellFormed _ _
    | with_reducible exact keeps_copying wellFormed _ _
    | with_reducible exact keeps_throw wellFormed _

end Session

namespace Store

/-- The store after running steps in order, as a program runs them. -/
def runSteps (default : Kind) : Store → List Json → Store
  | s, [] => s
  | s, step :: rest => runSteps default (s.answerStep default step).1 rest

/-- A program answers its later steps from the store its earlier steps leave. -/
theorem answerSteps_append (default : Kind) (s : Store) (earlier later : List Json) :
    answerSteps default s (earlier ++ later) =
      answerSteps default s earlier ++ answerSteps default (runSteps default s earlier) later := by
  induction earlier generalizing s with
  | nil => rfl
  | cons step rest ih => simp [answerSteps, runSteps, ih]

variable {s : Store}

theorem answerStep_keeps (wellFormed : s.WellFormed) (default : Kind) (step : Json) :
    (s.answerStep default step).1.WellFormed ∧ s.Extends (s.answerStep default step).1 := by
  unfold answerStep
  split
  · rename_i fields t ran
    exact Session.keeps_step wellFormed default step t (.inl ⟨fields, ran⟩)
  · rename_i failure t ran
    exact Session.keeps_step wellFormed default step t (.inr ⟨failure, ran⟩)

/-- The run lemma: a run of steps from a well-formed store leaves a well-formed store that
extends it. -/
theorem runSteps_keeps (wellFormed : s.WellFormed) (default : Kind) (steps : List Json) :
    (runSteps default s steps).WellFormed ∧ s.Extends (runSteps default s steps) := by
  induction steps generalizing s with
  | nil => exact ⟨wellFormed, .refl s⟩
  | cons step rest ih =>
    obtain ⟨stepWellFormed, stepLater⟩ := answerStep_keeps wellFormed default step
    obtain ⟨restWellFormed, restLater⟩ := ih stepWellFormed
    exact ⟨restWellFormed, stepLater.trans restLater⟩

theorem wellFormed_empty : ({} : Store).WellFormed := fun h member => by
  simp at member

/-- In a well-formed store every array finds its buffer and fits it, and reading or writing
any element inside its box answers; a write keeps the buffer's length. -/
theorem WellFormed.access (wellFormed : s.WellFormed) {h : Handle} (member : h ∈ s.arrays) :
    ∃ data, s.data? h = some data ∧ h.grid.Fits data.size ∧
      ∀ index, InBox h.grid.dims index →
        (∃ x, h.grid.get data index = .ok x) ∧
          ∀ v, ∃ data', h.grid.set data index v = .ok data' ∧ data'.size = data.size := by
  obtain ⟨data, found⟩ := FitsIn.data?_isSome (wellFormed h member)
  have fits := Session.fits_bufferOf wellFormed member found
  refine ⟨data, found, fits, fun index inBox => ⟨?_, fun v => ?_⟩⟩
  · obtain ⟨x, -, got⟩ := Grid.get_ok fits inBox
    exact ⟨x, got⟩
  · have written := Grid.set_ok fits inBox v
    exact ⟨_, written, Grid.set_size written⟩

/-- Every program keeps the representation invariant. After any steps from the empty store,
and after any further steps from there, the later store is well formed and extends the earlier
one: every buffer keeps its kind and length, every array stays. In it every array fits its
buffer, and reading or writing any element inside an array's box answers. -/
theorem runSteps_representation (default : Kind) (earlier later : List Json) :
    let s := runSteps default {} earlier
    let t := runSteps default s later
    t.WellFormed ∧ s.Extends t ∧
      ∀ h ∈ t.arrays, ∃ data, t.data? h = some data ∧ h.grid.Fits data.size ∧
        ∀ index, InBox h.grid.dims index →
          (∃ x, h.grid.get data index = .ok x) ∧
            ∀ v, ∃ data', h.grid.set data index v = .ok data' ∧ data'.size = data.size := by
  intro s t
  have reached := (runSteps_keeps wellFormed_empty default earlier).1
  obtain ⟨wellFormed, later⟩ := runSteps_keeps reached default later
  exact ⟨wellFormed, later, fun h member => wellFormed.access member⟩

end Store

end StridedGrid
