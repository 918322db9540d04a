import Mathlib
import StridedGrid.Word

/-!
# Computing with outcomes

Rewriting rules for the outcome monad and for checked machine arithmetic, so that proofs step
through a `do` block of the library one bind at a time: a bind on a result continues with its
value, a bind on a fault stops with it, and a checked word is its own value exactly when it is
a signed word.
-/

namespace StridedGrid

namespace Outcome

variable {α β : Type}

@[simp]
theorem ok_bind (a : α) (f : α → Outcome β) : (Except.ok a : Outcome α) >>= f = f a := rfl

@[simp]
theorem error_bind (e : Fault) (f : α → Outcome β) :
    (Except.error e : Outcome α) >>= f = Except.error e := rfl

@[simp]
theorem reject_bind (e : GridError) (f : α → Outcome β) :
    (reject e : Outcome α) >>= f = reject e := rfl

@[simp]
theorem panic_bind (p : Panic) (f : α → Outcome β) : (panic p : Outcome α) >>= f = panic p := rfl

@[simp]
theorem pure_eq (a : α) : (pure a : Outcome α) = Except.ok a := rfl

@[simp]
theorem ofExcept_ok (a : α) : ofExcept (.ok a : Except GridError α) = Except.ok a := rfl

@[simp]
theorem ofExcept_error (e : GridError) : ofExcept (.error e : Except GridError α) = reject e := rfl

@[simp]
theorem reject_ne_ok {e : GridError} {a : α} : (reject e : Outcome α) ≠ Except.ok a :=
  fun h => by cases h

@[simp]
theorem panic_ne_ok {p : Panic} {a : α} : (panic p : Outcome α) ≠ Except.ok a :=
  fun h => by cases h

/-- A bind answers exactly when its first part answers and the rest answers from there; this
holds in every exception monad, the library's outcomes and its plain results alike. -/
theorem bind_eq_ok {ε : Type} {x : Except ε α} {f : α → Except ε β} {b : β} :
    x >>= f = Except.ok b ↔ ∃ a, x = Except.ok a ∧ f a = Except.ok b := by
  cases x with
  | error e =>
    constructor
    · intro stopped
      cases stopped
    · rintro ⟨a, stopped, -⟩
      cases stopped
  | ok a =>
    constructor
    · intro answered
      exact ⟨a, rfl, answered⟩
    · rintro ⟨a', answered, rest⟩
      cases answered
      exact rest

/-- A continuation that never stops with a given panic leaves that panic to what it follows. -/
theorem bind_eq_panic_iff {x : Outcome α} {f : α → Outcome β} {p : Panic}
    (never : ∀ a, f a ≠ panic p) : x >>= f = panic p ↔ x = panic p := by
  cases x with
  | error e => simp [panic]
  | ok a => simpa [panic] using never a

theorem map_eq_panic_iff {x : Outcome α} {f : α → β} {p : Panic} :
    f <$> x = panic p ↔ x = panic p := by
  cases x <;> simp [Functor.map, Except.map, panic]

/-- A mapping succeeds exactly when every element's result is a value. -/
theorem mapM_eq_ok_iff {f : α → Outcome β} :
    ∀ {xs : List α} {ys : List β},
      xs.mapM f = Except.ok ys ↔ List.Forall₂ (fun x y => f x = Except.ok y) xs ys
  | [], ys => by
    cases ys <;> simp [List.mapM_nil, eq_comm]
  | x :: xs, ys => by
    rw [List.mapM_cons, bind_eq_ok]
    cases ys with
    | nil => simp [bind_eq_ok]
    | cons y ys =>
      simp only [bind_eq_ok, pure_eq, Except.ok.injEq, List.cons.injEq, List.forall₂_cons,
        mapM_eq_ok_iff]
      constructor
      · rintro ⟨a, first, bs, rest, rfl, rfl⟩
        exact ⟨first, rest⟩
      · rintro ⟨first, rest⟩
        exact ⟨y, first, ys, rest, rfl, rfl⟩

theorem ofExcept_eq_ok {x : Except GridError α} {a : α} : ofExcept x = Except.ok a ↔ x = .ok a := by
  cases x <;> simp [ofExcept]

theorem ofExcept_ne_panic {x : Except GridError α} {p : Panic} : ofExcept x ≠ panic p := by
  cases x <;> simp [ofExcept, panic]

end Outcome

namespace Word

theorem signed_of_isSigned {x : Int} (signed : IsSigned x) : Word.signed x = .ok x := by
  simp [Word.signed, signed]

theorem signed_of_not_isSigned {x : Int} (overflow : ¬IsSigned x) :
    Word.signed x = Outcome.panic .overflow := by
  simp [Word.signed, overflow]

theorem checked?_of_isSigned {x : Int} (signed : IsSigned x) : checked? x = some x := by
  simp [checked?, signed]

theorem checked?_of_not_isSigned {x : Int} (overflow : ¬IsSigned x) : checked? x = none := by
  simp [checked?, overflow]

theorem isSigned_iff (x : Int) : IsSigned x ↔ -9223372036854775808 ≤ x ∧ x ≤ 9223372036854775807 :=
  Iff.rfl

theorem reserve_of_reservable {count size : Nat} (room : Reservable count size) :
    reserve count size = .ok () := by
  simp [reserve, room]

theorem reserve_of_not_reservable {count size : Nat} (full : ¬Reservable count size) :
    reserve count size = Outcome.panic .capacityOverflow := by
  simp [reserve, full]

/-- A step after a reservation runs exactly when the room can be reserved. -/
theorem reserve_bind {β : Type} (count size : Nat) (k : Unit → Outcome β) :
    reserve count size >>= k = if Reservable count size then k () else Outcome.panic .capacityOverflow := by
  by_cases room : Reservable count size
  · simp [reserve_of_reservable room, room]
  · simp [reserve_of_not_reservable room, room]

theorem reserve_bind_eq_ok {β : Type} {count size : Nat} {k : Unit → Outcome β} {b : β} :
    reserve count size >>= k = .ok b ↔ Reservable count size ∧ k () = .ok b := by
  rw [reserve_bind]
  by_cases room : Reservable count size
  · simp [room]
  · simp [room, Outcome.panic]

theorem minCapacity_pos (size : Nat) : 0 < minCapacity size := by
  unfold minCapacity
  split
  · omega
  · split <;> omega

/-- A buffer that doubles its room from some room on holds every item it is given. -/
theorem le_grownCapacity {room : Nat} (count : Nat) (positive : 0 < room) :
    count ≤ grownCapacity room count := by
  induction room using grownCapacity.induct count with
  | case1 room growing ih =>
    rw [grownCapacity, dif_pos growing]
    exact ih (by omega)
  | case2 room full =>
    rw [grownCapacity, dif_neg full]
    omega

/-- A reservation stops with nothing but a capacity overflow. -/
theorem reserve_bind_ne_panic {β : Type} {count size : Nat} {k : Unit → Outcome β} {p : Panic}
    (other : p ≠ .capacityOverflow) (never : k () ≠ Outcome.panic p) :
    reserve count size >>= k ≠ Outcome.panic p := by
  rw [reserve_bind]
  split
  · exact never
  · intro stopped
    exact other (by cases stopped; rfl)

end Word

end StridedGrid
