import StridedGrid.Grid.Basic
import StridedGrid.Element.Basic
import StridedGrid.Kernel.Basic

/-!
# Stores of arrays

A store holds buffers and the arrays that read them. Buffers are numbered in the order they
were made, arrays likewise; an array is a kind, a grid and the number of its buffer, so every
view of an array names the same buffer and sees every write to it.

A buffer holds elements of one kind. `Store.data?` gives an array's buffer at its element type,
and `Store.write` replaces a buffer's contents.
-/

namespace StridedGrid

/-- A buffer of elements of one kind. -/
structure Buffer where
  kind : Kind
  data : Array kind.Carrier

/-- An array in a store: its kind, its grid, and the number of the buffer it reads. -/
structure Handle where
  kind : Kind
  grid : Grid
  buffer : Nat

/-- Buffers and the arrays on them, each numbered in order of creation. -/
structure Store where
  buffers : Array Buffer := #[]
  arrays : Array Handle := #[]

namespace Store

/-- The array with a number. -/
def handle? (s : Store) (id : Nat) : Option Handle := s.arrays[id]?

/-- The buffer of an array, at the array's element type. -/
def data? (s : Store) (h : Handle) : Option (Array h.kind.Carrier) :=
  match s.buffers[h.buffer]? with
  | some b => if e : b.kind = h.kind then some (e ▸ b.data) else none
  | none => none

/-- Adds a buffer; its number is the previous count. -/
def allocate (s : Store) (k : Kind) (data : Array k.Carrier) : Store × Nat :=
  ({ s with buffers := s.buffers.push ⟨k, data⟩ }, s.buffers.size)

/-- Adds an array; its number is the previous count. -/
def register (s : Store) (h : Handle) : Store × Nat :=
  ({ s with arrays := s.arrays.push h }, s.arrays.size)

/-- Adds an array on a new buffer. -/
def create (s : Store) (k : Kind) (grid : Grid) (data : Array k.Carrier) : Store × Nat :=
  let (s, buffer) := s.allocate k data
  s.register ⟨k, grid, buffer⟩

/-- Replaces the contents of a buffer. -/
def write (s : Store) (buffer : Nat) (k : Kind) (data : Array k.Carrier) : Store :=
  { s with buffers := s.buffers.set! buffer ⟨k, data⟩ }

/-- The elements of an array in column-major order, as scalars. -/
def listing (s : Store) (h : Handle) : Outcome (List Scalar) :=
  match s.data? h with
  | some data => (List.map Element.toScalar) <$> h.grid.toList data
  | none => pure []

end Store

end StridedGrid
