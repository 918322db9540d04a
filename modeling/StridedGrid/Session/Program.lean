import StridedGrid.Session.Store
import StridedGrid.Service.Fields
import StridedGrid.Service.Encode
import StridedGrid.Service.Serde
import StridedGrid.Grid.View
import StridedGrid.Grid.Basic
import StridedGrid.Kernel.Basic
import StridedGrid.Kernel.Copy

/-!
# Programs of array operations

A program is a list of steps run against a store, each answered on its own: a step that fails
leaves the store as the failure found it and the next step runs. A step that stops after some
writes keeps them, as the buffers it wrote to are shared.

Steps that make an array append it to the store and answer its number and description; views
share their array's buffer. Element values in a step are read as elements of the kind of the
array the step acts on, or of the step's kind (the program's by default) for new arrays.
-/

namespace StridedGrid

/-- Running steps: failures keep the store as it was when they happened. -/
abbrev Session := EStateM Failure Store

namespace Session

open Json

/-- Lifts a reading of the request. -/
def lift {α : Type} : Reading α → Session α
  | .ok a => pure a
  | .error e => throw e

/-- Lifts a library outcome. -/
def outcome {α : Type} (o : Outcome α) : Session α := lift (Reading.ofOutcome o)

/-- Lifts a library result. -/
def check {α : Type} (r : Except GridError α) : Session α := lift (Reading.ofExcept r)

/-- A value that must be there. -/
def need {α : Type} (o : Option α) : Session α := lift (Reading.need o)

/-- The array named by a field. -/
def arrayArg (step : Json) (name : String) : Session Handle := do
  let id ← lift (step.need name usize?)
  need ((← get).handle? id)

/-- The buffer of an array. -/
def bufferOf (h : Handle) : Session (Array h.kind.Carrier) := do
  need ((← get).data? h)

/-- An element of a kind, from a scalar. -/
def element (k : Kind) (v : Scalar) : Session k.Carrier := need (Element.ofScalar? v)

/-- A required element field. -/
def elementArg (step : Json) (name : String) (k : Kind) : Session k.Carrier := do
  element k (← lift (step.need name scalar?))

/-- An optional element field. -/
def elementOr (step : Json) (name : String) (k : Kind) (default : k.Carrier) :
    Session k.Carrier := do
  match ← lift (step.optional name scalar?) with
  | none => pure default
  | some v => element k v

/-- A list of element values. -/
def elementsArg (step : Json) (name : String) (k : Kind) : Session (List k.Carrier) := do
  let vs ← lift (step.need name (listOf? scalar?))
  vs.mapM (element k)

/-- A shape from a field of extents. -/
def shapeArg (step : Json) (name : String) : Session Shape := do
  check (Shape.ofDims (← lift (step.need name (listOf? usize?))))

/-- Replaces the contents of an array's buffer. -/
def store (h : Handle) (data : Array h.kind.Carrier) : Session Unit :=
  modify fun s => s.write h.buffer h.kind data

/-- Keeps what a kernel wrote, then stops if it overflowed. -/
def storeWritten (h : Handle) (w : Written h.kind.Carrier) : Session Unit := do
  store h w.buffer
  if w.overflowed then throw (.fault (.panic .overflow))

/-- Room for `count` elements of a kind, reserved before a buffer of them is filled. -/
def reserve (k : Kind) (count : Nat) : Session Unit := outcome (Word.reserve count k.sizeOf)

/-- The description fields of an array, its elements copied out in column-major order. -/
def describe (h : Handle) : Session (List (String × Json)) := do
  let data ← bufferOf h
  let xs ← outcome (h.grid.toList data)
  let descriptor := match h.grid.descriptor? with
    | some (offset, strides) => .obj [("offset", ofInt offset), ("strides", ofInts strides)]
    | none => .null
  pure [("kind", .str h.kind.name), ("dims", ofNats h.grid.dims), ("rank", .nat h.grid.rank),
    ("len", .nat h.grid.len), ("layout", .str h.grid.layout.name),
    ("order", .str h.grid.order.name), ("contiguous", .bool (h.grid.isContiguous data.size)),
    ("descriptor", descriptor), ("data", .arr (xs.map Element.toJson))]

/-- Appends an array and answers its number and description. The array is described first,
so an array whose elements cannot be read out is never appended. -/
def append (h : Handle) : Session (List (String × Json)) := do
  let description ← describe h
  let id ← modifyGet fun s => (s.register h).swap
  pure [("id", .nat id), ("array", .obj description)]

/-- Appends an array on a new buffer. -/
def create (k : Kind) (grid : Grid) (data : Array k.Carrier) : Session (List (String × Json)) := do
  let buffer ← modifyGet fun s => (s.allocate k data).swap
  append ⟨k, grid, buffer⟩

/-- The value of `base + Σ coefs_k * index_k` in wrapping 64-bit arithmetic, missing
coefficients counting as zero. -/
def linear (coefs : List Int) (base : Int) (index : List Nat) : Int :=
  Word.wrapSigned (base + Extent.weighted index coefs)

/-- The element of a kind that the integer `linear coefs base index` converts to. -/
def linearElement (k : Kind) (coefs : List Int) (base : Int) (index : List Nat) : k.Carrier :=
  (Element.ofScalar? (.int (linear coefs base index))).getD Element.zero

/-- The arithmetic of a named reducer. -/
def reducer {α : Type} [Element α] : String → Option (α → α → α)
  | "add" => some Element.add
  | "mul" => some Element.mul
  | "first" => some fun x _ => x
  | "last" => some fun _ y => y
  | _ => none

/-- Whether two arrays read one buffer: nested arrays share only with nested arrays. -/
def sharesBuffer (a b : Handle) : Bool :=
  a.kind == b.kind && a.buffer == b.buffer &&
    ((a.grid.layout == .nested) == (b.grid.layout == .nested))

/-- A buffer to build an array on: the buffer of an existing flat or strided array of the
kind, named by `on`, or a new one from the values of `buffer`. -/
def sourceBuffer (step : Json) (k : Kind) : Session (Nat ⊕ Array k.Carrier) := do
  match step.field? "on" with
  | some _ =>
    let h ← arrayArg step "on"
    if h.kind ≠ k ∨ h.grid.layout = .nested then throw .badInput
    pure (.inl h.buffer)
  | none => pure (.inr (← elementsArg step "buffer" k).toArray)

/-- The length of a buffer. -/
def bufferSize (buffer : Nat) : Session Nat := do
  pure (((← get).buffers[buffer]?.map fun b => b.data.size).getD 0)

/-- Makes a new array, as creation steps do. Each step reads its fields in a fixed order:
the extents come first, except that rows and source buffers are read before them. Room for a
new buffer is reserved before it is filled. -/
def creation (op : String) (step : Json) (k : Kind) : Session (List (String × Json)) := do
  match op with
  | "scalar" =>
    let v ← elementArg step "value" k
    create k ⟨Shape.scalar, .flat⟩ #[v]
  | "zeros" | "typed_zeros" =>
    let shape ← shapeArg step "dims"
    reserve k shape.len
    create k ⟨shape, .flat⟩ (Array.replicate shape.len Element.zero)
  | "filled" =>
    let shape ← shapeArg step "dims"
    let v ← elementArg step "value" k
    reserve k shape.len
    create k ⟨shape, .flat⟩ (Array.replicate shape.len v)
  | "zeros_nested" =>
    let shape ← shapeArg step "dims"
    let (rowLen, rowCount) ← check (Grid.nestedExtents shape)
    reserve k rowLen
    outcome (Word.reserve rowCount Word.handleSize)
    let (grid, data) ← check (Grid.nestedFilled shape Element.zero)
    create k grid data
  | "from_vec" =>
    let shape ← shapeArg step "dims"
    let data ← elementsArg step "data" k
    let grid ← check (Grid.flatOver shape data.length)
    create k grid data.toArray
  | "from_fn" =>
    let shape ← shapeArg step "dims"
    let coefs ← lift (step.need "coefs" (listOf? isize?))
    let base ← lift (step.needOr "base" isize? 0)
    let (grid, data) ← outcome (Grid.fromFn shape (linearElement k coefs base))
    create k grid data
  | "from_rows" =>
    let rows ← lift (step.need "rows" (listOf? (listOf? scalar?)))
    let rows ← rows.mapM fun row => row.mapM (element k)
    let shape ← shapeArg step "dims"
    let (grid, data) ← check (Grid.ofRows shape rows)
    create k grid data
  | "wrap_strided" =>
    let source ← sourceBuffer step k
    let shape ← shapeArg step "dims"
    let offset ← lift (step.need "offset" isize?)
    let strides ← lift (step.need "strides" (listOf? isize?))
    match source with
    | .inl buffer =>
      let grid ← outcome (Grid.wrapStrided (← bufferSize buffer) shape offset strides)
      append ⟨k, grid, buffer⟩
    | .inr data =>
      let grid ← outcome (Grid.wrapStrided data.size shape offset strides)
      create k grid data
  | "from_buffer" =>
    let source ← sourceBuffer step k
    let shape ← shapeArg step "dims"
    match source with
    | .inl buffer =>
      let grid ← check (Grid.flatOver shape (← bufferSize buffer))
      append ⟨k, grid, buffer⟩
    | .inr data =>
      let grid ← check (Grid.flatOver shape data.size)
      create k grid data
  | _ => throw .badInput

/-- Makes a view of an array. -/
def viewing (op : String) (step : Json) : Session (List (String × Json)) := do
  let h ← arrayArg step "a"
  let size := (← bufferOf h).size
  let grid ← match op with
    | "view" => do
      let ranges ← lift (step.need "ranges" (listOf? rangeObject?))
      outcome (h.grid.view size ranges)
    | "slice" => do
      let axis ← lift (step.need "dim" usize?)
      let index ← lift (step.need "index" isize?)
      outcome (h.grid.slice size axis index)
    | _ => do
      let perm ← lift (step.need "perm" (listOf? usize?))
      outcome (h.grid.permute size perm)
  append ⟨h.kind, grid, h.buffer⟩

/-- Reads or writes one element, or describes an array. -/
def access (op : String) (step : Json) : Session (List (String × Json)) := do
  let h ← arrayArg step "a"
  let data ← bufferOf h
  match op with
  | "get" | "try_get" =>
    let index ← lift (step.need "index" (listOf? usize?))
    let x ← outcome (if op = "get" then h.grid.get data index else h.grid.tryGet data index)
    pure [("value", Element.toJson x)]
  | "set" | "try_set" =>
    let index ← lift (step.need "index" (listOf? usize?))
    let v ← elementArg step "value" h.kind
    store h (← outcome (if op = "set" then h.grid.set data index v else h.grid.trySet data index v))
    pure []
  | "describe" => describe h
  | "shares" =>
    let b ← arrayArg step "b"
    pure [("shares", .bool (sharesBuffer h b))]
  | _ =>
    pure [("kind", .str h.kind.name), ("dims", ofNats h.grid.dims),
      ("shape", .str h.grid.shape.display), ("layout", .str h.grid.layout.name)]

/-- Writes `f` of a source array into a destination array; a complex source never goes into a
real destination. -/
def mapInto (dest source : Handle) (f : source.kind.Carrier → dest.kind.Carrier) :
    Session Unit := do
  let destData ← bufferOf dest
  let sourceData ← bufferOf source
  let shared := dest.buffer == source.buffer
  let w ← outcome (Grid.mapInto dest.grid source.grid shared f destData sourceData)
  storeWritten dest w

/-- Runs a kernel that writes an array in place. -/
def writing (op : String) (step : Json) : Session (List (String × Json)) := do
  match op with
  | "map_into" =>
    let dest ← arrayArg step "dest"
    let source ← arrayArg step "src"
    let mul ← elementOr step "mul" dest.kind Element.one
    let add ← elementOr step "add" dest.kind Element.zero
    if source.kind.isComplex && !dest.kind.isComplex then throw .badInput
    mapInto dest source fun x =>
      Element.add (Element.mul ((Element.cast x).getD Element.zero) mul) add
    pure []
  | "copy_into" =>
    let dest ← arrayArg step "dest"
    let source ← arrayArg step "src"
    if e : source.kind = dest.kind then
      mapInto dest source fun x => e ▸ x
      pure []
    else throw .badInput
  | _ =>
    let h ← arrayArg step "a"
    let data ← bufferOf h
    match op with
    | "fill" =>
      let v ← elementArg step "value" h.kind
      storeWritten h (h.grid.fill v data)
      pure []
    | "fill_with" =>
      let values ← elementsArg step "values" h.kind
      if values.isEmpty then throw .badInput
      let cycled := (List.range h.grid.len).map fun i => values.getD (i % values.length) Element.zero
      storeWritten h (← outcome (h.grid.fillWith cycled data))
      pure []
    | "fill_from_fn" =>
      let coefs ← lift (step.need "coefs" (listOf? isize?))
      let base ← lift (step.needOr "base" isize? 0)
      storeWritten h (← outcome (h.grid.fillFromFn (linearElement h.kind coefs base) data))
      pure [("calls", .arr ((Traversal.columnIndices h.grid.dims).map ofNats))]
    | "map_inplace" =>
      let mul ← elementOr step "mul" h.kind Element.one
      let add ← elementOr step "add" h.kind Element.zero
      storeWritten h (h.grid.mapInPlace (fun x => Element.add (Element.mul x mul) add) data)
      pure []
    | "increment" =>
      let v ← elementArg step "value" h.kind
      storeWritten h (h.grid.mapInPlace (fun x => Element.add x v) data)
      pure []
    | "scale" =>
      let v ← elementArg step "value" h.kind
      storeWritten h (h.grid.mapInPlace (fun x => Element.mul x v) data)
      pure []
    | _ => throw .badInput

/-- Folds an array. -/
def folding (op : String) (step : Json) : Session (List (String × Json)) := do
  let h ← arrayArg step "a"
  let data ← bufferOf h
  match op with
  | "scan" =>
    let r ← need (reducer (← lift (step.need "reducer" str?)))
    let value := (← outcome (h.grid.scan r data)).getD Element.zero
    let visited ← outcome (h.grid.values data)
    pure [("value", Element.toJson value), ("visited", .arr (visited.map Element.toJson))]
  | "reduce" =>
    let name ← lift (step.need "reducer" str?)
    let r ← need (reducer name)
    let init ← elementArg step "init" h.kind
    let mul ← elementOr step "mul" h.kind Element.one
    let add ← elementOr step "add" h.kind Element.zero
    let value ← outcome (h.grid.reduce (fun x => Element.add (Element.mul x mul) add) r init data)
    pure [("value", Element.toJson value)]
  | "sum" =>
    let value ← outcome (h.grid.sum data)
    pure [("value", Element.toJson value)]
  | _ =>
    let count ← outcome (h.grid.reduce (fun _ => 1) (· + ·) 0 data)
    pure [("value", .nat count)]

/-- Copies an array out, into a list or a new array. -/
def copying (op : String) (step : Json) : Session (List (String × Json)) := do
  let h ← arrayArg step "a"
  let data ← bufferOf h
  match op with
  | "flatten" =>
    let forceCopy ← lift (step.needOr "force_copy" bool? false)
    let into ← lift (step.optional "into_dims" (listOf? usize?))
    let flat ← outcome (h.grid.flatten forceCopy data)
    let xs := FlatData.toList data flat
    let head := [("shared", .bool flat.isShared), ("len", .nat xs.length)]
    match into with
    | none => pure (head ++ [("data", .arr (xs.map Element.toJson))])
    | some dims =>
      let shape ← check (Shape.ofDims dims)
      let grid ← check (Grid.flatOver shape xs.length)
      let made ← match flat with
        | .shared => append ⟨h.kind, grid, h.buffer⟩
        | .owned _ => create h.kind grid xs.toArray
      pure (head ++ made)
  | "to_vec" =>
    let xs ← outcome (h.grid.toList data)
    pure [("data", .arr (xs.map Element.toJson))]
  | "to_flat" =>
    let (grid, copy) ← outcome (h.grid.toFlat data)
    create h.kind grid copy
  | "to_nested" =>
    let (grid, copy) ← outcome (h.grid.toNested data)
    create h.kind grid copy
  | "convert" =>
    let target ← lift (step.needKind "to")
    match ← outcome (h.grid.convert (β := target.Carrier) data) with
    | .same => append h
    | .copy grid copy => create target grid copy
  | "flatten_f64" =>
    let xs ← match ← outcome (h.grid.convert (β := Float) data) with
      | .same => (List.map Element.toScalar) <$> outcome (h.grid.toList data)
      | .copy grid copy => (List.map Element.toScalar) <$> outcome (grid.toList copy)
    pure [("data", .arr (xs.map Json.ofScalar))]
  | _ =>
    let b ← lift (step.needBoundary "condition")
    let offsets ← lift (step.need "offsets" (listOf? isize?))
    let (grid, copy) ← outcome (h.grid.shifted offsets b data)
    create h.kind grid copy

/-- Runs one step. Its operation name is read first, then its kind, written or not, before
the operation is chosen. -/
def step (default : Kind) (step : Json) : Session (List (String × Json)) := do
  let op ← lift (step.need "op" str?)
  let kind ← lift (step.kindOr "kind" default)
  match op with
  | "zeros" | "typed_zeros" | "filled" | "scalar" | "zeros_nested" | "from_vec" | "from_fn"
  | "from_rows" | "wrap_strided" | "from_buffer" =>
    creation op step kind
  | "view" | "slice" | "permute" => viewing op step
  | "get" | "try_get" | "set" | "try_set" | "describe" | "shares" | "typed_info" => access op step
  | "fill" | "fill_with" | "fill_from_fn" | "map_inplace" | "increment" | "scale" | "map_into"
  | "copy_into" => writing op step
  | "scan" | "reduce" | "sum" | "count" => folding op step
  | "flatten" | "to_vec" | "to_flat" | "to_nested" | "convert" | "flatten_f64" | "shifted" =>
    copying op step
  | _ => throw .badInput

end Session

namespace Store

/-- The column-major contents of every array, in order. -/
def state (s : Store) : Json :=
  .arr (s.arrays.toList.map fun h =>
    match s.listing h with
    | .ok xs => .arr (xs.map Json.ofScalar)
    | .error _ => .arr [])

/-- Runs one step and answers it with the state after it. -/
def answerStep (s : Store) (default : Kind) (step : Json) : Store × Json :=
  match EStateM.run (Session.step default step) s with
  | .ok fields s => (s, .obj (fields ++ [("state", s.state)]))
  | .error f s =>
    let fields := match f.toJson with
      | .obj fields => fields
      | _ => []
    (s, .obj (fields ++ [("state", s.state)]))

/-- Runs steps in order from a store, answering each. -/
def answerSteps (default : Kind) : Store → List Json → List Json
  | _, [] => []
  | s, step :: rest =>
    let (s, answer) := s.answerStep default step
    answer :: answerSteps default s rest

end Store

namespace Service

/-- Runs a program: its steps against an empty store, with the program's kind (`f64` unless
given) for new arrays. -/
def program (req : Json) : Reading Json := do
  let kind ← req.kindOr "kind" .f64
  let steps ← req.need "steps" Json.items?
  pure (.obj [("results", .arr (Store.answerSteps kind {} steps))])

end Service

end StridedGrid
