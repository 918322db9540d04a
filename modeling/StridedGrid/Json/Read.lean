import StridedGrid.Json.Basic

/-!
# Reading JSON text

A reader for the JSON grammar. Blanks are space, tab, line feed and carriage return; strings
refuse raw control characters and unpaired surrogate escapes; a number has no leading zero and
at least one digit after a point or an exponent mark.

Numbers are classified as the document type says: an integer written without fraction or
exponent stays an integer when it is an unsigned word, or a negative signed word; `-0` and
every other number become the nearest double. A number too large for a double is refused,
and so is a document with more than 127 arrays and objects open at once.

The readers take fuel, one unit per character of the whole text: every call consumes at least
one character before the next, so `Json.parse` never runs out.
-/

namespace StridedGrid

namespace Json

/-- Characters allowed between tokens. -/
def isBlank (c : Char) : Bool := c == ' ' || c == '\t' || c == '\n' || c == '\r'

/-- Drops leading blanks. -/
def skipBlank (cs : List Char) : List Char := cs.dropWhile isBlank

/-- The value of a hexadecimal digit. -/
def hexValue (c : Char) : Option Nat :=
  if '0' ≤ c ∧ c ≤ '9' then some (c.toNat - '0'.toNat)
  else if 'a' ≤ c ∧ c ≤ 'f' then some (c.toNat - 'a'.toNat + 10)
  else if 'A' ≤ c ∧ c ≤ 'F' then some (c.toNat - 'A'.toNat + 10)
  else none

/-- Four hexadecimal digits. -/
def readHex4 : List Char → Option (Nat × List Char)
  | a :: b :: c :: d :: rest => do
    let a ← hexValue a
    let b ← hexValue b
    let c ← hexValue c
    let d ← hexValue d
    return (((a * 16 + b) * 16 + c) * 16 + d, rest)
  | _ => none

/-- The character of a one-letter escape. -/
def escapedChar : Char → Option Char
  | '"' => some '"'
  | '\\' => some '\\'
  | '/' => some '/'
  | 'b' => some (Char.ofNat 8)
  | 'f' => some (Char.ofNat 12)
  | 'n' => some '\n'
  | 'r' => some '\r'
  | 't' => some '\t'
  | _ => none

/-- The rest of a string after its opening quote: its text, and what follows the closing quote.
`acc` holds the characters read so far, last first. -/
def readString : Nat → List Char → List Char → Option (String × List Char)
  | 0, _, _ => none
  | _ + 1, [], _ => none
  | fuel + 1, c :: rest, acc =>
    if c = '"' then some (String.ofList acc.reverse, rest)
    else if c = '\\' then
      match rest with
      | 'u' :: r => do
        let (unit, r) ← readHex4 r
        if 0xD800 ≤ unit ∧ unit < 0xDC00 then
          match r with
          | '\\' :: 'u' :: r => do
            let (low, r) ← readHex4 r
            if 0xDC00 ≤ low ∧ low < 0xE000 then
              let code := 0x10000 + (unit - 0xD800) * 0x400 + (low - 0xDC00)
              readString fuel r (Char.ofNat code :: acc)
            else none
          | _ => none
        else if 0xDC00 ≤ unit ∧ unit < 0xE000 then none
        else readString fuel r (Char.ofNat unit :: acc)
      | e :: r => do
        let ch ← escapedChar e
        readString fuel r (ch :: acc)
      | [] => none
    else if c.toNat < 0x20 then none
    else readString fuel rest (c :: acc)

/-- The leading decimal digits and the rest. -/
def splitDigits (cs : List Char) : List Char × List Char :=
  (cs.takeWhile Char.isDigit, cs.dropWhile Char.isDigit)

/-- The natural number a list of decimal digits spells. -/
def natOfDigits (ds : List Char) : Nat :=
  ds.foldl (fun n c => 10 * n + (c.toNat - '0'.toNat)) 0

/-- The double nearest `m · 10^e`, refused when it is too large for a double. A value below
`10^-330` rounds to zero and one at or above `10^310` is too large, whatever its digits; the
powers of ten in between are computed exactly. -/
def nearestDouble (m : Nat) (e : Int) : Option Float :=
  if m = 0 then some 0
  else
    let magnitude : Int := (toString m).length + e
    if magnitude > 310 then none
    else if magnitude < -330 then some 0
    else
      let x := if e < 0 then Float.ofScientific m true e.natAbs
        else Float.ofScientific m false e.natAbs
      if x.isInf then none else some x

/-- An integer written without fraction or exponent, by the document classes. -/
def classifyInteger (negative : Bool) (n : Nat) : Option Json :=
  if !negative then
    if n < Nat.pow 2 64 then some (.nat n) else (nearestDouble n 0).map .float
  else if n = 0 then some (.float (-0))
  else if n ≤ Nat.pow 2 63 then some (.int (-(n : Int)))
  else (nearestDouble n 0).map fun x => .float (-x)

/-- The exponent part of a number, if any: its value and the rest. An exponent mark must be
followed by at least one digit. -/
def readExponent : List Char → Option (Option Int × List Char)
  | c :: rest =>
    if c = 'e' ∨ c = 'E' then
      let (negative, r) := match rest with
        | '+' :: r => (false, r)
        | '-' :: r => (true, r)
        | r => (false, r)
      let (ds, r) := splitDigits r
      if ds.isEmpty then none
      else
        let v : Int := natOfDigits ds
        some (some (if negative then -v else v), r)
    else some (none, c :: rest)
  | [] => some (none, [])

/-- A number starting at a minus sign or a digit. -/
def readNumber (cs : List Char) : Option (Json × List Char) := do
  let (negative, cs) := match cs with
    | '-' :: r => (true, r)
    | r => (false, r)
  let (whole, rest) := splitDigits cs
  if whole.isEmpty then none
  else if whole.head? = some '0' ∧ whole.length > 1 then none
  else
    let (fraction, rest) ← match rest with
      | '.' :: r =>
        let (ds, r) := splitDigits r
        if ds.isEmpty then none else some (ds, r)
      | r => some ([], r)
    let hasPoint := !fraction.isEmpty
    let (exponent, rest) ← readExponent rest
    match exponent, hasPoint with
    | none, false => (classifyInteger negative (natOfDigits whole)).map (·, rest)
    | _, _ =>
      let e := exponent.getD 0 - fraction.length
      let x ← nearestDouble (natOfDigits (whole ++ fraction)) e
      return (.float (if negative then -x else x), rest)

/-- How many arrays and objects may be open at once: a document nested deeper is refused, as
the reader's recursion limit of 128 levels refuses it. -/
def nestingLimit : Nat := 127

mutual

/-- One value after optional blanks, and the rest; `room` more arrays or objects may open. -/
def readValue : Nat → Nat → List Char → Option (Json × List Char)
  | 0, _, _ => none
  | fuel + 1, room, cs =>
    match skipBlank cs with
    | 'n' :: 'u' :: 'l' :: 'l' :: r => some (.null, r)
    | 't' :: 'r' :: 'u' :: 'e' :: r => some (.bool true, r)
    | 'f' :: 'a' :: 'l' :: 's' :: 'e' :: r => some (.bool false, r)
    | '"' :: r => (readString (r.length + 1) r []).map fun (s, r) => (.str s, r)
    | '[' :: r =>
      match room with
      | 0 => none
      | room + 1 =>
        match skipBlank r with
        | ']' :: r => some (.arr [], r)
        | _ => readItems fuel room r []
    | '{' :: r =>
      match room with
      | 0 => none
      | room + 1 =>
        match skipBlank r with
        | '}' :: r => some (.obj [], r)
        | _ => readFields fuel room r []
    | c :: r => if c = '-' ∨ c.isDigit then readNumber (c :: r) else none
    | [] => none

/-- The items of an array after its opening bracket; `acc` holds those read, last first. -/
def readItems : Nat → Nat → List Char → List Json → Option (Json × List Char)
  | 0, _, _, _ => none
  | fuel + 1, room, cs, acc => do
    let (v, r) ← readValue fuel room cs
    match skipBlank r with
    | ',' :: r => readItems fuel room r (v :: acc)
    | ']' :: r => some (.arr (v :: acc).reverse, r)
    | _ => none

/-- The fields of an object after its opening brace; `acc` holds those read, last first. -/
def readFields : Nat → Nat → List Char → List (String × Json) → Option (Json × List Char)
  | 0, _, _, _ => none
  | fuel + 1, room, cs, acc =>
    match skipBlank cs with
    | '"' :: r => do
      let (key, r) ← readString (r.length + 1) r []
      match skipBlank r with
      | ':' :: r => do
        let (v, r) ← readValue fuel room r
        match skipBlank r with
        | ',' :: r => readFields fuel room r ((key, v) :: acc)
        | '}' :: r => some (.obj ((key, v) :: acc).reverse, r)
        | _ => none
      | _ => none
    | _ => none

end

/-- Reads a whole text as one document, with nothing but blanks around it. -/
def parse (text : String) : Option Json :=
  let cs := text.toList
  match readValue (cs.length + 1) nestingLimit cs with
  | some (v, rest) => if (skipBlank rest).isEmpty then some v else none
  | none => none

end Json

end StridedGrid
