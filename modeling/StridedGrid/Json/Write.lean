import StridedGrid.Json.Basic
import StridedGrid.Decimal.Shortest

/-!
# Writing JSON text

Documents are written compactly, with the fields of an object sorted by name. A double is
written as its shortest decimal (`Float.decimalText`); a double with no decimal, an infinity or
NaN, is written `null`. Strings escape the quote, the backslash and control characters.
-/

namespace StridedGrid

namespace Json

/-- Four lower-case hexadecimal digits of a code below `2^16`. -/
def hex4 (n : Nat) : String :=
  let digit (k : Nat) : Char := "0123456789abcdef".toList.getD (n / Nat.pow 16 k % 16) '0'
  String.ofList [digit 3, digit 2, digit 1, digit 0]

/-- The escaped form of one character inside a string. -/
def escapeChar (c : Char) : String :=
  if c = '"' then "\\\""
  else if c = '\\' then "\\\\"
  else if c = '\n' then "\\n"
  else if c = '\r' then "\\r"
  else if c = '\t' then "\\t"
  else if c.toNat = 8 then "\\b"
  else if c.toNat = 12 then "\\f"
  else if c.toNat < 0x20 then "\\u" ++ hex4 c.toNat
  else c.toString

/-- A string in quotes. -/
def quote (s : String) : String :=
  "\"" ++ String.join (s.toList.map escapeChar) ++ "\""

/-- Whether a double is neither infinite nor NaN. -/
def finiteDouble (x : Float) : Bool := x.toBits.toNat / Nat.pow 2 52 % Nat.pow 2 11 != Nat.pow 2 11 - 1

mutual

/-- Compact text of a document. -/
def render : Json → String
  | .null => "null"
  | .bool b => if b then "true" else "false"
  | .nat n => toString n
  | .int n => toString n
  | .float x => if finiteDouble x then Float.decimalText x else "null"
  | .str s => quote s
  | .arr items => "[" ++ ",".intercalate (renderItems items) ++ "]"
  | .obj fields =>
    let sorted := (renderFields fields).mergeSort fun a b => decide (a.1 ≤ b.1)
    "\x7b" ++ ",".intercalate (sorted.map fun (k, t) => quote k ++ ":" ++ t) ++ "\x7d"

/-- Texts of the items of an array. -/
def renderItems : List Json → List String
  | [] => []
  | j :: rest => render j :: renderItems rest

/-- Names and value texts of the fields of an object. -/
def renderFields : List (String × Json) → List (String × String)
  | [] => []
  | (k, v) :: rest => (k, render v) :: renderFields rest

end

end Json

end StridedGrid
