

/-!
# Shortest decimal digits of a double

A finite double `x ≠ 0` is `m · 2^q` for a natural significand `m` and an integer exponent `q`.
The reals that round to it form an interval around it whose ends lie halfway to its two
neighbours; the ends belong to the interval exactly when `m` is even, since a tie rounds to
the even significand. At the bottom of a binade (except the lowest) the lower neighbour is
twice as close as the upper one.

`Float.shortestDigits` picks, among the decimals `c · 10^t` in that interval, those with the
largest `t` (so the fewest significant digits), and of them the one nearest `x`; an exact tie
goes to the even `c`. Everything is exact arithmetic on naturals: after scaling by a power of
two or five, the interval ends and `x` are integers times one common power of ten.

`Float.decimalText` lays the digits out positionally when the decimal point falls within
sixteen places of the first digit (or five places before it) and in scientific notation
otherwise; an integer keeps a trailing `.0`, so the text always reads as a float.
-/

namespace StridedGrid

namespace Decimal

/-- A finite non-zero double, decoded: `(-1)^negative · significand · 2^exponent`. -/
structure Binary where
  negative : Bool
  significand : Nat
  exponent : Int
  /-- Whether the lower neighbour is closer than the upper one. -/
  lowerCloser : Bool

/-- Decodes the bits of a double; `none` for zero, infinities and NaN. -/
def Binary.ofBits (bits : UInt64) : Option Binary :=
  let b : Nat := bits.toNat
  let negative : Bool := b / Nat.pow 2 63 % 2 == 1
  let biased : Nat := b / Nat.pow 2 52 % Nat.pow 2 11
  let fraction : Nat := b % Nat.pow 2 52
  if biased = Nat.pow 2 11 - 1 then none
  else if biased = 0 then
    if fraction = 0 then none
    else some ⟨negative, fraction, -1074, false⟩
  else some ⟨negative, fraction + Nat.pow 2 52, (biased : Int) - 1075, fraction = 0 && biased > 1⟩

/-- Number of decimal digits of a natural (one for zero). -/
def digitCount (n : Nat) : Nat := (toString n).length

/-- A decimal: `digits · 10^exponent`. -/
structure Scientific where
  digits : Nat
  exponent : Int
  deriving DecidableEq, Repr

/-- The rounding interval of a decoded double, as integers to be read at the scale
`10^scale`: lower end, the value itself, upper end. -/
structure Interval where
  low : Nat
  mid : Nat
  high : Nat
  scale : Int
  closed : Bool

/-- The rounding interval of `m · 2^q`: the value and its two half-way points, all multiplied
by four so that the lower half-way point of a binade's bottom is an integer too. -/
def Binary.interval (x : Binary) : Interval :=
  let m := x.significand
  let lowNum := if x.lowerCloser then 4 * m - 1 else 4 * m - 2
  let q := x.exponent - 2
  let (factor, scale) : Nat × Int :=
    if q ≥ 0 then (Nat.pow 2 q.toNat, 0) else (Nat.pow 5 (-q).toNat, q)
  ⟨lowNum * factor, 4 * m * factor, (4 * m + 2) * factor, scale, m % 2 == 0⟩

namespace Interval

/-- Whether the integer `c` lies in the interval. -/
def contains (i : Interval) (c : Nat) : Bool :=
  if i.closed then i.low ≤ c && c ≤ i.high else i.low < c && c < i.high

/-- Whether some multiple of `10^t` lies in the interval. -/
def hasMultiple (i : Interval) (t : Nat) : Bool :=
  let unit := Nat.pow 10 t
  let first := (i.low + unit - 1) / unit * unit
  let first := if !i.closed && first == i.low then first + unit else first
  i.contains first

/-- The largest `t` with a multiple of `10^t` in the interval, searched downwards from the
number of digits of the upper end. The value itself is a multiple of `10^0`. -/
def coarsest (i : Interval) : Nat :=
  ((List.range (digitCount i.high + 1)).reverse.find? i.hasMultiple).getD 0

/-- The multiple of `10^t` in the interval that is nearest the value; a tie goes to the even
multiplier. -/
def nearestMultiple (i : Interval) (t : Nat) : Nat :=
  let unit := Nat.pow 10 t
  let below := i.mid / unit
  let above := below + 1
  if !i.contains (above * unit) then below
  else if !i.contains (below * unit) then above
  else
    let downGap := i.mid - below * unit
    let upGap := above * unit - i.mid
    if downGap < upGap then below
    else if upGap < downGap then above
    else if below % 2 == 0 then below else above

end Interval

/-- The shortest decimal in the rounding interval of a decoded double, nearest it. -/
def Binary.shortest (x : Binary) : Scientific :=
  let i := x.interval
  let t := i.coarsest
  ⟨i.nearestMultiple t, i.scale + t⟩

/-- Decimal text of a digit string `d` (no leading zero) whose value is `d · 10^k`. -/
def layout (d : String) (k : Int) : String :=
  let n : Int := d.length
  let point := n + k
  if 0 ≤ k ∧ point ≤ 16 then
    d ++ String.ofList (List.replicate k.toNat '0') ++ ".0"
  else if 0 < point ∧ point ≤ 16 then
    String.ofList (d.toList.take point.toNat) ++ "." ++ String.ofList (d.toList.drop point.toNat)
  else if -5 < point ∧ point ≤ 0 then
    "0." ++ String.ofList (List.replicate (-point).toNat '0') ++ d
  else
    let e := point - 1
    let mark := if e < 0 then "e" ++ toString e else "e+" ++ toString e
    if d.length = 1 then d ++ mark
    else String.ofList (d.toList.take 1) ++ "." ++ String.ofList (d.toList.drop 1) ++ mark

/-- Removes trailing zeros of a decimal, raising its exponent. -/
def Scientific.normalize (s : Scientific) : Scientific :=
  let trailing := ((toString s.digits).toList.reverse.takeWhile (· == '0')).length
  if s.digits = 0 then s else ⟨s.digits / Nat.pow 10 trailing, s.exponent + trailing⟩

end Decimal

/-- The shortest decimal that reads back as this double, nearest it; `none` for zeros,
infinities and NaN. -/
def Float.shortestDigits (x : Float) : Option Decimal.Scientific :=
  (Decimal.Binary.ofBits x.toBits).map fun b => b.shortest.normalize

/-- Decimal text of a finite double that reads back as the same double: `-0.0`, `1e-7`,
`0.1`, `1000000000000000.0`, `1e+16`, `1.2345678901234568e+20`. -/
def Float.decimalText (x : Float) : String :=
  let negative := x.toBits.toNat / Nat.pow 2 63 % 2 == 1
  let sign := if negative then "-" else ""
  match Float.shortestDigits x with
  | none => sign ++ "0.0"
  | some s => sign ++ Decimal.layout (toString s.digits) s.exponent

end StridedGrid
