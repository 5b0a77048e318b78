import ScalarLang.Binary64.Arithmetic
import ScalarLang.Text.Digits
/-!
# Binary64 numbers as decimal text

`shortest` finds the fewest decimal digits that read back as a number,
and of the candidates with that many digits the one nearest to it.
`text` lays the digits out. `ofDecimal` reads a decimal: it yields the
number nearest to what the digits and the exponent denote.
-/

namespace ScalarLang

namespace Binary64

/-! ## Reading -/

/-- The number nearest to `digits · 10 ^ exponent`. A decimal of more
than 310 places before the point is past the largest number, and one
below 10⁻³³⁰ is nearest to zero; neither is worked out. -/
def ofDecimal (digits : Nat) (exponent : Int) : Binary64 :=
  let places := (Text.decimalLength digits : Int) + exponent
  if digits = 0 || places < -330 then zero
  else if 310 < places then infinity
  else ofRatio false (digits * Nat.pow 10 exponent.toNat) (Nat.pow 10 (-exponent).toNat)

/-! ## The shortest digits -/

/-- A decimal: `digits · 10 ^ exponent`. -/
structure Decimal where
  digits : Nat
  exponent : Int

/-- The reals that round to one number, as a closed or open interval
around it, in halves of 2⁻¹⁰⁷⁴. -/
structure Interval where
  low : Nat
  value : Nat
  high : Nat
  closed : Bool

/-- A number reaches half way to each neighbour, and gets the half-way
points themselves if its last bit is even. -/
def interval (x : Binary64) : Interval where
  low := unitsOfMagnitude (x.magnitude - 1) + unitsOfMagnitude x.magnitude
  value := 2 * unitsOfMagnitude x.magnitude
  high := unitsOfMagnitude x.magnitude + unitsOfMagnitude (x.magnitude + 1)
  closed := x.magnitude % 2 == 0

/-- The place of the leading decimal digit of a positive ratio. -/
def leadingPlace (num den : Nat) : Int :=
  if den ≤ num then (Text.decimalLength (num / den) : Int) - 1
  else -(Text.decimalLength ((den - 1) / num) : Int)

/-- Of the two multiples of `10 ^ place` on either side of the number,
the one that reads back; if both do, the nearer, and the larger one if
they are equally near. -/
def Interval.onGrid? (v : Interval) (place : Int) : Option Decimal :=
  let unit := 2 * unitsPerOne * Nat.pow 10 place.toNat
  let scale := Nat.pow 10 (-place).toNat
  let readsBack (k : Nat) : Bool :=
    if v.closed then v.low * scale ≤ k * unit && k * unit ≤ v.high * scale
    else v.low * scale < k * unit && k * unit < v.high * scale
  let below := v.value * scale / unit
  let rest := v.value * scale % unit
  if readsBack below && (!readsBack (below + 1) || 2 * rest < unit) then some ⟨below, place⟩
  else if readsBack (below + 1) then some ⟨below + 1, place⟩
  else none

/-- Moves trailing zeros of the digits into the exponent, at most
`fuel` of them. -/
def Decimal.trim (d : Decimal) : (fuel : Nat) → Decimal
  | 0 => d
  | fuel + 1 =>
    if d.digits % 10 = 0 then Decimal.trim ⟨d.digits / 10, d.exponent + 1⟩ fuel else d

/-- The fewest digits that read back as a positive finite number. With 17
significant digits one of the two neighbours on the grid always does. -/
def shortest (x : Binary64) : Decimal :=
  let v := x.interval
  let lead := leadingPlace x.absUnits unitsPerOne
  let found := (List.range 17).findSome? fun (n : Nat) => v.onGrid? (lead - n)
  (found.getD ⟨0, 0⟩).trim 17

/-! ## Layout -/

/-- How a decimal is laid out: the places of the leading digit that are
written positionally, and the texts of the numbers without digits. -/
structure Layout where
  firstPositional : Int
  lastPositional : Int
  nan : String
  infinity : String
  negativeInfinity : String

/-- Positional notation with at least one digit on either side of the
point. -/
def Decimal.positional (d : Decimal) : String :=
  let digits := Nat.toDigits 10 d.digits
  let point := (digits.length : Int) + d.exponent
  if 0 ≤ d.exponent then
    String.ofList (digits ++ List.replicate d.exponent.toNat '0' ++ ['.', '0'])
  else if 0 < point then
    String.ofList (digits.take point.toNat ++ '.' :: digits.drop point.toNat)
  else
    String.ofList ('0' :: '.' :: List.replicate (-point).toNat '0' ++ digits)

/-- One digit before the point, none after it if there is only one, and a
decimal exponent. -/
def Decimal.scientific (d : Decimal) : String :=
  let digits := Nat.toDigits 10 d.digits
  let fraction := match digits.drop 1 with
    | [] => []
    | rest => '.' :: rest
  let place := (digits.length : Int) + d.exponent - 1
  String.ofList (digits.take 1 ++ fraction ++ ['e']) ++ toString place

/-- The text of a number: its shortest digits, placed as the layout
says. Zero keeps its sign. -/
def textWith (layout : Layout) (x : Binary64) : String :=
  if x.isNaN then layout.nan
  else if x.isInfinite then
    if x.isNegative then layout.negativeInfinity else layout.infinity
  else
    let d := if x.isZero then ⟨0, 0⟩ else x.shortest
    let place := (Text.decimalLength d.digits : Int) + d.exponent - 1
    let digits :=
      if layout.firstPositional ≤ place && place ≤ layout.lastPositional then d.positional
      else d.scientific
    if x.isNegative then "-" ++ digits else digits

end Binary64

end ScalarLang
