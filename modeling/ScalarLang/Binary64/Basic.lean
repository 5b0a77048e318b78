/-!
# Binary64 numbers as bit patterns

A floating-point value is kept as its 64 bits: a sign, eleven bits of
exponent and 52 of fraction. Two values are equal here when their bits
are, so the two zeros differ and a NaN equals itself; the numeric order,
in which the zeros agree and a NaN compares with nothing, is `compare?`.

Every finite pattern is a whole multiple of 2⁻¹⁰⁷⁴, the least positive
one. `units` is that multiple, and the arithmetic is done on it.
-/

namespace ScalarLang

/-- A binary64 number, given by its bits. -/
structure Binary64 where
  bits : UInt64
  deriving DecidableEq

namespace Binary64

/-- The sign bit. -/
def signBit : Nat := 0x8000000000000000

/-- The least bit of the exponent. In the significand of a normal number
it is the one that is not written, 2⁵². -/
def hiddenBit : Nat := 0x10000000000000

/-- The magnitude bits of infinity; larger magnitudes are NaNs. -/
def infinityMagnitude : Nat := 2047 * hiddenBit

/-- All bits but the sign. -/
def magnitude (x : Binary64) : Nat := x.bits.toNat % signBit

/-- Whether the sign bit is set. -/
def isNegative (x : Binary64) : Bool := signBit ≤ x.bits.toNat

/-- The number with the given sign and magnitude bits. -/
def ofMagnitude (negative : Bool) (magnitude : Nat) : Binary64 :=
  ⟨UInt64.ofNat (magnitude + if negative then signBit else 0)⟩

def zero : Binary64 := ofMagnitude false 0

def one : Binary64 := ofMagnitude false (1023 * hiddenBit)

def infinity : Binary64 := ofMagnitude false infinityMagnitude

/-- The quiet NaN with a clear sign and no payload, the result of every
invalid operation. -/
def nan : Binary64 := ofMagnitude false (infinityMagnitude + hiddenBit / 2)

/-- Not a number: neither finite nor infinite. -/
def isNaN (x : Binary64) : Bool := infinityMagnitude < x.magnitude

/-- Either of the two infinities. -/
def isInfinite (x : Binary64) : Bool := x.magnitude == infinityMagnitude

/-- Either of the two zeros. -/
def isZero (x : Binary64) : Bool := x.magnitude == 0

/-- Flips the sign bit, of a NaN too. -/
def neg (x : Binary64) : Binary64 := ofMagnitude (!x.isNegative) x.magnitude

/-- Clears the sign bit, of a NaN too. -/
def abs (x : Binary64) : Binary64 := ofMagnitude false x.magnitude

/-! ## Order

Among numbers of one sign, larger magnitude bits mean a larger magnitude,
so the signed magnitude bits are a key for the numeric order. -/

/-- The magnitude bits with the sign of the number. -/
def orderKey (x : Binary64) : Int :=
  if x.isNegative then -(x.magnitude : Int) else x.magnitude

/-- The numeric order; a NaN has no place in it. -/
def compare? (x y : Binary64) : Option Ordering :=
  if x.isNaN || y.isNaN then none else some (compare x.orderKey y.orderKey)

/-! ## Value -/

/-- The value of magnitude bits, in multiples of 2⁻¹⁰⁷⁴: subnormal
numbers have no hidden bit, and each step of the exponent doubles. -/
def unitsOfMagnitude (magnitude : Nat) : Nat :=
  let exponent := magnitude / hiddenBit
  let fraction := magnitude % hiddenBit
  if exponent = 0 then fraction else (hiddenBit + fraction) <<< (exponent - 1)

/-- How many multiples of 2⁻¹⁰⁷⁴ make one. -/
def unitsPerOne : Nat := 1 <<< 1074

/-- The absolute value of a finite number, in multiples of 2⁻¹⁰⁷⁴. -/
def absUnits (x : Binary64) : Nat := unitsOfMagnitude x.magnitude

/-- The value of a finite number, in multiples of 2⁻¹⁰⁷⁴. -/
def units (x : Binary64) : Int :=
  if x.isNegative then -(x.absUnits : Int) else x.absUnits

end Binary64

end ScalarLang
