import ScalarLang.Binary64.Basic
/-!
# Binary64 arithmetic

Each operation computes its exact result as a ratio of natural numbers
and rounds it once, to the nearest number, a tie going to the even one
(`roundRatio`). The remainder is exact and rounds nothing. Sine and
cosine are those of the platform.
-/

namespace ScalarLang

namespace Binary64

/-! ## Rounding -/

/-- The natural number nearest to `num / den`, a tie going to the even
one. -/
def divNearestEven (num den : Nat) : Nat :=
  let quotient := num / den
  let twice := 2 * (num % den)
  if twice < den then quotient
  else if den < twice then quotient + 1
  else quotient + quotient % 2

/-- The largest `e` with `2 ^ e ≤ num / den`, for a positive ratio. -/
def ratioLog2 (num den : Nat) : Int :=
  let e : Int := (num.log2 : Int) - den.log2
  if den <<< e.toNat ≤ num <<< (-e).toNat then e else e - 1

/-- The magnitude bits of the number nearest to `num / den`. The last
place is that of a 53-bit significand, or 2⁻¹⁰⁷⁴ where that is larger; a
significand that rounds up to 2⁵³ carries into the exponent, and what
carries past the largest exponent is infinity. -/
def roundRatio (num den : Nat) : Nat :=
  if num = 0 then 0
  else
    let place := max (ratioLog2 num den - 52) (-1074)
    let significand := divNearestEven (num <<< (-place).toNat) (den <<< place.toNat)
    min infinityMagnitude ((place + 1074).toNat * hiddenBit + significand)

/-- The number nearest to `num / den`, with the given sign. -/
def ofRatio (negative : Bool) (num den : Nat) : Binary64 :=
  ofMagnitude negative (roundRatio num den)

/-- The number nearest to an integer. -/
def ofInt (n : Int) : Binary64 := ofRatio (n < 0) n.natAbs 1

/-- The integer part, toward zero, limited to `low` and `high`; zero for
a NaN. -/
def truncateWithin (low high : Int) (x : Binary64) : Int :=
  if x.isNaN then 0
  else
    let whole : Int := (x.absUnits / unitsPerOne : Nat)
    max low (min high (if x.isNegative then -whole else whole))

/-- The integer part, toward zero, as a 64-bit integer; what lies beyond
the range becomes the nearest end of it. -/
def toInt64 (x : Binary64) : Int64 :=
  Int64.ofInt (x.truncateWithin Int64.minValue.toInt Int64.maxValue.toInt)

/-! ## Operations -/

/-- The sum. Infinities of opposite signs have none, and numbers that
cancel out leave a positive zero. -/
def add (x y : Binary64) : Binary64 :=
  if x.isNaN || y.isNaN then nan
  else if x.isInfinite then
    if y.isInfinite && x.isNegative != y.isNegative then nan else x
  else if y.isInfinite then y
  else
    let sum := x.units + y.units
    if sum = 0 then ofMagnitude (x.isNegative && y.isNegative) 0
    else ofRatio (sum < 0) sum.natAbs unitsPerOne

/-- The difference: the sum with the negative. -/
def sub (x y : Binary64) : Binary64 := x.add y.neg

/-- The product. An infinity times a zero is none. -/
def mul (x y : Binary64) : Binary64 :=
  let negative := x.isNegative != y.isNegative
  if x.isNaN || y.isNaN then nan
  else if x.isInfinite || y.isInfinite then
    if x.isZero || y.isZero then nan else ofMagnitude negative infinityMagnitude
  else ofRatio negative (x.absUnits * y.absUnits) (unitsPerOne * unitsPerOne)

/-- The quotient. A number divided by a zero is infinite; two zeros or two
infinities have no quotient. -/
def div (x y : Binary64) : Binary64 :=
  let negative := x.isNegative != y.isNegative
  if x.isNaN || y.isNaN then nan
  else if x.isInfinite then
    if y.isInfinite then nan else ofMagnitude negative infinityMagnitude
  else if y.isInfinite then ofMagnitude negative 0
  else if y.isZero then
    if x.isZero then nan else ofMagnitude negative infinityMagnitude
  else ofRatio negative x.absUnits y.absUnits

/-- The remainder of a division that truncates toward zero; it has the
sign of the dividend. -/
def rem (x y : Binary64) : Binary64 :=
  if x.isNaN || y.isNaN || x.isInfinite || y.isZero then nan
  else if y.isInfinite then x
  else ofRatio x.isNegative (x.absUnits % y.absUnits) unitsPerOne

/-- The remainder brought into the range from zero to the magnitude of
the divisor. -/
def remEuclid (x y : Binary64) : Binary64 :=
  let r := x.rem y
  if r.compare? zero = some .lt then r.add y.abs else r

/-! ## Angles -/

/-- The number nearest to the ratio of a circle's circumference to its
diameter. -/
def pi : Binary64 := ⟨0x400921fb54442d18⟩

/-- The number nearest to the base of the natural logarithm. -/
def e : Binary64 := ⟨0x4005bf0a8b145769⟩

/-- The sine of an angle in radians. -/
def sin (x : Binary64) : Binary64 := ⟨(Float.ofBits x.bits).sin.toBits⟩

/-- The cosine of an angle in radians. -/
def cos (x : Binary64) : Binary64 := ⟨(Float.ofBits x.bits).cos.toBits⟩

/-- The factor is rounded before it is applied. -/
def degreesToRadians (x : Binary64) : Binary64 := x.mul (pi.div (ofInt 180))

/-- The factor is rounded before it is applied. -/
def radiansToDegrees (x : Binary64) : Binary64 := x.mul ((ofInt 180).div pi)

end Binary64

end ScalarLang
