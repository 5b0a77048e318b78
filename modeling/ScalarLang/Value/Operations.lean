import ScalarLang.Value.Basic
/-!
# Operations on values

Arithmetic converts both operands to the wider of their kinds; the
bitwise operations do so too and then work on the payloads. Shifts move
the payload of the left operand and keep its kind. Comparisons look at
the operands as floats, whatever their kinds.
-/

namespace ScalarLang

namespace Value

/-! ## Arithmetic -/

/-- Applies the operation for the wider kind of two values to the values
converted to that kind. -/
def promote (onBooleans : Bool → Bool → Value) (onIntegers : Int64 → Int64 → Value)
    (onFloats : Binary64 → Binary64 → Value) (v w : Value) : Value :=
  match v.kind.wider w.kind with
  | .boolean => onBooleans v.truthy w.truthy
  | .integer => onIntegers v.toInt64 w.toInt64
  | .float => onFloats v.toBinary64 w.toBinary64

/-- The sum; of booleans, whether either holds. -/
def add : Value → Value → Value :=
  promote (fun a b => boolean (a || b)) (fun a b => integer (a + b)) (fun a b => float (a.add b))

/-- The difference; of booleans, whether the first holds without the
second. -/
def sub : Value → Value → Value :=
  promote (fun a b => boolean (a && !b)) (fun a b => integer (a - b)) (fun a b => float (a.sub b))

/-- The product; of booleans, whether both hold. -/
def mul : Value → Value → Value :=
  promote (fun a b => boolean (a && b)) (fun a b => integer (a * b)) (fun a b => float (a.mul b))

/-- The quotient, toward zero for integers; a NaN if an integer is divided
by zero. A boolean divided by a boolean is itself. -/
def div : Value → Value → Value :=
  promote (fun a _ => boolean a)
    (fun a b => if b = 0 then float .nan else integer (a / b))
    (fun a b => float (a.div b))

/-- The remainder that belongs to `div`. -/
def rem : Value → Value → Value :=
  promote (fun a _ => boolean a)
    (fun a b => if b = 0 then float .nan else integer (a % b))
    (fun a b => float (a.rem b))

/-- The negative; of a boolean, the other one. -/
def neg : Value → Value
  | boolean b => boolean !b
  | integer n => integer (-n)
  | float x => float x.neg

/-- The absolute value; booleans are their own. The least integer has none
and stays as it is. -/
def abs : Value → Value
  | boolean b => boolean b
  | integer n => integer (if n < 0 then -n else n)
  | float x => float x.abs

/-! ## Payloads -/

/-- Applies an operation on payloads at the wider kind of two values. -/
def bitwise (op : UInt64 → UInt64 → UInt64) (v w : Value) : Value :=
  let k := v.kind.wider w.kind
  ofRaw k (op (v.convert k).raw (w.convert k).raw)

/-- The bits that both payloads have; likewise for the other bitwise
operations. -/
def bitAnd : Value → Value → Value := bitwise (· &&& ·)

def bitOr : Value → Value → Value := bitwise (· ||| ·)

def bitXor : Value → Value → Value := bitwise (· ^^^ ·)

/-- The payload with every bit flipped. -/
def complement (v : Value) : Value := ofRaw v.kind (~~~v.raw)

/-- How far to shift: the low six bits of the value as an integer. -/
def shiftAmount (v : Value) : UInt64 := v.toInt64.toUInt64 % 64

/-- Shifts the payload of a value of any kind but boolean. -/
def shift (op : UInt64 → UInt64 → UInt64) (v w : Value) : Value :=
  match v.kind with
  | .boolean => v
  | k => ofRaw k (op v.raw w.shiftAmount)

/-- The left shift, which fills with zeros. -/
def shiftLeft : Value → Value → Value := shift (· <<< ·)

/-- The right shift that repeats the sign bit. -/
def shiftRight : Value → Value → Value :=
  shift fun bits amount => (bits.toInt64 >>> amount.toInt64).toUInt64

/-- The right shift that fills with zeros. -/
def shiftRightZero : Value → Value → Value := shift (· >>> ·)

/-! ## Logic -/

/-- The logical negation within the kind of the operand: zero for what
counts as true, and `true`, minus one or one for what does not. -/
def logicalNot (v : Value) : Value :=
  match v with
  | boolean b => boolean !b
  | integer _ => integer (if v.truthy then 0 else -1)
  | float _ => float (if v.truthy then .zero else .one)

/-- Whether both values count as true. -/
def logicalAnd (v w : Value) : Value := boolean (v.truthy && w.truthy)

/-- Whether either value counts as true. -/
def logicalOr (v w : Value) : Value := boolean (v.truthy || w.truthy)

/-! ## Comparison -/

/-- Whether two values compare in one of the given ways; never, if one is
a NaN. -/
def comparesBy (test : Ordering → Bool) (v w : Value) : Value :=
  boolean ((v.compare? w).any test)

/-- Whether the first value is less than the second; likewise for the
other comparisons. -/
def less : Value → Value → Value := comparesBy Ordering.isLT

def lessOrEqual : Value → Value → Value := comparesBy Ordering.isLE

def greater : Value → Value → Value := comparesBy Ordering.isGT

def greaterOrEqual : Value → Value → Value := comparesBy Ordering.isGE

def equal : Value → Value → Value := comparesBy Ordering.isEq

/-- Whether two values are not equal; a NaN is unequal to everything. -/
def notEqual (v w : Value) : Value := (v.equal w).logicalNot

/-- Equality of kind and payload. -/
def identical (v w : Value) : Value := boolean (v == w)

def notIdentical (v w : Value) : Value := boolean (v != w)

end Value

end ScalarLang
