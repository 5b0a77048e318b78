import ScalarLang.Token.Basic
/-!
# Values

A value is a boolean, a 64-bit integer or a float. Every value has a
payload of 64 bits (`Value.raw`): a boolean fills it with one bit, so
that `true` is all ones and reads as the integer `-1`.
-/

namespace ScalarLang

/-- The kinds of values, in the order in which operands are widened. -/
inductive Kind where
  | boolean
  | integer
  | float
  deriving DecidableEq

namespace Kind

/-- The place of a kind in the widening order. -/
def ordinal : Kind → Nat
  | boolean => 0
  | integer => 1
  | float => 2

def name : Kind → String
  | boolean => "boolean"
  | integer => "integer"
  | float => "float"

/-- The wider of two kinds. -/
def wider (k l : Kind) : Kind := if k.ordinal ≤ l.ordinal then l else k

end Kind

/-- A value of the language. -/
inductive Value where
  | boolean (b : Bool)
  | integer (n : Int64)
  | float (x : Binary64)
  deriving DecidableEq

namespace Value

instance : Inhabited Value := ⟨boolean false⟩

/-- Which of the three kinds a value is of. -/
def kind : Value → Kind
  | boolean _ => .boolean
  | integer _ => .integer
  | float _ => .float

/-! ## Payload -/

/-- The 64 bits of a value. -/
def raw : Value → UInt64
  | boolean b => if b then 0xffffffffffffffff else 0
  | integer n => n.toUInt64
  | float x => x.bits

/-- The value of a kind with a payload. Any payload but zero is `true`. -/
def ofRaw : Kind → UInt64 → Value
  | .boolean, bits => boolean (bits != 0)
  | .integer, bits => integer bits.toInt64
  | .float, bits => float ⟨bits⟩

/-- **A value is its kind and its payload.** -/
theorem ofRaw_raw (v : Value) : ofRaw v.kind v.raw = v := by
  cases v with
  | boolean b => cases b <;> decide
  | integer n => simp [ofRaw, raw, kind]
  | float x => rfl

/-- Whether a value counts as true: zeros and NaNs do not. -/
def truthy : Value → Bool
  | boolean b => b
  | integer n => n != 0
  | float x => !x.isNaN && !x.isZero

/-- The value as an integer. A float is truncated toward zero and limited
to the range of integers. -/
def toInt64 : Value → Int64
  | boolean b => if b then -1 else 0
  | integer n => n
  | float x => x.toInt64

/-- The value as a float; `true` is one. -/
def toBinary64 : Value → Binary64
  | boolean b => if b then .one else .zero
  | integer n => .ofInt n.toInt
  | float x => x

/-- The value converted to a kind; its own kind leaves it as it is. -/
def convert (v : Value) : Kind → Value
  | .boolean => boolean v.truthy
  | .integer => integer v.toInt64
  | .float => float v.toBinary64

@[simp] theorem convert_kind (v : Value) : v.convert v.kind = v := by
  cases v <;> rfl

@[simp] theorem kind_convert (v : Value) (k : Kind) : (v.convert k).kind = k := by
  cases k <;> rfl

/-- Comparison of two values as floats; a NaN compares with nothing. -/
def compare? (v w : Value) : Option Ordering := v.toBinary64.compare? w.toBinary64

/-- Whether a value is a float and not a number. -/
def isNaN : Value → Bool
  | float x => x.isNaN
  | _ => false

/-- Whether a value is an infinite float. -/
def isInfinite : Value → Bool
  | float x => x.isInfinite
  | _ => false

/-! ## Text -/

/-- How values are written: as literals are, except that a float may also
be infinite or a NaN. -/
def valueLayout : Binary64.Layout :=
  { floatLayout with infinity := "Infinity", negativeInfinity := "-Infinity" }

/-- The value as text. -/
def text : Value → String
  | boolean b => if b then "true" else "false"
  | integer n => toString n.toInt
  | float x => x.textWith valueLayout

/-- The value as text with its kind in front. -/
def describe : Value → String
  | boolean b => "Boolean(" ++ (boolean b).text ++ ")"
  | integer n => "Integer(" ++ (integer n).text ++ ")"
  | float x => "Float(" ++ x.textWith floatLayout ++ ")"

end Value

end ScalarLang
