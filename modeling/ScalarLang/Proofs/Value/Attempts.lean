import ScalarLang.Operator
/-!
# Operations that could fail

Two primitives that the operations are made of are not defined everywhere:
nothing is divided by zero, and no word is shifted by its whole width or
more. Here they are partial (`Word.divide?`, `Word.shift?`), and the
operations are computed once more, with these in the place of the total
ones. `attempt_eq_some` says that no attempt fails and that each comes to
what the operator stands for: a divisor is looked at before it is used, and
of an amount only as many bits are used as a word can be shifted by.

All other operations take their operands apart by kind and put a value
together again, from primitives that are defined everywhere.
-/

namespace ScalarLang

/-! ## Partial primitives -/

namespace Word

/-- A quotient or a remainder, if the divisor is not zero. -/
def divide? (op : Int64 → Int64 → Int64) (a b : Int64) : Option Int64 :=
  if b = 0 then none else some (op a b)

/-- A shifted word, if it is shifted by less than its width. -/
def shift? (op : UInt64 → UInt64 → UInt64) (bits amount : UInt64) : Option UInt64 :=
  if amount < 64 then some (op bits amount) else none

end Word

/-! ## Attempts -/

namespace Value

/-- A quotient or a remainder of two values, of their wider kind. -/
def attemptDivision (onIntegers : Int64 → Int64 → Int64)
    (onFloats : Binary64 → Binary64 → Binary64) (v w : Value) : Option Value :=
  match v.kind.wider w.kind with
  | .boolean => some (boolean v.truthy)
  | .integer =>
    if w.toInt64 = 0 then some (float .nan)
    else (Word.divide? onIntegers v.toInt64 w.toInt64).map integer
  | .float => some (float (onFloats v.toBinary64 w.toBinary64))

/-- The value whose payload is that of the first one, shifted. -/
def attemptShift (op : UInt64 → UInt64 → UInt64) (v w : Value) : Option Value :=
  match v.kind with
  | .boolean => some v
  | k => (Word.shift? op v.raw w.shiftAmount).map (ofRaw k)

/-- The divisor has been looked at when the division takes place. -/
theorem attemptDivision_eq_some (onIntegers : Int64 → Int64 → Int64)
    (onFloats : Binary64 → Binary64 → Binary64) (v w : Value) :
    attemptDivision onIntegers onFloats v w = some (promote (fun a _ => boolean a)
      (fun a b => if b = 0 then float .nan else integer (onIntegers a b))
      (fun a b => float (onFloats a b)) v w) := by
  unfold attemptDivision promote
  cases v.kind.wider w.kind with
  | boolean => rfl
  | float => rfl
  | integer =>
    by_cases hzero : w.toInt64 = 0
    · simp only [hzero, if_true]
    · simp only [Word.divide?, hzero, if_false, Option.map_some]

/-- The low six bits make less than a width. -/
theorem shiftAmount_lt (w : Value) : w.shiftAmount < 64 := by
  have hmod : w.shiftAmount.toNat = w.toInt64.toUInt64.toNat % 64 := UInt64.toNat_mod _ _
  rw [UInt64.lt_iff_toNat_lt]
  change _ < 64
  omega

theorem attemptShift_eq_some (op : UInt64 → UInt64 → UInt64) (v w : Value) :
    attemptShift op v w = some (shift op v w) := by
  have hshift : Word.shift? op v.raw w.shiftAmount = some (op v.raw w.shiftAmount) :=
    if_pos w.shiftAmount_lt
  unfold attemptShift shift
  rw [hshift]
  cases v.kind <;> rfl

end Value

namespace BinaryOp

/-- What an operator stands for, computed from the partial primitives. -/
def attempt : BinaryOp → Value → Value → Option Value
  | divide => Value.attemptDivision (· / ·) Binary64.div
  | remainder => Value.attemptDivision (· % ·) Binary64.rem
  | shiftLeft => Value.attemptShift (· <<< ·)
  | shiftRight => Value.attemptShift fun bits amount => (bits.toInt64 >>> amount.toInt64).toUInt64
  | shiftRightZero => Value.attemptShift (· >>> ·)
  | op => fun v w => some (op.apply v w)

/-- **No attempt fails**, whatever the values are. -/
theorem attempt_eq_some (op : BinaryOp) (v w : Value) : op.attempt v w = some (op.apply v w) := by
  cases op with
  | divide => exact Value.attemptDivision_eq_some _ _ v w
  | remainder => exact Value.attemptDivision_eq_some _ _ v w
  | shiftLeft => exact Value.attemptShift_eq_some _ v w
  | shiftRight => exact Value.attemptShift_eq_some _ v w
  | shiftRightZero => exact Value.attemptShift_eq_some _ v w
  | _ => rfl

end BinaryOp

end ScalarLang
