import ScalarLang.Operator
import ScalarLang.Proofs.Value.Order
/-!
# Operands of the wider kind

An operator works at the wider of the kinds of its operands, in one of four
ways: arithmetic asks both for what they are at that kind, the bitwise
operators convert both and take the payloads, logic asks what counts as true,
and comparisons always ask for floats. To convert the operands beforehand
makes no difference to any of them (`BinaryOp.apply_convert_wider`), with one
exception. As an integer `true` is minus one, but a comparison asks for a
float and gets one; so a boolean compared with an integer has to stay what it
is.

That logic and comparisons see no conversion rests on widening alone: no
integer but zero is rounded to a zero, and none to a NaN.
-/

namespace ScalarLang

/-! ## Integers as floats -/

namespace Binary64

/-- No positive integer is below one half. -/
theorem le_ratioLog2_one (num : Nat) : -1 ≤ ratioLog2 num 1 := by
  have hone : Nat.log2 1 = 0 := by decide
  simp only [ratioLog2, hone]
  split <;> omega

/-- Rounding leaves something of a positive integer: its last place is far above
the least one there is. -/
theorem roundRatio_one_pos {num : Nat} (h : num ≠ 0) : 0 < roundRatio num 1 := by
  have hlog := le_ratioLog2_one num
  have hplace : 0 < (max (ratioLog2 num 1 - 52) (-1074) + 1074).toNat := by omega
  have hexponent := Nat.mul_pos hplace (show 0 < hiddenBit by decide)
  have hinfinity : 0 < infinityMagnitude := by decide
  simp only [roundRatio, h, if_false]
  omega

/-- **No integer but zero is rounded to a zero.** -/
@[simp] theorem isZero_ofInt (n : Int) : (ofInt n).isZero = (n == 0) := by
  have hround := roundRatio_le n.natAbs 1
  have hsign : infinityMagnitude < signBit := by decide
  rw [isZero, ofInt, ofRatio, magnitude_ofMagnitude _ (Nat.lt_of_le_of_lt hround hsign)]
  by_cases hn : n = 0
  · subst hn
    rfl
  · have hpos := roundRatio_one_pos (Int.natAbs_ne_zero.mpr hn)
    rw [beq_eq_false_iff_ne.mpr (Nat.ne_of_gt hpos), beq_eq_false_iff_ne.mpr hn]

end Binary64

/-! ## Conversions -/

namespace Kind

@[simp] theorem wider_self (k : Kind) : k.wider k = k := by cases k <;> rfl

theorem ordinal_le_wider_left (k l : Kind) : k.ordinal ≤ (k.wider l).ordinal := by
  cases k <;> cases l <;> decide

theorem ordinal_le_wider_right (k l : Kind) : l.ordinal ≤ (k.wider l).ordinal := by
  cases k <;> cases l <;> decide

end Kind

namespace Value

/-- What is converted has its kind already. -/
@[simp] theorem convert_convert (v : Value) (k : Kind) : (v.convert k).convert k = v.convert k := by
  have hself := convert_kind (v.convert k)
  rwa [kind_convert] at hself

/-- **Widening keeps what counts as true.** -/
theorem truthy_convert {v : Value} {k : Kind} (h : v.kind.ordinal ≤ k.ordinal) :
    (v.convert k).truthy = v.truthy := by
  cases k with
  | boolean => rfl
  | integer =>
    cases v with
    | boolean b => cases b <;> decide
    | integer n => rfl
    | float x => simp [kind, Kind.ordinal] at h
  | float =>
    cases v with
    | boolean b => cases b <;> decide
    | integer n =>
      have hzero : (n.toInt == 0) = (n == 0) := by
        rw [Bool.eq_iff_iff, beq_iff_eq, beq_iff_eq, ← Int64.toInt_inj]
        rfl
      simp [convert, truthy, toBinary64, bne, hzero]
    | float x => rfl

/-- **Widening keeps the value as a float**, unless it makes an integer of a
boolean. -/
theorem toBinary64_convert {v : Value} {k : Kind} (h : v.kind.ordinal ≤ k.ordinal)
    (hboolean : k = .integer → v.kind ≠ .boolean) : (v.convert k).toBinary64 = v.toBinary64 := by
  cases k with
  | boolean =>
    cases v with
    | boolean b => rfl
    | integer n => simp [kind, Kind.ordinal] at h
    | float x => simp [kind, Kind.ordinal] at h
  | integer =>
    cases v with
    | boolean b => exact absurd rfl (hboolean rfl)
    | integer n => rfl
    | float x => simp [kind, Kind.ordinal] at h
  | float => rfl

/-! ## Operations

For each of the four ways to work at the wider kind, that converting the
operands first makes no difference. -/

variable (v w : Value)

theorem promote_convert (onBooleans : Bool → Bool → Value) (onIntegers : Int64 → Int64 → Value)
    (onFloats : Binary64 → Binary64 → Value) :
    promote onBooleans onIntegers onFloats (v.convert (v.kind.wider w.kind))
      (w.convert (v.kind.wider w.kind)) = promote onBooleans onIntegers onFloats v w := by
  simp only [promote, kind_convert, Kind.wider_self]
  cases v.kind.wider w.kind <;> rfl

theorem bitwise_convert (op : UInt64 → UInt64 → UInt64) :
    bitwise op (v.convert (v.kind.wider w.kind)) (w.convert (v.kind.wider w.kind))
      = bitwise op v w := by
  simp only [bitwise, kind_convert, Kind.wider_self, convert_convert]

theorem truthy_convert_left : (v.convert (v.kind.wider w.kind)).truthy = v.truthy :=
  truthy_convert (v.kind.ordinal_le_wider_left w.kind)

theorem truthy_convert_right : (w.convert (v.kind.wider w.kind)).truthy = w.truthy :=
  truthy_convert (v.kind.ordinal_le_wider_right w.kind)

theorem comparesBy_convert (test : Ordering → Bool)
    (hboolean : v.kind.wider w.kind = .integer → v.kind ≠ .boolean ∧ w.kind ≠ .boolean) :
    comparesBy test (v.convert (v.kind.wider w.kind)) (w.convert (v.kind.wider w.kind))
      = comparesBy test v w := by
  have hv := toBinary64_convert (v.kind.ordinal_le_wider_left w.kind) fun h => (hboolean h).1
  have hw := toBinary64_convert (v.kind.ordinal_le_wider_right w.kind) fun h => (hboolean h).2
  simp only [comparesBy, compare?, hv, hw]

end Value

/-! ## Operators -/

namespace BinaryOp

open Value

/-- The operator works at the wider kind of the values: it is none of the shifts
and of the tests of identity, and if it is a comparison then both values are
booleans or neither is. -/
def Promotes (op : BinaryOp) (v w : Value) : Prop :=
  match op with
  | add | subtract | multiply | divide | remainder => True
  | bitAnd | bitOr | bitXor => True
  | logicalAnd | logicalOr => True
  | less | lessOrEqual | greater | greaterOrEqual | equal | notEqual =>
    v.kind = .boolean ↔ w.kind = .boolean
  | shiftLeft | shiftRight | shiftRightZero | identical | notIdentical => False

/-- **Promotion.** Operands that are converted to the wider of their kinds are
operated on as they are. -/
theorem apply_convert_wider (op : BinaryOp) (v w : Value) (h : op.Promotes v w) :
    op.apply (v.convert (v.kind.wider w.kind)) (w.convert (v.kind.wider w.kind))
      = op.apply v w := by
  have hcompares (test : Ordering → Bool) (hkinds : v.kind = .boolean ↔ w.kind = .boolean) :=
    comparesBy_convert v w test fun hwider => by
      cases hv : v.kind <;> cases hw : w.kind <;> simp_all [Kind.wider, Kind.ordinal]
  cases op with
  | add | subtract | multiply | divide | remainder =>
    simp only [apply, Value.add, Value.sub, Value.mul, Value.div, Value.rem, promote_convert]
  | bitAnd | bitOr | bitXor => exact bitwise_convert v w _
  | logicalAnd =>
    simp only [apply, Value.logicalAnd, truthy_convert_left, truthy_convert_right]
  | logicalOr =>
    simp only [apply, Value.logicalOr, truthy_convert_left, truthy_convert_right]
  | less | lessOrEqual | greater | greaterOrEqual | equal => exact hcompares _ h
  | notEqual => exact congrArg Value.logicalNot (hcompares _ h)
  | shiftLeft | shiftRight | shiftRightZero | identical | notIdentical => exact h.elim

/-- An integer that no float is compares equal to the float it is rounded to, and
so do the two floats. -/
theorem apply_convert_wider_rounded :
    let v := integer 9007199254740993
    let w := float (.ofInt 9007199254740992)
    BinaryOp.equal.Promotes v w ∧ BinaryOp.equal.apply v w = boolean true ∧
      BinaryOp.equal.apply (v.convert (v.kind.wider w.kind)) (w.convert (v.kind.wider w.kind))
        = boolean true := by
  intro v w
  have hpromotes : BinaryOp.equal.Promotes v w := by simp [Promotes, v, w, kind]
  have hequal : BinaryOp.equal.apply v w = boolean true := by decide +kernel
  exact ⟨hpromotes, hequal, (apply_convert_wider .equal v w hpromotes).trans hequal⟩

/-- As a float `true` is one and not less than zero; as an integer it is. -/
example : BinaryOp.less.apply (boolean true) (integer 0) = boolean false ∧
    BinaryOp.less.apply ((boolean true).convert .integer) (integer 0) = boolean true := by
  decide +kernel

end BinaryOp

end ScalarLang
