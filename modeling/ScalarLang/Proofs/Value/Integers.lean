import Mathlib.Algebra.Ring.Int.Defs
import Mathlib.Algebra.Ring.Nat
import ScalarLang.Proofs.Value.Attempts
/-!
# Arithmetic on integers is exact

An integer of the language stands for the number that its 64 bits are in
two's complement. Sums, differences, products, negatives and magnitudes are
those of the numbers, brought back into 64 bits (`Int64.ofInt`); division
truncates toward zero; shifts multiply and divide by powers of two. All
this is stated of exact numbers (`ExactArithmetic`), so that nothing in the
statement overflows, and it holds of all operands, as does that every
operation has a result (`BinaryOp.attempt`).
-/

namespace ScalarLang

/-! ## Division toward zero -/

/-- **Division that truncates toward zero**: the remainder is smaller than the
divisor and has the sign of the dividend, if it is not zero. -/
structure TruncatedDivision (dividend divisor quotient remainder : Int) : Prop where
  eq : dividend = divisor * quotient + remainder
  small : remainder.natAbs < divisor.natAbs
  sign : remainder = 0 ∨ remainder.sign = dividend.sign

theorem truncatedDivision_tdiv_tmod (a : Int) {b : Int} (hb : b ≠ 0) :
    TruncatedDivision a b (a.tdiv b) (a.tmod b) where
  eq := (Int.mul_tdiv_add_tmod a b).symm
  small := by
    rw [Int.natAbs_tmod]
    exact Nat.mod_lt _ (Int.natAbs_pos.mpr hb)
  sign := by
    have hsign := Int.sign_tmod a b
    split at hsign
    · exact .inl (Int.sign_eq_zero_iff_zero.mp hsign)
    · exact .inr hsign

/-- The quotient overflows only for the least integer divided by minus one. -/
theorem toInt_div_eq_tdiv {a b : Int64} (h : ¬ (a = Int64.minValue ∧ b = -1)) :
    (a / b).toInt = a.toInt.tdiv b.toInt := by
  by_cases ha : a = Int64.minValue
  · exact Int64.toInt_div_of_ne_right a b fun hb => h ⟨ha, hb⟩
  · exact Int64.toInt_div_of_ne_left a b ha

/-- **Quotient and remainder of two integers**, with the one overflow there is. -/
theorem truncatedDivision_div_mod {a b : Int64} (hb : b ≠ 0) :
    if a = Int64.minValue ∧ b = -1 then a / b = Int64.minValue ∧ a % b = 0
    else TruncatedDivision a.toInt b.toInt (a / b).toInt (a % b).toInt := by
  split
  · rename_i hoverflow
    obtain ⟨rfl, rfl⟩ := hoverflow
    decide
  · rename_i hfits
    rw [toInt_div_eq_tdiv hfits, Int64.toInt_mod]
    exact truncatedDivision_tdiv_tmod _ fun h0 => hb (Int64.toInt_inj.mp h0)

/-! ## Magnitudes -/

/-- The magnitude of an integer, which may overflow. -/
theorem toInt_magnitude (d : Int64) :
    (if d < 0 then -d else d).toInt = (d.toInt.natAbs : Int).bmod (2 ^ 64) := by
  have hd := d.le_toInt
  have hd' := d.toInt_lt
  have hsign : d < 0 ↔ d.toInt < 0 := Int64.lt_iff_toInt_lt
  by_cases h : d < 0
  · have hneg : d.toInt < 0 := hsign.mp h
    have hnatAbs : (d.toInt.natAbs : Int) = -d.toInt := by omega
    rw [if_pos h, Int64.toInt_neg, hnatAbs]
  · have hnonneg : ¬ d.toInt < 0 := fun hneg => h (hsign.mpr hneg)
    have hnatAbs : (d.toInt.natAbs : Int) = d.toInt := by omega
    rw [if_neg h, hnatAbs]
    exact (Int.bmod_eq_of_le (by omega) (by omega)).symm

/-! ## Shifts -/

namespace Value

/-- How far a value shifts another: the low six bits of the integer that it is
as an integer. -/
def shiftCount (w : Value) : Nat := (w.toInt64.toInt % 64).toNat

theorem shiftCount_lt (w : Value) : w.shiftCount < 64 := by
  unfold shiftCount
  omega

/-- The bits of an integer are a number that differs from it by a multiple of
2⁶⁴. -/
theorem toInt_eq_bmod (n : Int64) : n.toInt = (n.toUInt64.toNat : Int).bmod (2 ^ 64) :=
  BitVec.toInt_eq_toNat_bmod n.toBitVec

theorem toNat_shiftAmount (w : Value) : w.shiftAmount.toNat = w.shiftCount := by
  have hbits := toInt_eq_bmod w.toInt64
  rw [Int.bmod_def] at hbits
  rw [shiftAmount, shiftCount, UInt64.toNat_mod]
  change _ % 64 = _
  omega

/-- The amount fits a word with a sign too, and is the same in it. -/
theorem toNat_smod_shiftAmount (w : Value) :
    (w.shiftAmount.toInt64.toBitVec.smod 64).toNat = w.shiftCount := by
  have hlt := w.shiftCount_lt
  have hamount : w.shiftAmount.toInt64.toBitVec.toInt = w.shiftCount := by
    rw [BitVec.toInt_eq_toNat_bmod]
    change (w.shiftAmount.toNat : Int).bmod (2 ^ 64) = _
    rw [toNat_shiftAmount]
    exact Int.bmod_eq_of_le (by omega) (by omega)
  have hwidth : (64 : BitVec 64).toInt = 64 := by decide
  have hsmod : (w.shiftAmount.toInt64.toBitVec.smod 64).toInt = w.shiftCount := by
    rw [BitVec.toInt_smod, hamount, hwidth, Int.fmod_eq_emod_of_nonneg _ (by decide)]
    omega
  have hbmod := BitVec.toInt_eq_toNat_bmod (w.shiftAmount.toInt64.toBitVec.smod 64)
  have hbound := (w.shiftAmount.toInt64.toBitVec.smod 64).isLt
  rw [Int.bmod_def] at hbmod
  omega

/-- The bits are shifted as a number without a sign; as an integer they are
multiplied. -/
theorem toInt_shiftLeft (a : Int64) (w : Value) :
    (a.toUInt64 <<< w.shiftAmount).toInt64.toInt
      = (a.toInt * 2 ^ w.shiftCount).bmod (2 ^ 64) := by
  have hamount : w.shiftAmount.toNat % 64 = w.shiftCount := by
    rw [toNat_shiftAmount, Nat.mod_eq_of_lt w.shiftCount_lt]
  calc (a.toUInt64 <<< w.shiftAmount).toInt64.toInt
      = ((a.toUInt64 <<< w.shiftAmount).toNat : Int).bmod (2 ^ 64) :=
        toInt_eq_bmod (a.toUInt64 <<< w.shiftAmount).toInt64
    _ = ((a.toUInt64.toNat * 2 ^ w.shiftCount % 2 ^ 64 : Nat) : Int).bmod (2 ^ 64) := by
        rw [UInt64.toNat_shiftLeft, hamount, Nat.shiftLeft_eq]
    _ = (a.toUInt64.toNat * 2 ^ w.shiftCount : Int).bmod (2 ^ 64) := by
        rw [Int.natCast_emod, Int.natCast_mul, Int.natCast_pow]
        exact Int.emod_bmod _ _
    _ = (a.toInt * 2 ^ w.shiftCount).bmod (2 ^ 64) := by
        rw [toInt_eq_bmod a, Int.bmod_mul_bmod]

/-- Repeating the sign rounds down, also below zero. -/
theorem toInt_shiftRight (a : Int64) (w : Value) :
    (a >>> w.shiftAmount.toInt64).toInt = a.toInt / 2 ^ w.shiftCount := by
  rw [← Int64.toInt_toBitVec, Int64.toBitVec_shiftRight, BitVec.sshiftRight',
    toNat_smod_shiftAmount, BitVec.toInt_sshiftRight, Int64.toInt_toBitVec,
    Int.shiftRight_eq_div_pow, Int.natCast_pow]
  rfl

theorem toNat_shiftRightZero (a : Int64) (w : Value) :
    (a.toUInt64 >>> w.shiftAmount).toNat = a.toUInt64.toNat / 2 ^ w.shiftCount := by
  rw [UInt64.toNat_shiftRight, toNat_shiftAmount, Nat.mod_eq_of_lt w.shiftCount_lt,
    Nat.shiftRight_eq_div_pow]

end Value

/-! ## The operators -/

section Operators

open Value

/-- **What the operators make of integers**, in exact numbers. The right operand
of a shift is a value of any kind. -/
structure ExactArithmetic (a b : Int64) : Prop where
  add : BinaryOp.add.apply (integer a) (integer b) = integer (.ofInt (a.toInt + b.toInt))
  subtract :
    BinaryOp.subtract.apply (integer a) (integer b) = integer (.ofInt (a.toInt - b.toInt))
  multiply :
    BinaryOp.multiply.apply (integer a) (integer b) = integer (.ofInt (a.toInt * b.toInt))
  negate : UnaryOp.negate.apply (integer a) = integer (.ofInt (-a.toInt))
  absolute : UnaryOp.absolute.apply (integer a) = integer (.ofInt a.toInt.natAbs)
  divide : b ≠ 0 → ∃ q r : Int64,
    BinaryOp.divide.apply (integer a) (integer b) = integer q ∧
      BinaryOp.remainder.apply (integer a) (integer b) = integer r ∧
      if a = Int64.minValue ∧ b = -1 then q = Int64.minValue ∧ r = 0
      else TruncatedDivision a.toInt b.toInt q.toInt r.toInt
  divideByZero : b = 0 →
    (BinaryOp.divide.apply (integer a) (integer b)).isNaN = true ∧
      (BinaryOp.remainder.apply (integer a) (integer b)).isNaN = true
  shiftLeft : ∀ w : Value,
    BinaryOp.shiftLeft.apply (integer a) w = integer (.ofInt (a.toInt * 2 ^ w.shiftCount))
  shiftRight : ∀ w : Value, ∃ r : Int64,
    BinaryOp.shiftRight.apply (integer a) w = integer r ∧ r.toInt = a.toInt / 2 ^ w.shiftCount
  shiftRightZero : ∀ w : Value, ∃ r : Int64,
    BinaryOp.shiftRightZero.apply (integer a) w = integer r ∧
      r.toUInt64.toNat = a.toUInt64.toNat / 2 ^ w.shiftCount

/-- The integer that an exact number is brought back to is known by its balanced
residue. -/
theorem eq_ofInt {n : Int64} {m : Int} (h : n.toInt = m.bmod (2 ^ 64)) : n = .ofInt m :=
  Int64.toInt_inj.mp (h.trans Int64.toInt_ofInt.symm)

theorem exactArithmetic (a b : Int64) : ExactArithmetic a b where
  add := congrArg integer (eq_ofInt (Int64.toInt_add a b))
  subtract := congrArg integer (eq_ofInt (Int64.toInt_sub a b))
  multiply := congrArg integer (eq_ofInt (Int64.toInt_mul a b))
  negate := congrArg integer (eq_ofInt (Int64.toInt_neg a))
  absolute := congrArg integer (eq_ofInt (toInt_magnitude a))
  divide hb := ⟨a / b, a % b, if_neg hb, if_neg hb, truncatedDivision_div_mod hb⟩
  divideByZero hb := by
    subst hb
    exact ⟨rfl, rfl⟩
  shiftLeft w := congrArg integer (eq_ofInt (toInt_shiftLeft a w))
  shiftRight w := ⟨_, rfl, toInt_shiftRight a w⟩
  shiftRightZero w := ⟨_, rfl, toNat_shiftRightZero a w⟩

/-- **Integer arithmetic is exact and has a result**, whatever the operands. -/
theorem integer_arithmetic_exact (a b : Int64) :
    ExactArithmetic a b ∧ ∀ (op : BinaryOp) (v w : Value), op.attempt v w = some (op.apply v w) :=
  ⟨exactArithmetic a b, BinaryOp.attempt_eq_some⟩

/-- As an integer `true` is minus one, so it shifts by 63 bits. -/
example : BinaryOp.shiftRightZero.apply (integer (-1)) (boolean true) = integer 1 := by decide

end Operators

end ScalarLang
