import Mathlib.Data.Int.ModEq
import ScalarLang.Function.Math
import ScalarLang.Proofs.Value.Integers
/-!
# Wrapping into a range

`wrap` moves a value by whole periods into the range from `low` up to but
not including `high`. On integers it takes three differences and sums of
64 bits, any of which may overflow. The result is in the range even so.
Whether it is where whole periods lead depends on two exact numbers, the
period `high - low` and the offset `x - low`: `WrapsByPeriods` says for
which it is.

The computation is first brought to exact integers (`toInt_wrapped`), where
an overflow shows as a balanced residue (`Int.bmod`) that is not the number
itself. What follows is about those.
-/

namespace ScalarLang

namespace Value

/-! ## The computation on exact integers -/

/-- The Euclidean remainder from the one that takes the sign of the dividend. -/
theorem emod_eq_tmod_add (n : Int) {d : Int} (hd : d ≠ 0) :
    n % d = n.tmod d + if n.tmod d < 0 then (d.natAbs : Int) else 0 := by
  have hnonneg := Int.emod_nonneg n hd
  have hlt := Int.emod_lt n hd
  rw [Int.tmod_eq_emod]
  by_cases h : 0 ≤ n ∨ d ∣ n
  · rw [if_pos h, if_neg (by omega)]
    omega
  · rw [if_neg h, if_pos (by omega)]
    omega

/-- The remainder that is not negative is the exact one: adding the magnitude
of the divisor does not overflow, although the magnitude itself may. -/
theorem toInt_remEuclid (n : Int64) {d : Int64} (hd : d ≠ 0) :
    (remEuclid n d).toInt = n.toInt % d.toInt := by
  have hd0 : d.toInt ≠ 0 := fun h => hd (Int64.toInt_inj.mp h)
  have hneg : n % d < 0 ↔ (n % d).toInt < 0 := Int64.lt_iff_toInt_lt
  have hexact := emod_eq_tmod_add n.toInt hd0
  rw [← Int64.toInt_mod] at hexact
  unfold remEuclid
  by_cases h : n % d < 0
  · have hlt := Int.emod_lt n.toInt hd0
    have hnonneg := Int.emod_nonneg n.toInt hd0
    have hmin := d.le_toInt
    have hmax := d.toInt_lt
    rw [if_pos (hneg.mp h)] at hexact
    rw [if_pos h, Int64.toInt_add, toInt_magnitude, Int.add_bmod_bmod, ← hexact]
    exact Int.bmod_eq_of_le (by omega) (by omega)
  · rw [if_neg (hneg.not.mp h), add_zero] at hexact
    rw [if_neg h, hexact]

/-- Where `wrap` goes: the balanced residues of offset and period take the
place of the numbers themselves. -/
def wrapped (x low high : Int) : Int :=
  low + (x - low).bmod (2 ^ 64) % (high - low).bmod (2 ^ 64)

/-- A number of no more than 64 bits and a sign fits the 64-bit integers, or is
off by 2⁶⁴ when it is brought back into them. -/
theorem bmod_cases {n : Int} (hlow : -2 ^ 64 < n) (hhigh : n < 2 ^ 64) :
    (n.bmod (2 ^ 64) = n ∧ -2 ^ 63 ≤ n ∧ n < 2 ^ 63) ∨
      (n.bmod (2 ^ 64) = n - 2 ^ 64 ∧ 2 ^ 63 ≤ n) ∨
      (n.bmod (2 ^ 64) = n + 2 ^ 64 ∧ n < -2 ^ 63) := by
  rw [Int.bmod_def]
  omega

/-- **The result is in the range.** A period that overflows does so to a
negative number, of a smaller magnitude. -/
theorem wrapped_mem {x low high : Int} (hlt : low < high) (hperiod : high - low < 2 ^ 64) :
    low ≤ wrapped x low high ∧ wrapped x low high < high := by
  have hp := bmod_cases (n := high - low) (by omega) hperiod
  have hp0 : (high - low).bmod (2 ^ 64) ≠ 0 := by omega
  have hnonneg := Int.emod_nonneg ((x - low).bmod (2 ^ 64)) hp0
  have hsmall := Int.emod_lt ((x - low).bmod (2 ^ 64)) hp0
  unfold wrapped
  omega

/-! ## Where the residue is kept -/

/-- A period that fits: the remainder is one of the balanced residue of the
offset, which is the offset itself or differs from it by 2⁶⁴. -/
theorem modEq_iff_of_period_fits {offset period : Int} (hlow : -2 ^ 64 < offset)
    (hhigh : offset < 2 ^ 64) (hpos : 0 < period) (hfits : period < 2 ^ 63) :
    offset.bmod (2 ^ 64) % period.bmod (2 ^ 64) ≡ offset [ZMOD period] ↔
      period ∣ 2 ^ 64 ∨ (-2 ^ 63 ≤ offset ∧ offset < 2 ^ 63) := by
  have hperiod : period.bmod (2 ^ 64) = period := Int.bmod_eq_of_le (by omega) (by omega)
  have hmod : offset.bmod (2 ^ 64) % period ≡ offset [ZMOD period] ↔
      period ∣ offset - offset.bmod (2 ^ 64) := by
    rw [← Int.modEq_iff_dvd]
    exact ⟨(Int.mod_modEq _ _).symm.trans, (Int.mod_modEq _ _).trans⟩
  rw [hperiod, hmod]
  rcases bmod_cases hlow hhigh with ⟨h, hfit⟩ | ⟨h, hover⟩ | ⟨h, hover⟩
  · rw [h, sub_self]
    exact ⟨fun _ => .inr hfit, fun _ => dvd_zero _⟩
  · have : ¬ (-2 ^ 63 ≤ offset ∧ offset < 2 ^ 63) := by omega
    rw [h, sub_sub_cancel, or_iff_left this]
  · have : ¬ (-2 ^ 63 ≤ offset ∧ offset < 2 ^ 63) := by omega
    rw [h, sub_add_cancel_left, Int.dvd_neg, or_iff_left this]

/-- A period that overflows: the divisor is what is missing to 2⁶⁴. -/
theorem modEq_iff_of_period_overflows {offset period : Int} (hlow : period - 2 ^ 64 < offset)
    (hhigh : offset < 2 ^ 64) (hover : 2 ^ 63 < period) (hperiod : period < 2 ^ 64) :
    offset.bmod (2 ^ 64) % period.bmod (2 ^ 64) ≡ offset [ZMOD period] ↔
      (0 ≤ offset ∧ offset < 2 ^ 64 - period) ∨ period ≤ offset := by
  have hdivisor : period.bmod (2 ^ 64) = period - 2 ^ 64 := by
    have := bmod_cases (n := period) (by omega) hperiod
    omega
  have hoffset := bmod_cases (n := offset) (by omega) hhigh
  have hne : period - 2 ^ 64 ≠ 0 := by omega
  have hnonneg := Int.emod_nonneg (offset.bmod (2 ^ 64)) hne
  have hsmall := Int.emod_lt (offset.bmod (2 ^ 64)) hne
  rw [hdivisor]
  rcases lt_or_ge offset 0 with hneg | hpos
  · -- one divisor above the offset, and a divisor is less than a period
    have hrem : offset.bmod (2 ^ 64) % (period - 2 ^ 64) = offset + (2 ^ 64 - period) := by
      rw [Int.emod_eq_iff hne]
      refine ⟨by omega, by omega, -1, by omega⟩
    rw [hrem, Int.modEq_iff_dvd, sub_add_cancel_left, Int.dvd_neg]
    refine ⟨fun h => ?_, fun h => by omega⟩
    have := Int.le_of_dvd (by omega) h
    omega
  rcases lt_or_ge offset period with hlt | hge
  · -- the remainder and the offset are both less than a period
    rw [Int.ModEq, Int.emod_eq_of_lt hnonneg (by omega), Int.emod_eq_of_lt hpos hlt]
    refine ⟨fun h => by omega, fun h => ?_⟩
    rw [Int.emod_eq_iff hne]
    refine ⟨by omega, by omega, 0, by omega⟩
  · -- the offset overflows as the period does, and the two cancel out
    have hrem : offset.bmod (2 ^ 64) % (period - 2 ^ 64) = offset - period := by
      rw [Int.emod_eq_iff hne]
      refine ⟨by omega, by omega, -1, by omega⟩
    rw [hrem, Int.modEq_iff_dvd, sub_sub_cancel]
    simp [hge]

/-- **Where wrapping is by whole periods**: where the period divides 2⁶⁴, where
period and offset both fit the 64-bit integers, and, for a period that does
not fit, where the offset is less than what the period lacks to 2⁶⁴ or no
less than the period. -/
def WrapsByPeriods (offset period : Int) : Prop :=
  period ∣ 2 ^ 64 ∨ (period < 2 ^ 63 ∧ -2 ^ 63 ≤ offset ∧ offset < 2 ^ 63) ∨
    (2 ^ 63 < period ∧ ((0 ≤ offset ∧ offset < 2 ^ 64 - period) ∨ period ≤ offset))

/-- The remainder has the residue of the offset exactly there. -/
theorem modEq_iff_wrapsByPeriods {offset period : Int} (hlow : -2 ^ 64 < offset)
    (hlow' : period - 2 ^ 64 < offset) (hhigh : offset < 2 ^ 64) (hpos : 0 < period)
    (hperiod : period < 2 ^ 64) :
    offset.bmod (2 ^ 64) % period.bmod (2 ^ 64) ≡ offset [ZMOD period] ↔
      WrapsByPeriods offset period := by
  unfold WrapsByPeriods
  rcases lt_trichotomy period (2 ^ 63) with hfits | rfl | hover
  · rw [modEq_iff_of_period_fits hlow hhigh hpos hfits]
    simp only [hfits, true_and, hfits.not_gt, false_and, or_false]
  · -- half of 2⁶⁴ overflows to its negative, which is no other divisor
    have hdivides : offset.bmod (2 ^ 64) % (2 ^ 63 : Int).bmod (2 ^ 64) ≡ offset [ZMOD 2 ^ 63] := by
      have hhalf : (2 ^ 63 : Int).bmod (2 ^ 64) = -2 ^ 63 := by decide
      have hoffset := bmod_cases hlow hhigh
      rw [hhalf, Int.emod_neg]
      refine (Int.mod_modEq _ _).trans (Int.modEq_iff_dvd.mpr ?_)
      omega
    exact iff_of_true hdivides (.inl (by decide))
  · rw [modEq_iff_of_period_overflows hlow' hhigh hover hperiod]
    have hdvd : ¬ period ∣ 2 ^ 64 := by
      rintro ⟨k, hk⟩
      rcases le_or_gt k 1 with h | h
      · have := Int.mul_le_mul_of_nonneg_left h hpos.le
        omega
      · have := Int.mul_le_mul_of_nonneg_left (Int.add_one_le_of_lt h) hpos.le
        omega
    simp only [hover, hover.not_gt, hdvd, false_and, true_and, false_or]

/-! ## The function -/

/-- Wrapping integers computes `wrapped`, and the sum with the lower bound does
not overflow. -/
theorem exists_wrap_integer {x low high : Int64} (h : low < high) :
    ∃ r : Int64, wrap (integer x) (integer low) (integer high) = integer r ∧
      r.toInt = wrapped x.toInt low.toInt high.toInt := by
  have hlt : low.toInt < high.toInt := Int64.lt_iff_toInt_lt.mp h
  have hlow := low.le_toInt
  have hhigh := high.toInt_lt
  have hmem := wrapped_mem (x := x.toInt) hlt (by omega)
  have hne : high - low ≠ 0 := by
    intro h0
    have hbmod := bmod_cases (n := high.toInt - low.toInt) (by omega) (by omega)
    rw [← Int64.toInt_sub, h0, Int64.toInt_zero] at hbmod
    omega
  refine ⟨low + remEuclid (x - low) (high - low), if_neg hne, ?_⟩
  rw [Int64.toInt_add, toInt_remEuclid _ hne, Int64.toInt_sub, Int64.toInt_sub]
  exact Int.bmod_eq_of_le (by unfold wrapped at hmem; omega) (by unfold wrapped at hmem; omega)

/-- **Wrapping integers**: with `low < high` the result is in the range, and it
is where whole periods lead exactly where `WrapsByPeriods` says. -/
theorem wrap_mem_and_modEq_iff (x low high : Int64) (h : low < high) :
    ∃ r : Int64,
      MathFunction.wrap.apply #v[integer x, integer low, integer high] = integer r ∧
      low ≤ r ∧ r < high ∧
      (r.toInt ≡ x.toInt [ZMOD high.toInt - low.toInt] ↔
        WrapsByPeriods (x.toInt - low.toInt) (high.toInt - low.toInt)) := by
  obtain ⟨r, hr, hwrapped⟩ := exists_wrap_integer (x := x) h
  have hlt : low.toInt < high.toInt := Int64.lt_iff_toInt_lt.mp h
  have hx := x.le_toInt
  have hx' := x.toInt_lt
  have hlow := low.le_toInt
  have hhigh := high.toInt_lt
  obtain ⟨hge, hlt'⟩ := wrapped_mem (x := x.toInt) hlt (by omega)
  refine ⟨r, hr, Int64.le_iff_toInt_le.mpr (by omega), Int64.lt_iff_toInt_lt.mpr (by omega), ?_⟩
  rw [← modEq_iff_wrapsByPeriods (by omega) (by omega) (by omega) (by omega) (by omega), hwrapped,
    wrapped, Int.modEq_iff_dvd, Int.modEq_iff_dvd, sub_sub]

/-- Below the range, by less than a period. -/
theorem wrap_mem_and_modEq_iff_below :
    (-3 : Int64) < 4 ∧ ∃ r : Int64,
      MathFunction.wrap.apply #v[integer (-5), integer (-3), integer 4] = integer r ∧
      -3 ≤ r ∧ r < 4 ∧
      (r.toInt ≡ (-5 : Int64).toInt [ZMOD (4 : Int64).toInt - (-3 : Int64).toInt] ↔
        WrapsByPeriods ((-5 : Int64).toInt - (-3 : Int64).toInt)
          ((4 : Int64).toInt - (-3 : Int64).toInt)) :=
  ⟨by decide, wrap_mem_and_modEq_iff (-5) (-3) 4 (by decide)⟩

/-- **A value in the range may move**: in the range of all integers but the
greatest, zero becomes the least integer, since the period overflows to minus
one. -/
theorem wrap_moves_value_in_range :
    ¬ ∀ x low high : Int64, low < high → ∃ r : Int64,
      MathFunction.wrap.apply #v[integer x, integer low, integer high] = integer r ∧
      low ≤ r ∧ r < high ∧ r.toInt ≡ x.toInt [ZMOD high.toInt - low.toInt] := by
  intro h
  obtain ⟨r, hr, -, -, hmod⟩ := h 0 Int64.minValue Int64.maxValue (by decide)
  have hmoved : MathFunction.wrap.apply
      #v[integer 0, integer Int64.minValue, integer Int64.maxValue] = integer Int64.minValue := by
    decide
  obtain rfl : Int64.minValue = r := Value.integer.inj (hmoved.symm.trans hr)
  exact absurd hmod (by decide)

end Value

end ScalarLang
