import ScalarLang.Value.Operations
/-!
# The order of values

Comparisons look at two values as floats. A NaN compares with nothing, and
all other floats are ordered by an integer key, so *less than* is a strict
order that is total on what is not a NaN. Of the values of the language
only floats are NaNs: an integer is rounded to a number or to an infinity.
-/

namespace ScalarLang

namespace Binary64

/-- Magnitude bits below the sign are read back. -/
theorem magnitude_ofMagnitude (negative : Bool) {m : Nat} (hm : m < signBit) :
    (ofMagnitude negative m).magnitude = m := by
  have hbits : (ofMagnitude negative m).bits.toNat = m + if negative then signBit else 0 := by
    refine UInt64.toNat_ofNat_of_lt' ?_
    have : signBit + signBit = UInt64.size := by decide
    split <;> omega
  rw [magnitude, hbits]
  cases negative
  · exact Nat.mod_eq_of_lt hm
  · exact (Nat.add_mod_right m signBit).trans (Nat.mod_eq_of_lt hm)

/-- Rounding stops at infinity. -/
theorem roundRatio_le (num den : Nat) : roundRatio num den ≤ infinityMagnitude := by
  unfold roundRatio
  split
  · exact Nat.zero_le _
  · exact Nat.min_le_left _ _

/-- **No integer is rounded to a NaN.** -/
@[simp] theorem isNaN_ofInt (n : Int) : (ofInt n).isNaN = false := by
  have hround := roundRatio_le n.natAbs 1
  have hsign : infinityMagnitude < signBit := by decide
  rw [isNaN, ofInt, ofRatio, magnitude_ofMagnitude _ (Nat.lt_of_le_of_lt hround hsign)]
  exact decide_eq_false (Nat.not_lt.mpr hround)

/-- How two floats compare, if they do. -/
theorem compare?_eq_some_iff {x y : Binary64} {o : Ordering} :
    x.compare? y = some o ↔
      x.isNaN = false ∧ y.isNaN = false ∧ compare x.orderKey y.orderKey = o := by
  unfold compare?
  cases x.isNaN <;> cases y.isNaN <;> simp

end Binary64

namespace Value

/-- Only floats are NaNs. -/
@[simp] theorem isNaN_toBinary64 (v : Value) : v.toBinary64.isNaN = v.isNaN := by
  cases v with
  | boolean b => cases b <;> decide
  | integer n => exact Binary64.isNaN_ofInt n.toInt
  | float x => rfl

/-- The place of a value in the order. -/
def orderKey (v : Value) : Int := v.toBinary64.orderKey

/-- A comparison holds of numbers whose keys compare in one of the given ways. -/
theorem comparesBy_eq_true_iff {test : Ordering → Bool} {v w : Value} :
    v.comparesBy test w = boolean true ↔
      v.isNaN = false ∧ w.isNaN = false ∧ test (compare v.orderKey w.orderKey) = true := by
  simp only [comparesBy, boolean.injEq, Option.any_eq_true, compare?,
    Binary64.compare?_eq_some_iff, isNaN_toBinary64, orderKey]
  constructor
  · rintro ⟨_, ⟨hv, hw, rfl⟩, ho⟩
    exact ⟨hv, hw, ho⟩
  · rintro ⟨hv, hw, ho⟩
    exact ⟨_, ⟨hv, hw, rfl⟩, ho⟩

/-- What a comparison says, as a truth value. -/
theorem truthy_comparesBy {test : Ordering → Bool} {v w : Value} :
    (v.comparesBy test w).truthy = true ↔ v.comparesBy test w = boolean true := by
  simp [comparesBy, truthy]

/-! ## Less than

The laws that the functions on values rest on: a strict order, which is
total on numbers, and of which `greater` is the converse and
`lessOrEqual`, on numbers, the negation of the converse. -/

/-- One value is less than another in the order of the language. -/
def Lt (v w : Value) : Prop := v.less w = boolean true

instance (v w : Value) : Decidable (v.Lt w) := inferInstanceAs (Decidable (_ = _))

theorem lt_iff {v w : Value} :
    v.Lt w ↔ v.isNaN = false ∧ w.isNaN = false ∧ v.orderKey < w.orderKey := by
  rw [Lt, less, comparesBy_eq_true_iff, Ordering.isLT_iff_eq_lt, Int.compare_eq_lt]

theorem Lt.irrefl (v : Value) : ¬ v.Lt v := fun h => Int.lt_irrefl _ (lt_iff.mp h).2.2

theorem Lt.trans {u v w : Value} (h : u.Lt v) (h' : v.Lt w) : u.Lt w := by
  obtain ⟨hu, -, hlt⟩ := lt_iff.mp h
  obtain ⟨-, hw, hlt'⟩ := lt_iff.mp h'
  exact lt_iff.mpr ⟨hu, hw, Int.lt_trans hlt hlt'⟩

theorem Lt.asymm {v w : Value} (h : v.Lt w) : ¬ w.Lt v := fun h' => Lt.irrefl v (h.trans h')

theorem greater_iff_lt {v w : Value} : v.greater w = boolean true ↔ w.Lt v := by
  rw [greater, comparesBy_eq_true_iff, Ordering.isGT_iff_eq_gt, Int.compare_eq_gt, lt_iff]
  exact and_left_comm

/-- **Two numbers are in order or in the converse one.** -/
theorem lessOrEqual_iff_not_lt {v w : Value} (hv : v.isNaN = false) (hw : w.isNaN = false) :
    v.lessOrEqual w = boolean true ↔ ¬ w.Lt v := by
  rw [lessOrEqual, comparesBy_eq_true_iff, Int.isLE_compare, lt_iff]
  simp [hv, hw]

end Value

end ScalarLang
