import Mathlib.Logic.Basic
import ScalarLang.Function.Math
import ScalarLang.Proofs.Value.Order
/-!
# Clamping to a range

`clamp` is the greater of the lower bound and of the lesser of a value and
the upper bound. Either choice is between the arguments as they are, of
whatever kinds, and where two compare as equal or not at all, it is the
first of them: of the value and the upper bound the value, but of the
lower bound and what is left of the value the lower bound. What `clamp`
can do is said once, in `clamp_cases`.
-/

namespace ScalarLang

namespace Value

/-- The second value if it is less, else the first. -/
theorem min_eq (v w : Value) : v.min w = if w.Lt v then w else v :=
  if_congr truthy_comparesBy rfl rfl

/-- The second value if it is greater, else the first. -/
theorem max_eq (v w : Value) : v.max w = if v.Lt w then w else v :=
  if_congr (truthy_comparesBy.trans greater_iff_lt) rfl rfl

/-- **What clamping can do**: it leaves a value that is above the lower bound
and not above the upper one, it takes the upper bound for a value above it,
if the bounds do not cross, and the lower bound for all else. -/
theorem clamp_cases (v low high : Value) :
    (v.clamp low high = v ∧ low.Lt v ∧ ¬ high.Lt v) ∨
      (v.clamp low high = high ∧ high.Lt v ∧ low.Lt high) ∨
      v.clamp low high = low := by
  rw [clamp, min_eq, max_eq]
  by_cases hhigh : high.Lt v
  · rw [if_pos hhigh]
    by_cases hlow : low.Lt high
    · exact .inr (.inl ⟨if_pos hlow, hhigh, hlow⟩)
    · exact .inr (.inr (if_neg hlow))
  · rw [if_neg hhigh]
    by_cases hlow : low.Lt v
    · exact .inl ⟨if_pos hlow, hlow, hhigh⟩
    · exact .inr (.inr (if_neg hlow))

/-- The lower bound stays where it is, also if the bounds cross. -/
theorem clamp_low (low high : Value) : low.clamp low high = low := by
  rw [clamp, min_eq, max_eq]
  by_cases h : high.Lt low
  · rw [if_pos h, if_neg h.asymm]
  · rw [if_neg h, if_neg (Lt.irrefl low)]

/-- The upper bound stays where it is unless the bounds cross. -/
theorem clamp_high {low high : Value} (h : low.Lt high) : high.clamp low high = high := by
  rw [clamp, min_eq, max_eq, if_neg (Lt.irrefl high), if_pos h]

/-- Clamping a second time changes nothing. -/
theorem clamp_clamp (v low high : Value) :
    (v.clamp low high).clamp low high = v.clamp low high := by
  rcases clamp_cases v low high with ⟨h, -, -⟩ | ⟨h, -, hlow⟩ | h
  · rw [h, h]
  · rw [h, clamp_high hlow]
  · rw [h, clamp_low]

/-- Of numbers, with bounds that do not cross, the result lies between the
bounds. -/
theorem clamp_between {v low high : Value} (hv : v.isNaN = false) (hl : low.isNaN = false)
    (hh : high.isNaN = false) (hbounds : low.lessOrEqual high = boolean true) :
    low.lessOrEqual (v.clamp low high) = boolean true ∧
      (v.clamp low high).lessOrEqual high = boolean true := by
  rcases clamp_cases v low high with ⟨h, hlow, hhigh⟩ | ⟨h, -, -⟩ | h
  · rw [h, lessOrEqual_iff_not_lt hl hv, lessOrEqual_iff_not_lt hv hh]
    exact ⟨hlow.asymm, hhigh⟩
  · rw [h, lessOrEqual_iff_not_lt hh hh]
    exact ⟨hbounds, Lt.irrefl high⟩
  · rw [h, lessOrEqual_iff_not_lt hl hl]
    exact ⟨Lt.irrefl low, hbounds⟩

/-- **Clamping selects**: for values of any kinds, the result is one of the
arguments as it is, clamping it again to the same bounds gives it again,
and of numbers, with bounds that do not cross, it lies between the bounds. -/
theorem clamp_selects_between (v low high : Value) :
    let r := MathFunction.clamp.apply #v[v, low, high]
    (r = v ∨ r = low ∨ r = high) ∧
      MathFunction.clamp.apply #v[r, low, high] = r ∧
      (v.isNaN = false → low.isNaN = false → high.isNaN = false →
        low.lessOrEqual high = boolean true →
        low.lessOrEqual r = boolean true ∧ r.lessOrEqual high = boolean true) := by
  refine ⟨?_, clamp_clamp v low high, clamp_between⟩
  rcases clamp_cases v low high with ⟨h, -, -⟩ | ⟨h, -, -⟩ | h
  · exact .inl h
  · exact .inr (.inr h)
  · exact .inr (.inl h)

/-- Bounds of different kinds that compare as equal: what lies above them
becomes the lower one. -/
theorem clamp_selects_between_equal_bounds :
    let r := MathFunction.clamp.apply #v[float ⟨0x4004000000000000⟩, integer 1, boolean true]
    r = integer 1 ∧ (integer 1).lessOrEqual (boolean true) = boolean true ∧
      (integer 1).lessOrEqual r = boolean true ∧ r.lessOrEqual (boolean true) = boolean true :=
  ⟨by decide, by decide, (clamp_selects_between (float ⟨0x4004000000000000⟩) (integer 1)
    (boolean true)).2.2 (by decide) (by decide) (by decide) (by decide)⟩

end Value

end ScalarLang
