import Mathlib.Algebra.Group.Nat.Defs
import ScalarLang.Grammar.Lexical
/-!
# Integer literals

Which number a run of digits denotes, by the places of the digits
(`Denotes`), and which texts are integer literals (`IntegerLiteral`). The
lexer keeps a running total instead, of 64-bit numbers in the end; here
digits have no greatest number.
-/

namespace ScalarLang

/-- The character is the digit that stands for `d`. From ten on digits are
letters, of either case. -/
def IsDigitOf (d : Nat) (c : Char) : Prop :=
  d < 16 ∧ (c = Nat.digitChar d ∨ c = (Nat.digitChar d).toUpper)

/-- **The number that digits denote**: each digit counts the base to as many
as there are digits behind it. -/
inductive Denotes (base : Nat) : List Char → Nat → Prop
  | nil : Denotes base [] 0
  | cons {d n : Nat} {c : Char} {cs : List Char} (hd : d < base) (hc : IsDigitOf d c)
    (hcs : Denotes base cs n) : Denotes base (c :: cs) (d * base ^ cs.length + n)

/-- The two ways in which integer literals are written. -/
inductive Radix where
  | decimal
  | hexadecimal
  deriving DecidableEq

namespace Radix

/-- How many digits there are. -/
def base : Radix → Nat
  | decimal => 10
  | hexadecimal => 16

/-- The first number that is too large for a literal: decimal digits denote
what a signed word holds, hexadecimal ones all that 64 bits hold. -/
def bound : Radix → Nat
  | decimal => 2 ^ 63
  | hexadecimal => 2 ^ 64

/-- The integer that a literal of the number `n` is: `n` itself, or the one
that has the bits of `n`. -/
def IsInteger (n : Nat) (m : Int64) : Radix → Prop
  | decimal => m.toInt = n
  | hexadecimal => m.toBitVec.toNat = n

end Radix

/-- **Integer literals**: a mark and digits, in front of a text with which they
cannot go on. A decimal literal has no mark, and neither a point nor the mark
of an exponent follows it; a zero before an `x` is the mark of a hexadecimal
one. -/
inductive IntegerLiteral : Radix → List Char → List Char → List Char → Prop
  | decimal {digits rest : List Char} (hdigits : IsDigits digits)
    (hrest : ∀ c ∈ rest.head?, c.isDigit = false ∧ c ≠ '.' ∧ ¬ IsExponentMark c)
    (hzero : digits = ['0'] → ∀ c ∈ rest.head?, ¬ (c = 'x' ∨ c = 'X')) :
    IntegerLiteral .decimal [] digits rest
  | hexadecimal {x : Char} {digits rest : List Char} (hx : x = 'x' ∨ x = 'X')
    (hne : digits ≠ []) (hdigits : ∀ c ∈ digits, Text.isHexDigit c = true)
    (hrest : ∀ c ∈ rest.head?, Text.isHexDigit c = false) :
    IntegerLiteral .hexadecimal ['0', x] digits rest

end ScalarLang
