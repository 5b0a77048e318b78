/-!
# Digits

Classes of digit characters, the number a run of digits denotes, and the
fixed-width hexadecimal text of words and bytes.
-/

namespace ScalarLang

namespace Text

/-- A hexadecimal digit of either case. -/
def isHexDigit (c : Char) : Bool :=
  c.isDigit || ('a' ≤ c && c ≤ 'f') || ('A' ≤ c && c ≤ 'F')

/-- The value of a hexadecimal digit; decimal digits are among them. -/
def digitValue (c : Char) : Nat :=
  if c.isDigit then c.toNat - '0'.toNat
  else if 'a' ≤ c && c ≤ 'f' then c.toNat - 'a'.toNat + 10
  else c.toNat - 'A'.toNat + 10

/-- The number that a run of digits denotes in the given base, most
significant digit first. -/
def digitsValue (base : Nat) (digits : List Char) : Nat :=
  digits.foldl (fun n c => base * n + digitValue c) 0

/-- How many decimal digits a positive number has. -/
def decimalLength (n : Nat) : Nat := (Nat.toDigits 10 n).length

/-- The lower-case hexadecimal text of `n` in exactly `width` digits,
higher digits dropped. -/
def hex (width n : Nat) : String :=
  String.ofList ((List.range width).reverse.map fun i => Nat.digitChar ((n >>> (4 * i)) % 16))

/-- Two hexadecimal digits for each byte. -/
def hexBytes (bytes : List UInt8) : String :=
  String.join (bytes.map fun b => hex 2 b.toNat)

end Text

end ScalarLang
