import ScalarLang.Value.Operations
/-!
# Operators

The four unary and twenty-one binary operators: the symbols that write
them, how tightly they bind, and the operation each applies. Every
operator also has a code, by which it is known in encoded programs.
-/

namespace ScalarLang

/-- How tightly an operator binds, from loosest to tightest. -/
inductive Priority where
  | logicalOr
  | logicalAnd
  | bitOr
  | bitXor
  | bitAnd
  | equality
  | relational
  | shift
  | additive
  | multiplicative
  | unary
  deriving DecidableEq

namespace Priority

/-- Tighter priorities have higher levels. -/
def level : Priority → Nat
  | logicalOr => 0
  | logicalAnd => 1
  | bitOr => 2
  | bitXor => 3
  | bitAnd => 4
  | equality => 5
  | relational => 6
  | shift => 7
  | additive => 8
  | multiplicative => 9
  | unary => 10

def name : Priority → String
  | logicalOr => "LogicalOr"
  | logicalAnd => "LogicalAnd"
  | bitOr => "BitOr"
  | bitXor => "BitXor"
  | bitAnd => "BitAnd"
  | equality => "Equality"
  | relational => "Relational"
  | shift => "Shift"
  | additive => "AddOrSub"
  | multiplicative => "MulDivOrRem"
  | unary => "Unary"

end Priority

/-! ## Unary operators -/

/-- The operators that stand before one operand. -/
inductive UnaryOp where
  | absolute
  | negate
  | logicalNot
  | complement
  deriving DecidableEq

namespace UnaryOp

def all : List UnaryOp := [.absolute, .negate, .logicalNot, .complement]

/-- The symbol that writes an operator. -/
def symbol : UnaryOp → Symbol
  | absolute => .plus
  | negate => .minus
  | logicalNot => .bang
  | complement => .tilde

/-- The operator that a symbol writes before an operand. -/
def ofSymbol? (s : Symbol) : Option UnaryOp := all.find? (·.symbol = s)

/-- What messages call the operation. -/
def description : UnaryOp → String
  | absolute => "absolute value"
  | negate => "negation"
  | logicalNot => "logical negation"
  | complement => "bitwise complement"

/-- The name of an operator in encoded programs. -/
def codeName : UnaryOp → String
  | absolute => "Absolute"
  | negate => "Negate"
  | logicalNot => "LogicalNot"
  | complement => "Not"

/-- The code of an operator in encoded programs. -/
def code : UnaryOp → Nat
  | absolute => 4
  | negate => 5
  | logicalNot => 6
  | complement => 7

/-- The operation an operator stands for. -/
def apply : UnaryOp → Value → Value
  | absolute => .abs
  | negate => .neg
  | logicalNot => .logicalNot
  | complement => .complement

end UnaryOp

/-! ## Binary operators -/

/-- The operators that stand between two operands. -/
inductive BinaryOp where
  | add
  | subtract
  | multiply
  | divide
  | remainder
  | bitAnd
  | bitOr
  | bitXor
  | logicalAnd
  | logicalOr
  | shiftLeft
  | shiftRight
  | shiftRightZero
  | less
  | lessOrEqual
  | greater
  | greaterOrEqual
  | equal
  | notEqual
  | identical
  | notIdentical
  deriving DecidableEq

namespace BinaryOp

def all : List BinaryOp :=
  [.add, .subtract, .multiply, .divide, .remainder, .bitAnd, .bitOr, .bitXor, .logicalAnd,
   .logicalOr, .shiftLeft, .shiftRight, .shiftRightZero, .less, .lessOrEqual, .greater,
   .greaterOrEqual, .equal, .notEqual, .identical, .notIdentical]

/-- The symbol that writes an operator. -/
def symbol : BinaryOp → Symbol
  | add => .plus
  | subtract => .minus
  | multiply => .star
  | divide => .slash
  | remainder => .percent
  | bitAnd => .amp
  | bitOr => .pipe
  | bitXor => .caret
  | logicalAnd => .ampAmp
  | logicalOr => .pipePipe
  | shiftLeft => .lessLess
  | shiftRight => .greaterGreater
  | shiftRightZero => .greaterGreaterGreater
  | less => .less
  | lessOrEqual => .lessEqual
  | greater => .greater
  | greaterOrEqual => .greaterEqual
  | equal => .equalEqual
  | notEqual => .bangEqual
  | identical => .equalEqualEqual
  | notIdentical => .bangEqualEqual

/-- The operator that a symbol writes between operands. -/
def ofSymbol? (s : Symbol) : Option BinaryOp := all.find? (·.symbol = s)

/-- How tightly an operator binds. -/
def priority : BinaryOp → Priority
  | logicalOr => .logicalOr
  | logicalAnd => .logicalAnd
  | bitOr => .bitOr
  | bitXor => .bitXor
  | bitAnd => .bitAnd
  | equal | notEqual | identical | notIdentical => .equality
  | less | lessOrEqual | greater | greaterOrEqual => .relational
  | shiftLeft | shiftRight | shiftRightZero => .shift
  | add | subtract => .additive
  | multiply | divide | remainder => .multiplicative

/-- Whether a chain of the operator groups to the right. -/
def isRightAssoc (op : BinaryOp) : Bool := op = logicalOr

/-- What messages call the operation. -/
def description : BinaryOp → String
  | add => "addition"
  | subtract => "subtraction"
  | multiply => "multiplication"
  | divide => "division"
  | remainder => "remainder"
  | bitAnd => "bitwise AND"
  | bitOr => "bitwise OR"
  | bitXor => "bitwise XOR"
  | logicalAnd => "AND"
  | logicalOr => "OR"
  | shiftLeft => "left shift"
  | shiftRight => "right shift"
  | shiftRightZero => "padded right shift"
  | less => "lesser comparison"
  | lessOrEqual => "lesser-or-equal comparison"
  | greater => "greater comparison"
  | greaterOrEqual => "greater-or-equal comparison"
  | equal => "equality comparison"
  | notEqual => "non-equality comparison"
  | identical => "strict equality comparison"
  | notIdentical => "strict non-equality comparison"

/-- The name of an operator in encoded programs. -/
def codeName : BinaryOp → String
  | add => "Add"
  | subtract => "Subtract"
  | multiply => "Multiply"
  | divide => "Divide"
  | remainder => "Modulo"
  | bitAnd => "And"
  | bitOr => "Or"
  | bitXor => "Xor"
  | logicalAnd => "LogicalAnd"
  | logicalOr => "LogicalOr"
  | shiftLeft => "LeftShift"
  | shiftRight => "RightShift"
  | shiftRightZero => "RightShiftPadded"
  | less => "Less"
  | lessOrEqual => "LessOrEqual"
  | greater => "Greater"
  | greaterOrEqual => "GreaterOrEqual"
  | equal => "Equal"
  | notEqual => "NotEqual"
  | identical => "StrictEqual"
  | notIdentical => "StrictNotEqual"

/-- The code of an operator in encoded programs. -/
def code : BinaryOp → Nat
  | add => 8
  | subtract => 9
  | multiply => 10
  | divide => 11
  | remainder => 12
  | bitAnd => 13
  | bitOr => 14
  | bitXor => 15
  | logicalAnd => 16
  | logicalOr => 17
  | shiftLeft => 18
  | shiftRight => 19
  | shiftRightZero => 20
  | less => 21
  | lessOrEqual => 22
  | greater => 23
  | greaterOrEqual => 24
  | equal => 25
  | notEqual => 26
  | identical => 27
  | notIdentical => 28

/-- The operation an operator stands for. -/
def apply : BinaryOp → Value → Value → Value
  | add => .add
  | subtract => .sub
  | multiply => .mul
  | divide => .div
  | remainder => .rem
  | bitAnd => .bitAnd
  | bitOr => .bitOr
  | bitXor => .bitXor
  | logicalAnd => .logicalAnd
  | logicalOr => .logicalOr
  | shiftLeft => .shiftLeft
  | shiftRight => .shiftRight
  | shiftRightZero => .shiftRightZero
  | less => .less
  | lessOrEqual => .lessOrEqual
  | greater => .greater
  | greaterOrEqual => .greaterOrEqual
  | equal => .equal
  | notEqual => .notEqual
  | identical => .identical
  | notIdentical => .notIdentical

/-- The operators that bind looser than this one. -/
def tighterThan (op : BinaryOp) : List BinaryOp :=
  all.filter fun other => other.priority.level < op.priority.level

end BinaryOp

end ScalarLang
