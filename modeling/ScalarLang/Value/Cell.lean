import ScalarLang.Operator
/-!
# Cells

A cell holds a kind and 64 bits, and nothing ties the bits to the kind. Every
value has a cell, which holds its payload (`Value.cell`), but not every cell
is that of a value: a boolean cell may have bits that are neither all clear
nor all set. Such a cell counts as true, and still it is not identical to
`true`.

The operations are given once more, on cells: what a cell is as a boolean, an
integer or a float is read off its bits, and a result is put together from
one of these or from bits (`Cell.ofBits`). A computation can be carried out
either way.
-/

namespace ScalarLang

/-- A kind and any 64 bits. -/
structure Cell where
  kind : Kind
  bits : UInt64
  deriving DecidableEq

namespace Cell

/-! ## Putting cells together -/

def boolean (b : Bool) : Cell := ⟨.boolean, if b then 0xffffffffffffffff else 0⟩

def integer (n : Int64) : Cell := ⟨.integer, n.toUInt64⟩

def float (x : Binary64) : Cell := ⟨.float, x.bits⟩

/-- The cell of a kind with given bits. For a boolean only counts whether there
is a bit that is set. -/
def ofBits (k : Kind) (bits : UInt64) : Cell :=
  match k with
  | .boolean => boolean (bits != 0)
  | _ => ⟨k, bits⟩

/-! ## Reading cells -/

/-- Whether a cell counts as true. -/
def truthy (c : Cell) : Bool :=
  match c.kind with
  | .boolean | .integer => c.bits != 0
  | .float => !Binary64.isNaN ⟨c.bits⟩ && !Binary64.isZero ⟨c.bits⟩

/-- The cell as an integer. -/
def toInt64 (c : Cell) : Int64 :=
  match c.kind with
  | .boolean | .integer => c.bits.toInt64
  | .float => Binary64.toInt64 ⟨c.bits⟩

/-- The cell as a float. -/
def toBinary64 (c : Cell) : Binary64 :=
  match c.kind with
  | .boolean => if c.bits = 0 then .zero else .one
  | .integer => .ofInt c.bits.toInt64.toInt
  | .float => ⟨c.bits⟩

/-- The cell converted to a kind. One of that kind is left as it is. -/
def convert (c : Cell) (k : Kind) : Cell :=
  if c.kind = k then c
  else
    match k with
    | .boolean => boolean c.truthy
    | .integer => integer c.toInt64
    | .float => float c.toBinary64

/-! ## Operations -/

/-- Applies the operation for the wider kind to what both cells are there. -/
def promote (onBooleans : Bool → Bool → Cell) (onIntegers : Int64 → Int64 → Cell)
    (onFloats : Binary64 → Binary64 → Cell) (c d : Cell) : Cell :=
  match c.kind.wider d.kind with
  | .boolean => onBooleans c.truthy d.truthy
  | .integer => onIntegers c.toInt64 d.toInt64
  | .float => onFloats c.toBinary64 d.toBinary64

/-- Applies an operation on bits at the wider kind. -/
def bitwise (op : UInt64 → UInt64 → UInt64) (c d : Cell) : Cell :=
  let k := c.kind.wider d.kind
  ofBits k (op (c.convert k).bits (d.convert k).bits)

/-- Shifts the bits of a cell of any kind but boolean, by the low six bits of
the other cell as an integer. -/
def shift (op : UInt64 → UInt64 → UInt64) (c d : Cell) : Cell :=
  match c.kind with
  | .boolean => c
  | k => ofBits k (op c.bits (d.toInt64.toUInt64 % 64))

/-- Whether two cells compare in one of the given ways, as floats. -/
def comparesBy (test : Ordering → Bool) (c d : Cell) : Cell :=
  boolean ((c.toBinary64.compare? d.toBinary64).any test)

def abs (c : Cell) : Cell :=
  match c.kind with
  | .boolean => c
  | .integer => integer (if c.toInt64 < 0 then -c.toInt64 else c.toInt64)
  | .float => float c.toBinary64.abs

def neg (c : Cell) : Cell :=
  match c.kind with
  | .boolean => boolean !c.truthy
  | .integer => integer (-c.toInt64)
  | .float => float c.toBinary64.neg

def logicalNot (c : Cell) : Cell :=
  match c.kind with
  | .boolean => boolean !c.truthy
  | .integer => integer (if c.truthy then 0 else -1)
  | .float => float (if c.truthy then .zero else .one)

def complement (c : Cell) : Cell := ofBits c.kind (~~~c.bits)

/-- The operation of a unary operator on cells. -/
def unary : UnaryOp → Cell → Cell
  | .absolute => abs
  | .negate => neg
  | .logicalNot => logicalNot
  | .complement => complement

/-- The operation of a binary operator on cells. -/
def binary : BinaryOp → Cell → Cell → Cell
  | .add => promote (fun a b => boolean (a || b)) (fun a b => integer (a + b))
      fun a b => float (a.add b)
  | .subtract => promote (fun a b => boolean (a && !b)) (fun a b => integer (a - b))
      fun a b => float (a.sub b)
  | .multiply => promote (fun a b => boolean (a && b)) (fun a b => integer (a * b))
      fun a b => float (a.mul b)
  | .divide => promote (fun a _ => boolean a)
      (fun a b => if b = 0 then float .nan else integer (a / b)) fun a b => float (a.div b)
  | .remainder => promote (fun a _ => boolean a)
      (fun a b => if b = 0 then float .nan else integer (a % b)) fun a b => float (a.rem b)
  | .bitAnd => bitwise (· &&& ·)
  | .bitOr => bitwise (· ||| ·)
  | .bitXor => bitwise (· ^^^ ·)
  | .logicalAnd => fun c d => boolean (c.truthy && d.truthy)
  | .logicalOr => fun c d => boolean (c.truthy || d.truthy)
  | .shiftLeft => shift (· <<< ·)
  | .shiftRight => shift fun bits amount => (bits.toInt64 >>> amount.toInt64).toUInt64
  | .shiftRightZero => shift (· >>> ·)
  | .less => comparesBy Ordering.isLT
  | .lessOrEqual => comparesBy Ordering.isLE
  | .greater => comparesBy Ordering.isGT
  | .greaterOrEqual => comparesBy Ordering.isGE
  | .equal => comparesBy Ordering.isEq
  | .notEqual => fun c d => boolean !(comparesBy Ordering.isEq c d).truthy
  | .identical => fun c d => boolean (c == d)
  | .notIdentical => fun c d => boolean (c != d)

end Cell

/-! ## Computations -/

/-- A way to come to a value: from a boolean, an integer, a float or bits, by
conversions and operators. -/
inductive Computation where
  | boolean (b : Bool)
  | integer (n : Int64)
  | float (x : Binary64)
  | ofBits (k : Kind) (bits : UInt64)
  | convert (c : Computation) (k : Kind)
  | unary (op : UnaryOp) (c : Computation)
  | binary (op : BinaryOp) (c d : Computation)

namespace Computation

/-- The value that a computation comes to. -/
def value : Computation → Value
  | boolean b => .boolean b
  | integer n => .integer n
  | float x => .float x
  | ofBits k bits => .ofRaw k bits
  | convert c k => c.value.convert k
  | unary op c => op.apply c.value
  | binary op c d => op.apply c.value d.value

end Computation

end ScalarLang
