import ScalarLang.Bytes.Varint
import ScalarLang.Program.Node
/-!
# The canonical encoding of programs

Every program has one sequence of bytes by which it is known. Tags tell
the alternatives apart, and numbers, texts and blocks are written with
their lengths in front, so no encoding begins another. The name of a
function is written in lower case.
-/

namespace ScalarLang

namespace Encoding

/-- A presence byte. -/
def flag (b : Bool) : List UInt8 := [if b then 1 else 0]

/-- The UTF-8 bytes of a text, with their number in front. -/
def text (s : String) : List UInt8 := Varint.encode s.utf8ByteSize ++ s.toUTF8.data.toList

/-- The bytes of a word, the lowest first. -/
def word (n : UInt64) : List UInt8 :=
  (List.range 8).map fun i => UInt8.ofNat (n.toNat >>> (8 * i))

/-- A value by its kind and payload. -/
def value (v : Value) : List UInt8 := Varint.encode v.kind.ordinal ++ word v.raw

/-- A directive by its code and, if it has one, its operand. -/
def directive (d : Directive) : List UInt8 :=
  Varint.encode d.code ++
    match d with
    | .push v => flag true ++ 0 :: value v
    | .load name | .store name => flag true ++ 1 :: text name
    | .return | .unary _ | .binary _ => flag false

variable {σ : Type}

mutual

/-- A node by its tag and its parts; a block is written as the number of
its nodes and the nodes. -/
def node : Node σ → List UInt8
  | .directive d => 0 :: directive d
  | .branch condition success failure =>
    1 :: (Varint.encode condition.length ++ nodes condition
      ++ (Varint.encode success.length ++ nodes success)
      ++ match failure with
        | none => flag false
        | some failure => flag true ++ (Varint.encode failure.length ++ nodes failure))
  | .call f => 2 :: (text (Text.foldCase f.name) ++ Varint.encode f.arity)

/-- The nodes of a block, one after the other. -/
def nodes : List (Node σ) → List UInt8
  | [] => []
  | n :: ns => node n ++ nodes ns

end

/-- A block by the number of its nodes and the nodes. -/
def block (ns : List (Node σ)) : List UInt8 := Varint.encode ns.length ++ nodes ns

/-- The root of a program by its parts. -/
def root (b : Branch σ) : List UInt8 :=
  block b.condition ++ block b.success ++
    match b.failure with
    | none => flag false
    | some failure => flag true ++ block failure

/-- The root is encoded as a node is, but for the tag. -/
theorem node_toNode (b : Branch σ) : node b.toNode = 1 :: root b := by
  obtain ⟨condition, success, failure⟩ := b
  cases failure <;> simp [Branch.toNode, node, root, block]

end Encoding

end ScalarLang
