import ScalarLang.Function.Basic
/-!
# Program nodes

A compiled program is a list of nodes in postfix order, each of which
works on a stack of values and a set of variables. Programs are compared
structurally, except that calls are compared by the name of the function,
up to case, and its number of parameters (`Node.same`).
-/

namespace ScalarLang

/-- An elementary operation of a program. -/
inductive Directive where
  /-- Pushes a value. -/
  | push (v : Value)
  /-- Pushes the value of a variable, or `false` if it is not defined. -/
  | load (name : String)
  /-- Pops a value into a variable. -/
  | store (name : String)
  /-- Pops what is to be returned and ends the program. -/
  | return
  | unary (op : UnaryOp)
  | binary (op : BinaryOp)
  deriving DecidableEq

namespace Directive

/-- The code of a directive in encoded programs. -/
def code : Directive → Nat
  | .push _ => 0
  | .load _ => 1
  | .store _ => 2
  | .return => 3
  | .unary op => op.code
  | .binary op => op.code

/-- The name of a directive's code. -/
def codeName : Directive → String
  | .push _ => "Push"
  | .load _ => "PushVariable"
  | .store _ => "Pop"
  | .return => "Return"
  | .unary op => op.codeName
  | .binary op => op.codeName

/-- Whether a directive may be carried out before the program runs:
anything but access to a variable. -/
def isFoldable : Directive → Bool
  | .load _ | .store _ => false
  | _ => true

end Directive

/-- A node of a program whose native functions act on a state of type
`σ`. -/
inductive Node (σ : Type) where
  | directive (d : Directive)
  /-- Runs the condition, pops a value and runs the success block if the
  value counts as true, else the failure block if there is one. -/
  | branch (condition success : List (Node σ)) (failure : Option (List (Node σ)))
  | call (f : NativeFunction σ)

namespace Node

variable {σ : Type}

/-! ## Folding -/

mutual

/-- Whether a node may be carried out before the program runs. -/
def isFoldable : Node σ → Bool
  | directive d => d.isFoldable
  | branch condition success failure =>
    areFoldable condition && areFoldable success &&
      match failure with
      | none => true
      | some failure => areFoldable failure
  | call f => f.foldable

/-- Whether all nodes of a block may be carried out early. -/
def areFoldable : List (Node σ) → Bool
  | [] => true
  | n :: ns => n.isFoldable && areFoldable ns

end

/-! ## Comparison -/

mutual

/-- Whether two nodes are the same program. -/
def same : Node σ → Node σ → Bool
  | directive d, directive e => d == e
  | branch c s none, branch c' s' none => sameAll c c' && sameAll s s'
  | branch c s (some f), branch c' s' (some f') => sameAll c c' && sameAll s s' && sameAll f f'
  | call f, call g => f.same g
  | _, _ => false

/-- Whether two blocks are the same program. -/
def sameAll : List (Node σ) → List (Node σ) → Bool
  | [], [] => true
  | n :: ns, m :: ms => n.same m && sameAll ns ms
  | _, _ => false

end

/-! ## Parts -/

/-- The first node is the second or stands within it. -/
inductive Within (n : Node σ) : Node σ → Prop
  | refl : Within n n
  | condition {k : Node σ} {condition success : List (Node σ)} {failure : Option (List (Node σ))}
    (hk : k ∈ condition) (h : Within n k) : Within n (branch condition success failure)
  | success {k : Node σ} {condition success : List (Node σ)} {failure : Option (List (Node σ))}
    (hk : k ∈ success) (h : Within n k) : Within n (branch condition success failure)
  | failure {k : Node σ} {condition success block : List (Node σ)} (hk : k ∈ block)
    (h : Within n k) : Within n (branch condition success (some block))

end Node

/-- The root of a program. -/
structure Branch (σ : Type) where
  condition : List (Node σ)
  success : List (Node σ)
  failure : Option (List (Node σ))

namespace Branch

variable {σ : Type}

/-- The branch as a node. -/
def toNode (b : Branch σ) : Node σ := .branch b.condition b.success b.failure

/-- A branch that runs a block in any case. -/
def unconditional (block : List (Node σ)) : Branch σ :=
  ⟨[.directive (.push (.boolean true))], block, none⟩

/-- Whether the program may be run ahead of time. -/
def isFoldable (b : Branch σ) : Bool := b.toNode.isFoldable

/-- Whether two roots are the same program. -/
def same (b c : Branch σ) : Bool := b.toNode.same c.toNode

end Branch

end ScalarLang
