import ScalarLang.Program.Node
/-!
# Syntax trees

The trees of phrases and statements, and the nodes each is compiled to:
a phrase to its postfix form, operands from left to right and then the
operator or the call, and a statement to the nodes of its phrases
followed by what is done with their values.
-/

namespace ScalarLang

/-- The tree of a phrase. -/
inductive Phrase (σ : Type) where
  | literal (v : Value)
  | variable (name : String)
  | unary (op : UnaryOp) (operand : Phrase σ)
  | binary (op : BinaryOp) (left right : Phrase σ)
  | call (f : NativeFunction σ) (arguments : List (Phrase σ))

namespace Phrase

variable {σ : Type}

mutual

/-- The postfix form of a phrase. -/
def nodes : Phrase σ → List (Node σ)
  | literal v => [.directive (.push v)]
  | .variable name => [.directive (.load name)]
  | unary op p => p.nodes ++ [.directive (.unary op)]
  | binary op p q => p.nodes ++ q.nodes ++ [.directive (.binary op)]
  | call f ps => allNodes ps ++ [.call f]

/-- The postfix forms of phrases, one after the other. -/
def allNodes : List (Phrase σ) → List (Node σ)
  | [] => []
  | p :: ps => p.nodes ++ allNodes ps

end

end Phrase

/-- The tree of a statement. Blocks are lists of statements, whether they
are written with braces or not. -/
inductive Statement (σ : Type) where
  | conditional (condition : Phrase σ) (success : List (Statement σ))
    (failure : Option (List (Statement σ)))
  | return (result : Phrase σ)
  | assign (name : String) (value : Phrase σ)

namespace Statement

variable {σ : Type}

mutual

/-- The nodes of a statement. -/
def nodes : Statement σ → List (Node σ)
  | conditional condition success failure =>
    [.branch condition.nodes (allNodes success)
      (match failure with
        | none => none
        | some failure => some (allNodes failure))]
  | .return result => result.nodes ++ [.directive .return]
  | assign name value => value.nodes ++ [.directive (.store name)]

/-- The nodes of statements, one after the other. -/
def allNodes : List (Statement σ) → List (Node σ)
  | [] => []
  | s :: ss => s.nodes ++ allNodes ss

end

end Statement

/-- The tree of a source text: a phrase, or a program of statements. -/
inductive SyntaxTree (σ : Type) where
  | phrase (p : Phrase σ)
  | program (ss : List (Statement σ))

/-- The nodes of a source text. -/
def SyntaxTree.nodes {σ : Type} : SyntaxTree σ → List (Node σ)
  | phrase p => p.nodes
  | program ss => Statement.allNodes ss

end ScalarLang
