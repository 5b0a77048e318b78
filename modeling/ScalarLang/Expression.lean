import ScalarLang.Bytes.Digest
import ScalarLang.Program.Encoding
import ScalarLang.Program.Trace
/-!
# Expressions

An expression is a literal or a program, and may remember the source it
was compiled from. It is known by the digest of its canonical encoding,
in which the source has no part: two expressions are equal if their
digests are.
-/

namespace ScalarLang

/-- What an expression does: yield a value, or run a program. -/
inductive Code (σ : Type) where
  | literal (v : Value)
  | program (root : Branch σ)

/-- A compiled expression. -/
structure Expression (σ : Type) where
  code : Code σ
  source : Option String

/-- The machine without values on the stack and without a returned value. -/
def Machine.cleared {σ : Type} (m : Machine σ) : Machine σ :=
  { m with stack := m.stack.clear, vars := m.vars.erase Variables.returnName }

/-- What an evaluation yields: the returned value, else the value on top of
the stack, else `false`. -/
def Machine.result {σ : Type} (m : Machine σ) : Value :=
  (m.vars.returnValue?.or m.stack.peek?).getD (.boolean false)

namespace Expression

variable {σ : Type}

/-- The expression that always yields a value. -/
def literal (v : Value) : Expression σ := ⟨.literal v, none⟩

/-- The expression that runs a program. -/
def ofBranch (root : Branch σ) : Expression σ := ⟨.program root, none⟩

/-- The same expression with the source it is known by. -/
def withSource (e : Expression σ) (source : Option String) : Expression σ :=
  { e with source := source }

/-- The value, if the expression is a literal. -/
def literal? (e : Expression σ) : Option Value :=
  match e.code with
  | .literal v => some v
  | .program _ => none

/-- The program, if the expression is one. -/
def root? (e : Expression σ) : Option (Branch σ) :=
  match e.code with
  | .literal _ => none
  | .program root => some root

/-- Whether the expression yields a value without running a program. -/
def isLiteral (e : Expression σ) : Bool := e.literal?.isSome

/-- The node stands in the program of the expression. -/
def Contains (e : Expression σ) (n : Node σ) : Prop := ∃ root ∈ e.root?, n.Within root.toNode

/-! ## Evaluation -/

/-- What an evaluation yields once its program has run. -/
def conclude : Signal × Machine σ → Except EvalError Value × Machine σ
  | (.failed error, m) => (.error error, m)
  | (_, m) => (.ok m.result, m)

/-- Evaluates an expression on a machine. What an earlier evaluation left
on the stack, and what it returned, is removed first. -/
def evaluate (e : Expression σ) (m : Machine σ) : Except EvalError Value × Machine σ :=
  match e.code with
  | .literal v => (.ok v, m.cleared)
  | .program root => conclude (root.execute m.cleared)

/-- The calls that the evaluation of an expression carries out. -/
def calls (e : Expression σ) (m : Machine σ) : List (NativeCall σ) :=
  match e.code with
  | .literal _ => []
  | .program root => Step.calls (root.toNode.steps m.cleared)

/-- The assignments that the evaluation of an expression carries out. -/
def assignments (e : Expression σ) (m : Machine σ) : List (String × Value) :=
  match e.code with
  | .literal _ => []
  | .program root => Step.assignments (root.toNode.steps m.cleared)

/-- The steps that the evaluation of an expression takes. -/
def steps (e : Expression σ) (m : Machine σ) : List (Step σ) :=
  match e.code with
  | .literal _ => []
  | .program root => root.toNode.steps m.cleared

theorem assignments_eq (e : Expression σ) (m : Machine σ) :
    e.assignments m = Step.assignments (e.steps m) := by
  unfold assignments steps
  cases e.code <;> rfl

/-- Evaluates an expression on a stack of its own. -/
def evaluateIn (e : Expression σ) (vars : Variables) (host : σ) :
    Except EvalError Value × Variables × σ :=
  let (outcome, m) := e.evaluate ⟨.empty, vars, host⟩
  (outcome, m.vars, m.host)

/-! ## Identity -/

/-- The bytes an expression is known by. -/
def canonicalBytes (e : Expression σ) : List UInt8 :=
  match e.code with
  | .literal v => 0 :: Encoding.value v
  | .program root => 1 :: Encoding.root root

/-- The digest of the canonical bytes. -/
def digest (e : Expression σ) : Digest := .ofBytes e.canonicalBytes

/-- Equality of expressions. -/
def same (e f : Expression σ) : Bool := e.digest == f.digest

/-- The value of a literal, the source of a program, or its digest if the
source is not known. -/
def text (e : Expression σ) : String :=
  match e.code, e.source with
  | .literal v, _ => v.text
  | .program _, some source => source
  | .program _, none => "digest:" ++ e.digest.text

end Expression

end ScalarLang
