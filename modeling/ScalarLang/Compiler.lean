import ScalarLang.Interning
import ScalarLang.Parser.Statement
/-!
# Compilation

A compiler reads a phrase or a block of statements into an expression.
It may carry out a program that uses no variables ahead of time and keep
its value instead (`fold`), and it may hand out shared instances.
-/

namespace ScalarLang

/-! ## Options -/

/-- What a compiler does with the programs it reads. -/
structure CompileOptions where
  /-- Carry out programs that may be carried out early. -/
  foldConstants : Bool := true
  /-- Hand out shared instances. -/
  intern : Bool := true
  deriving DecidableEq

namespace CompileOptions

/-- The options with the given bits. -/
def ofBits (bits : Nat) : CompileOptions := ⟨bits.testBit 0, bits.testBit 1⟩

/-- One bit for folding and two for interning. -/
def toBits (o : CompileOptions) : Nat :=
  (if o.foldConstants then 1 else 0) + if o.intern then 2 else 0

/-- The options as text. -/
def describe (o : CompileOptions) : String :=
  let names := (if o.foldConstants then ["FOLD_CONSTANTS"] else [])
    ++ if o.intern then ["INTERN"] else []
  "CompileOptions(" ++ (if names.isEmpty then "0x0" else " | ".intercalate names) ++ ")"

end CompileOptions

/-! ## Folding -/

/-- The program as an expression, carried out if that may be done now. A
program that fails is kept and will fail again when it is run. -/
def fold {σ : Type} (root : Branch σ) (host : σ) : Expression σ × σ :=
  if root.isFoldable then
    match (Expression.ofBranch root).evaluateIn .empty host with
    | (.ok v, _, host) => (.literal v, host)
    | (.error _, _, host) => (.ofBranch root, host)
  else (.ofBranch root, host)

/-! ## The compiler -/

/-- The two forms of source text. -/
inductive SourceForm where
  | phrase
  | block
  deriving DecidableEq

/-- The nodes of tokens that are a phrase or a block as a whole. -/
def SourceForm.parse {σ : Type} (form : SourceForm) (d : Dialect σ) (ts : List Token) :
    Except Rejection (List (Node σ)) :=
  match form with
  | phrase => Parser.topPhrase d ts
  | block => Parser.topBlock d ts

/-- A compiler for a supply of functions. -/
structure Compiler (σ : Type) where
  resolver : Resolver σ
  options : CompileOptions := {}

namespace Compiler

variable {σ : Type}

/-- A compiler that knows no functions. -/
def plain : Compiler σ := { resolver := .empty }

/-- The expression that a list of nodes becomes. -/
def ofNodes (c : Compiler σ) (nodes : List (Node σ)) (source : Option String) (host : σ) :
    Expression σ × σ :=
  let root := Branch.unconditional nodes
  let (e, host) := if c.options.foldConstants then fold root host else (.ofBranch root, host)
  (e.withSource source, host)

/-- Compiles tokens, which may come with the source they were read from. -/
def compileTokens (c : Compiler σ) (form : SourceForm) (ts : List Token)
    (source : Option String) (w : Workspace σ) : Except ParseError (Instance σ) × Workspace σ :=
  match form.parse ⟨c.resolver, BinaryOp.isRightAssoc⟩ ts with
  | .error r => (.error r.toError, w)
  | .ok nodes =>
    let (e, host) := c.ofNodes nodes source w.host
    let (i, w) := { w with host }.instantiate e
    let (i, w) := if c.options.intern then w.share i else (i, w)
    (.ok i, w)

/-- Compiles a source text. -/
def compile (c : Compiler σ) (form : SourceForm) (source : String) (w : Workspace σ) :
    Except ParseError (Instance σ) × Workspace σ :=
  match tokenize source with
  | .error e => (.error (.ofLexError e), w)
  | .ok ts => c.compileTokens form ts (some source) w

/-- The compiler as text. -/
def describe (c : Compiler σ) : String :=
  "Compiler \x7b options: " ++ c.options.describe ++ ", .. \x7d"

end Compiler

end ScalarLang
