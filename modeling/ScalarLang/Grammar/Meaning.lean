import ScalarLang.Grammar.Tree
import ScalarLang.Program.Trace
/-!
# What trees mean

The value of a phrase and the effect of statements, by recursion on their
trees and without a stack. Operands and arguments are evaluated once
each, from left to right, whatever their values; the first failure ends
the evaluation, and a `return` ends it with a value.
-/

namespace ScalarLang

/-- What an evaluation acts on besides variables: the state of the
embedding program, and the calls carried out so far. -/
structure World (σ : Type) where
  host : σ
  calls : List (NativeCall σ)

/-- What a function yields for its arguments alone. -/
def NativeFunction.valueOf {σ : Type} (f : NativeFunction σ) (vars : String → Option Value)
    (args : List Value) (host : σ) : Except EvalError Value × σ :=
  let reply := f.call vars (args.foldl Stack.push .empty) host
  match reply.error with
  | some e => (.error e, reply.host)
  | none => (.ok (reply.stack.peek?.getD (.boolean false)), reply.host)

namespace Phrase

variable {σ : Type}

mutual

/-- The value of a phrase. -/
def eval (vars : String → Option Value) : Phrase σ → World σ → Except EvalError Value × World σ
  | literal v, w => (.ok v, w)
  | .variable name, w => (.ok ((vars name).getD (.boolean false)), w)
  | unary op p, w =>
    match p.eval vars w with
    | (.ok v, w) => (.ok (op.apply v), w)
    | (.error e, w) => (.error e, w)
  | binary op p q, w =>
    match p.eval vars w with
    | (.ok v, w) =>
      match q.eval vars w with
      | (.ok v', w) => (.ok (op.apply v v'), w)
      | (.error e, w) => (.error e, w)
    | (.error e, w) => (.error e, w)
  | call f ps, w =>
    match evalAll vars ps w with
    | (.ok vs, w) =>
      let (outcome, host) := f.valueOf vars vs w.host
      (outcome, ⟨host, w.calls ++ [⟨f, vs⟩]⟩)
    | (.error e, w) => (.error e, w)

/-- The values of phrases, from left to right. -/
def evalAll (vars : String → Option Value) :
    List (Phrase σ) → World σ → Except EvalError (List Value) × World σ
  | [], w => (.ok [], w)
  | p :: ps, w =>
    match p.eval vars w with
    | (.ok v, w) =>
      match evalAll vars ps w with
      | (.ok vs, w) => (.ok (v :: vs), w)
      | (.error e, w) => (.error e, w)
    | (.error e, w) => (.error e, w)

end

end Phrase

/-- How statements end. -/
inductive Completion where
  /-- The next statement is to follow. -/
  | next
  | returned (v : Value)
  | failed (error : EvalError)
  deriving DecidableEq

namespace Statement

variable {σ : Type}

mutual

/-- The effect of a statement on the variables and the world. -/
def run : Statement σ → Variables → World σ → Completion × Variables × World σ
  | conditional condition success failure, vars, w =>
    match condition.eval vars.get? w with
    | (.error e, w) => (.failed e, vars, w)
    | (.ok v, w) =>
      if v.truthy then runAll success vars w
      else
        match failure with
        | some failure => runAll failure vars w
        | none => (.next, vars, w)
  | .return result, vars, w =>
    match result.eval vars.get? w with
    | (.error e, w) => (.failed e, vars, w)
    | (.ok v, w) => (.returned v, vars.set Variables.returnName v, w)
  | assign name value, vars, w =>
    match value.eval vars.get? w with
    | (.error e, w) => (.failed e, vars, w)
    | (.ok v, w) => (.next, vars.set name v, w)

/-- The effect of statements until one does not go on. -/
def runAll : List (Statement σ) → Variables → World σ → Completion × Variables × World σ
  | [], vars, w => (.next, vars, w)
  | s :: ss, vars, w =>
    match s.run vars w with
    | (.next, vars, w) => runAll ss vars w
    | (.returned v, vars, w) => (.returned v, vars, w)
    | (.failed e, vars, w) => (.failed e, vars, w)

end

end Statement

/-- **What a source text means**: a phrase yields its value, and a program
what it returns, else `false`. What an earlier evaluation returned is
forgotten first. -/
def SyntaxTree.eval {σ : Type} (tree : SyntaxTree σ) (vars : Variables) (w : World σ) :
    Except EvalError Value × Variables × World σ :=
  let vars := vars.erase Variables.returnName
  match tree with
  | .phrase p =>
    match p.eval vars.get? w with
    | (outcome, w) => (outcome, vars, w)
  | .program ss =>
    match Statement.runAll ss vars w with
    | (.next, vars, w) => (.ok (.boolean false), vars, w)
    | (.returned v, vars, w) => (.ok v, vars, w)
    | (.failed e, vars, w) => (.error e, vars, w)

end ScalarLang
