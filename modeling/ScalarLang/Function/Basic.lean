import ScalarLang.Operator
import ScalarLang.Stack
import ScalarLang.Text.Casing
import ScalarLang.Text.Quoted
/-!
# Native functions

A native function belongs to the program that embeds the language. It
works on the stack, may look up variables but not change them, and may
have effects on the embedding program, whose state is of a type `σ` that
the language knows nothing about. What a function does to the stack is
its own affair: taking `arity` values and leaving one is a convention.
-/

namespace ScalarLang

/-! ## Errors of an evaluation -/

/-- What asks the stack for values. -/
inductive Operation where
  /-- An assignment to a variable. -/
  | store
  /-- A `return` statement. -/
  | return
  | unary (op : UnaryOp)
  | binary (op : BinaryOp)
  /-- The choice between the blocks of a branch. -/
  | condition
  /-- A call of the named function. -/
  | call (function : String)
  deriving DecidableEq

/-- What messages call an operation. -/
def Operation.description : Operation → String
  | .store => "Pop"
  | .return => "Return"
  | .unary op => op.description
  | .binary op => op.description
  | .condition => "branch condition"
  | .call function => "function `" ++ function ++ "`"

/-- Why an evaluation fails. -/
inductive EvalError where
  /-- An operation found too few values on the stack. -/
  | stackUnderflow (operation : Operation)
  /-- A native function reported an error of its own. -/
  | native (function message : String)
  deriving DecidableEq

/-- The message of an error. -/
def EvalError.message : EvalError → String
  | stackUnderflow operation => "stack underflow while executing " ++ operation.description
  | native function message =>
    "failed executing native function `" ++ function ++ "`: " ++ message

/-! ## Functions -/

/-- What a call of a native function leaves behind, whether or not it
succeeds. -/
structure Reply (σ : Type) where
  error : Option EvalError
  stack : Stack
  host : σ

/-- A function of the embedding program. -/
structure NativeFunction (σ : Type) where
  name : String
  arity : Nat
  /-- Whether calls may be carried out before the program runs. -/
  foldable : Bool
  /-- The effect of a call, given the variables, the stack and the state of
  the embedding program. -/
  call : (String → Option Value) → Stack → σ → Reply σ

namespace NativeFunction

variable {σ : Type}

/-- Functions are the same to a program if they have the same number of
parameters and, up to case, the same name. -/
def same (f g : NativeFunction σ) : Bool :=
  f.arity == g.arity && Text.sameFolded f.name g.name

/-- The name and number of parameters as text. -/
def describeAs (label : String) (f : NativeFunction σ) : String :=
  label ++ " \x7b name: " ++ Text.quoted f.name ++ ", arg_count: " ++ toString f.arity ++ " \x7d"

/-- The function as text. -/
def describe (f : NativeFunction σ) : String := f.describeAs "NativeFn"

/-- A call of the function as text. -/
def describeCall (f : NativeFunction σ) : String := f.describeAs "FunctionCall"

end NativeFunction

/-! ## Functions of values -/

/-- A function of a fixed number of values that yields a value or the
message of an error. -/
structure ValueFunction where
  name : String
  arity : Nat
  foldable : Bool
  apply : Vector Value arity → Except String Value

namespace ValueFunction

/-- The function as a native one: it takes its arguments off the stack and
puts its result there. With too few values it leaves the stack alone. -/
def toNative (f : ValueFunction) (σ : Type) : NativeFunction σ where
  name := f.name
  arity := f.arity
  foldable := f.foldable
  call _ stack host :=
    match stack.popArgs? f.arity with
    | none => ⟨some (.stackUnderflow (.call f.name)), stack, host⟩
    | some (args, below) =>
      match f.apply args with
      | .ok v => ⟨none, below.push v, host⟩
      | .error message => ⟨some (.native f.name message), below, host⟩

/-- **With enough values** the function takes its arguments off the stack
and puts its result, if it has one, in their place. -/
theorem toNative_call (f : ValueFunction) {σ : Type} (vars : String → Option Value) {s : Stack}
    (host : σ) {below args : List Value} (hs : s.toList = below ++ args)
    (hargs : args.length = f.arity) :
    ∃ (taken : Vector Value f.arity) (t : Stack), taken.toList = args ∧ t.toList = below ∧
      (f.toNative σ).call vars s host
        = match f.apply taken with
          | .ok v => ⟨none, t.push v, host⟩
          | .error message => ⟨some (.native f.name message), t, host⟩ := by
  obtain ⟨taken, t, htake, htaken, ht⟩ := Stack.popArgs?_of_toList hs hargs
  exact ⟨taken, t, htaken, ht, by simp [toNative, htake]⟩

/-- The same function, whose calls are left to the running program. -/
def notFoldable (f : ValueFunction) : ValueFunction := { f with foldable := false }

/-- The function as text, with what becomes of its calls. -/
def describe (f : ValueFunction) : String :=
  "FnWrapper \x7b name: " ++ Text.quoted f.name ++ ", arg_count: " ++ toString f.arity
    ++ ", is_foldable: " ++ (if f.foldable then "true" else "false") ++ ", .. \x7d"

end ValueFunction

/-! ## Closures -/

/-- A function of a fixed number of values that may also use and change the
state of the embedding program. -/
structure Closure (σ : Type) where
  name : String
  arity : Nat
  foldable : Bool
  apply : Vector Value arity → σ → Except String Value × σ

namespace Closure

variable {σ : Type}

/-- A call takes the arguments off the stack and puts the result there. With
too few values the closure is not run. -/
def call (f : Closure σ) (stack : Stack) (host : σ) : Reply σ :=
  match stack.popArgs? f.arity with
  | none => ⟨some (.stackUnderflow (.call f.name)), stack, host⟩
  | some (args, below) =>
    match f.apply args host with
    | (.ok v, host) => ⟨none, below.push v, host⟩
    | (.error message, host) => ⟨some (.native f.name message), below, host⟩

/-- The closure as a native function. -/
def toNative (f : Closure σ) : NativeFunction σ := ⟨f.name, f.arity, f.foldable, fun _ => f.call⟩

end Closure

end ScalarLang
