import ScalarLang.Grammar.Derivation
/-!
# Open calls

Which calls an unfinished source text has begun and not finished, told
without a parser. The name of a function calls it where an operand is
expected, and the token before tells whether one is. The call is finished
by the parenthesis that closes the one after the name.
-/

namespace ScalarLang

/-- Whether an operand is expected after the token: after an operator, an
opening parenthesis, a comma, the sign of an assignment or `return`. -/
def Token.asksOperand (t : Token) : Bool :=
  match t.kind with
  | .symbol .leftParen | .symbol .comma | .symbol .assign | .keyword .return => true
  | kind => kind.unaryOp?.isSome || kind.binaryOp?.isSome

/-- Whether the tokens close a parenthesis that was opened before them, when
`depth` others have been opened since. -/
def closesOuter : Nat → List Token → Bool
  | _, [] => false
  | depth, t :: ts =>
    if t.kind = .symbol .leftParen then closesOuter (depth + 1) ts
    else if t.kind = .symbol .rightParen then depth == 0 || closesOuter (depth - 1) ts
    else closesOuter depth ts

section

variable {σ : Type} (r : Resolver σ)

/-- The function that a token calls, if an operand is expected there. -/
def Resolver.called? (operand : Bool) (t : Token) : Option (NativeFunction σ) :=
  if operand ∧ t.kind = .identifier then r.resolve? t.text else none

/-- **The calls that the tokens have begun and not finished**, outermost first;
the flag tells whether an operand is expected at first. The token after a
name, if there is one, is its parenthesis. -/
def openCalls : Bool → List Token → List OpenCall
  | _, [] => []
  | operand, t :: ts =>
    match r.called? operand t with
    | some f =>
      if closesOuter 0 ts.tail then openCalls t.asksOperand ts
      else ⟨f.name, t⟩ :: openCalls t.asksOperand ts
    | none => openCalls t.asksOperand ts

end

end ScalarLang
