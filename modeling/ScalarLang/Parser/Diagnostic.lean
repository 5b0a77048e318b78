import ScalarLang.Token.Lexer
/-!
# Diagnostics

A source text that cannot be compiled is answered with a main diagnostic
and notes that tell where it was met. A parser hands over less than that
(`Rejection`): the reason, the tokens that were left, of which the first
is the one at fault, and the calls whose arguments were being read.
-/

namespace ScalarLang

/-- What a parser would have accepted in place of what it met. -/
inductive Expectation where
  | openAfterIf
  | closeAfterCondition
  | closeAfterPhrase
  | openAfterFunction
  | commaAfterArgument
  | closeAfterArguments
  | semicolon
  | assignSign
  | closeBrace
  | statement
  | endOfInput
  deriving DecidableEq

/-- What messages call what was expected. -/
def Expectation.text : Expectation → String
  | openAfterIf => "`(` after `if`"
  | closeAfterCondition => "`)` after condition"
  | closeAfterPhrase => "`)` after expression"
  | openAfterFunction => "`(` after function name"
  | commaAfterArgument => "`,` after a function argument"
  | closeAfterArguments => "`)` after function arguments"
  | semicolon => "`;` after statement"
  | assignSign => "`=` in assignment"
  | closeBrace => "`\x7d`"
  | statement => "statement"
  | endOfInput => "end of input"

/-! ## Rejections -/

/-- Why a parser stops at a token, or at the end of the tokens. -/
inductive Reason where
  | expected (what : Expectation)
  /-- The operators and operands read so far make no phrase. -/
  | invalidPhrase
  /-- The name of a function stands where a variable is assigned to. -/
  | functionAssignment (name : String)
  deriving DecidableEq

/-- A call whose arguments are being read: the function's own name, and the
token that named it. -/
structure OpenCall where
  function : String
  token : Token
  deriving DecidableEq

/-- Why a parser stopped, the tokens from there on, and the calls it was
reading, innermost first. -/
structure Rejection where
  reason : Reason
  rest : List Token
  calls : List OpenCall
  deriving DecidableEq

/-- The rejection as seen by a call around it. -/
def Rejection.within (r : Rejection) (call : OpenCall) : Rejection :=
  { r with calls := r.calls ++ [call] }

/-! ## Diagnostics -/

/-- What a diagnostic tells. -/
inductive Finding where
  | lex (cause : LexCause)
  | unexpectedToken (expected : Expectation) (found : String)
  | unexpectedEnd (expected : Expectation)
  | invalidExpression
  | functionAssignment (name : String)
  /-- A note: the failure lies among the arguments of the function. -/
  | argumentsOf (function : String)
  deriving DecidableEq

/-- The text of a finding. -/
def Finding.text : Finding → String
  | lex cause => cause.message
  | unexpectedToken expected found => "expected " ++ expected.text ++ ", got `" ++ found ++ "`"
  | unexpectedEnd expected => "expected " ++ expected.text ++ ", got end of input"
  | invalidExpression => "expected valid expression"
  | functionAssignment name =>
    "expected variable or expression statement; `" ++ name ++ "` is a function name"
  | argumentsOf function => "note: in arguments of function `" ++ function ++ "`"

/-- A finding and where it applies; the end of the tokens has no location. -/
structure Diagnostic where
  finding : Finding
  location : Option Location
  deriving DecidableEq

/-- The text of a finding after its location. -/
def Diagnostic.message (d : Diagnostic) : String :=
  match d.location with
  | some l => l.text ++ ": " ++ d.finding.text
  | none => d.finding.text

/-- A failure to compile: what is wrong, and notes on where. -/
structure ParseError where
  main : Diagnostic
  notes : List Diagnostic
  deriving DecidableEq

namespace ParseError

/-- All diagnostics, the main one first. -/
def diagnostics (e : ParseError) : List Diagnostic := e.main :: e.notes

/-- One line for each diagnostic. -/
def message (e : ParseError) : String := "\n".intercalate (e.diagnostics.map (·.message))

/-- A text that cannot be split into tokens cannot be compiled. -/
def ofLexError (e : LexError) : ParseError := ⟨⟨.lex e.cause, some e.location⟩, []⟩

end ParseError

namespace Rejection

/-- What a rejection says about the token at fault, or about the end. -/
def finding (r : Rejection) : Finding :=
  match r.reason, r.rest with
  | .expected what, t :: _ => .unexpectedToken what t.text
  | .expected what, [] => .unexpectedEnd what
  | .invalidPhrase, _ => .invalidExpression
  | .functionAssignment name, _ => .functionAssignment name

/-- The diagnostics of a rejection: the token at fault, then the calls
around it. -/
def toError (r : Rejection) : ParseError where
  main := ⟨r.finding, r.rest.head?.map (·.location)⟩
  notes := r.calls.map fun c => ⟨.argumentsOf c.function, some c.token.location⟩

end Rejection

end ScalarLang
