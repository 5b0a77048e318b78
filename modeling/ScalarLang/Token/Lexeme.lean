import ScalarLang.Token.Basic
/-!
# Lexemes

How one token is read off the front of a text (`Lexeme.scan`), and what
may stand between tokens (`Trivia.scan`). Both look at the text alone:
a lexeme is the characters it covers with their meaning, and a fault
names the characters it concerns and those before them.
-/

namespace ScalarLang

/-- Why a text cannot be split into tokens. -/
inductive LexCause where
  /-- A character outside ASCII where a token should start. -/
  | nonAscii
  /-- An integer literal beyond 64 bits. -/
  | literalTooLarge
  /-- A character that starts no token. -/
  | unexpectedChar
  /-- A block comment without its end. -/
  | unfinishedComment
  /-- A number that breaks off where a digit has to follow. -/
  | malformedNumber
  deriving DecidableEq

namespace LexCause

/-- What is wrong with a literal that is too large. -/
def tooLarge : String := "number too large to fit in target type"

/-- The message of a cause. -/
def message : LexCause → String
  | .nonAscii => "Non-ASCII inputs are not supported"
  | .literalTooLarge => "Invalid literal: " ++ tooLarge
  | .unexpectedChar => "Unexpected character"
  | .unfinishedComment => "Unfinished block comment"
  | .malformedNumber => "Cannot tokenize sequence"

end LexCause

/-- A failure to read from the front of a text: the characters before the
place of failure, and the characters the failure concerns. -/
structure LexFault where
  cause : LexCause
  before : List Char
  text : List Char
  deriving DecidableEq

namespace Trivia

/-- The characters that separate tokens: space, tab, line feed, carriage
return and form feed. -/
def isBlank (c : Char) : Bool :=
  c == ' ' || c == '\t' || c == '\n' || c == '\r' || c == '\x0c'

/-- The rest of a block comment up to and including the first end mark. -/
def commentRest? : List Char → Option (List Char)
  | '*' :: '/' :: _ => some ['*', '/']
  | c :: cs => (commentRest? cs).map (c :: ·)
  | [] => none

/-- Puts more text in front of what was skipped or went wrong. -/
def after (skipped : List Char) : Except LexFault (List Char) → Except LexFault (List Char)
  | .ok more => .ok (skipped ++ more)
  | .error fault => .error { fault with before := skipped ++ fault.before }

/-- The longest run of blanks and comments at the front of a text. A line
comment ends before the line feed. -/
def scan : List Char → Except LexFault (List Char)
  | '/' :: '/' :: cs =>
    let line := cs.takeWhile (· ≠ '\n')
    after ('/' :: '/' :: line) (scan (cs.drop line.length))
  | '/' :: '*' :: cs =>
    match commentRest? cs with
    | some rest => after ('/' :: '*' :: rest) (scan (cs.drop rest.length))
    | none => .error ⟨.unfinishedComment, ['/', '*'], cs.take 1⟩
  | c :: cs => if isBlank c then after [c] (scan cs) else .ok []
  | [] => .ok []
termination_by cs => cs.length
decreasing_by all_goals simp only [List.length_cons, List.length_drop]; omega

end Trivia

/-- The characters of one token and what they are. -/
structure Lexeme where
  kind : TokenKind
  text : List Char
  deriving DecidableEq

namespace Lexeme

/-! ## Numbers -/

/-- A hexadecimal number after its `0x`. The upper half of the 64-bit
range denotes negative numbers. -/
def scanHexadecimal (x : Char) (cs : List Char) : Except LexFault Lexeme :=
  let digits := cs.takeWhile Text.isHexDigit
  let value := Text.digitsValue 16 digits
  if digits.isEmpty then .error ⟨.malformedNumber, ['0', x], cs.take 1⟩
  else if value ≤ 0xffffffffffffffff then
    .ok ⟨.number (.integer (UInt64.ofNat value).toInt64), '0' :: x :: digits⟩
  else .error ⟨.literalTooLarge, ['0', x], digits⟩

/-- The fractional part at the front of a text: a point and any digits
after it, or nothing. -/
def fractionText : List Char → List Char
  | '.' :: cs => '.' :: cs.takeWhile Char.isDigit
  | _ => []

/-- The parts of a decimal exponent. -/
structure Exponent where
  mark : Char
  sign : List Char
  digits : List Char

namespace Exponent

/-- The characters of an exponent. -/
def text (e : Exponent) : List Char := e.mark :: e.sign ++ e.digits

/-- The exponent as a number. -/
def value (e : Exponent) : Int :=
  let n : Int := Text.digitsValue 10 e.digits
  if e.sign = ['-'] then -n else n

/-- The exponent at the front of a text, with possibly no digits; nothing
if there is no exponent mark. -/
def scan? : List Char → Option Exponent
  | mark :: cs =>
    if mark = 'e' ∨ mark = 'E' then
      let sign := (cs.take 1).filter fun c => c = '+' || c = '-'
      some ⟨mark, sign, (cs.drop sign.length).takeWhile Char.isDigit⟩
    else none
  | [] => none

end Exponent

/-- A decimal number: an integer without fraction and exponent, a float
with either. An exponent mark has to be followed by a digit, perhaps
after a sign. -/
def scanDecimal (cs : List Char) : Except LexFault Lexeme :=
  let whole := cs.takeWhile Char.isDigit
  let fraction := fractionText (cs.drop whole.length)
  let mantissa := whole ++ fraction
  let float (exponent : Int) : TokenKind :=
    let places := fraction.drop 1
    .number (.float
      (.ofDecimal (Text.digitsValue 10 (whole ++ places)) (exponent - places.length)))
  match Exponent.scan? (cs.drop mantissa.length) with
  | some e =>
    if e.digits.isEmpty then
      let before := mantissa ++ e.text
      .error ⟨.malformedNumber, before, (cs.drop before.length).take 1⟩
    else .ok ⟨float e.value, mantissa ++ e.text⟩
  | none =>
    if fraction.isEmpty then
      let value := Text.digitsValue 10 whole
      if value ≤ 0x7fffffffffffffff then .ok ⟨.number (.integer (Int64.ofNat value)), whole⟩
      else .error ⟨.literalTooLarge, [], whole⟩
    else .ok ⟨float 0, mantissa⟩

/-- A number, from its first digit on. -/
def scanNumber : List Char → Except LexFault Lexeme
  | '0' :: x :: cs =>
    if x = 'x' ∨ x = 'X' then scanHexadecimal x cs else scanDecimal ('0' :: x :: cs)
  | cs => scanDecimal cs

/-! ## Words and symbols -/

/-- A character that may start an identifier. -/
def isWordStart (c : Char) : Bool := c.isAlpha || c == '_'

/-- A character that may continue an identifier. -/
def isWordChar (c : Char) : Bool := c.isAlphanum || c == '_'

/-- An identifier or a reserved word. -/
def scanWord (cs : List Char) : Lexeme :=
  let word := cs.takeWhile isWordChar
  match Keyword.ofWord? (String.ofList word) with
  | some k => ⟨.keyword k, word⟩
  | none => ⟨.identifier, word⟩

/-- The longest symbol at the front of a text. -/
def scanSymbol? (cs : List Char) : Option Lexeme :=
  (Symbol.all.find? fun s => s.spelling.toList.isPrefixOf cs).map fun s =>
    ⟨.symbol s, s.spelling.toList⟩

/-- The token at the front of the text `c :: cs`. -/
def scan (c : Char) (cs : List Char) : Except LexFault Lexeme :=
  if 128 ≤ c.toNat then .error ⟨.nonAscii, [], [c]⟩
  else if c.isDigit then scanNumber (c :: cs)
  else if isWordStart c then .ok (scanWord (c :: cs))
  else
    match scanSymbol? (c :: cs) with
    | some l => .ok l
    | none => .error ⟨.unexpectedChar, [], [c]⟩

end Lexeme

end ScalarLang
