import ScalarLang.Token.Lexeme
/-!
# The lexical grammar

What may stand between tokens, which texts are tokens of which kind, and
where no token can be read. The lexer looks at one character after the
other; here texts are described as they are written: a number is digits,
perhaps a fraction, perhaps an exponent. Of the texts that are tokens at
some place the longest one counts (`LongestLexeme`).
-/

namespace ScalarLang

/-! ## Between tokens -/

/-- Blanks and complete comments. A line comment ends with its line, a block
comment at the first end mark. -/
inductive IsTrivia : List Char → Prop
  | nil : IsTrivia []
  | blank {c : Char} {cs : List Char} (hc : Trivia.isBlank c = true) (hcs : IsTrivia cs) :
    IsTrivia (c :: cs)
  | line {line cs : List Char} (hline : '\n' ∉ line) (hcs : IsTrivia cs) :
    IsTrivia ('/' :: '/' :: line ++ '\n' :: cs)
  | block {body cs : List Char} (hbody : ¬ ['*', '/'] <:+: body) (hcs : IsTrivia cs) :
    IsTrivia ('/' :: '*' :: body ++ '*' :: '/' :: cs)

/-- What may follow the last token: there a line comment may also end with the
text. -/
inductive IsTail : List Char → Prop
  | trivia {cs : List Char} (hcs : IsTrivia cs) : IsTail cs
  | openLine {cs line : List Char} (hcs : IsTrivia cs) (hline : '\n' ∉ line) :
    IsTail (cs ++ '/' :: '/' :: line)

/-- The text starts with no blank and no complete comment; a line comment is
always complete. -/
structure StartsNoTrivia (cs : List Char) : Prop where
  blank : ∀ c ∈ cs.head?, Trivia.isBlank c = false
  line : ¬ ['/', '/'] <+: cs
  block : ∀ body, ¬ '/' :: '*' :: body ++ ['*', '/'] <+: cs

/-- What may be skipped of a text is `gap`, and `rest` is left. -/
inductive SkipsTo : List Char → List Char → Prop
  | place {gap rest : List Char} (hgap : IsTrivia gap) (hrest : StartsNoTrivia rest) :
    SkipsTo gap rest
  | tail {gap : List Char} (hgap : IsTail gap) : SkipsTo gap []

/-! ## Numbers -/

/-- One digit or more. -/
def IsDigits (cs : List Char) : Prop := cs ≠ [] ∧ ∀ c ∈ cs, c.isDigit = true

/-- Digits, perhaps with a point and digits after it. -/
inductive IsMantissa : List Char → Prop
  | whole {digits : List Char} (hdigits : IsDigits digits) : IsMantissa digits
  | fraction {digits places : List Char} (hdigits : IsDigits digits)
    (hplaces : ∀ c ∈ places, c.isDigit = true) : IsMantissa (digits ++ '.' :: places)

/-- The mark of an exponent. -/
def IsExponentMark (c : Char) : Prop := c = 'e' ∨ c = 'E'

/-- A mark, perhaps a sign, and digits. -/
inductive IsExponent : List Char → Prop
  | intro {mark : Char} {sign digits : List Char} (hmark : IsExponentMark mark)
    (hsign : sign = [] ∨ sign = ['+'] ∨ sign = ['-']) (hdigits : IsDigits digits) :
    IsExponent (mark :: sign ++ digits)

/-- One hexadecimal digit or more after `0x`. -/
inductive IsHexadecimal : List Char → Prop
  | intro {x : Char} {digits : List Char} (hx : x = 'x' ∨ x = 'X') (hne : digits ≠ [])
    (hdigits : ∀ c ∈ digits, Text.isHexDigit c = true) : IsHexadecimal ('0' :: x :: digits)

/-! ## Tokens -/

/-- A letter or an underscore, and any letters, digits and underscores. -/
inductive IsWord : List Char → Prop
  | intro {c : Char} {cs : List Char} (hc : Lexeme.isWordStart c = true)
    (hcs : ∀ d ∈ cs, Lexeme.isWordChar d = true) : IsWord (c :: cs)

/-- The text is one token of the kind. A word is a reserved word if it is one
in some case, and a number is a float if it has a fraction or an exponent;
which number it denotes is left open. -/
inductive LexemeOf : TokenKind → List Char → Prop
  | symbol (s : Symbol) : LexemeOf (.symbol s) s.spelling.toList
  | keyword {k : Keyword} {text : List Char} (hword : IsWord text)
    (hk : Text.sameFolded k.spelling (String.ofList text) = true) : LexemeOf (.keyword k) text
  | identifier {text : List Char} (hword : IsWord text)
    (hk : ∀ k : Keyword, Text.sameFolded k.spelling (String.ofList text) = false) :
    LexemeOf .identifier text
  | integer {n : Int64} {digits : List Char} (hdigits : IsDigits digits) :
    LexemeOf (.number (.integer n)) digits
  | hexadecimal {n : Int64} {text : List Char} (htext : IsHexadecimal text) :
    LexemeOf (.number (.integer n)) text
  | fraction {x : Binary64} {digits places : List Char} (hdigits : IsDigits digits)
    (hplaces : ∀ c ∈ places, c.isDigit = true) :
    LexemeOf (.number (.float x)) (digits ++ '.' :: places)
  | exponent {x : Binary64} {mantissa exponent : List Char} (hmantissa : IsMantissa mantissa)
    (hexponent : IsExponent exponent) : LexemeOf (.number (.float x)) (mantissa ++ exponent)

/-- The text is the longest one at the front of `cs` that is a token, and one
of the kind. -/
structure LongestLexeme (cs : List Char) (kind : TokenKind) (text : List Char) : Prop where
  lexeme : LexemeOf kind text
  atFront : text <+: cs
  longest : ∀ kind' text', LexemeOf kind' text' → text' <+: cs → text'.length ≤ text.length

/-! ## Faults -/

/-- Why no token can be read at the front of a text. -/
inductive FaultAt : LexCause → List Char → Prop
  | unfinishedComment {body : List Char} (hbody : ¬ ['*', '/'] <:+: body) :
    FaultAt .unfinishedComment ('/' :: '*' :: body)
  | nonAscii {c : Char} {cs : List Char} (hc : 128 ≤ c.toNat) : FaultAt .nonAscii (c :: cs)
  /-- No hexadecimal digit follows `0x`. -/
  | noHexDigit {x : Char} {cs : List Char} (hx : x = 'x' ∨ x = 'X')
    (hcs : ∀ c ∈ cs.head?, Text.isHexDigit c = false) : FaultAt .malformedNumber ('0' :: x :: cs)
  /-- A mantissa is followed by the mark of an exponent, but by no exponent. -/
  | noExponent {mantissa cs : List Char} {mark : Char} (hmantissa : IsMantissa mantissa)
    (hmark : IsExponentMark mark) (hcs : ∀ e, IsExponent e → ¬ e <+: mark :: cs) :
    FaultAt .malformedNumber (mantissa ++ mark :: cs)
  /-- Digits that are a whole number are too many. -/
  | tooLarge {digits cs : List Char} (hdigits : IsDigits digits)
    (hcs : ∀ c ∈ cs.head?, c.isDigit = false ∧ c ≠ '.' ∧ ¬ IsExponentMark c)
    (hvalue : 0x7fffffffffffffff < Text.digitsValue 10 digits) :
    FaultAt .literalTooLarge (digits ++ cs)
  | hexTooLarge {x : Char} {digits cs : List Char} (hx : x = 'x' ∨ x = 'X')
    (hdigits : ∀ c ∈ digits, Text.isHexDigit c = true)
    (hcs : ∀ c ∈ cs.head?, Text.isHexDigit c = false)
    (hvalue : 0xffffffffffffffff < Text.digitsValue 16 digits) :
    FaultAt .literalTooLarge ('0' :: x :: digits ++ cs)
  | unexpectedChar {c : Char} {cs : List Char} (hc : c.toNat < 128)
    (hnone : ∀ kind text, LexemeOf kind text → ¬ text <+: c :: cs) :
    FaultAt .unexpectedChar (c :: cs)

end ScalarLang
