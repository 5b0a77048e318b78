import ScalarLang.Binary64.Decimal
import ScalarLang.Source.Position
import ScalarLang.Text.Casing
/-!
# Tokens

The tokens of the language are reserved words, identifiers, numbers and
thirty symbols. A token keeps the piece of source text it was read from
and where that piece starts.
-/

namespace ScalarLang

/-- Reserved words; they are recognised in any case. -/
inductive Keyword where
  | true
  | false
  | infinity
  | nan
  | if
  | else
  | return
  deriving DecidableEq

namespace Keyword

def all : List Keyword := [.true, .false, .infinity, .nan, .if, .else, .return]

/-- The lower-case spelling. -/
def spelling : Keyword → String
  | .true => "true"
  | .false => "false"
  | .infinity => "infinity"
  | .nan => "nan"
  | .if => "if"
  | .else => "else"
  | .return => "return"

/-- The reserved word a word is, in whatever case it is written. -/
def ofWord? (word : String) : Option Keyword :=
  all.find? fun k => Text.sameFolded k.spelling word

end Keyword

/-- Punctuation and operator signs, named for how they look: a sign means
different things in different places. -/
inductive Symbol where
  | leftParen
  | rightParen
  | leftBrace
  | rightBrace
  | comma
  | semicolon
  | assign
  | plus
  | minus
  | star
  | slash
  | percent
  | amp
  | ampAmp
  | pipe
  | pipePipe
  | caret
  | bang
  | tilde
  | lessLess
  | greaterGreater
  | greaterGreaterGreater
  | less
  | lessEqual
  | greater
  | greaterEqual
  | equalEqual
  | equalEqualEqual
  | bangEqual
  | bangEqualEqual
  deriving DecidableEq

namespace Symbol

/-- All symbols, longer ones first, so that the first one that begins a
text is the longest. -/
def all : List Symbol :=
  [.greaterGreaterGreater, .equalEqualEqual, .bangEqualEqual,
   .ampAmp, .pipePipe, .lessLess, .greaterGreater, .lessEqual, .greaterEqual, .equalEqual,
   .bangEqual,
   .leftParen, .rightParen, .leftBrace, .rightBrace, .comma, .semicolon, .assign, .plus, .minus,
   .star, .slash, .percent, .amp, .pipe, .caret, .bang, .tilde, .less, .greater]

/-- The characters of a symbol. -/
def spelling : Symbol → String
  | .leftParen => "("
  | .rightParen => ")"
  | .leftBrace => "\x7b"
  | .rightBrace => "\x7d"
  | .comma => ","
  | .semicolon => ";"
  | .assign => "="
  | .plus => "+"
  | .minus => "-"
  | .star => "*"
  | .slash => "/"
  | .percent => "%"
  | .amp => "&"
  | .ampAmp => "&&"
  | .pipe => "|"
  | .pipePipe => "||"
  | .caret => "^"
  | .bang => "!"
  | .tilde => "~"
  | .lessLess => "<<"
  | .greaterGreater => ">>"
  | .greaterGreaterGreater => ">>>"
  | .less => "<"
  | .lessEqual => "<="
  | .greater => ">"
  | .greaterEqual => ">="
  | .equalEqual => "=="
  | .equalEqualEqual => "==="
  | .bangEqual => "!="
  | .bangEqualEqual => "!=="

end Symbol

/-- What a numeric literal denotes. -/
inductive NumberLiteral where
  | integer (n : Int64)
  | float (x : Binary64)
  deriving DecidableEq

/-- How floats are written: positionally from 0.0001 up to 10¹⁶, and with
a decimal exponent outside that range. -/
def floatLayout : Binary64.Layout where
  firstPositional := -4
  lastPositional := 15
  nan := "NaN"
  infinity := "inf"
  negativeInfinity := "-inf"

/-- The number as text. -/
def NumberLiteral.text : NumberLiteral → String
  | .integer n => toString n.toInt
  | .float x => x.textWith floatLayout

/-- What a token is, apart from how and where it was written. -/
inductive TokenKind where
  | keyword (k : Keyword)
  | identifier
  | number (n : NumberLiteral)
  | symbol (s : Symbol)
  deriving DecidableEq

/-- How messages name a kind of token. -/
def TokenKind.describe : TokenKind → String
  | .keyword k => "`" ++ k.spelling ++ "`"
  | .identifier => "identifier"
  | .number _ => "number"
  | .symbol s => "`" ++ s.spelling ++ "`"

/-- A token: its kind, the source text it covers and where that starts. -/
structure Token where
  kind : TokenKind
  text : String
  position : Position
  deriving DecidableEq

namespace Token

/-- The line and column at which a token starts. -/
def location (t : Token) : Location := t.position.location

/-- Two tokens cover the same text at the same byte offset. -/
def sameSpan (t u : Token) : Bool :=
  t.position.offset == u.position.offset && t.text == u.text

/-- Two tokens are of the same kind and cover the same text at the same
byte offset. -/
def same (t u : Token) : Bool := t.sameSpan u && t.kind == u.kind

end Token

end ScalarLang
