import ScalarLang.Function.Resolver
import ScalarLang.Grammar.Lexical
/-!
# Layout

The same tokens can be written in many ways: with other blanks and
comments around them, and reserved words and names of functions in another
case. The names of variables are different in another case.
-/

namespace ScalarLang

/-- A gap that keeps tokens apart: a blank, and any blanks and complete
comments after it. -/
inductive IsSeparator : List Char → Prop
  | intro {c : Char} {cs : List Char} (hc : Trivia.isBlank c = true) (hcs : IsTrivia cs) :
    IsSeparator (c :: cs)

variable {σ : Type}

/-- Names are looked up without regard to case. -/
def Resolver.IgnoresCase (r : Resolver σ) : Prop :=
  ∀ name name', Text.foldCase name = Text.foldCase name' →
    r.resolve? name = r.resolve? name' ∧ r.contains name = r.contains name'

section

variable (r : Resolver σ)

/-- The text is the token as it stands, or in another case if that makes no
difference. -/
inductive Token.SpelledAs (t : Token) : String → Prop
  | same : SpelledAs t t.text
  | keyword {k : Keyword} {text : String} (ht : t.kind = .keyword k)
    (htext : Text.foldCase text = Text.foldCase t.text) : SpelledAs t text
  | function {text : String} (ht : t.kind = .identifier)
    (hf : (r.resolve? t.text).isSome = true)
    (htext : Text.foldCase text = Text.foldCase t.text) : SpelledAs t text

/-- The text consists of the tokens, each after a separator, and of blanks and
complete comments behind the last one. -/
inductive LaidAfter : List Token → List Char → Prop
  | nil {back : List Char} (hback : IsTrivia back) : LaidAfter [] back
  | cons {t : Token} {ts : List Token} {gap rest : List Char} {text : String}
    (hgap : IsSeparator gap) (htext : t.SpelledAs r text) (hrest : LaidAfter ts rest) :
    LaidAfter (t :: ts) (gap ++ text.toList ++ rest)

/-- The text consists of the tokens with separators between them, and of blanks
and complete comments in front and behind. -/
inductive IsLayout : List Token → List Char → Prop
  | nil {cs : List Char} (hcs : IsTrivia cs) : IsLayout [] cs
  | cons {t : Token} {ts : List Token} {front rest : List Char} {text : String}
    (hfront : IsTrivia front) (htext : t.SpelledAs r text) (hrest : LaidAfter r ts rest) :
    IsLayout (t :: ts) (front ++ text.toList ++ rest)

end

end ScalarLang
