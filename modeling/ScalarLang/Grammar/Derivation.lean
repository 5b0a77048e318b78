import ScalarLang.Grammar.Tree
import ScalarLang.Parser.Phrase
/-!
# The grammar

Which tokens are a phrase or a statement, and of which tree. Phrases have
a level for each priority of binary operators, then one for operands with
unary operators before them, then one for operands without. A derivation
at one level is one at every lower level, and at most one of the two
operands of a binary operator is at its own level, which decides how
chains group.
-/

namespace ScalarLang

/-- A token of the given symbol. -/
def Token.IsSymbol (t : Token) (s : Symbol) : Prop := t.kind = .symbol s

/-- A token of the given reserved word. -/
def Token.IsKeyword (t : Token) (k : Keyword) : Prop := t.kind = .keyword k

/-! ## Phrases -/

/-- The level of operands that have no operator before them. -/
def Priority.operandLevel : Nat := Priority.unary.level + 1

section

variable {σ : Type} (d : Dialect σ)

mutual

/-- The tokens are a phrase of a level with the given tree. -/
inductive PhraseOf : Nat → List Token → Phrase σ → Prop
  | literal {t : Token} {v : Value} (ht : t.kind.literal? = some v) :
    PhraseOf Priority.operandLevel [t] (.literal v)
  | variable {t : Token} (ht : t.kind = .identifier) (hname : d.resolver.resolve? t.text = none) :
    PhraseOf Priority.operandLevel [t] (.variable t.text)
  | parenthesised {l r : Token} {ts : List Token} {p : Phrase σ} (hl : l.IsSymbol .leftParen)
    (hp : PhraseOf 0 ts p) (hr : r.IsSymbol .rightParen) :
    PhraseOf Priority.operandLevel (l :: ts ++ [r]) p
  | call {t l r : Token} {f : NativeFunction σ} {ts : List Token} {ps : List (Phrase σ)}
    (ht : t.kind = .identifier) (hf : d.resolver.resolve? t.text = some f)
    (hl : l.IsSymbol .leftParen) (hps : ArgumentsOf f.arity ts ps) (hr : r.IsSymbol .rightParen) :
    PhraseOf Priority.operandLevel (t :: l :: ts ++ [r]) (.call f ps)
  | unary {t : Token} {op : UnaryOp} {ts : List Token} {p : Phrase σ}
    (ht : t.kind.unaryOp? = some op) (hp : PhraseOf Priority.unary.level ts p) :
    PhraseOf Priority.unary.level (t :: ts) (.unary op p)
  | leftGrouped {t : Token} {op : BinaryOp} {ts us : List Token} {p q : Phrase σ}
    (ht : t.kind.binaryOp? = some op) (hop : d.rightAssoc op = false)
    (hp : PhraseOf op.priority.level ts p) (hq : PhraseOf (op.priority.level + 1) us q) :
    PhraseOf op.priority.level (ts ++ t :: us) (.binary op p q)
  | rightGrouped {t : Token} {op : BinaryOp} {ts us : List Token} {p q : Phrase σ}
    (ht : t.kind.binaryOp? = some op) (hop : d.rightAssoc op = true)
    (hp : PhraseOf (op.priority.level + 1) ts p) (hq : PhraseOf op.priority.level us q) :
    PhraseOf op.priority.level (ts ++ t :: us) (.binary op p q)
  | lower {level : Nat} {ts : List Token} {p : Phrase σ} (hp : PhraseOf (level + 1) ts p) :
    PhraseOf level ts p

/-- The tokens are the given number of phrases with commas between them. -/
inductive ArgumentsOf : Nat → List Token → List (Phrase σ) → Prop
  | none : ArgumentsOf 0 [] []
  | one {ts : List Token} {p : Phrase σ} (hp : PhraseOf 0 ts p) : ArgumentsOf 1 ts [p]
  | more {n : Nat} {c : Token} {ts us : List Token} {p : Phrase σ} {ps : List (Phrase σ)}
    (hp : PhraseOf 0 ts p) (hc : c.IsSymbol .comma) (hps : ArgumentsOf (n + 1) us ps) :
    ArgumentsOf (n + 2) (ts ++ c :: us) (p :: ps)

end

/-! ## Statements -/

mutual

/-- The tokens are a statement with the given tree. The flag tells whether
an `else` after it would belong to a conditional within it, so that the
block between `if` and `else` must not have it. -/
inductive StatementOf : Bool → List Token → Statement σ → Prop
  | return {t e : Token} {ts : List Token} {p : Phrase σ} (ht : t.IsKeyword .return)
    (hp : PhraseOf d 0 ts p) (he : e.IsSymbol .semicolon) :
    StatementOf false (t :: ts ++ [e]) (.return p)
  | assign {t a e : Token} {ts : List Token} {p : Phrase σ} (ht : t.kind = .identifier)
    (hname : d.resolver.contains t.text = false) (ha : a.IsSymbol .assign)
    (hp : PhraseOf d 0 ts p) (he : e.IsSymbol .semicolon) :
    StatementOf false (t :: a :: ts ++ [e]) (.assign t.text p)
  | ifThen {t l r : Token} {ts us : List Token} {p : Phrase σ} {ss : List (Statement σ)}
    {dangling : Bool} (ht : t.IsKeyword .if) (hl : l.IsSymbol .leftParen)
    (hp : PhraseOf d 0 ts p) (hr : r.IsSymbol .rightParen) (hss : BlockOf dangling us ss) :
    StatementOf true (t :: l :: ts ++ r :: us) (.conditional p ss none)
  | ifThenElse {t l r e : Token} {ts us vs : List Token} {p : Phrase σ}
    {ss fs : List (Statement σ)} {dangling : Bool} (ht : t.IsKeyword .if)
    (hl : l.IsSymbol .leftParen) (hp : PhraseOf d 0 ts p) (hr : r.IsSymbol .rightParen)
    (hss : BlockOf false us ss) (he : e.IsKeyword .else) (hfs : BlockOf dangling vs fs) :
    StatementOf dangling (t :: l :: ts ++ r :: us ++ e :: vs) (.conditional p ss (some fs))

/-- The tokens are a block: a statement, or statements between braces. -/
inductive BlockOf : Bool → List Token → List (Statement σ) → Prop
  | single {dangling : Bool} {ts : List Token} {s : Statement σ} (hs : StatementOf dangling ts s) :
    BlockOf dangling ts [s]
  | braced {l r : Token} {ts : List Token} {ss : List (Statement σ)} (hl : l.IsSymbol .leftBrace)
    (hss : StatementsOf ts ss) (hr : r.IsSymbol .rightBrace) :
    BlockOf false (l :: ts ++ [r]) ss

/-- The tokens are statements, one after the other. -/
inductive StatementsOf : List Token → List (Statement σ) → Prop
  | nil : StatementsOf [] []
  | cons {dangling : Bool} {ts us : List Token} {s : Statement σ} {ss : List (Statement σ)}
    (hs : StatementOf dangling ts s) (hss : StatementsOf us ss) :
    StatementsOf (ts ++ us) (s :: ss)

end

/-- The tokens are a program: statements, or one list of them between
braces. -/
inductive ProgramOf : List Token → List (Statement σ) → Prop
  | bare {ts : List Token} {ss : List (Statement σ)} (hss : StatementsOf d ts ss) :
    ProgramOf ts ss
  | braced {l r : Token} {ts : List Token} {ss : List (Statement σ)} (hl : l.IsSymbol .leftBrace)
    (hss : StatementsOf d ts ss) (hr : r.IsSymbol .rightBrace) :
    ProgramOf (l :: ts ++ [r]) ss

end

end ScalarLang
