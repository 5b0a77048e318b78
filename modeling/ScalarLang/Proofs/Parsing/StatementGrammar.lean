import ScalarLang.Proofs.Parsing.StatementCompleteness
import ScalarLang.Proofs.Parsing.StatementNodes
import ScalarLang.Proofs.Parsing.StatementSoundness
/-!
# The statement parser is the statement grammar

What is accepted as a program is exactly what the grammar derives, and
what is emitted are the nodes of the statements of its one derivation.

The grammar gives an `else` to the nearest `if` that can take it. Without
that rule (`IsProgram`) the same tokens are programs, so the rule rejects
none: an `else` that is given to an `if` further out can be given to the
nearest one instead (`StatementOf.addElse`).
-/

namespace ScalarLang

variable {σ : Type}

/-! ## The grammar without the rule for `else` -/

section

variable (d : Dialect σ)

mutual

/-- The tokens are a statement, whichever `if` an `else` in it belongs to. -/
inductive IsStatement : List Token → Prop
  | return {t e : Token} {ts : List Token} {p : Phrase σ} (ht : t.IsKeyword .return)
    (hp : PhraseOf d 0 ts p) (he : e.IsSymbol .semicolon) : IsStatement (t :: ts ++ [e])
  | assign {t a e : Token} {ts : List Token} {p : Phrase σ} (ht : t.kind = .identifier)
    (hname : d.resolver.contains t.text = false) (ha : a.IsSymbol .assign)
    (hp : PhraseOf d 0 ts p) (he : e.IsSymbol .semicolon) : IsStatement (t :: a :: ts ++ [e])
  | ifThen {t l r : Token} {ts us : List Token} {p : Phrase σ} (ht : t.IsKeyword .if)
    (hl : l.IsSymbol .leftParen) (hp : PhraseOf d 0 ts p) (hr : r.IsSymbol .rightParen)
    (hus : IsBlock us) : IsStatement (t :: l :: ts ++ r :: us)
  | ifThenElse {t l r e : Token} {ts us vs : List Token} {p : Phrase σ} (ht : t.IsKeyword .if)
    (hl : l.IsSymbol .leftParen) (hp : PhraseOf d 0 ts p) (hr : r.IsSymbol .rightParen)
    (hus : IsBlock us) (he : e.IsKeyword .else) (hvs : IsBlock vs) :
    IsStatement (t :: l :: ts ++ r :: us ++ e :: vs)

/-- The tokens are a block: a statement, or statements between braces. -/
inductive IsBlock : List Token → Prop
  | single {ts : List Token} (hts : IsStatement ts) : IsBlock ts
  | braced {l r : Token} {ts : List Token} (hl : l.IsSymbol .leftBrace) (hts : AreStatements ts)
    (hr : r.IsSymbol .rightBrace) : IsBlock (l :: ts ++ [r])

/-- The tokens are statements, one after the other. -/
inductive AreStatements : List Token → Prop
  | nil : AreStatements []
  | cons {ts us : List Token} (hts : IsStatement ts) (hus : AreStatements us) :
    AreStatements (ts ++ us)

end

/-- The tokens are a program: statements, or one list of them between
braces. -/
inductive IsProgram : List Token → Prop
  | bare {ts : List Token} (hts : AreStatements d ts) : IsProgram ts
  | braced {l r : Token} {ts : List Token} (hl : l.IsSymbol .leftBrace)
    (hts : AreStatements d ts) (hr : r.IsSymbol .rightBrace) : IsProgram (l :: ts ++ [r])

end

variable {d : Dialect σ}

mutual

/-- A derived statement is one without the rule. -/
theorem StatementOf.isStatement {dangling : Bool} {ts : List Token} {s : Statement σ} :
    StatementOf d dangling ts s → IsStatement d ts
  | .return ht hp he => .return ht hp he
  | .assign ht hname ha hp he => .assign ht hname ha hp he
  | .ifThen ht hl hp hr hss => .ifThen ht hl hp hr hss.isBlock
  | .ifThenElse ht hl hp hr hss he hfs => .ifThenElse ht hl hp hr hss.isBlock he hfs.isBlock

/-- A derived block is one without the rule. -/
theorem BlockOf.isBlock {dangling : Bool} {ts : List Token} {ss : List (Statement σ)} :
    BlockOf d dangling ts ss → IsBlock d ts
  | .single hs => .single hs.isStatement
  | .braced hl hss hr => .braced hl hss.areStatements hr

/-- Derived statements are statements without the rule. -/
theorem StatementsOf.areStatements {ts : List Token} {ss : List (Statement σ)} :
    StatementsOf d ts ss → AreStatements d ts
  | .nil => .nil
  | .cons hs hss => .cons hs.isStatement hss.areStatements

end

/-- **An `else` finds its `if`**: a statement within which an `else` after it
belongs is a statement together with the `else` and its block. -/
theorem StatementOf.addElse {open' dangling : Bool} {ts vs : List Token} {s : Statement σ}
    {fs : List (Statement σ)} {e : Token} (h : StatementOf d open' ts s) (hopen : open' = true)
    (he : e.IsKeyword .else) (hfs : BlockOf d dangling vs fs) :
    ∃ dangling' s', StatementOf d dangling' (ts ++ e :: vs) s' := by
  induction h using StatementOf.rec
    (motive_2 := fun open' ts _ _ => open' = true →
      ∃ dangling' s', StatementOf d dangling' (ts ++ e :: vs) s')
    (motive_3 := fun _ _ _ => True) with
  | «return» => cases hopen
  | assign => cases hopen
  | @ifThen t l r ts us p ss inner ht hl hp hr hss ih =>
    cases inner with
    | false => exact ⟨_, _, .ifThenElse ht hl hp hr hss he hfs⟩
    | true =>
      -- the `else` belongs to an `if` within the block
      obtain ⟨_, s', hs'⟩ := ih rfl
      refine ⟨true, .conditional p [s'] none, ?_⟩
      simpa using StatementOf.ifThen ht hl hp hr (.single hs')
  | @ifThenElse t l r e' ts us vs' p ss fs' inner ht hl hp hr hss he' _ _ ih =>
    obtain ⟨inner', s', hs'⟩ := ih hopen
    refine ⟨inner', .conditional p ss (some [s']), ?_⟩
    simpa using StatementOf.ifThenElse ht hl hp hr hss he' (.single hs')
  | single _ ih =>
    rename_i hopen
    exact ih hopen
  | braced =>
    rename_i hopen
    cases hopen
  | nil => trivial
  | cons => trivial

/-- **The rule for `else` rejects no statements.** -/
theorem AreStatements.statementsOf {ts : List Token} (h : AreStatements d ts) :
    ∃ ss, StatementsOf d ts ss := by
  induction h using AreStatements.rec
    (motive_1 := fun ts _ => ∃ dangling s, StatementOf d dangling ts s)
    (motive_2 := fun ts _ => ∃ dangling ss, BlockOf d dangling ts ss) with
  | «return» ht hp he => exact ⟨_, _, .return ht hp he⟩
  | assign ht hname ha hp he => exact ⟨_, _, .assign ht hname ha hp he⟩
  | ifThen ht hl hp hr _ ih =>
    obtain ⟨_, ss, hss⟩ := ih
    exact ⟨_, _, .ifThen ht hl hp hr hss⟩
  | ifThenElse ht hl hp hr _ he _ ihs ihf =>
    obtain ⟨_, ss, hss⟩ := ihs
    obtain ⟨_, fs, hfs⟩ := ihf
    have hopen := StatementOf.ifThen ht hl hp hr hss
    exact hopen.addElse rfl he hfs
  | single _ ih =>
    obtain ⟨_, s, hs⟩ := ih
    exact ⟨_, _, .single hs⟩
  | braced hl _ hr ih =>
    obtain ⟨ss, hss⟩ := ih
    exact ⟨_, _, .braced hl hss hr⟩
  | nil => exact ⟨_, .nil⟩
  | cons _ _ ihs ihss =>
    obtain ⟨_, s, hs⟩ := ihs
    obtain ⟨ss, hss⟩ := ihss
    exact ⟨_, .cons hs hss⟩

/-- Programs are the same with the rule and without it. -/
theorem exists_programOf_iff {ts : List Token} : (∃ ss, ProgramOf d ts ss) ↔ IsProgram d ts := by
  constructor
  · rintro ⟨ss, hss | ⟨hl, hss, hr⟩⟩
    · exact .bare hss.areStatements
    · exact .braced hl hss.areStatements hr
  · rintro (hts | ⟨hl, hts, hr⟩)
    · obtain ⟨ss, hss⟩ := hts.statementsOf
      exact ⟨ss, .bare hss⟩
    · obtain ⟨ss, hss⟩ := hts.statementsOf
      exact ⟨ss, .braced hl hss hr⟩

/-! ## Programs -/

namespace Parser

/-- **The grammar of programs is unambiguous.** -/
theorem programOf_unique (hd : d.Uniform) {ts : List Token} {ss ss' : List (Statement σ)}
    (hss : ProgramOf d ts ss) (hss' : ProgramOf d ts ss') : ss = ss' := by
  have hnodes : Statement.allNodes ss = Statement.allNodes ss' := by
    have h := (topBlock_of_programOf hd hss).symm.trans (topBlock_of_programOf hd hss')
    injection h
  have hall : d.resolver.Mentions (fun _ => True) (fun _ => True) ts :=
    ⟨fun _ _ => trivial, fun _ _ _ _ => trivial⟩
  exact Statement.allNodes_injective (hss.over hall) (hss'.over hall) hnodes

/-- **The statement parser is the statement grammar.** It accepts the tokens
that the grammar derives, and emits the nodes of the statements of their
one derivation, one after the other. Without the rule for `else` the
grammar derives the same tokens. -/
theorem topBlock_iff_programOf (r : Resolver σ) (ts : List Token) (nodes : List (Node σ)) :
    (topBlock ⟨r, BinaryOp.isRightAssoc⟩ ts = .ok nodes ↔
      ∃ ss, ProgramOf ⟨r, BinaryOp.isRightAssoc⟩ ts ss ∧ nodes = Statement.allNodes ss) ∧
    (∀ ss ss', ProgramOf ⟨r, BinaryOp.isRightAssoc⟩ ts ss →
      ProgramOf ⟨r, BinaryOp.isRightAssoc⟩ ts ss' → ss = ss') ∧
    ((∃ ss, ProgramOf ⟨r, BinaryOp.isRightAssoc⟩ ts ss) ↔
      IsProgram ⟨r, BinaryOp.isRightAssoc⟩ ts) := by
  have hd : Dialect.Uniform ⟨r, BinaryOp.isRightAssoc⟩ := BinaryOp.uniform_isRightAssoc r
  refine ⟨⟨topBlock_sound hd, ?_⟩, fun ss ss' hss hss' => programOf_unique hd hss hss',
    exists_programOf_iff⟩
  rintro ⟨ss, hss, rfl⟩
  exact topBlock_of_programOf hd hss

/-- The program `if (a) if (b) return c; else x = c;`, of which the `else`
belongs to the second `if`. -/
theorem topBlock_iff_programOf_dangling :
    let word (text : String) : Token := ⟨.identifier, text, .start⟩
    let key (k : Keyword) : Token := ⟨.keyword k, k.spelling, .start⟩
    let sign (s : Symbol) : Token := ⟨.symbol s, s.spelling, .start⟩
    let ts := [key .if, sign .leftParen, word "a", sign .rightParen, key .if, sign .leftParen,
      word "b", sign .rightParen, key .return, word "c", sign .semicolon, key .else, word "x",
      sign .assign, word "c", sign .semicolon]
    let d : Dialect Unit := ⟨.empty, BinaryOp.isRightAssoc⟩
    let inner : Statement Unit := .conditional (.variable "b") [.return (.variable "c")]
      (some [.assign "x" (.variable "c")])
    let ss := [Statement.conditional (.variable "a") [inner] none]
    ProgramOf d ts ss ∧ topBlock d ts = .ok (Statement.allNodes ss) ∧
      ∀ ss', ProgramOf d ts ss' → ss' = ss := by
  intro word key sign ts d inner ss
  have operand (text : String) : PhraseOf d 0 [word text] (.variable text) :=
    PhraseOf.loosen (.variable (t := word text) rfl rfl) (Nat.zero_le _)
  have hreturn := StatementOf.return (t := key .return) (e := sign .semicolon) rfl (operand "c") rfl
  have hassign := StatementOf.assign (t := word "x") (a := sign .assign) (e := sign .semicolon)
    rfl rfl rfl (operand "c") rfl
  have hinner := StatementOf.ifThenElse (t := key .if) (l := sign .leftParen)
    (r := sign .rightParen) (e := key .else) rfl rfl (operand "b") rfl (.single hreturn) rfl
    (.single hassign)
  have houter := StatementOf.ifThen (t := key .if) (l := sign .leftParen)
    (r := sign .rightParen) rfl rfl (operand "a") rfl (.single hinner)
  have hss : ProgramOf d ts ss := .bare (.cons houter .nil)
  obtain ⟨haccepts, hunique, -⟩ :=
    topBlock_iff_programOf (.empty : Resolver Unit) ts (Statement.allNodes ss)
  exact ⟨hss, haccepts.mpr ⟨ss, hss, rfl⟩, fun ss' hss' => hunique ss' ss hss' hss⟩

end Parser

end ScalarLang
