import ScalarLang.Grammar.OpenCalls
import ScalarLang.Proofs.Parsing.FirstFault
import ScalarLang.Proofs.Parsing.Sources
/-!
# What is read as a whole

Phrases and statements leave no call open and close no parenthesis but
their own (`Settles`), so the calls that are open after them are the ones
that were open before. This is said of tokens, and carried over the ways
in which derivations put them together.
-/

namespace ScalarLang

variable {σ : Type} {r : Resolver σ} {b b' b'' : Bool} {t : Token} {ts us : List Token}

/-! ## Tokens -/

/-- After an operator an operand is expected. -/
theorem Token.asksOperand_of_operator (ht : t.kind.unaryOp?.isSome ∨ t.kind.binaryOp?.isSome) :
    t.asksOperand = true := by
  unfold asksOperand
  split
  all_goals first | rfl | simpa using ht

/-- After a literal no operand is expected. -/
theorem Token.asksOperand_of_literal? {v : Value} (ht : t.kind.literal? = some v) :
    t.asksOperand = false := by
  obtain ⟨kind, text, position⟩ := t
  simp only at ht
  unfold asksOperand
  cases kind with
  | symbol s => cases ht
  | identifier => cases ht
  | keyword k => cases k <;> first | rfl | cases ht
  | number n => rfl

namespace Resolver

/-- Only identifiers call functions. -/
theorem called?_of_ne (h : t.kind ≠ .identifier) : r.called? b t = none := by
  simp [called?, h]

/-- An identifier calls the function that it resolves to. -/
theorem called?_identifier (h : t.kind = .identifier) :
    r.called? true t = r.resolve? t.text := by
  simp [called?, h]

end Resolver

/-! ## Settled tokens -/

/-- The token is no parenthesis. -/
def Token.NoParenthesis (t : Token) : Prop := ¬ t.IsSymbol .leftParen ∧ ¬ t.IsSymbol .rightParen

theorem closesOuter_cons (ht : t.NoParenthesis) (depth : Nat) :
    closesOuter depth (t :: ts) = closesOuter depth ts := by
  simp only [Token.NoParenthesis, Token.IsSymbol] at ht
  simp [closesOuter, ht]

theorem closesOuter_leftParen (ht : t.IsSymbol .leftParen) (depth : Nat) :
    closesOuter depth (t :: ts) = closesOuter (depth + 1) ts := by
  simp only [Token.IsSymbol] at ht
  simp [closesOuter, ht]

theorem closesOuter_rightParen (ht : t.IsSymbol .rightParen) (depth : Nat) :
    closesOuter depth (t :: ts) = (depth == 0 || closesOuter (depth - 1) ts) := by
  simp only [Token.IsSymbol] at ht
  simp [closesOuter, ht]

/-- A token that calls nothing has no call to be finished. -/
theorem openCalls_cons (ht : r.called? b t = none) :
    openCalls r b (t :: ts) = openCalls r t.asksOperand ts := by
  rw [openCalls, ht]

/-- A name whose parenthesis is not closed is that of an open call. -/
theorem openCalls_name {f : NativeFunction σ} (ht : t.kind = .identifier)
    (hf : r.resolve? t.text = some f) (hopen : closesOuter 0 ts.tail = false) :
    openCalls r true (t :: ts) = ⟨f.name, t⟩ :: openCalls r t.asksOperand ts := by
  simp [openCalls, Resolver.called?_identifier ht, hf, hopen]

/-- After a parenthesis that opens, an operand is expected. -/
theorem openCalls_leftParen (ht : t.IsSymbol .leftParen) :
    openCalls r b (t :: ts) = openCalls r true ts := by
  have hkind : t.kind = .symbol .leftParen := ht
  have hasks : t.asksOperand = true := by rw [Token.asksOperand, hkind]
  rw [openCalls_cons (Resolver.called?_of_ne (by simp [hkind])), hasks]

/-- After one that closes, none is. -/
theorem openCalls_rightParen (ht : t.IsSymbol .rightParen) :
    openCalls r b (t :: ts) = openCalls r false ts := by
  have hkind : t.kind = .symbol .rightParen := ht
  have hasks : t.asksOperand = false := by
    rw [Token.asksOperand, hkind]
    rfl
  rw [openCalls_cons (Resolver.called?_of_ne (by simp [hkind])), hasks]

/-- **The tokens are settled**: from where an operand is expected or not to
where one is expected or not, they leave no call open, and of the
parentheses they close only their own. -/
structure Settles (r : Resolver σ) (b : Bool) (ts : List Token) (b' : Bool) : Prop where
  calls : ∀ more, openCalls r b (ts ++ more) = openCalls r b' more
  closes : ∀ depth more, closesOuter depth (ts ++ more) = closesOuter depth more

namespace Settles

theorem nil : Settles r b [] b := ⟨fun _ => rfl, fun _ _ => rfl⟩

theorem append (hts : Settles r b ts b') (hus : Settles r b' us b'') :
    Settles r b (ts ++ us) b'' where
  calls more := by rw [List.append_assoc, hts.calls, hus.calls]
  closes depth more := by rw [List.append_assoc, hts.closes, hus.closes]

/-- A token that is no parenthesis and calls nothing. -/
theorem token (ht : t.NoParenthesis) (hcalled : r.called? b t = none) :
    Settles r b [t] t.asksOperand where
  calls _ := openCalls_cons hcalled
  closes depth _ := closesOuter_cons ht depth

/-- A token that is known to be neither a parenthesis nor an identifier. -/
theorem kind {p : TokenKind → Prop} (ht : p t.kind) (hl : ¬ p (.symbol .leftParen))
    (hr : ¬ p (.symbol .rightParen)) (hid : ¬ p .identifier) : Settles r b [t] t.asksOperand := by
  refine token ⟨fun h => hl ?_, fun h => hr ?_⟩ (Resolver.called?_of_ne fun h => hid (h ▸ ht))
  · exact (show t.kind = _ from h) ▸ ht
  · exact (show t.kind = _ from h) ▸ ht

theorem symbol {s : Symbol} (ht : t.IsSymbol s) (hl : s ≠ .leftParen) (hr : s ≠ .rightParen) :
    Settles r b [t] (Token.ofSymbol s).asksOperand := by
  have hasks : t.asksOperand = (Token.ofSymbol s).asksOperand := by
    rw [Token.asksOperand, show t.kind = .symbol s from ht]
    rfl
  exact hasks ▸ kind (p := (· = .symbol s)) ht (by simpa using hl.symm) (by simpa using hr.symm)
    (by simp)

theorem keyword {k : Keyword} (ht : t.IsKeyword k) :
    Settles r b [t] (Token.ofKeyword k).asksOperand := by
  have hasks : t.asksOperand = (Token.ofKeyword k).asksOperand := by
    rw [Token.asksOperand, show t.kind = .keyword k from ht]
    rfl
  exact hasks ▸ kind (p := (· = .keyword k)) ht (by simp) (by simp) (by simp)

theorem literal {v : Value} (ht : t.kind.literal? = some v) : Settles r b [t] false :=
  Token.asksOperand_of_literal? ht ▸
    kind (p := (·.literal? = some v)) ht (by rintro ⟨⟩) (by rintro ⟨⟩) (by rintro ⟨⟩)

theorem unary {op : UnaryOp} (ht : t.kind.unaryOp? = some op) : Settles r b [t] true :=
  Token.asksOperand_of_operator (.inl (Option.isSome_of_eq_some ht)) ▸
    kind (p := (·.unaryOp? = some op)) ht (by rintro ⟨⟩) (by rintro ⟨⟩) (by rintro ⟨⟩)

theorem binary {op : BinaryOp} (ht : t.kind.binaryOp? = some op) : Settles r b [t] true :=
  Token.asksOperand_of_operator (.inr (Option.isSome_of_eq_some ht)) ▸
    kind (p := (·.binaryOp? = some op)) ht (by rintro ⟨⟩) (by rintro ⟨⟩) (by rintro ⟨⟩)

/-- An identifier that calls nothing. -/
theorem identifier (ht : t.kind = .identifier) (hcalled : r.called? b t = none) :
    Settles r b [t] false := by
  have hasks : t.asksOperand = false := by
    rw [Token.asksOperand, ht]
    rfl
  rw [← hasks]
  exact token (by simp [Token.NoParenthesis, Token.IsSymbol, ht]) hcalled

/-- Parentheses around what is settled. -/
theorem parenthesised {l e : Token} (hl : l.IsSymbol .leftParen) (hts : Settles r true ts b')
    (he : e.IsSymbol .rightParen) : Settles r b (l :: ts ++ [e]) false where
  calls more := by
    simp only [List.cons_append, List.append_assoc, List.nil_append]
    rw [openCalls_leftParen hl, hts.calls, openCalls_rightParen he]
  closes depth more := by
    simp only [List.cons_append, List.append_assoc, List.nil_append]
    rw [closesOuter_leftParen hl, hts.closes, closesOuter_rightParen he]
    rfl

/-- A call with its arguments. -/
theorem call {l e : Token} (ht : t.kind = .identifier) (hl : l.IsSymbol .leftParen)
    (hts : Settles r true ts b') (he : e.IsSymbol .rightParen) :
    Settles r true (t :: l :: ts ++ [e]) false where
  calls more := by
    have hclosed : closesOuter 0 (l :: ts ++ [e] ++ more).tail = true := by
      simp only [List.cons_append, List.append_assoc, List.nil_append, List.tail_cons]
      rw [hts.closes, closesOuter_rightParen he]
      rfl
    have hlist : openCalls r t.asksOperand (l :: ts ++ [e] ++ more) = openCalls r false more :=
      (parenthesised hl hts he).calls more
    rw [List.cons_append, List.cons_append, openCalls]
    cases r.called? true t with
    | none => exact hlist
    | some f =>
      dsimp only
      rw [if_pos hclosed]
      exact hlist
  closes depth more := by
    have hname : t.NoParenthesis := by simp [Token.NoParenthesis, Token.IsSymbol, ht]
    exact (closesOuter_cons hname depth).trans
      ((parenthesised (b := false) hl hts he).closes depth more)

/-- Braces around what is settled. -/
theorem braced {l e : Token} (hl : l.IsSymbol .leftBrace) (hts : Settles r false ts false)
    (he : e.IsSymbol .rightBrace) : Settles r b (l :: ts ++ [e]) false :=
  (symbol hl (by decide) (by decide)).append (hts.append (symbol he (by decide) (by decide)))

end Settles

/-! ## What is derived is settled -/

variable {d : Dialect σ}

/-- **A phrase is settled**, and it is an operand. -/
theorem PhraseOf.settles {k : Nat} {p : Phrase σ} (h : PhraseOf d k ts p) :
    Settles d.resolver true ts false := by
  induction h using PhraseOf.rec
    (motive_2 := fun n ts _ _ => Settles d.resolver true ts (n == 0)) with
  | literal ht => exact .literal ht
  | «variable» ht hname => exact .identifier ht (by rw [Resolver.called?_identifier ht, hname])
  | parenthesised hl _ hr ih => exact .parenthesised hl ih hr
  | call ht _ hl _ hr ih => exact .call ht hl ih hr
  | unary ht _ ih => exact (Settles.unary ht).append ih
  | leftGrouped ht _ _ _ ihp ihq => exact ihp.append ((Settles.binary ht).append ihq)
  | rightGrouped ht _ _ _ ihp ihq => exact ihp.append ((Settles.binary ht).append ihq)
  | lower _ ih => exact ih
  | none => exact .nil
  | one _ ih => exact ih
  | more _ hc _ ihp ihps =>
    exact ihp.append ((Settles.symbol hc (by decide) (by decide)).append ihps)

/-- A phrase and the semicolon after it. -/
theorem PhraseOf.settles_semicolon {k : Nat} {p : Phrase σ} {e : Token} (h : PhraseOf d k ts p)
    (he : e.IsSymbol .semicolon) : Settles d.resolver true (ts ++ [e]) false :=
  h.settles.append (.symbol he (by decide) (by decide))

/-- **Statements are settled.** -/
theorem StatementsOf.settles {ss : List (Statement σ)} (h : StatementsOf d ts ss) :
    Settles d.resolver false ts false := by
  induction h using StatementsOf.rec
    (motive_1 := fun _ ts _ _ => Settles d.resolver false ts false)
    (motive_2 := fun _ ts _ _ => Settles d.resolver false ts false) with
  | «return» ht hp he => exact (Settles.keyword ht).append (hp.settles_semicolon he)
  | assign ht _ ha hp he =>
    exact (Settles.identifier ht rfl).append
      ((Settles.symbol ha (by decide) (by decide)).append (hp.settles_semicolon he))
  | ifThen ht hl hp hr _ ih =>
    simpa using (Settles.keyword ht).append ((Settles.parenthesised hl hp.settles hr).append ih)
  | ifThenElse ht hl hp hr _ he _ ihs ihf =>
    simpa using (Settles.keyword ht).append ((Settles.parenthesised hl hp.settles hr).append
      (ihs.append ((Settles.keyword he).append ihf)))
  | single _ ih => exact ih
  | braced hl _ hr ih => exact .braced hl ih hr
  | nil => exact .nil
  | cons _ _ ihs ihss => exact ihs.append ihss

theorem StatementOf.settles {dangling : Bool} {s : Statement σ} (h : StatementOf d dangling ts s) :
    Settles d.resolver false ts false := by
  simpa using (StatementsOf.cons h .nil).settles

theorem BlockOf.settles {dangling : Bool} {ss : List (Statement σ)} (h : BlockOf d dangling ts ss) :
    Settles d.resolver false ts false := by
  cases h with
  | single hs => exact hs.settles
  | braced hl hss hr => exact .braced hl hss.settles hr

theorem SourceForm.Derives.settles {form : SourceForm} {tree : SyntaxTree σ}
    (h : form.Derives d ts tree) : Settles d.resolver (form = .phrase) ts false := by
  cases h with
  | phrase hp => exact hp.settles
  | block hss =>
    cases hss with
    | bare hss => exact hss.settles
    | braced hl hss hr => exact .braced hl hss.settles hr

/-- **What is accepted leaves no call open.** -/
theorem SourceForm.openCalls_of_parse (hd : d.Uniform) {form : SourceForm}
    {nodes : List (Node σ)} (h : form.parse d ts = .ok nodes) :
    openCalls d.resolver (form = .phrase) ts = [] := by
  obtain ⟨tree, htree, -⟩ := SourceForm.parse_sound hd h
  simpa [openCalls] using htree.settles.calls []

end ScalarLang
