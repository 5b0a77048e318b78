import ScalarLang.Parser.Statement
import ScalarLang.Proofs.Parsing.Reading
/-!
# What the statement parser reads

The equations of the statement parser, without the bounds by which it
ends: one for each token with which a statement starts, and one for each
way in which a block or a list of statements goes on. What may follow the
first block of a conditional is a function of its own (`alternative`).
-/

namespace ScalarLang

/-- The next token, if there is one, is no `else`. -/
def NoElse (ts : List Token) : Prop := ∀ t ∈ ts.head?, ¬ t.IsKeyword .else

/-- A token with which a statement starts, be it accepted there or not. -/
def Token.StartsStatement (t : Token) : Prop :=
  t.IsKeyword .if ∨ t.IsKeyword .return ∨ t.kind = .identifier

namespace Parser

variable {σ : Type} {d : Dialect σ}

/-! ## Parts of statements -/

theorem reading_phraseStatement (ts : List Token) (out : List (Node σ)) (taker : Directive) :
    reading (phraseStatement d ts out taker)
      = (reading (phrase d ts out)).bind fun p =>
          (skip (.symbol .semicolon) .semicolon p.2).map (p.1 ++ [.directive taker], ·) := by
  rw [phraseStatement]
  cases phrase d ts out with
  | error r => rfl
  | ok p =>
    simp only [reading_ok, Except.bind, ← expect_map_val]
    cases expect (.symbol .semicolon) .semicolon p.rest <;> rfl

theorem reading_condition (ts : List Token) :
    reading (condition d ts)
      = (skip (.symbol .leftParen) .openAfterIf ts).bind fun inside =>
          (reading (phrase d inside [])).bind fun p =>
            (skip (.symbol .rightParen) .closeAfterCondition p.2).map (p.1, ·) := by
  rw [condition]
  simp only [← expect_map_val]
  cases expect (.symbol .leftParen) .openAfterIf ts with
  | error r => rfl
  | ok inside =>
    simp only [Except.bind, Except.map]
    cases phrase d inside.1 [] with
    | error r => rfl
    | ok p =>
      simp only [reading_ok]
      cases expect (.symbol .rightParen) .closeAfterCondition p.rest <;> rfl

theorem reading_assignment (name : String) (ts : List Token) (out : List (Node σ)) :
    reading (assignment d name ts out)
      = (skip (.symbol .assign) .assignSign ts).bind fun after =>
          reading (phraseStatement d after out (.store name)) := by
  rw [assignment]
  simp only [← expect_map_val]
  cases expect (.symbol .assign) .assignSign ts with
  | error r => rfl
  | ok after => exact reading_weaken (Nat.le_of_lt after.2) _

/-- What follows the first block of a conditional: an `else` and another
block, or nothing that belongs to it. -/
def alternative (d : Dialect σ) :
    List Token → Except Rejection (Option (List (Node σ)) × List Token)
  | [] => .ok (none, [])
  | t :: ts =>
    if t.kind = .keyword .else then
      (reading (block d ts)).map fun failure => (some failure.1, failure.2)
    else .ok (none, t :: ts)

/-! ## Statements -/

section

variable {t : Token} {ts : List Token} {out : List (Node σ)}

theorem reading_statement_nil :
    reading (statement d [] out) = .error ⟨.expected .statement, [], []⟩ := by
  rw [statement]
  rfl

theorem reading_statement_if (ht : t.IsKeyword .if) :
    reading (statement d (t :: ts) out)
      = (reading (condition d ts)).bind fun condition =>
          (reading (block d condition.2)).bind fun success =>
            (alternative d success.2).map fun failure =>
              (out ++ [.branch condition.1 success.1 failure.1], failure.2) := by
  obtain ⟨kind, text, position⟩ := t
  obtain rfl : kind = .keyword .if := ht
  rw [statement]
  cases condition d ts with
  | error r => rfl
  | ok condition =>
    simp only [reading_ok, Except.bind]
    cases block d condition.rest with
    | error r => rfl
    | ok success =>
      obtain ⟨nodes, rest, hle⟩ := success
      simp only [reading_ok]
      split
      · rename_i more _
        simp only [alternative, if_true]
        cases block d more <;> rfl
      · rename_i hrest
        cases rest with
        | nil => rfl
        | cons e more =>
          have he : e.kind ≠ .keyword .else := by
            obtain ⟨kind, text, position⟩ := e
            rintro rfl
            exact hrest _ _ _ hle rfl HEq.rfl
          simp [alternative, he, Except.map]

theorem reading_statement_return (ht : t.IsKeyword .return) :
    reading (statement d (t :: ts) out) = reading (phraseStatement d ts out .return) := by
  obtain ⟨kind, text, position⟩ := t
  obtain rfl : kind = .keyword .return := ht
  rw [statement]

theorem reading_statement_assign (ht : t.kind = .identifier)
    (hname : d.resolver.contains t.text = false) :
    reading (statement d (t :: ts) out) = reading (assignment d t.text ts out) := by
  obtain ⟨kind, text, position⟩ := t
  obtain rfl : kind = .identifier := ht
  rw [statement]
  simp only at hname ⊢
  simp only [hname]
  rfl

theorem reading_statement_function (ht : t.kind = .identifier)
    (hname : d.resolver.contains t.text = true) :
    reading (statement d (t :: ts) out) = .error ⟨.functionAssignment t.text, t :: ts, []⟩ := by
  obtain ⟨kind, text, position⟩ := t
  obtain rfl : kind = .identifier := ht
  rw [statement]
  simp only at hname ⊢
  simp only [hname]
  rfl

theorem reading_statement_noStatement (ht : ¬ t.StartsStatement) :
    reading (statement d (t :: ts) out) = .error ⟨.expected .statement, t :: ts, []⟩ := by
  obtain ⟨kind, text, position⟩ := t
  simp only [Token.StartsStatement, Token.IsKeyword, not_or] at ht
  obtain ⟨hif, hreturn, hidentifier⟩ := ht
  rw [statement]
  simp only [reading_error]

/-- **Everything a token can be where a statement is expected.** -/
theorem statement_cases (d : Dialect σ) (t : Token) :
    t.IsKeyword .if ∨ t.IsKeyword .return ∨
      (t.kind = .identifier ∧ d.resolver.contains t.text = false) ∨
      (t.kind = .identifier ∧ d.resolver.contains t.text = true) ∨ ¬ t.StartsStatement := by
  by_cases hif : t.IsKeyword .if
  · exact .inl hif
  by_cases hreturn : t.IsKeyword .return
  · exact .inr (.inl hreturn)
  by_cases hidentifier : t.kind = .identifier
  · cases hname : d.resolver.contains t.text <;> simp [hidentifier]
  · simp [Token.StartsStatement, hif, hreturn, hidentifier]

end

/-! ## Blocks and programs -/

section

variable {t : Token} {ts : List Token} {out : List (Node σ)}

theorem reading_block_brace (ht : t.IsSymbol .leftBrace) :
    reading (block d (t :: ts)) = reading (statements d ts []) := by
  obtain ⟨kind, text, position⟩ := t
  obtain rfl : kind = .symbol .leftBrace := ht
  rw [block]

theorem reading_block_statement (ht : ∀ t ∈ ts.head?, ¬ t.IsSymbol .leftBrace) :
    reading (block d ts) = reading (statement d ts []) := by
  rw [block]
  rintro text position rest rfl
  exact ht _ rfl rfl

theorem reading_statements_nil :
    reading (statements d [] out) = .error ⟨.expected .closeBrace, [], []⟩ := by
  rw [statements]
  rfl

theorem reading_statements_brace (ht : t.IsSymbol .rightBrace) :
    reading (statements d (t :: ts) out) = .ok (out, ts) := by
  obtain ⟨kind, text, position⟩ := t
  obtain rfl : kind = .symbol .rightBrace := ht
  rw [statements]
  rfl

theorem reading_statements_statement (ht : ¬ t.IsSymbol .rightBrace) :
    reading (statements d (t :: ts) out)
      = (reading (statement d (t :: ts) out)).bind fun s => reading (statements d s.2 s.1) := by
  rw [statements]
  · cases statement d (t :: ts) out with
    | error r => rfl
    | ok p => exact reading_weaken _ _
  · rintro text position rfl
    exact ht rfl

theorem allStatements_cons :
    allStatements d (t :: ts) out
      = (reading (statement d (t :: ts) out)).bind fun s => allStatements d s.2 s.1 := by
  rw [allStatements]
  cases statement d (t :: ts) out <;> rfl

theorem topBlock_brace (ht : t.IsSymbol .leftBrace) :
    topBlock d (t :: ts) = (statements d ts []).bind atEnd := by
  obtain ⟨kind, text, position⟩ := t
  obtain rfl : kind = .symbol .leftBrace := ht
  rfl

theorem topBlock_statements (ht : ∀ t ∈ ts.head?, ¬ t.IsSymbol .leftBrace) :
    topBlock d ts = allStatements d ts [] := by
  rw [topBlock]
  rintro text position rest rfl
  exact ht _ rfl rfl

end

end Parser

end ScalarLang
