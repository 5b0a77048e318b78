import ScalarLang.Proofs.Execution.Meaning
import ScalarLang.Proofs.Execution.Relayout
import ScalarLang.Proofs.Lexing.IntegerLiterals
/-!
# Written literals are read back

A boolean is written as a reserved word, and an integer in decimal digits
with a minus before them if it is negative. A minus is no part of a literal
but an operator, so a negative integer is read back as the negative of its
digits, and folded to a literal then. Its digits have to be a literal of
their own, which those of the least integer are not: they denote `2 ^ 63`.
-/

namespace ScalarLang

/-! ## Written numbers -/

/-- The digits of a number denote it. -/
theorem Text.digitsValue_toDigits (n : Nat) : digitsValue 10 (Nat.toDigits 10 n) = n := by
  have hdigits : ∀ c ∈ Nat.toDigits 10 n, digitValue c = c.toNat - '0'.toNat := by
    intro c hc
    rw [digitValue, if_pos (Nat.isDigit_of_mem_toDigits (by decide) (by decide) hc)]
  calc digitsValue 10 (Nat.toDigits 10 n)
      = Nat.ofDigitChars 10 (Nat.toDigits 10 n) 0 := by
        rw [digitsValue, Nat.ofDigitChars_eq_foldl]
        exact List.foldl_ext _ _ _ fun m c hc => by rw [hdigits c hc]
    _ = n := Nat.ofDigitChars_ten_toDigits

theorem integerLiteral_toDigits (n : Nat) : IntegerLiteral .decimal [] (Nat.toDigits 10 n) [] :=
  .decimal ⟨Nat.toDigits_ne_nil, fun _ => Nat.isDigit_of_mem_toDigits (by decide) (by decide)⟩
    (by simp) (by simp)

/-- The digits of an integer that is not negative are read as that integer. -/
theorem Lexeme.lexemeRead_toDigits {m : Int64} {n : Nat} (h : m.toInt = n) :
    LexemeRead (Nat.toDigits 10 n) (.ok ⟨.number (.integer m), Nat.toDigits 10 n⟩) := by
  have hliteral := integerLiteral_toDigits n
  have hn : Denotes 10 (Nat.toDigits 10 n) n :=
    (hliteral.denotes_iff n).mpr (Text.digitsValue_toDigits n).symm
  have hlt : n < 2 ^ 63 := by
    have := m.toInt_lt
    omega
  obtain ⟨m', hm', hread⟩ := (hliteral.lexemeRead hn).1 hlt
  obtain rfl : m' = m := Int64.toInt_inj.mp (Eq.trans hm' h.symm)
  simpa using hread

/-- An integer is written in its digits, with a minus before them if it is
negative. -/
theorem Value.toList_text_integer (m : Int64) : (integer m).text.toList
    = (if 0 ≤ m.toInt then [] else ['-']) ++ Nat.toDigits 10 m.toInt.natAbs := by
  rw [text, Int.toString_eq_repr, Int.repr_eq_if]
  split
  · rename_i h
    rw [Nat.toList_repr, List.nil_append, ← Int.toNat_of_nonneg h]
    simp
  · rename_i h
    rw [String.toList_append, Nat.toList_repr]
    congr 2
    omega

/-! ## Tokens -/

/-- No symbol goes on after a minus. -/
theorem Symbol.chars_length_le_of_minus {t : Symbol} {cs : List Char} (h : t.chars <+: '-' :: cs) :
    t.chars.length ≤ 1 := by
  have hall : ∀ t ∈ all, t.chars.head? = some '-' → t.chars.length ≤ 1 := by decide
  obtain ⟨c, ds, ht, -⟩ := t.exists_chars
  refine hall t t.mem_all ?_
  rw [ht, List.cons_prefix_cons] at h
  rw [ht, h.1, List.head?_cons]

theorem Lexer.run_nil (p : Position) : (Lexer.mk p [] false).run = ([], none, ⟨p, [], true⟩) :=
  run_none ((@StepRead.finish p [] (.tail (.trivia .nil))).next rfl rfl)

/-- A text that is one lexeme is one token. -/
theorem Lexer.run_last {kind : TokenKind} {text : List Char} (p : Position)
    (hread : Lexeme.LexemeRead text (.ok ⟨kind, text⟩)) :
    (Lexer.mk p text false).run = ([⟨kind, String.ofList text, p⟩], none,
      ⟨p.advance text, [], true⟩) := by
  have hrun := @run_lexeme kind [] text [] p (by rwa [List.append_nil]) .nil (by simp)
  simpa [run_nil] using hrun

/-- An integer that is not negative is written in one token. -/
theorem tokenize_of_nonneg {m : Int64} (h : 0 ≤ m.toInt) : ∃ t : Token,
    tokenize (Value.integer m).text = .ok [t] ∧ t.kind = .number (.integer m) := by
  have htext := Value.toList_text_integer m
  rw [if_pos h, List.nil_append] at htext
  have hread := Lexeme.lexemeRead_toDigits (Int.natAbs_of_nonneg h).symm
  have htokens : tokenize (Value.integer m).text
      = .ok [⟨.number (.integer m), String.ofList (Nat.toDigits 10 m.toInt.natAbs), .start⟩] := by
    rw [tokenize, Lexer.ofSource, htext, Lexer.run_last _ hread]
  exact ⟨_, htokens, rfl⟩

/-- A negative one is written in two, unless it has no negative. -/
theorem tokenize_of_neg {m : Int64} (h : m.toInt < 0) (hm : m ≠ Int64.minValue) :
    ∃ t u : Token, tokenize (Value.integer m).text = .ok [t, u] ∧ t.kind = .symbol .minus ∧
      u.kind = .number (.integer (-m)) := by
  have htext := Value.toList_text_integer m
  rw [if_neg (by omega)] at htext
  have hneg : (-m).toInt = m.toInt.natAbs := by
    have hle := m.minValue_le_toInt
    have hne : m.toInt ≠ Int64.minValue.toInt := fun heq => hm (Int64.toInt_inj.mp heq)
    rw [Int64.toInt_minValue] at hle hne
    rw [Int64.toInt_neg, Int.bmod_eq_of_le (by omega) (by omega)]
    omega
  have hminus : Lexeme.LexemeRead (['-'] ++ Nat.toDigits 10 m.toInt.natAbs)
      (.ok ⟨.symbol .minus, ['-']⟩) :=
    .symbol (s := .minus) fun t ht => Symbol.chars_length_le_of_minus ht
  have hrun := Lexer.run_lexeme .start hminus .nil (by simp)
  rw [List.nil_append, Lexer.run_last _ (Lexeme.lexemeRead_toDigits hneg)] at hrun
  have htokens : tokenize (Value.integer m).text
      = .ok [⟨.symbol .minus, String.ofList ['-'], .start⟩, ⟨.number (.integer (-m)),
        String.ofList (Nat.toDigits 10 m.toInt.natAbs), Position.start.advance ['-']⟩] := by
    rw [tokenize, Lexer.ofSource, htext, hrun]
    rfl
  exact ⟨_, _, htokens, rfl, rfl⟩

/-- A boolean is written in one token. -/
theorem tokenize_boolean (b : Bool) : ∃ t : Token,
    tokenize (Value.boolean b).text = .ok [t] ∧ t.kind.literal? = some (.boolean b) := by
  cases b with
  | false => exact ⟨⟨.keyword .false, "false", .start⟩, by decide +kernel, rfl⟩
  | true => exact ⟨⟨.keyword .true, "true", .start⟩, by decide +kernel, rfl⟩

/-- The digits of the least integer are too large. -/
theorem tokenize_minValue : tokenize (Value.integer Int64.minValue).text
    = .error ⟨.literalTooLarge, "9223372036854775808", ⟨1, 1, 2⟩⟩ := by
  decide +kernel

/-! ## Constant phrases -/

variable {σ : Type} {p : Phrase σ} {v : Value}

/-- **A phrase of literals and operators alone** has a value, whatever it is
evaluated on. -/
inductive Phrase.IsConstant : Phrase σ → Value → Prop
  | literal (v : Value) : IsConstant (.literal v) v
  | unary (op : UnaryOp) {p : Phrase σ} {v : Value} (hp : IsConstant p v) :
    IsConstant (.unary op p) (op.apply v)
  | binary (op : BinaryOp) {p q : Phrase σ} {v w : Value} (hp : IsConstant p v)
    (hq : IsConstant q w) : IsConstant (.binary op p q) (op.apply v w)

theorem Phrase.IsConstant.eval (h : p.IsConstant v) (vars : String → Option Value) (w : World σ) :
    p.eval vars w = (.ok v, w) := by
  induction h with
  | literal v => rw [Phrase.eval]
  | unary op _ ih => rw [Phrase.eval, ih]
  | binary op _ _ ihp ihq => simp only [Phrase.eval, ihp, ihq]

/-- It names nothing. -/
theorem Phrase.IsConstant.over (h : p.IsConstant v) (F : NativeFunction σ → Prop)
    (N : String → Prop) : p.Over F N := by
  induction h with
  | literal v => trivial
  | unary op _ ih => exact ih
  | binary op _ _ ihp ihq => exact ⟨ihp, ihq⟩

theorem Phrase.IsConstant.isFoldable (h : p.IsConstant v) :
    ∀ n ∈ p.nodes, n.isFoldable = true := by
  induction h with
  | literal v => simp [Phrase.nodes, Node.isFoldable, Directive.isFoldable]
  | unary op _ ih =>
    simpa [Phrase.nodes, or_imp, forall_and, Node.isFoldable, Directive.isFoldable] using ih
  | binary op _ _ ihp ihq =>
    simpa [Phrase.nodes, or_imp, forall_and, Node.isFoldable, Directive.isFoldable]
      using ⟨ihp, ihq⟩

/-- **It is folded to its value**, and the embedding program is left alone. -/
theorem Phrase.IsConstant.fold_eq (h : p.IsConstant v) (host : σ) :
    fold (Branch.unconditional p.nodes) host = (.literal v, host) := by
  have hfoldable : (Branch.unconditional p.nodes).isFoldable = true := by
    have hnodes := Node.areFoldable_iff.mpr h.isFoldable
    simp [Branch.isFoldable, Branch.toNode, Branch.unconditional, Node.isFoldable,
      Node.areFoldable, Directive.isFoldable, hnodes]
  -- what the program comes to is known from the tree
  have hmeans := Expression.means_phrase (h.over _ fun _ => True) ⟨.empty, .empty, host⟩
  simp only [SyntaxTree.eval, h.eval] at hmeans
  simp only [fold, hfoldable, if_true, Expression.evaluateIn]
  generalize (Expression.ofBranch (.unconditional p.nodes)).evaluate ⟨.empty, .empty, host⟩ = run
    at hmeans
  obtain ⟨outcome, m⟩ := run
  obtain ⟨rfl, -, rfl, -⟩ : Except.ok v = outcome ∧ _ ∧ host = m.host ∧ _ := by
    simpa using hmeans
  rfl

/-- The text of a value that is no float is a constant phrase of that value,
except for the least integer. -/
theorem exists_phraseOf_text (hkind : v.kind ≠ .float) (hv : v ≠ .integer Int64.minValue) :
    ∃ ts, tokenize v.text = .ok ts ∧
      ∃ p : Phrase σ, p.IsConstant v ∧ ∀ d : Dialect σ, PhraseOf d 0 ts p := by
  have hoperand : 0 ≤ Priority.operandLevel := Nat.zero_le _
  cases v with
  | boolean b =>
    obtain ⟨t, hts, ht⟩ := tokenize_boolean b
    exact ⟨_, hts, _, .literal _, fun d => .loosen (.literal ht) hoperand⟩
  | integer m =>
    by_cases hm : 0 ≤ m.toInt
    · obtain ⟨t, hts, ht⟩ := tokenize_of_nonneg hm
      have hvalue : t.kind.literal? = some (.integer m) := by rw [ht]; rfl
      exact ⟨_, hts, _, .literal _, fun d => .loosen (.literal hvalue) hoperand⟩
    · obtain ⟨t, u, hts, ht, hu⟩ := tokenize_of_neg (by omega) fun h => hv (congrArg _ h)
      have hminus : t.kind.unaryOp? = some .negate := by rw [ht]; rfl
      have hvalue : u.kind.literal? = some (.integer (-m)) := by rw [hu]; rfl
      have hnegative : UnaryOp.negate.apply (.integer (-m)) = .integer m := by
        simp [UnaryOp.apply, Value.neg]
      refine ⟨_, hts, .unary .negate (.literal (.integer (-m))), ?_, fun d => ?_⟩
      · exact hnegative ▸ .unary .negate (.literal _)
      · exact .loosen (.unary hminus (.lower (.literal hvalue))) (Nat.zero_le _)
  | float x => exact absurd rfl hkind

/-! ## Compilation -/

/-- What is shared under the digest of a literal is that literal. -/
def InternTable.SharesLiteral (t : InternTable σ) (v : Value) : Prop :=
  ∀ i, t.find? (Expression.literal (σ := σ) v).digest = some i → i.expr.code = .literal v

namespace Compiler

/-- **A constant phrase is compiled to a literal** by a compiler that folds. -/
theorem compile_of_isConstant {c : Compiler σ} {w : Workspace σ} {source : String}
    {ts : List Token} (h : p.IsConstant v) (hts : tokenize source = .ok ts)
    (hp : PhraseOf ⟨c.resolver, BinaryOp.isRightAssoc⟩ 0 ts p)
    (hfold : c.options.foldConstants = true)
    (hshared : c.options.intern = true → w.shared.SharesLiteral v) :
    ∃ i w', c.compile .phrase source w = (.ok i, w') ∧ i.expr.literal? = some v ∧
      w'.host = w.host := by
  have hd : Dialect.Uniform ⟨c.resolver, BinaryOp.isRightAssoc⟩ :=
    BinaryOp.uniform_isRightAssoc c.resolver
  have hparse : SourceForm.phrase.parse ⟨c.resolver, BinaryOp.isRightAssoc⟩ ts = .ok p.nodes :=
    Parser.topPhrase_of_phraseOf hd hp
  have hnodes : c.ofNodes p.nodes (some source) w.host
      = ((Expression.literal v).withSource (some source), w.host) := by
    simp [ofNodes, hfold, h.fold_eq]
  -- the source that is remembered has no part in the digest
  have hfaithful : c.SharesFaithfully .phrase ts (some source) w := by
    intro hintern nodes hnodes' i hi
    obtain rfl : p.nodes = nodes := Except.ok.inj (hparse.symm.trans hnodes')
    rw [hnodes] at hi ⊢
    exact hshared hintern i hi
  obtain ⟨i, w', hcompile, hcode, hhost⟩ := compileTokens_of_parse hparse hfaithful
  rw [hnodes] at hcode hhost
  refine ⟨i, w', ?_, ?_, hhost⟩
  · simp only [compile, hts, hcompile]
  · rw [Expression.literal?, hcode]
    rfl

/-- **Literals are read back as they are written.** The text of a boolean or of
an integer is a phrase that is compiled to a literal of the same value, by every
compiler that folds; only the text of the least integer is no phrase. -/
theorem compile_text_literal (c : Compiler σ) (v : Value) (w : Workspace σ)
    (hkind : v.kind ≠ .float) (hfold : c.options.foldConstants = true)
    (hshared : c.options.intern = true → w.shared.SharesLiteral v) :
    (v ≠ .integer Int64.minValue →
      ∃ i w', c.compile .phrase (Expression.literal (σ := σ) v).text w = (.ok i, w') ∧
        i.expr.literal? = some v ∧ w'.host = w.host) ∧
    (v = .integer Int64.minValue →
      c.compile .phrase (Expression.literal (σ := σ) v).text w
        = (.error (.ofLexError ⟨.literalTooLarge, "9223372036854775808", ⟨1, 1, 2⟩⟩), w)) := by
  have htext : (Expression.literal (σ := σ) v).text = v.text := rfl
  rw [htext]
  constructor
  · intro hv
    obtain ⟨ts, hts, p, hconstant, hp⟩ := exists_phraseOf_text (σ := σ) hkind hv
    exact compile_of_isConstant hconstant hts (hp _) hfold hshared
  · rintro rfl
    simp only [compile, tokenize_minValue]

/-- The second least integer is read back, by a compiler that shares what it
compiles. -/
theorem compile_text_literal_secondLeast :
    let v : Value := .integer (Int64.minValue + 1)
    let c : Compiler Unit := .plain
    v.kind ≠ .float ∧ c.options = ⟨true, true⟩ ∧
      (InternTable.empty : InternTable Unit).SharesLiteral v ∧
      (Expression.literal (σ := Unit) v).text = "-9223372036854775807" ∧
      ∃ i w', c.compile .phrase "-9223372036854775807" ⟨(), 0, .empty⟩ = (.ok i, w') ∧
        i.expr.literal? = some v := by
  intro v c
  have hkind : v.kind ≠ .float := by decide
  have hshared : (InternTable.empty : InternTable Unit).SharesLiteral v := by
    intro i hi
    cases hi
  have htext : (Expression.literal (σ := Unit) v).text = "-9223372036854775807" := by decide +kernel
  have hread := (compile_text_literal c v ⟨(), 0, .empty⟩ hkind rfl fun _ => hshared).1 (by decide)
  rw [htext] at hread
  obtain ⟨i, w', hi, hv, -⟩ := hread
  exact ⟨hkind, rfl, hshared, htext, i, w', hi, hv⟩

/-- **The least integer is not read back**: its digits are no literal. -/
theorem not_compile_text_minValue :
    let v : Value := .integer Int64.minValue
    let c : Compiler Unit := .plain
    v.kind ≠ .float ∧ c.options.foldConstants = true ∧
      (Expression.literal (σ := Unit) v).text = "-9223372036854775808" ∧
      ¬ ∃ i w', c.compile .phrase (Expression.literal (σ := Unit) v).text ⟨(), 0, .empty⟩
        = (.ok i, w') := by
  intro v c
  refine ⟨by decide, rfl, by decide +kernel, ?_⟩
  rintro ⟨i, w', hi⟩
  have htext : (Expression.literal (σ := Unit) v).text = (Value.integer Int64.minValue).text := rfl
  simp [compile, htext, tokenize_minValue] at hi

end Compiler

end ScalarLang
