import ScalarLang.Proofs.Parsing.Lookahead
import ScalarLang.Proofs.Parsing.StatementGrammar
/-!
# The first impossible token

A rejection points at the first token with which nothing can be made of
the source. What was read before it can be completed (`Viable`): whatever
was open where the parser stopped, a phrase, a list of arguments, a
statement or a brace, is closed one after the other from the inside, and
what comes of it is derived by the grammar. That the token itself rules
out every completion is that the parser looks no further than it
(`SourceForm.parse_eq_error`).
-/

namespace ScalarLang

/-! ## Completions -/

/-- The tokens can be completed to tokens with the property. -/
def Viable (P : List Token → Prop) (ts : List Token) : Prop := ∃ more, P (ts ++ more)

/-- What comes before the tokens left can be completed. -/
def ViableUpTo (P : List Token → Prop) (ts us : List Token) : Prop :=
  ∃ read, ts = read ++ us ∧ Viable P read

/-- Tokens with the property, and a symbol after them. -/
def Closed (P : List Token → Prop) (s : Symbol) (ts : List Token) : Prop :=
  ∃ us e, ts = us ++ [e] ∧ P us ∧ e.IsSymbol s

namespace ViableUpTo

variable {P Q : List Token → Prop} {ts us : List Token}

/-- What has the property once it is completed. -/
theorem before (xs : List Token) {ys : List Token} (h : P (xs ++ ys)) :
    ViableUpTo P (xs ++ us) us :=
  ⟨xs, rfl, ys, h⟩

/-- Nothing has been read. -/
theorem here {ys : List Token} (h : P ys) : ViableUpTo P ts ts := before [] h

/-- **What is open within something larger** is completed first, and then
the larger one. -/
theorem within (h : ViableUpTo P ts us) (xs ys : List Token)
    (hQ : ∀ vs, P vs → Q (xs ++ vs ++ ys)) : ViableUpTo Q (xs ++ ts) us := by
  obtain ⟨read, rfl, more, hmore⟩ := h
  exact ⟨xs ++ read, by simp, more ++ ys, by simpa using hQ _ hmore⟩

/-- The same, with nothing to add. -/
theorem after (h : ViableUpTo P ts us) (xs : List Token) (hQ : ∀ vs, P vs → Q (xs ++ vs)) :
    ViableUpTo Q (xs ++ ts) us :=
  h.within xs [] fun vs hvs => by simpa using hQ vs hvs

end ViableUpTo

/-- A token of a symbol, to complete others with. -/
def Token.ofSymbol (s : Symbol) : Token := ⟨.symbol s, s.spelling, .start⟩

/-- A token of a reserved word. -/
def Token.ofKeyword (k : Keyword) : Token := ⟨.keyword k, k.spelling, .start⟩

/-- The token of the number zero. -/
def Token.zero : Token := ⟨.number (.integer 0), "0", .start⟩

/-- Tokens with the property are completed to closed ones. -/
theorem Closed.intro {P : List Token → Prop} {ts : List Token} (h : P ts) (s : Symbol) :
    Closed P s (ts ++ [Token.ofSymbol s]) :=
  ⟨ts, _, rfl, h, rfl⟩

variable {σ : Type} {d : Dialect σ}

/-- The tokens are a phrase of a level. -/
def IsPhrase (d : Dialect σ) (k : Nat) (ts : List Token) : Prop := ∃ p, PhraseOf d k ts p

/-- The tokens are the given number of arguments. -/
def AreArguments (d : Dialect σ) (n : Nat) (ts : List Token) : Prop :=
  ∃ ps, ArgumentsOf d n ts ps

/-- A number is a phrase of any level. -/
theorem isPhrase_zero {k : Nat} (hk : k ≤ Priority.operandLevel) : IsPhrase d k [Token.zero] :=
  ⟨_, PhraseOf.loosen (.literal (t := Token.zero) rfl) hk⟩

/-- There are arguments for every function. -/
theorem exists_areArguments (n : Nat) : ∃ ts, AreArguments d n ts := by
  obtain ⟨p, hp⟩ := isPhrase_zero (d := d) (Nat.zero_le _)
  induction n with
  | zero => exact ⟨[], [], .none⟩
  | succ n ih =>
    obtain ⟨ts, ps, hps⟩ := ih
    cases n with
    | zero => exact ⟨_, _, .one hp⟩
    | succ n => exact ⟨_, _, .more (c := Token.ofSymbol .comma) hp rfl hps⟩

theorem isPhrase_parenthesised {l : Token} {ts : List Token} (hl : l.IsSymbol .leftParen)
    (h : Closed (IsPhrase d 0) .rightParen ts) : IsPhrase d Priority.operandLevel (l :: ts) := by
  obtain ⟨us, r, rfl, ⟨p, hp⟩, hr⟩ := h
  exact ⟨_, .parenthesised hl hp hr⟩

theorem isPhrase_call {t l : Token} {f : NativeFunction σ} {ts : List Token}
    (ht : t.kind = .identifier) (hf : d.resolver.resolve? t.text = some f)
    (hl : l.IsSymbol .leftParen) (h : Closed (AreArguments d f.arity) .rightParen ts) :
    IsPhrase d Priority.operandLevel (t :: l :: ts) := by
  obtain ⟨us, r, rfl, ⟨ps, hps⟩, hr⟩ := h
  exact ⟨_, .call ht hf hl hps hr⟩

namespace Parser

variable {out : List (Node σ)} {read ts : List Token} {ops : List PendingOp} {e : Emitted σ}
variable {b : Bool} {r : Rejection}

/-! ## Phrases -/

/-- An operand is what the operators before it wait for. -/
theorem Waiting.isPhrase (hw : Waiting d out read ops e)
    (h : IsPhrase d Priority.operandLevel ts) : IsPhrase d 0 (read ++ ts) := by
  obtain ⟨p, hp⟩ := h
  obtain ⟨q, -, hq⟩ := hw.finish? hp (Nat.le_succ_of_le (awaited_le_unary d ops))
  exact ⟨q, hq⟩

/-- A phrase that ends too early lacks an operand. -/
theorem InPhrase.viable_of_ending (hs : InPhrase d out read ops e b)
    (h : Parser.ending ts ops e = .error r) :
    ViableUpTo (fun us => IsPhrase d 0 (read ++ us)) ts r.rest := by
  obtain ⟨hfinish, hrest⟩ := rest_of_ending_eq_error h
  rw [hrest]
  cases hs with
  | operand hw => exact .here (hw.isPhrase (isPhrase_zero (Nat.le_refl _)))
  | operator hw hp =>
    -- after an operand all operators find theirs
    obtain ⟨q, hq, -⟩ := hw.finish? hp (Nat.le_succ_of_le (awaited_le_unary d ops))
    rw [hfinish] at hq
    cases hq

mutual

/-- The rest of a phrase can be completed where it fails. -/
theorem phraseRest_viable (hd : d.Uniform) {out : List (Node σ)} {read ts : List Token}
    {ops : List PendingOp} {e : Emitted σ} {b : Bool} {r : Rejection}
    (hs : InPhrase d out read ops e b) (h : reading (phraseRest d ts ops e b) = .error r) :
    ViableUpTo (fun us => IsPhrase d 0 (read ++ us)) ts r.rest := by
  match ts, hs with
  | [], hs =>
    rw [reading_phraseRest_nil] at h
    exact hs.viable_of_ending h
  | t :: ts, .operand hw =>
    -- an operand has been read, and what fails comes after it
    have operand {q : Phrase σ} (qs rest : List Token) (hts : t :: ts = qs ++ rest)
        (hlt : rest.length < ts.length + 1) (hq : PhraseOf d Priority.operandLevel qs q)
        (h : reading (phraseRest d rest ops (e.whole q) false) = .error r) :
        ViableUpTo (fun us => IsPhrase d 0 (read ++ us)) (t :: ts) r.rest := by
      rw [hts]
      exact (phraseRest_viable hd (.operator hw hq) h).after _ fun us hus => by simpa using hus
    rcases operand_cases d t with
      ⟨v, ht⟩ | ⟨op, ht⟩ | ht | ⟨ht, f, hf⟩ | ⟨ht, hname⟩ | ht
    · rw [reading_phraseRest_literal ht] at h
      exact operand [t] ts rfl (Nat.lt_succ_self _) (.literal ht) h
    · rw [reading_phraseRest_unary ht] at h
      exact (phraseRest_viable hd (.operand (hw.unary ht)) h).after [t]
        fun us hus => by simpa using hus
    · rw [reading_phraseRest_parenthesis ht] at h
      -- what fails is the phrase within, its parenthesis, or what comes after
      rcases bind_eq_error h with h | ⟨⟨inner, mid⟩, hinner, h⟩
      · exact (phrase_viable hd h).within [t] _ fun us hus =>
          hw.isPhrase (isPhrase_parenthesised ht (.intro hus _))
      obtain ⟨used, q, rfl, hq, rfl⟩ := phrase_sound hd hinner
      rcases bind_eq_error h with h | ⟨rest, hskip, h⟩
      · rw [rest_of_skip_eq_error h]
        exact .before (t :: used)
          (hw.isPhrase (isPhrase_parenthesised ht (.intro ⟨q, hq⟩ _)))
      · obtain ⟨c, hc, rfl⟩ := skip_eq_ok hskip
        exact operand (t :: used ++ [c]) rest (by simp)
          (by simp only [List.length_append, List.length_cons]; omega)
          (.parenthesised ht hq hc) h
    · rw [reading_phraseRest_call ht hf] at h
      rcases bind_eq_error h with h | ⟨⟨inner, rest⟩, hinner, h⟩
      · exact (call_viable hd ht hf h).after [t] fun us hus => hw.isPhrase hus
      · obtain ⟨used, q, rfl, hq, rfl⟩ := call_sound hd ht hf hinner
        exact operand (t :: used) rest rfl (by simp only [List.length_append]; omega) hq h
    · rw [reading_phraseRest_variable ht hname] at h
      exact operand [t] ts rfl (Nat.lt_succ_self _) (.variable ht hname) h
    · rw [reading_phraseRest_noOperand ht] at h
      exact (InPhrase.operand hw).viable_of_ending h
  | t :: ts, .operator hw hp =>
    cases ht : t.kind.binaryOp? with
    | none =>
      rw [reading_phraseRest_noBinary ht] at h
      exact (InPhrase.operator hw hp).viable_of_ending h
    | some op =>
      have hop := op.level_lt_unary
      obtain ⟨ops', e', hreduce, hw'⟩ := hw.reduce? hd ht hp
        (Nat.le_succ_of_le (awaited_le_unary d ops))
        (by simp only [BinaryOp.leftLevel, Priority.operandLevel]; split <;> omega)
      rw [reading_phraseRest_binary ht, hreduce] at h
      exact (phraseRest_viable hd (.operand hw') h).after [t]
        fun us hus => by simpa using hus
termination_by 4 * ts.length

/-- **A phrase can be completed where it fails.** -/
theorem phrase_viable (hd : d.Uniform) {out : List (Node σ)} {ts : List Token} {r : Rejection}
    (h : reading (phrase d ts out) = .error r) : ViableUpTo (IsPhrase d 0) ts r.rest := by
  rw [reading_phrase] at h
  exact phraseRest_viable hd (.operand .nil) h
termination_by 4 * ts.length + 1

/-- Arguments can be completed and closed where they fail. -/
theorem argumentList_viable (hd : d.Uniform) {n : Nat} {out : List (Node σ)} {ts : List Token}
    {r : Rejection} (h : argumentList d n ts out = .error r) :
    ViableUpTo (Closed (AreArguments d n) .rightParen) ts r.rest := by
  match n with
  | 0 =>
    rw [rest_of_skip_eq_error (map_eq_error h)]
    exact .here (.intro ⟨[], .none⟩ _)
  | 1 =>
    rw [argumentList_one] at h
    rcases bind_eq_error h with h | ⟨⟨inner, mid⟩, hinner, h⟩
    · exact (phrase_viable hd h).within [] _ fun us ⟨p, hp⟩ => .intro ⟨[p], .one hp⟩ _
    · obtain ⟨used, p, rfl, hp, rfl⟩ := phrase_sound hd hinner
      rw [rest_of_skip_eq_error (map_eq_error h)]
      exact .before _ (.intro ⟨[p], .one hp⟩ _)
  | n + 2 =>
    rw [argumentList_more] at h
    obtain ⟨us, ps, hps⟩ := exists_areArguments (d := d) (n + 1)
    -- the arguments that are missing, after a comma
    have missing {ts : List Token} {p : Phrase σ} (hp : PhraseOf d 0 ts p) :
        Closed (AreArguments d (n + 2)) .rightParen
          (ts ++ (Token.ofSymbol .comma :: us ++ [Token.ofSymbol .rightParen])) := by
      rw [← List.append_assoc]
      exact .intro ⟨p :: ps, .more hp rfl hps⟩ _
    rcases bind_eq_error h with h | ⟨⟨inner, mid⟩, hinner, h⟩
    · exact (phrase_viable hd h).within [] _ fun us ⟨p, hp⟩ => missing hp
    obtain ⟨used, p, rfl, hp, rfl⟩ := phrase_sound hd hinner
    rcases bind_eq_error h with h | ⟨rest, hskip, h⟩
    · rw [rest_of_skip_eq_error h]
      exact .before _ (missing hp)
    · obtain ⟨c, hc, rfl⟩ := skip_eq_ok hskip
      rw [show used ++ c :: rest = used ++ [c] ++ rest by simp]
      refine (argumentList_viable hd h).after _ ?_
      rintro us ⟨vs, e, rfl, ⟨qs, hqs⟩, he⟩
      exact ⟨used ++ c :: vs, e, by simp, ⟨p :: qs, .more hp hc hqs⟩, he⟩
termination_by 4 * ts.length + 2

/-- A call can be completed where it fails after the name. -/
theorem call_viable (hd : d.Uniform) {t : Token} {f : NativeFunction σ} {out : List (Node σ)}
    {ts : List Token} {r : Rejection} (ht : t.kind = .identifier)
    (hf : d.resolver.resolve? t.text = some f) (h : reading (call d t f ts out) = .error r) :
    ViableUpTo (fun us => IsPhrase d Priority.operandLevel (t :: us)) ts r.rest := by
  rw [reading_call] at h
  obtain ⟨r', hread, rfl⟩ := mapError_eq_error (map_eq_error h)
  change ViableUpTo _ ts r'.rest
  rcases bind_eq_error hread with hskip | ⟨inside, hskip, hinside⟩
  · obtain ⟨us, hus⟩ := exists_areArguments (d := d) f.arity
    rw [rest_of_skip_eq_error hskip]
    exact .here (isPhrase_call (l := Token.ofSymbol .leftParen) ht hf rfl (.intro hus _))
  · obtain ⟨l, hl, rfl⟩ := skip_eq_ok hskip
    exact (argumentList_viable hd hinside).after [l] fun us hus => isPhrase_call ht hf hl hus
termination_by 4 * ts.length + 3

end

/-! ## Parts of statements -/

/-- Tokens that are a condition in its parentheses. -/
def IsCondition (d : Dialect σ) (ts : List Token) : Prop :=
  ∃ l us, ts = l :: us ∧ l.IsSymbol .leftParen ∧ Closed (IsPhrase d 0) .rightParen us

theorem isCondition_of_reading (hd : d.Uniform) {us : List Token} {nodes : List (Node σ)}
    (h : reading (condition d ts) = .ok (nodes, us)) :
    ∃ used, ts = used ++ us ∧ IsCondition d used := by
  obtain ⟨l, used, p, c, rfl, hl, hp, hc, -⟩ := condition_sound hd h
  exact ⟨l :: used ++ [c], by simp, l, _, rfl, hl, used, c, rfl, ⟨p, hp⟩, hc⟩

/-- A phrase and its semicolon to complete a statement with. -/
theorem exists_closed_isPhrase (s : Symbol) : ∃ ts, Closed (IsPhrase d 0) s ts :=
  ⟨_, .intro (isPhrase_zero (Nat.zero_le _)) s⟩

theorem isStatement_return {t : Token} (ht : t.IsKeyword .return)
    (h : Closed (IsPhrase d 0) .semicolon ts) : IsStatement d (t :: ts) := by
  obtain ⟨us, e, rfl, ⟨p, hp⟩, he⟩ := h
  exact .return ht hp he

theorem isStatement_assign {t a : Token} (ht : t.kind = .identifier)
    (hname : d.resolver.contains t.text = false) (ha : a.IsSymbol .assign)
    (h : Closed (IsPhrase d 0) .semicolon ts) : IsStatement d (t :: a :: ts) := by
  obtain ⟨us, e, rfl, ⟨p, hp⟩, he⟩ := h
  exact .assign ht hname ha hp he

theorem isStatement_ifThen {t : Token} {us : List Token} (ht : t.IsKeyword .if)
    (hts : IsCondition d ts) (hus : IsBlock d us) : IsStatement d (t :: ts ++ us) := by
  obtain ⟨l, _, rfl, hl, vs, r, rfl, ⟨p, hp⟩, hr⟩ := hts
  simpa using IsStatement.ifThen ht hl hp hr hus

theorem isStatement_ifThenElse {t e : Token} {us vs : List Token} (ht : t.IsKeyword .if)
    (hts : IsCondition d ts) (hus : IsBlock d us) (he : e.IsKeyword .else) (hvs : IsBlock d vs) :
    IsStatement d (t :: ts ++ us ++ e :: vs) := by
  obtain ⟨l, _, rfl, hl, ws, r, rfl, ⟨p, hp⟩, hr⟩ := hts
  simpa using IsStatement.ifThenElse ht hl hp hr hus he hvs

theorem exists_isStatement : ∃ ts, IsStatement d ts := by
  obtain ⟨ts, hts⟩ := exists_closed_isPhrase (d := d) .semicolon
  exact ⟨_, isStatement_return (t := Token.ofKeyword .return) rfl hts⟩

/-- A phrase and its semicolon can be completed where they fail. -/
theorem phraseStatement_viable (hd : d.Uniform) {taker : Directive}
    (h : reading (phraseStatement d ts out taker) = .error r) :
    ViableUpTo (Closed (IsPhrase d 0) .semicolon) ts r.rest := by
  rw [reading_phraseStatement] at h
  rcases bind_eq_error h with hphrase | ⟨⟨inner, mid⟩, hphrase, hskip⟩
  · exact (phrase_viable hd hphrase).within [] _ fun us hus => .intro hus _
  · obtain ⟨used, p, rfl, hp, rfl⟩ := phrase_sound hd hphrase
    rw [rest_of_skip_eq_error (map_eq_error hskip)]
    exact .before _ (.intro ⟨p, hp⟩ _)

theorem condition_viable (hd : d.Uniform) (h : reading (condition d ts) = .error r) :
    ViableUpTo (IsCondition d) ts r.rest := by
  rw [reading_condition] at h
  rcases bind_eq_error h with hopen | ⟨inside, hopen, hinside⟩
  · obtain ⟨us, hus⟩ := exists_closed_isPhrase (d := d) .rightParen
    rw [rest_of_skip_eq_error hopen]
    exact .here ⟨Token.ofSymbol .leftParen, us, rfl, rfl, hus⟩
  obtain ⟨l, hl, rfl⟩ := skip_eq_ok hopen
  rcases bind_eq_error hinside with hphrase | ⟨⟨inner, mid⟩, hphrase, hskip⟩
  · exact (phrase_viable hd hphrase).within [l] _
      fun us hus => ⟨l, _, rfl, hl, .intro hus _⟩
  · obtain ⟨used, p, rfl, hp, rfl⟩ := phrase_sound hd hphrase
    rw [rest_of_skip_eq_error (map_eq_error hskip)]
    exact .before (l :: used) ⟨l, _, rfl, hl, .intro ⟨p, hp⟩ _⟩

/-- An assignment can be completed where it fails after the name. -/
theorem assignment_viable (hd : d.Uniform) {t : Token} {name : String}
    (ht : t.kind = .identifier) (hname : d.resolver.contains t.text = false)
    (h : reading (assignment d name ts out) = .error r) :
    ViableUpTo (fun us => IsStatement d (t :: us)) ts r.rest := by
  rw [reading_assignment] at h
  rcases bind_eq_error h with hsign | ⟨after, hsign, hafter⟩
  · obtain ⟨us, hus⟩ := exists_closed_isPhrase (d := d) .semicolon
    rw [rest_of_skip_eq_error hsign]
    exact .here (isStatement_assign (a := Token.ofSymbol .assign) ht hname rfl hus)
  · obtain ⟨a, ha, rfl⟩ := skip_eq_ok hsign
    exact (phraseStatement_viable hd hafter).after [a]
      fun us hus => isStatement_assign ht hname ha hus

/-! ## Statements -/

mutual

/-- **A statement can be completed where it fails.** -/
theorem statement_viable (hd : d.Uniform) {ts : List Token} {out : List (Node σ)} {r : Rejection}
    (h : reading (statement d ts out) = .error r) : ViableUpTo (IsStatement d) ts r.rest := by
  obtain ⟨us, hus⟩ := exists_isStatement (d := d)
  match ts with
  | [] =>
    rw [reading_statement_nil] at h
    cases h
    exact .here hus
  | t :: ts =>
    rcases statement_cases d t with ht | ht | ⟨ht, hname⟩ | ⟨ht, hname⟩ | ht
    · rw [reading_statement_if ht] at h
      rcases bind_eq_error h with hcond | ⟨⟨cond, afterCond⟩, hcond, hrest⟩
      · exact (condition_viable hd hcond).within [t] _
          fun vs hvs => isStatement_ifThen ht hvs (.single hus)
      have hcondLe : afterCond.length ≤ ts.length := length_le_of_reading hcond
      obtain ⟨condTs, rfl, hcondTs⟩ := isCondition_of_reading hd hcond
      rcases bind_eq_error hrest with hblock | ⟨⟨success, afterSuccess⟩, hblock, helse⟩
      · exact (block_viable hd hblock).after (t :: condTs)
          fun vs hvs => isStatement_ifThen ht hcondTs hvs
      have hblockLe : afterSuccess.length ≤ afterCond.length - 1 := length_le_of_reading hblock
      obtain ⟨blockTs, ss, dangling, rfl, hss, -⟩ := block_sound hd hblock
      obtain ⟨e, elseTs, rfl, he, hviable⟩ := alternative_viable hd (map_eq_error helse)
      rw [show t :: (condTs ++ (blockTs ++ e :: elseTs))
        = t :: condTs ++ blockTs ++ [e] ++ elseTs by simp]
      refine hviable.after _ fun vs hvs => ?_
      simpa using isStatement_ifThenElse ht hcondTs hss.isBlock he hvs
    · rw [reading_statement_return ht] at h
      exact (phraseStatement_viable hd h).after [t]
        fun vs hvs => isStatement_return ht hvs
    · rw [reading_statement_assign ht hname] at h
      exact (assignment_viable hd ht hname h).after [t] fun vs hvs => hvs
    · rw [reading_statement_function ht hname] at h
      cases h
      exact .here hus
    · rw [reading_statement_noStatement ht] at h
      cases h
      exact .here hus
termination_by 2 * ts.length

/-- What fails after the first block of a conditional is the block after
an `else`. -/
theorem alternative_viable (hd : d.Uniform) {ts : List Token} {r : Rejection}
    (h : alternative d ts = .error r) :
    ∃ e us, ts = e :: us ∧ e.IsKeyword .else ∧ ViableUpTo (IsBlock d) us r.rest := by
  match ts with
  | [] => cases h
  | e :: ts =>
    rw [alternative] at h
    split at h
    · rename_i he
      exact ⟨e, ts, rfl, he, block_viable hd (map_eq_error h)⟩
    · cases h
termination_by 2 * ts.length

/-- A block can be completed where it fails. -/
theorem block_viable (hd : d.Uniform) {ts : List Token} {r : Rejection}
    (h : reading (block d ts) = .error r) : ViableUpTo (IsBlock d) ts r.rest := by
  by_cases hbrace : ∀ t ∈ ts.head?, ¬ t.IsSymbol .leftBrace
  · rw [reading_block_statement hbrace] at h
    exact (statement_viable hd h).after [] fun us hus => .single hus
  · match ts, hbrace with
    | [], hbrace => simp at hbrace
    | l :: ts, hbrace =>
      have hl : l.IsSymbol .leftBrace := by simpa using hbrace
      rw [reading_block_brace hl] at h
      refine (statements_viable hd h).after [l] ?_
      rintro us ⟨vs, e, rfl, hvs, he⟩
      exact .braced hl hvs he
termination_by 2 * ts.length + 1

/-- Statements can be completed and closed where they fail. -/
theorem statements_viable (hd : d.Uniform) {ts : List Token} {out : List (Node σ)}
    {r : Rejection} (h : reading (statements d ts out) = .error r) :
    ViableUpTo (Closed (AreStatements d) .rightBrace) ts r.rest := by
  match ts with
  | [] =>
    rw [reading_statements_nil] at h
    cases h
    exact .here (.intro .nil _)
  | t :: ts =>
    by_cases ht : t.IsSymbol .rightBrace
    · rw [reading_statements_brace ht] at h
      cases h
    · rw [reading_statements_statement ht] at h
      rcases bind_eq_error h with hfirst | ⟨⟨nodes, after⟩, hfirst, hrest⟩
      · refine (statement_viable hd hfirst).within [] [Token.ofSymbol .rightBrace] fun us hus => ?_
        exact .intro (by simpa using AreStatements.cons hus .nil) _
      · have hle : after.length ≤ ts.length := length_le_of_reading hfirst
        obtain ⟨used, s, dangling, hts, hs, -⟩ := statement_sound hd hfirst
        rw [hts]
        refine (statements_viable hd hrest).after _ ?_
        rintro us ⟨vs, e, rfl, hvs, he⟩
        exact ⟨used ++ vs, e, by simp, .cons hs.isStatement hvs, he⟩
termination_by 2 * ts.length + 1

end

/-! ## Sources -/

theorem allStatements_viable (hd : d.Uniform) {ts : List Token} {out : List (Node σ)}
    {r : Rejection} (h : allStatements d ts out = .error r) :
    ViableUpTo (AreStatements d) ts r.rest := by
  match ts with
  | [] =>
    rw [allStatements] at h
    cases h
  | t :: ts =>
    rw [allStatements_cons] at h
    rcases bind_eq_error h with hfirst | ⟨⟨nodes, after⟩, hfirst, hrest⟩
    · exact (statement_viable hd hfirst).after []
        fun us hus => by simpa using AreStatements.cons hus .nil
    · have hle : after.length ≤ ts.length := length_le_of_reading hfirst
      obtain ⟨used, s, dangling, hts, hs, -⟩ := statement_sound hd hfirst
      rw [hts]
      exact (allStatements_viable hd hrest).after _ fun us hus => .cons hs.isStatement hus
termination_by ts.length

/-- Where the end is missing, all that was read is there. -/
theorem atEnd_eq_error {n : Nat} {p : Parsed σ n} (h : atEnd p = .error r) :
    r = ⟨.expected .endOfInput, p.rest, []⟩ := by
  obtain ⟨nodes, rest, hle⟩ := p
  cases rest <;> cases h
  rfl

theorem rest_of_atEnd_eq_error {n : Nat} {p : Parsed σ n} (h : atEnd p = .error r) :
    r.rest = p.rest := by
  rw [atEnd_eq_error h]

theorem topPhrase_viable (hd : d.Uniform) (h : topPhrase d ts = .error r) :
    ViableUpTo (IsPhrase d 0) ts r.rest := by
  rw [topPhrase] at h
  rcases bind_eq_error h with hphrase | ⟨p, hphrase, hend⟩
  · have hread : reading (phrase d ts []) = .error r := by rw [hphrase]; rfl
    exact phrase_viable hd hread
  · rw [rest_of_atEnd_eq_error hend]
    obtain ⟨nodes, rest, hle⟩ := p
    have hread : reading (phrase d ts []) = .ok (nodes, rest) := by rw [hphrase]; rfl
    obtain ⟨used, q, rfl, hq, -⟩ := phrase_sound hd hread
    exact ⟨used, rfl, [], q, by simpa using hq⟩

theorem topBlock_viable (hd : d.Uniform) (h : topBlock d ts = .error r) :
    ViableUpTo (IsProgram d) ts r.rest := by
  by_cases hbrace : ∀ t ∈ ts.head?, ¬ t.IsSymbol .leftBrace
  · rw [topBlock_statements hbrace] at h
    exact (allStatements_viable hd h).after [] fun us hus => .bare hus
  · match ts, hbrace with
    | [], hbrace => simp at hbrace
    | l :: ts, hbrace =>
      have hl : l.IsSymbol .leftBrace := by simpa using hbrace
      have close {us : List Token} (hus : Closed (AreStatements d) .rightBrace us) :
          IsProgram d (l :: us) := by
        obtain ⟨vs, e, rfl, hvs, he⟩ := hus
        exact .braced hl hvs he
      rw [topBlock_brace hl] at h
      rcases bind_eq_error h with hstatements | ⟨p, hstatements, hend⟩
      · have hread : reading (statements d ts []) = .error r := by rw [hstatements]; rfl
        exact (statements_viable hd hread).after [l] fun us hus => close hus
      · rw [rest_of_atEnd_eq_error hend]
        obtain ⟨nodes, rest, hle⟩ := p
        have hread : reading (statements d ts []) = .ok (nodes, rest) := by rw [hstatements]; rfl
        obtain ⟨used, e, ss, rfl, hss, he, -⟩ := statements_sound hd hread
        have hprogram := close ⟨used, e, rfl, hss.areStatements, he⟩
        exact ⟨l :: used ++ [e], by simp, [], by simpa using hprogram⟩

end Parser

/-! ## Rejections -/

/-- The tokens are accepted as a source of the form. -/
def SourceForm.Accepts (d : Dialect σ) (form : SourceForm) (ts : List Token) : Prop :=
  ∃ nodes, form.parse d ts = .ok nodes

/-- What was read before a failure can be completed to a source. -/
theorem SourceForm.viable_of_parse_eq_error (hd : d.Uniform) {form : SourceForm}
    {ts : List Token} {r : Rejection} (h : form.parse d ts = .error r) :
    ViableUpTo (form.Accepts d) ts r.rest := by
  cases form with
  | phrase =>
    refine (Parser.topPhrase_viable hd h).after [] ?_
    rintro us ⟨p, hp⟩
    exact ⟨_, Parser.topPhrase_of_phraseOf hd hp⟩
  | block =>
    refine (Parser.topBlock_viable hd h).after [] fun us hus => ?_
    obtain ⟨ss, hss⟩ := exists_programOf_iff.mpr hus
    exact ⟨_, Parser.topBlock_of_programOf hd hss⟩

/-- **A rejection points at the first impossible token.** The tokens before
the one it points at can be completed to a source that is accepted, and
with that token they cannot; if it points at none, all tokens can, though
they are no source yet. -/
theorem SourceForm.rejected_at_first_fault (resolver : Resolver σ) (form : SourceForm)
    (ts : List Token) (r : Rejection)
    (h : form.parse ⟨resolver, BinaryOp.isRightAssoc⟩ ts = .error r) :
    let accepts := form.Accepts ⟨resolver, BinaryOp.isRightAssoc⟩
    ¬ accepts ts ∧ ∃ i ≤ ts.length, r.rest = ts.drop i ∧
      r.toError.main.location = ts[i]?.map (·.location) ∧ Viable accepts (ts.take i) ∧
        (i < ts.length → ¬ Viable accepts (ts.take (i + 1))) := by
  intro accepts
  obtain ⟨read, hts, hviable⟩ := viable_of_parse_eq_error (BinaryOp.uniform_isRightAssoc _) h
  have hrest : r.rest = ts.drop read.length := by simp [hts]
  refine ⟨?_, read.length, by simp [hts], hrest, ?_, by simpa [hts] using hviable, ?_⟩
  · rintro ⟨nodes, hnodes⟩
    rw [h] at hnodes
    cases hnodes
  · change r.rest.head?.map _ = _
    rw [hrest, List.head?_drop]
  · rintro hlt ⟨more, nodes, hnodes⟩
    obtain ⟨read', hts', hstays⟩ := parse_eq_error h
    obtain rfl : read = read' := List.append_cancel_right (hts.symm.trans hts')
    obtain ⟨t, us, hus⟩ : ∃ t us, r.rest = t :: us :=
      List.exists_cons_of_ne_nil (by rw [hrest]; simpa using hlt)
    -- the token at fault is the last one that is taken
    have htake : ts.take (read.length + 1) ++ more = read ++ t :: more := by
      rw [hts, hus]
      simp [List.take_append, List.take_of_length_le]
    rw [htake, hstays t us hus more] at hnodes
    cases hnodes

/-- The program `if (x) { y = max(1; }`, in which the second argument is
missing before the semicolon. -/
theorem SourceForm.rejected_at_first_fault_argument :
    let word (text : String) : Token := ⟨.identifier, text, .start⟩
    let one : Token := ⟨.number (.integer 1), "1", .start⟩
    let read := [Token.ofKeyword .if, Token.ofSymbol .leftParen, word "x",
      Token.ofSymbol .rightParen, Token.ofSymbol .leftBrace, word "y", Token.ofSymbol .assign,
      word "max", Token.ofSymbol .leftParen, one]
    let rest := [Token.ofSymbol .semicolon, Token.ofSymbol .rightBrace]
    let r : Rejection := ⟨.expected .commaAfterArgument, rest, [⟨"max", word "max"⟩]⟩
    let d : Dialect Unit := ⟨.math, BinaryOp.isRightAssoc⟩
    SourceForm.parse .block d (read ++ rest) = .error r ∧
      Viable (SourceForm.Accepts d .block) read ∧
      ¬ Viable (SourceForm.Accepts d .block) (read ++ [Token.ofSymbol .semicolon]) := by
  intro word one read rest r d
  have h : SourceForm.parse .block d (read ++ rest) = .error r :=
    Parser.eq_error_of_failure? (by decide +kernel)
  obtain ⟨-, i, -, hi, -, hviable, hfault⟩ :=
    SourceForm.rejected_at_first_fault .math .block (read ++ rest) r h
  obtain rfl : i = 10 := by
    have hlength : rest.length = (read ++ rest).length - i := by
      rw [← List.length_drop, ← hi]
    simp only [read, rest, List.length_append, List.length_cons, List.length_nil] at hlength
    omega
  exact ⟨h, hviable, hfault (by decide)⟩

end ScalarLang
