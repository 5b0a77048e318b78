import ScalarLang.Proofs.Parsing.Sources
/-!
# One token ahead

What a parser does up to the token where it stops, be it that it is done
or that it fails there, depends on no token after that one: with other
tokens in their place it stops at the same token in the same way
(`LooksOneAhead`). Readers of which this holds are put together from
others (`LooksOneAhead.bind`), and so it holds of the whole parser.
-/

namespace ScalarLang

namespace Parser

variable {σ α β : Type} {d : Dialect σ}

/-! ## Readers -/

/-- The tokens left where reading stops. -/
def left : Except Rejection (α × List Token) → List Token
  | .ok (_, us) => us
  | .error r => r.rest

/-- The same result with other tokens left. -/
def leaving (us : List Token) :
    Except Rejection (α × List Token) → Except Rejection (α × List Token)
  | .ok (a, _) => .ok (a, us)
  | .error r => .error { r with rest := us }

@[simp] theorem left_leaving (us : List Token) (r : Except Rejection (α × List Token)) :
    left (leaving us r) = us := by
  cases r <;> rfl

/-- **A reader looks one token ahead**: what it reads of the tokens, and how
it stops, is settled by those that it reads and the one after them. -/
def LooksOneAhead (f : List Token → Except Rejection (α × List Token)) (ts : List Token) : Prop :=
  ∃ read, ts = read ++ left (f ts) ∧
    ∀ t us, left (f ts) = t :: us → ∀ more, f (read ++ t :: more) = leaving (t :: more) (f ts)

namespace LooksOneAhead

variable {f g : List Token → Except Rejection (α × List Token)} {t : Token} {ts : List Token}

/-- After the end there is nothing to look at. -/
theorem nil (h : left (f []) = []) : LooksOneAhead f [] :=
  ⟨[], by rw [h]; rfl, fun t us hleft => by rw [h] at hleft; cases hleft⟩

/-- A reader may stop at once for what the first token is. -/
theorem stop (h : ∀ us, f (t :: us) = leaving (t :: us) (f (t :: ts))) :
    LooksOneAhead f (t :: ts) := by
  have hleft : left (f (t :: ts)) = t :: ts := by
    rw [h ts]
    exact left_leaving _ _
  refine ⟨[], by rw [hleft]; rfl, fun u us hus more => ?_⟩
  rw [hleft] at hus
  cases hus
  exact h more

/-- It may go on, for what the first token is, as another one does from
there. -/
theorem step (h : ∀ us, f (t :: us) = g us) (hg : LooksOneAhead g ts) :
    LooksOneAhead f (t :: ts) := by
  obtain ⟨read, hts, hread⟩ := hg
  refine ⟨t :: read, ?_, fun u us hus more => ?_⟩
  · rw [h ts, List.cons_append, ← hts]
  · rw [h ts] at hus ⊢
    rw [List.cons_append, h]
    exact hread u us hus more

/-- It may, for what the first token is, do all that another one does. -/
theorem congr (h : ∀ us, f (t :: us) = g (t :: us)) (hg : LooksOneAhead g (t :: ts)) :
    LooksOneAhead f (t :: ts) := by
  obtain ⟨read, hts, hread⟩ := hg
  rw [← h ts] at hts hread
  refine ⟨read, hts, fun u us hus more => ?_⟩
  rw [← hread u us hus more]
  -- the first token stays the first, whether it was read or looked at
  cases read with
  | nil =>
    rw [hus] at hts
    cases hts
    exact h more
  | cons v read =>
    obtain ⟨rfl, -⟩ := List.cons.inj hts
    exact h _

/-- A reader that reads nothing. -/
theorem pure (a : α) : LooksOneAhead (fun ts => .ok (a, ts)) ts :=
  ⟨[], rfl, fun _ _ _ _ => rfl⟩

/-- **One reader after another.** If the second one reads on, it reads the
token that the first one looked at. -/
theorem bind {k : α × List Token → Except Rejection (β × List Token)} (hf : LooksOneAhead f ts)
    (hk : ∀ a us, f ts = .ok (a, us) → LooksOneAhead (fun us => k (a, us)) us) :
    LooksOneAhead (fun ts => (f ts).bind k) ts := by
  obtain ⟨read, hts, hread⟩ := hf
  cases hfirst : f ts with
  | error r =>
    rw [hfirst] at hts hread
    refine ⟨read, ?_, fun t us hus more => ?_⟩
    · simp only [hfirst, Except.bind]
      exact hts
    · simp only [hfirst, Except.bind] at hus ⊢
      simp [hread t us hus more, leaving]
  | ok p =>
    obtain ⟨a, vs⟩ := p
    obtain ⟨read', hvs, hread'⟩ := hk a vs hfirst
    rw [hfirst] at hts hread
    simp only [left] at hts hread
    refine ⟨read ++ read', ?_, fun t us hus more => ?_⟩
    · simp only [hfirst, Except.bind, List.append_assoc]
      rw [← hvs]
      exact hts
    · simp only [hfirst, Except.bind] at hus ⊢
      have hsecond := hread' t us hus more
      rw [hus] at hvs
      cases read' with
      | nil =>
        simp only [List.append_nil, hread t us hvs more, leaving]
        exact hsecond
      | cons v read' =>
        simp only [List.append_assoc, List.cons_append]
        rw [hread v _ hvs]
        exact hsecond

theorem map (hf : LooksOneAhead f ts) (k : α → β) :
    LooksOneAhead (fun ts => (f ts).map fun p => (k p.1, p.2)) ts := by
  obtain ⟨read, hts, hread⟩ := hf
  have hmap (r : Except Rejection (α × List Token)) :
      left (r.map fun p => (k p.1, p.2)) = left r := by
    cases r <;> rfl
  refine ⟨read, by rwa [hmap], fun t us hus more => ?_⟩
  rw [hmap] at hus
  simp only [hread t us hus more]
  cases f ts <;> rfl

/-- The calls around a failure say nothing of the tokens. -/
theorem within (hf : LooksOneAhead f ts) (call : OpenCall) :
    LooksOneAhead (fun ts => (f ts).mapError (·.within call)) ts := by
  obtain ⟨read, hts, hread⟩ := hf
  have hmap (r : Except Rejection (α × List Token)) :
      left (r.mapError (·.within call)) = left r := by
    cases r <;> rfl
  refine ⟨read, by rwa [hmap], fun t us hus more => ?_⟩
  rw [hmap] at hus
  simp only [hread t us hus more]
  cases f ts <;> rfl

/-- An expected token is looked at, and passed if it is there. -/
theorem skip {kind : TokenKind} {what : Expectation}
    {k : List Token → Except Rejection (β × List Token)}
    (hk : ∀ u us, ts = u :: us → LooksOneAhead k us) :
    LooksOneAhead (fun ts => (Parser.skip kind what ts).bind k) ts := by
  cases ts with
  | nil => exact nil rfl
  | cons t ts =>
    by_cases ht : t.kind = kind
    · exact step (fun us => by rw [skip_cons ht]; rfl) (hk t ts rfl)
    · exact stop fun us => by simp [Parser.skip, ht, Except.bind, leaving]

theorem skipTo {kind : TokenKind} {what : Expectation} (a : β) :
    LooksOneAhead (fun ts => (Parser.skip kind what ts).map (a, ·)) ts :=
  skip fun _ _ _ => pure a

end LooksOneAhead

/-! ## Phrases -/

theorem left_ending_nil (ops : List PendingOp) (e : Emitted σ) : left (ending [] ops e) = [] := by
  unfold ending
  cases Emitted.finish? ops e <;> rfl

theorem ending_eq_leaving (us ts : List Token) (ops : List PendingOp) (e : Emitted σ) :
    ending us ops e = leaving us (ending ts ops e) := by
  unfold ending
  cases Emitted.finish? ops e <;> rfl

mutual

/-- The rest of a phrase. -/
theorem phraseRest_looksOneAhead (ts : List Token) (ops : List PendingOp) (e : Emitted σ)
    (b : Bool) : LooksOneAhead (fun ts => reading (phraseRest d ts ops e b)) ts := by
  match ts, b with
  | [], b => exact .nil (by rw [reading_phraseRest_nil, left_ending_nil])
  | t :: ts, true =>
    rcases operand_cases d t with
      ⟨v, ht⟩ | ⟨op, ht⟩ | ht | ⟨ht, f, hf⟩ | ⟨ht, hname⟩ | ht
    · exact .step (fun us => reading_phraseRest_literal ht) (phraseRest_looksOneAhead ts _ _ _)
    · exact .step (fun us => reading_phraseRest_unary ht) (phraseRest_looksOneAhead ts _ _ _)
    · refine .step (fun us => reading_phraseRest_parenthesis ht)
        ((phrase_looksOneAhead ts _).bind fun inner us hus => .skip fun u vs hvs => ?_)
      have hle : us.length ≤ ts.length := length_le_of_reading hus
      have hlt : vs.length < us.length := by simp [hvs]
      exact phraseRest_looksOneAhead vs _ _ _
    · refine .step (fun us => reading_phraseRest_call ht hf)
        ((call_looksOneAhead t f ts _).bind fun inner us hus => ?_)
      have hle : us.length ≤ ts.length := length_le_of_reading hus
      exact phraseRest_looksOneAhead us _ _ _
    · exact .step (fun us => reading_phraseRest_variable ht hname)
        (phraseRest_looksOneAhead ts _ _ _)
    · exact .stop fun us => by
        rw [reading_phraseRest_noOperand ht, reading_phraseRest_noOperand ht, ending_eq_leaving]
  | t :: ts, false =>
    cases ht : t.kind.binaryOp? with
    | none =>
      exact .stop fun us => by
        rw [reading_phraseRest_noBinary ht, reading_phraseRest_noBinary ht, ending_eq_leaving]
    | some op =>
      cases hreduce : Emitted.reduce? d op ops e with
      | none =>
        exact .stop fun us => by
          rw [reading_phraseRest_binary ht, reading_phraseRest_binary ht, hreduce]
          rfl
      | some state =>
        exact .step (fun us => by rw [reading_phraseRest_binary ht, hreduce])
          (phraseRest_looksOneAhead ts _ _ _)
termination_by 4 * ts.length

/-- **A phrase.** -/
theorem phrase_looksOneAhead (ts : List Token) (out : List (Node σ)) :
    LooksOneAhead (fun ts => reading (phrase d ts out)) ts := by
  simp only [reading_phrase]
  exact phraseRest_looksOneAhead ts _ _ _
termination_by 4 * ts.length + 1

/-- The arguments of a function. -/
theorem argumentList_looksOneAhead (n : Nat) (ts : List Token) (out : List (Node σ)) :
    LooksOneAhead (fun ts => argumentList d n ts out) ts := by
  match n with
  | 0 => exact .skipTo out
  | 1 =>
    simp only [argumentList_one]
    exact (phrase_looksOneAhead ts out).bind fun argument us _ => .skipTo argument
  | n + 2 =>
    simp only [argumentList_more]
    refine (phrase_looksOneAhead ts out).bind fun argument us hus => .skip fun u vs hvs => ?_
    have hle : us.length ≤ ts.length := length_le_of_reading hus
    have hlt : vs.length < us.length := by simp [hvs]
    exact argumentList_looksOneAhead (n + 1) vs argument
termination_by 4 * ts.length + 2

/-- A call after the name of the function. -/
theorem call_looksOneAhead (t : Token) (f : NativeFunction σ) (ts : List Token)
    (out : List (Node σ)) : LooksOneAhead (fun ts => reading (call d t f ts out)) ts := by
  simp only [reading_call]
  refine ((LooksOneAhead.skip fun u us hus => ?_).within ⟨f.name, t⟩).map
    fun nodes => nodes ++ [Node.call f]
  have hlt : us.length < ts.length := by simp [hus]
  exact argumentList_looksOneAhead f.arity us out
termination_by 4 * ts.length + 3

end

/-! ## Statements -/

theorem phraseStatement_looksOneAhead (ts : List Token) (out : List (Node σ)) (taker : Directive) :
    LooksOneAhead (fun ts => reading (phraseStatement d ts out taker)) ts := by
  simp only [reading_phraseStatement]
  exact (phrase_looksOneAhead ts out).bind fun p _ _ => .skipTo (p ++ [.directive taker])

theorem condition_looksOneAhead (ts : List Token) :
    LooksOneAhead (fun ts => reading (condition d ts)) ts := by
  simp only [reading_condition]
  exact .skip fun _ us _ => (phrase_looksOneAhead us []).bind fun p _ _ => .skipTo p

theorem assignment_looksOneAhead (name : String) (ts : List Token) (out : List (Node σ)) :
    LooksOneAhead (fun ts => reading (assignment d name ts out)) ts := by
  simp only [reading_assignment]
  exact .skip fun _ us _ => phraseStatement_looksOneAhead us out _

mutual

/-- **A statement.** -/
theorem statement_looksOneAhead (ts : List Token) (out : List (Node σ)) :
    LooksOneAhead (fun ts => reading (statement d ts out)) ts := by
  match ts with
  | [] => exact .nil (by rw [reading_statement_nil]; rfl)
  | t :: ts =>
    rcases statement_cases d t with ht | ht | ⟨ht, hname⟩ | ⟨ht, hname⟩ | ht
    · refine .step (fun us => reading_statement_if ht)
        ((condition_looksOneAhead ts).bind fun condition us hus => ?_)
      have hcondition : us.length ≤ ts.length := length_le_of_reading hus
      refine (block_looksOneAhead us).bind fun success vs hvs => ?_
      have hsuccess : vs.length ≤ us.length - 1 := length_le_of_reading hvs
      exact (alternative_looksOneAhead vs).map
        fun failure => out ++ [.branch condition success failure]
    · exact .step (fun us => reading_statement_return ht) (phraseStatement_looksOneAhead ts out _)
    · exact .step (fun us => reading_statement_assign ht hname) (assignment_looksOneAhead _ ts out)
    · exact .stop fun us => by
        rw [reading_statement_function ht hname, reading_statement_function ht hname]
        rfl
    · exact .stop fun us => by
        rw [reading_statement_noStatement ht, reading_statement_noStatement ht]
        rfl
termination_by 2 * ts.length

/-- What follows the first block of a conditional. -/
theorem alternative_looksOneAhead (ts : List Token) : LooksOneAhead (alternative d) ts := by
  match ts with
  | [] => exact .nil rfl
  | t :: ts =>
    by_cases ht : t.kind = .keyword .else
    · exact .step (fun us => by rw [alternative, if_pos ht])
        ((block_looksOneAhead ts).map some)
    · exact .stop fun us => by
        rw [alternative, alternative, if_neg ht, if_neg ht]
        rfl
termination_by 2 * ts.length

/-- A block. -/
theorem block_looksOneAhead (ts : List Token) :
    LooksOneAhead (fun ts => reading (block d ts)) ts := by
  match ts with
  | [] =>
    exact .nil (by rw [reading_block_statement (by simp), reading_statement_nil]; rfl)
  | t :: ts =>
    by_cases ht : t.IsSymbol .leftBrace
    · exact .step (fun us => reading_block_brace ht) (statements_looksOneAhead ts [])
    · exact .congr (fun us => reading_block_statement (by simpa using ht))
        (statement_looksOneAhead (t :: ts) [])
termination_by 2 * ts.length + 1

/-- Statements up to the brace that closes them. -/
theorem statements_looksOneAhead (ts : List Token) (out : List (Node σ)) :
    LooksOneAhead (fun ts => reading (statements d ts out)) ts := by
  match ts with
  | [] => exact .nil (by rw [reading_statements_nil]; rfl)
  | t :: ts =>
    by_cases ht : t.IsSymbol .rightBrace
    · exact .step (fun us => reading_statements_brace ht) (.pure out)
    · refine .congr (fun us => reading_statements_statement ht)
        ((statement_looksOneAhead (t :: ts) out).bind fun nodes us hus => ?_)
      have hle : us.length ≤ ts.length := length_le_of_reading hus
      exact statements_looksOneAhead us nodes
termination_by 2 * ts.length + 1

end

/-! ## Sources -/

/-- What is read of a source as a whole leaves no tokens. -/
def whole (r : Except Rejection (List (Node σ))) : Except Rejection (List (Node σ) × List Token) :=
  r.map (·, [])

theorem whole_atEnd {n : Nat} (r : Except Rejection (Parsed σ n)) :
    whole (r.bind atEnd) = (reading r).bind fun p =>
      match p.2 with
      | [] => .ok (p.1, [])
      | t :: us => .error ⟨.expected .endOfInput, t :: us, []⟩ := by
  cases r with
  | error r => rfl
  | ok p =>
    obtain ⟨nodes, rest, hle⟩ := p
    cases rest <;> rfl

/-- A reader that has to come to the end looks at the token that is there
instead. -/
theorem LooksOneAhead.atEnd {n : List Token → Nat} {ts : List Token}
    {f : (ts : List Token) → Except Rejection (Parsed σ (n ts))}
    (hf : LooksOneAhead (fun ts => reading (f ts)) ts) :
    LooksOneAhead (fun ts => whole ((f ts).bind Parser.atEnd)) ts := by
  simp only [whole_atEnd]
  refine hf.bind fun nodes us _ => ?_
  cases us with
  | nil => exact .nil rfl
  | cons t us => exact .stop fun _ => rfl

theorem allStatements_looksOneAhead (ts : List Token) (out : List (Node σ)) :
    LooksOneAhead (fun ts => whole (allStatements d ts out)) ts := by
  match ts with
  | [] => exact .nil (by rw [allStatements]; rfl)
  | t :: ts =>
    refine .congr (g := fun ts => (reading (statement d ts out)).bind fun s =>
      whole (allStatements d s.2 s.1)) (fun us => ?_)
      ((statement_looksOneAhead (t :: ts) out).bind fun nodes us hus => ?_)
    · rw [allStatements_cons]
      cases reading (statement d (t :: us) out) <;> rfl
    · have hle : us.length ≤ ts.length := length_le_of_reading hus
      exact allStatements_looksOneAhead us nodes
termination_by ts.length

theorem topBlock_looksOneAhead (ts : List Token) :
    LooksOneAhead (fun ts => whole (topBlock d ts)) ts := by
  match ts with
  | [] => exact .nil (by rw [topBlock_statements (by simp), allStatements]; rfl)
  | t :: ts =>
    by_cases ht : t.IsSymbol .leftBrace
    · exact .step (fun us => by rw [topBlock_brace ht]) (statements_looksOneAhead ts []).atEnd
    · exact .congr (fun us => by rw [topBlock_statements (by simpa using ht)])
        (allStatements_looksOneAhead (t :: ts) [])

end Parser

/-- **A failure is not mended by what follows.** Tokens that are rejected at
one of them are rejected there whatever comes after it. -/
theorem SourceForm.parse_eq_error {σ : Type} {d : Dialect σ} {form : SourceForm} {ts : List Token}
    {r : Rejection} (h : form.parse d ts = .error r) :
    ∃ read, ts = read ++ r.rest ∧ ∀ t us, r.rest = t :: us →
      ∀ more, form.parse d (read ++ t :: more) = .error { r with rest := t :: more } := by
  have hlooks : Parser.LooksOneAhead (fun ts => Parser.whole (form.parse d ts)) ts := by
    cases form with
    | phrase => exact (Parser.phrase_looksOneAhead ts []).atEnd
    | block => exact Parser.topBlock_looksOneAhead ts
  obtain ⟨read, hts, hread⟩ := hlooks
  simp only [h] at hts hread
  refine ⟨read, hts, fun t us hus more => ?_⟩
  have hmore := hread t us hus more
  cases hparse : form.parse d (read ++ t :: more) with
  | ok nodes =>
    rw [hparse] at hmore
    cases hmore
  | error r' =>
    rw [hparse] at hmore
    injection hmore with hmore
    rw [hmore]

end ScalarLang
