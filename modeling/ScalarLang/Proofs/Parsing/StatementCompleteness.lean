import ScalarLang.Proofs.Parsing.PhraseCompleteness
import ScalarLang.Proofs.Parsing.StatementReading
/-!
# Every statement is read

A derived statement is read whatever follows it, unless that is an `else`
which the statement would take; a derivation tells whether it would. After
a statement comes another one, a brace or nothing, and so never an `else`.
-/

namespace ScalarLang

/-! ## First tokens -/

theorem Token.StartsStatement.not_isSymbol {t : Token} (h : t.StartsStatement) (s : Symbol) :
    ¬ t.IsSymbol s := by
  intro hs
  rcases h with h | h | h
  · cases hs.symm.trans h
  · cases hs.symm.trans h
  · cases hs.symm.trans h

theorem Token.StartsStatement.not_else {t : Token} (h : t.StartsStatement) :
    ¬ t.IsKeyword .else := by
  intro he
  rcases h with h | h | h
  · cases he.symm.trans h
  · cases he.symm.trans h
  · cases he.symm.trans h

variable {σ : Type} {d : Dialect σ}

theorem StatementOf.starts {dangling : Bool} {ts : List Token} {s : Statement σ}
    (h : StatementOf d dangling ts s) : ∃ t us, ts = t :: us ∧ t.StartsStatement := by
  cases h with
  | «return» ht => exact ⟨_, _, rfl, .inr (.inl ht)⟩
  | assign ht => exact ⟨_, _, rfl, .inr (.inr ht)⟩
  | ifThen ht => exact ⟨_, _, rfl, .inl ht⟩
  | ifThenElse ht => exact ⟨_, _, rfl, .inl ht⟩

/-- Statements start with one, if there are any. -/
theorem StatementsOf.starts {ts : List Token} {ss : List (Statement σ)}
    (h : StatementsOf d ts ss) : ∀ t ∈ ts.head?, t.StartsStatement := by
  cases h with
  | nil => simp
  | cons hs _ =>
    obtain ⟨t, us, rfl, ht⟩ := hs.starts
    simpa using ht

namespace Parser

/-! ## Parts of statements -/

theorem reading_phraseStatement_of_phraseOf (hd : d.Uniform) {ts rest : List Token}
    {p : Phrase σ} {e : Token} (hp : PhraseOf d 0 ts p) (he : e.IsSymbol .semicolon)
    (out : List (Node σ)) (taker : Directive) :
    reading (phraseStatement d (ts ++ e :: rest) out taker)
      = .ok (out ++ (p.nodes ++ [.directive taker]), rest) := by
  rw [reading_phraseStatement, (readsAs_of_phraseOf hd hp).reading_phrase_upTo he rfl]
  simp [Except.bind, Except.map, skip_cons he]

theorem reading_condition_of_phraseOf (hd : d.Uniform) {ts rest : List Token} {p : Phrase σ}
    {l r : Token} (hl : l.IsSymbol .leftParen) (hp : PhraseOf d 0 ts p)
    (hr : r.IsSymbol .rightParen) :
    reading (condition d (l :: (ts ++ r :: rest))) = .ok (p.nodes, rest) := by
  have hphrase : reading (phrase d (ts ++ r :: rest) []) = .ok ([] ++ p.nodes, r :: rest) :=
    (readsAs_of_phraseOf hd hp).reading_phrase_upTo hr rfl []
  rw [reading_condition, skip_cons hl]
  simp [Except.bind, Except.map, hphrase, skip_cons hr]

/-- No `else`, no second block. -/
theorem alternative_of_noElse {ts : List Token} (h : NoElse ts) :
    alternative d ts = .ok (none, ts) := by
  cases ts with
  | nil => rfl
  | cons t ts =>
    have ht : t.kind ≠ .keyword .else := h t rfl
    simp [alternative, ht]

/-! ## Derivations -/

/-- Tokens are read as a statement. -/
def ReadAsStatement (d : Dialect σ) (dangling : Bool) (ts : List Token) (s : Statement σ) : Prop :=
  ∀ (out : List (Node σ)) (rest : List Token), (dangling = true → NoElse rest) →
    reading (statement d (ts ++ rest) out) = .ok (out ++ s.nodes, rest)

/-- Tokens are read as a block. -/
def ReadAsBlock (d : Dialect σ) (dangling : Bool) (ts : List Token) (ss : List (Statement σ)) :
    Prop :=
  ∀ rest : List Token, (dangling = true → NoElse rest) →
    reading (block d (ts ++ rest)) = .ok (Statement.allNodes ss, rest)

/-- Tokens are read as statements, up to a brace or to their end. -/
structure ReadAsStatements (d : Dialect σ) (ts : List Token) (ss : List (Statement σ)) :
    Prop where
  upToBrace : ∀ (out : List (Node σ)) (r : Token) (rest : List Token), r.IsSymbol .rightBrace →
    reading (statements d (ts ++ r :: rest) out) = .ok (out ++ Statement.allNodes ss, rest)
  upToEnd : ∀ out : List (Node σ), allStatements d ts out = .ok (out ++ Statement.allNodes ss)

/-- No statement goes on with what follows it among statements. -/
theorem noElse_of_statementsOf {ts rest : List Token} {ss : List (Statement σ)}
    (h : StatementsOf d ts ss) (hrest : NoElse rest) : NoElse (ts ++ rest) := by
  have hstarts := h.starts
  cases ts with
  | nil => exact hrest
  | cons t ts =>
    intro u hu
    obtain rfl : t = u := by simpa using hu
    exact (hstarts t rfl).not_else

/-- **Every statement is read**, and so are all blocks and lists of
statements. -/
theorem readAsStatements_of_statementsOf (hd : d.Uniform) {ts : List Token}
    {ss : List (Statement σ)} (h : StatementsOf d ts ss) : ReadAsStatements d ts ss := by
  induction h using StatementsOf.rec
    (motive_1 := fun dangling ts s _ => ReadAsStatement d dangling ts s)
    (motive_2 := fun dangling ts ss _ => ReadAsBlock d dangling ts ss) with
  | @«return» t e ts p ht hp he =>
    intro out rest _
    rw [show t :: ts ++ [e] ++ rest = t :: (ts ++ e :: rest) by simp,
      reading_statement_return ht]
    exact reading_phraseStatement_of_phraseOf hd hp he out .return
  | @assign t a e ts p ht hname ha hp he =>
    intro out rest _
    rw [show t :: a :: ts ++ [e] ++ rest = t :: a :: (ts ++ e :: rest) by simp,
      reading_statement_assign ht hname, reading_assignment, skip_cons ha]
    exact reading_phraseStatement_of_phraseOf hd hp he out (.store t.text)
  | @ifThen t l r ts us p ss dangling ht hl hp hr _ ih =>
    intro out rest hrest
    have hnone : NoElse rest := hrest rfl
    rw [show t :: l :: ts ++ r :: us ++ rest = t :: l :: (ts ++ r :: (us ++ rest)) by simp,
      reading_statement_if ht, reading_condition_of_phraseOf hd hl hp hr]
    simp only [Except.bind]
    rw [ih rest fun _ => hnone]
    simp only [alternative_of_noElse hnone]
    rfl
  | @ifThenElse t l r e ts us vs p ss fs dangling ht hl hp hr _ he _ ihs ihf =>
    intro out rest hrest
    rw [show t :: l :: ts ++ r :: us ++ e :: vs ++ rest
        = t :: l :: (ts ++ r :: (us ++ e :: (vs ++ rest))) by simp,
      reading_statement_if ht, reading_condition_of_phraseOf hd hl hp hr]
    simp only [Except.bind]
    -- the first block takes no `else`, so that this one is left for the conditional
    rw [ihs (e :: (vs ++ rest)) nofun]
    simp only [alternative, show e.kind = .keyword .else from he, if_true, ihf rest hrest]
    rfl
  | @single dangling ts s hs ih =>
    intro rest hrest
    obtain ⟨t, us, rfl, ht⟩ := hs.starts
    rw [reading_block_statement (by simpa using ht.not_isSymbol .leftBrace), ih [] rest hrest]
    simp [Statement.allNodes]
  | @braced l r ts ss hl _ hr ih =>
    intro rest _
    rw [show l :: ts ++ [r] ++ rest = l :: (ts ++ r :: rest) by simp, reading_block_brace hl]
    simpa using ih.upToBrace [] r rest hr
  | nil =>
    refine ⟨fun out r rest hr => ?_, fun out => ?_⟩
    · rw [List.nil_append, reading_statements_brace hr]
      simp [Statement.allNodes]
    · simp [allStatements, Statement.allNodes]
  | @cons dangling ts us s ss hs hss ihs ihss =>
    obtain ⟨t, ts, rfl, ht⟩ := hs.starts
    refine ⟨fun out r rest hr => ?_, fun out => ?_⟩
    · have hnone : NoElse (us ++ r :: rest) := by
        refine noElse_of_statementsOf hss fun u hu => ?_
        obtain rfl : r = u := by simpa using hu
        exact fun he => by cases hr.symm.trans he
      have hread := ihs out (us ++ r :: rest) fun _ => hnone
      rw [show t :: ts ++ us ++ r :: rest = t :: (ts ++ (us ++ r :: rest)) by simp,
        reading_statements_statement (ht.not_isSymbol .rightBrace)]
      rw [List.cons_append] at hread
      simp only [hread, Except.bind, ihss.upToBrace _ r rest hr]
      simp [Statement.allNodes]
    · have hnone : NoElse (us ++ []) := noElse_of_statementsOf hss (by simp [NoElse])
      have hread := ihs out (us ++ []) fun _ => hnone
      rw [List.cons_append, List.append_nil] at hread
      rw [List.cons_append, allStatements_cons]
      simp only [hread, Except.bind, ihss.upToEnd]
      simp [Statement.allNodes]

/-- **Every program is accepted**, with the nodes of its statements. -/
theorem topBlock_of_programOf (hd : d.Uniform) {ts : List Token} {ss : List (Statement σ)}
    (h : ProgramOf d ts ss) : topBlock d ts = .ok (Statement.allNodes ss) := by
  cases h with
  | bare hss =>
    rw [topBlock_statements fun t ht => (hss.starts t ht).not_isSymbol .leftBrace]
    simpa using (readAsStatements_of_statementsOf hd hss).upToEnd []
  | @braced l r ts _ hl hss hr =>
    have hread := (readAsStatements_of_statementsOf hd hss).upToBrace [] r [] hr
    obtain ⟨read, hread', hrest⟩ := map_eq_ok hread
    rw [List.cons_append, topBlock_brace hl, hread']
    obtain ⟨nodes, rest, hle⟩ := read
    cases hrest
    rfl

end Parser

end ScalarLang
