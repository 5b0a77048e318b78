import ScalarLang.Proofs.Parsing.PhraseSoundness
import ScalarLang.Proofs.Parsing.StatementReading
/-!
# What the statement parser accepts are statements

The recursion follows the parser's own. A statement that would take an
`else` after it is only left where none follows, so that the block of an
enclosing conditional, when its `else` comes next, has no conditional
within that lacks one.
-/

namespace ScalarLang

namespace Parser

variable {σ : Type} {d : Dialect σ}

/-- What is left is no longer than the bound. -/
theorem length_le_of_reading {n : Nat} {r : Except Rejection (Parsed σ n)}
    {nodes : List (Node σ)} {us : List Token} (h : reading r = .ok (nodes, us)) :
    us.length ≤ n := by
  obtain ⟨p, -, hp⟩ := map_eq_ok h
  cases hp
  exact p.length_le

/-! ## Parts of statements -/

/-- A phrase and the semicolon after it. -/
theorem phraseStatement_sound (hd : d.Uniform) {ts us : List Token}
    {out nodes : List (Node σ)} {taker : Directive}
    (h : reading (phraseStatement d ts out taker) = .ok (nodes, us)) :
    ∃ used p e, ts = used ++ e :: us ∧ PhraseOf d 0 used p ∧ e.IsSymbol .semicolon ∧
      nodes = out ++ (p.nodes ++ [.directive taker]) := by
  rw [reading_phraseStatement] at h
  obtain ⟨⟨inner, mid⟩, hinner, hmid⟩ := bind_eq_ok h
  obtain ⟨rest, hskip, hrest⟩ := map_eq_ok hmid
  obtain ⟨used, p, rfl, hp, rfl⟩ := phrase_sound hd hinner
  obtain ⟨e, he, rfl⟩ := skip_eq_ok hskip
  cases hrest
  exact ⟨used, p, e, rfl, hp, he, by simp⟩

/-- A condition in its parentheses. -/
theorem condition_sound (hd : d.Uniform) {ts us : List Token} {nodes : List (Node σ)}
    (h : reading (condition d ts) = .ok (nodes, us)) :
    ∃ l used p r, ts = l :: used ++ r :: us ∧ l.IsSymbol .leftParen ∧ PhraseOf d 0 used p ∧
      r.IsSymbol .rightParen ∧ nodes = p.nodes := by
  rw [reading_condition] at h
  obtain ⟨inside, hopen, hinside⟩ := bind_eq_ok h
  obtain ⟨⟨inner, mid⟩, hinner, hmid⟩ := bind_eq_ok hinside
  obtain ⟨rest, hskip, hrest⟩ := map_eq_ok hmid
  obtain ⟨l, hl, rfl⟩ := skip_eq_ok hopen
  obtain ⟨used, p, rfl, hp, rfl⟩ := phrase_sound hd hinner
  obtain ⟨r, hr, rfl⟩ := skip_eq_ok hskip
  cases hrest
  exact ⟨l, used, p, r, rfl, hl, hp, hr, by simp⟩

/-! ## Statements -/

mutual

/-- What is read as a statement is one. -/
theorem statement_sound (hd : d.Uniform) {ts us : List Token} {out nodes : List (Node σ)}
    (h : reading (statement d ts out) = .ok (nodes, us)) :
    ∃ used s dangling, ts = used ++ us ∧ StatementOf d dangling used s ∧
      nodes = out ++ s.nodes ∧ (dangling = true → NoElse us) := by
  match ts with
  | [] =>
    rw [reading_statement_nil] at h
    cases h
  | t :: ts =>
    rcases statement_cases d t with ht | ht | ⟨ht, hname⟩ | ⟨ht, hname⟩ | ht
    · rw [reading_statement_if ht] at h
      obtain ⟨⟨cond, afterCond⟩, hcond, h⟩ := bind_eq_ok h
      obtain ⟨⟨success, afterSuccess⟩, hsuccess, h⟩ := bind_eq_ok h
      obtain ⟨⟨failure, rest⟩, hfailure, h⟩ := map_eq_ok h
      cases h
      have hcondLe : afterCond.length ≤ ts.length := length_le_of_reading hcond
      have hsuccessLe : afterSuccess.length ≤ afterCond.length - 1 :=
        length_le_of_reading hsuccess
      obtain ⟨l, condTs, p, r, rfl, hl, hp, hr, rfl⟩ := condition_sound hd hcond
      obtain ⟨thenTs, ss, dangling, rfl, hss, rfl, hthen⟩ := block_sound hd hsuccess
      rcases alternative_sound hd hfailure with
        ⟨rfl, rfl, hnone⟩ | ⟨e, elseTs, fs, danglingElse, rfl, rfl, he, hfs, helse⟩
      · exact ⟨t :: l :: condTs ++ r :: thenTs, .conditional p ss none, true, by simp,
          .ifThen ht hl hp hr hss, by simp [Statement.nodes], fun _ => hnone⟩
      · -- a first block that lacks an `else` would have taken this one
        obtain rfl : dangling = false := by
          cases dangling with
          | false => rfl
          | true => exact absurd he (hthen rfl e rfl)
        exact ⟨t :: l :: condTs ++ r :: thenTs ++ e :: elseTs, .conditional p ss (some fs),
          danglingElse, by simp, .ifThenElse ht hl hp hr hss he hfs, by simp [Statement.nodes],
          helse⟩
    · rw [reading_statement_return ht] at h
      obtain ⟨used, p, e, rfl, hp, he, rfl⟩ := phraseStatement_sound hd h
      exact ⟨t :: used ++ [e], .return p, false, by simp, .return ht hp he, rfl, by simp⟩
    · rw [reading_statement_assign ht hname, reading_assignment] at h
      obtain ⟨after, hskip, hafter⟩ := bind_eq_ok h
      obtain ⟨a, ha, rfl⟩ := skip_eq_ok hskip
      obtain ⟨used, p, e, rfl, hp, he, rfl⟩ := phraseStatement_sound hd hafter
      exact ⟨t :: a :: used ++ [e], .assign t.text p, false, by simp,
        .assign ht hname ha hp he, rfl, by simp⟩
    · rw [reading_statement_function ht hname] at h
      cases h
    · rw [reading_statement_noStatement ht] at h
      cases h
termination_by 2 * ts.length

/-- What follows the first block of a conditional is an `else` with its
block, or does not start with an `else`. -/
theorem alternative_sound (hd : d.Uniform) {ts us : List Token}
    {failure : Option (List (Node σ))} (h : alternative d ts = .ok (failure, us)) :
    (failure = none ∧ us = ts ∧ NoElse ts) ∨
      ∃ e used fs dangling, ts = e :: used ++ us ∧ failure = some (Statement.allNodes fs) ∧
        e.IsKeyword .else ∧ BlockOf d dangling used fs ∧ (dangling = true → NoElse us) := by
  match ts with
  | [] =>
    cases h
    exact .inl ⟨rfl, rfl, by simp [NoElse]⟩
  | e :: ts =>
    rw [alternative] at h
    split at h
    · rename_i he
      obtain ⟨⟨nodes, rest⟩, hblock, hrest⟩ := map_eq_ok h
      cases hrest
      obtain ⟨used, fs, dangling, rfl, hfs, rfl, helse⟩ := block_sound hd hblock
      exact .inr ⟨e, used, fs, dangling, rfl, rfl, he, hfs, helse⟩
    · rename_i he
      cases h
      exact .inl ⟨rfl, rfl, fun t ht => by cases ht; exact he⟩
termination_by 2 * ts.length

/-- What is read as a block is one. -/
theorem block_sound (hd : d.Uniform) {ts us : List Token} {nodes : List (Node σ)}
    (h : reading (block d ts) = .ok (nodes, us)) :
    ∃ used ss dangling, ts = used ++ us ∧ BlockOf d dangling used ss ∧
      nodes = Statement.allNodes ss ∧ (dangling = true → NoElse us) := by
  by_cases hbrace : ∀ t ∈ ts.head?, ¬ t.IsSymbol .leftBrace
  · rw [reading_block_statement hbrace] at h
    obtain ⟨used, s, dangling, rfl, hs, rfl, helse⟩ := statement_sound hd h
    exact ⟨used, [s], dangling, rfl, .single hs, by simp [Statement.allNodes], helse⟩
  · match ts, hbrace with
    | [], hbrace => simp at hbrace
    | l :: ts, hbrace =>
      have hl : l.IsSymbol .leftBrace := by simpa using hbrace
      rw [reading_block_brace hl] at h
      obtain ⟨used, r, ss, rfl, hss, hr, hnodes⟩ := statements_sound hd h
      exact ⟨l :: used ++ [r], ss, false, by simp, .braced hl hss hr, by simpa using hnodes,
        by simp⟩
termination_by 2 * ts.length + 1

/-- What is read as statements up to a brace are statements. -/
theorem statements_sound (hd : d.Uniform) {ts us : List Token} {out nodes : List (Node σ)}
    (h : reading (statements d ts out) = .ok (nodes, us)) :
    ∃ used r ss, ts = used ++ r :: us ∧ StatementsOf d used ss ∧ r.IsSymbol .rightBrace ∧
      nodes = out ++ Statement.allNodes ss := by
  match ts with
  | [] =>
    rw [reading_statements_nil] at h
    cases h
  | t :: ts =>
    by_cases ht : t.IsSymbol .rightBrace
    · rw [reading_statements_brace ht] at h
      cases h
      exact ⟨[], t, [], rfl, .nil, ht, by simp [Statement.allNodes]⟩
    · rw [reading_statements_statement ht] at h
      obtain ⟨⟨inner, rest⟩, hfirst, hrest⟩ := bind_eq_ok h
      have hle : rest.length ≤ ts.length := length_le_of_reading hfirst
      obtain ⟨used, s, _, hts, hs, rfl, -⟩ := statement_sound hd hfirst
      obtain ⟨more, r, ss, rfl, hss, hr, rfl⟩ := statements_sound hd hrest
      exact ⟨used ++ more, r, s :: ss, by simp [hts], .cons hs hss, hr,
        by simp [Statement.allNodes]⟩
termination_by 2 * ts.length + 1

end

/-! ## Programs -/

/-- What is read up to the end of the tokens are statements. -/
theorem allStatements_sound (hd : d.Uniform) {ts : List Token} {out nodes : List (Node σ)}
    (h : allStatements d ts out = .ok nodes) :
    ∃ ss, StatementsOf d ts ss ∧ nodes = out ++ Statement.allNodes ss := by
  match ts with
  | [] =>
    rw [allStatements] at h
    cases h
    exact ⟨[], .nil, by simp [Statement.allNodes]⟩
  | t :: ts =>
    rw [allStatements_cons] at h
    obtain ⟨⟨inner, rest⟩, hfirst, hrest⟩ := bind_eq_ok h
    have hle : rest.length ≤ ts.length := length_le_of_reading hfirst
    obtain ⟨used, s, _, hts, hs, rfl, -⟩ := statement_sound hd hfirst
    obtain ⟨ss, hss, rfl⟩ := allStatements_sound hd hrest
    rw [hts]
    exact ⟨s :: ss, .cons hs hss, by simp [Statement.allNodes]⟩
termination_by ts.length

/-- **What is accepted as a program is one**, and its nodes are those of
its statements. -/
theorem topBlock_sound (hd : d.Uniform) {ts : List Token} {nodes : List (Node σ)}
    (h : topBlock d ts = .ok nodes) :
    ∃ ss, ProgramOf d ts ss ∧ nodes = Statement.allNodes ss := by
  by_cases hbrace : ∀ t ∈ ts.head?, ¬ t.IsSymbol .leftBrace
  · rw [topBlock_statements hbrace] at h
    obtain ⟨ss, hss, rfl⟩ := allStatements_sound hd h
    exact ⟨ss, .bare hss, rfl⟩
  · match ts, hbrace with
    | [], hbrace => simp at hbrace
    | l :: ts, hbrace =>
      have hl : l.IsSymbol .leftBrace := by simpa using hbrace
      rw [topBlock_brace hl] at h
      obtain ⟨⟨nodes', rest, hle⟩, hread, hend⟩ := bind_eq_ok h
      cases rest with
      | cons t rest => cases hend
      | nil =>
        cases hend
        have hreading : reading (statements d ts []) = .ok (nodes', []) := by rw [hread]; rfl
        obtain ⟨used, r, ss, rfl, hss, hr, rfl⟩ := statements_sound hd hreading
        exact ⟨ss, .braced hl hss hr, rfl⟩

end Parser

end ScalarLang
