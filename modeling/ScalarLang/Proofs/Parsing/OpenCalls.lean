import ScalarLang.Proofs.Parsing.Settled
/-!
# Notes on open calls

A parser adds a note for a call on the way out of it, at whatever place of
the call it has failed. What comes of this is told by the tokens before the
one at fault: the notes are on the calls that are open there, innermost
first, and on no others.

Where reading has failed, everything read closes no parenthesis from before
(`FailsWithin`), so the calls before it stay open. What has been read as a
whole in between does not matter to them (`Settles`).
-/

namespace ScalarLang

variable {σ : Type} {r : Resolver σ} {b b' : Bool} {t : Token} {ts us : List Token}
variable {d : Dialect σ}

/-! ## Where reading has failed -/

/-- **Reading has failed with the calls that are open**: they are those that the
tokens before the one at fault have begun and not finished, and these tokens
close no parenthesis from before. -/
def FailsWithin (r : Resolver σ) (b : Bool) (ts : List Token) (rejection : Rejection) : Prop :=
  ∃ read, ts = read ++ rejection.rest ∧ openCalls r b read = rejection.calls.reverse ∧
    ∀ depth, closesOuter depth read = false

namespace FailsWithin

variable {rejection : Rejection}

/-- Nothing has been read. -/
theorem here (reason : Reason) : FailsWithin r b ts ⟨reason, ts, []⟩ :=
  ⟨[], rfl, rfl, fun _ => rfl⟩

/-- What is settled may come before. -/
theorem after (hts : Settles r b ts b') (h : FailsWithin r b' us rejection) :
    FailsWithin r b (ts ++ us) rejection := by
  obtain ⟨read, rfl, hcalls, hinside⟩ := h
  exact ⟨ts ++ read, by simp, by rw [hts.calls, hcalls], fun depth => by rw [hts.closes, hinside]⟩

/-- A parenthesis that is not closed may come before. -/
theorem inside {l : Token} (hl : l.IsSymbol .leftParen) (h : FailsWithin r true ts rejection) :
    FailsWithin r b (l :: ts) rejection := by
  obtain ⟨read, rfl, hcalls, hinside⟩ := h
  exact ⟨l :: read, rfl, by rw [openCalls_leftParen hl, hcalls],
    fun depth => by rw [closesOuter_leftParen hl, hinside]⟩

/-- **A call is noted** if reading fails right after its name. -/
theorem name {f : NativeFunction σ} (ht : t.kind = .identifier)
    (hf : r.resolve? t.text = some f) (reason : Reason) :
    FailsWithin r true (t :: ts) (Rejection.within ⟨reason, ts, []⟩ ⟨f.name, t⟩) := by
  have hname : t.NoParenthesis := by simp [Token.NoParenthesis, Token.IsSymbol, ht]
  refine ⟨[t], rfl, ?_, fun depth => closesOuter_cons hname depth⟩
  rw [openCalls_name ht hf rfl]
  rfl

/-- And so it is if reading fails among its arguments. -/
theorem arguments {f : NativeFunction σ} {l : Token} (ht : t.kind = .identifier)
    (hf : r.resolve? t.text = some f) (hl : l.IsSymbol .leftParen)
    (h : FailsWithin r true ts rejection) :
    FailsWithin r true (t :: l :: ts) (rejection.within ⟨f.name, t⟩) := by
  have hname : t.NoParenthesis := by simp [Token.NoParenthesis, Token.IsSymbol, ht]
  obtain ⟨read, rfl, hcalls, hinside⟩ := h
  refine ⟨t :: l :: read, rfl, ?_, fun depth => ?_⟩
  · have hopen : closesOuter 0 (l :: read).tail = false := hinside 0
    rw [openCalls_name ht hf hopen, openCalls_leftParen hl, hcalls]
    simp [Rejection.within]
  · rw [closesOuter_cons hname, closesOuter_leftParen hl, hinside]

/-- Another token was expected. -/
theorem of_skip {kind : TokenKind} {what : Expectation}
    (h : Parser.skip kind what ts = .error rejection) : FailsWithin r b ts rejection := by
  rw [Parser.skip_eq_error h]
  exact here _

/-- A phrase has ended too early. -/
theorem of_ending {ops : List PendingOp} {e : Emitted σ}
    (h : Parser.ending ts ops e = .error rejection) : FailsWithin r b ts rejection := by
  rw [(Parser.ending_eq_error h).2]
  exact here _

end FailsWithin

/-! ## Phrases -/

namespace Parser

mutual

/-- The rest of a phrase fails with the calls that are open. -/
theorem phraseRest_failsWithin (hd : d.Uniform) {ts : List Token} {ops : List PendingOp}
    {e : Emitted σ} {b : Bool} {rejection : Rejection}
    (h : reading (phraseRest d ts ops e b) = .error rejection) :
    FailsWithin d.resolver b ts rejection := by
  match ts, b with
  | [], b =>
    rw [reading_phraseRest_nil] at h
    exact .of_ending h
  | t :: ts, true =>
    rcases operand_cases d t with
      ⟨v, ht⟩ | ⟨op, ht⟩ | ht | ⟨ht, f, hf⟩ | ⟨ht, hname⟩ | ht
    · rw [reading_phraseRest_literal ht] at h
      exact .after (.literal ht) (phraseRest_failsWithin hd h)
    · rw [reading_phraseRest_unary ht] at h
      exact .after (.unary ht) (phraseRest_failsWithin hd h)
    · rw [reading_phraseRest_parenthesis ht] at h
      -- what fails is the phrase within, its parenthesis, or what comes after
      rcases bind_eq_error h with h | ⟨⟨inner, mid⟩, hinner, h⟩
      · exact .inside ht (phrase_failsWithin hd h)
      obtain ⟨used, p, rfl, hp, rfl⟩ := phrase_sound hd hinner
      rcases bind_eq_error h with h | ⟨rest, hskip, h⟩
      · exact .inside ht (.after hp.settles (.of_skip h))
      · obtain ⟨c, hc, rfl⟩ := skip_eq_ok hskip
        rw [show t :: (used ++ c :: rest) = t :: used ++ [c] ++ rest by simp]
        exact .after (.parenthesised ht hp.settles hc) (phraseRest_failsWithin hd h)
    · rw [reading_phraseRest_call ht hf] at h
      rcases bind_eq_error h with h | ⟨⟨inner, rest⟩, hinner, h⟩
      · exact call_failsWithin hd ht hf h
      · obtain ⟨used, p, rfl, hp, rfl⟩ := call_sound hd ht hf hinner
        exact .after hp.settles (phraseRest_failsWithin hd h)
    · rw [reading_phraseRest_variable ht hname] at h
      have hcalled : d.resolver.called? true t = none := by
        rw [Resolver.called?_identifier ht, hname]
      exact .after (.identifier ht hcalled) (phraseRest_failsWithin hd h)
    · rw [reading_phraseRest_noOperand ht] at h
      exact .of_ending h
  | t :: ts, false =>
    cases ht : t.kind.binaryOp? with
    | none =>
      rw [reading_phraseRest_noBinary ht] at h
      exact .of_ending h
    | some op =>
      rw [reading_phraseRest_binary ht] at h
      split at h
      · cases h
        exact .here _
      · exact .after (.binary ht) (phraseRest_failsWithin hd h)
termination_by 4 * ts.length

/-- **A phrase fails with the calls that are open.** -/
theorem phrase_failsWithin (hd : d.Uniform) {out : List (Node σ)} {ts : List Token}
    {rejection : Rejection} (h : reading (phrase d ts out) = .error rejection) :
    FailsWithin d.resolver true ts rejection := by
  rw [reading_phrase] at h
  exact phraseRest_failsWithin hd h
termination_by 4 * ts.length + 1

/-- Arguments fail with the calls that are open among them. -/
theorem argumentList_failsWithin (hd : d.Uniform) {n : Nat} {out : List (Node σ)}
    {ts : List Token} {rejection : Rejection} (h : argumentList d n ts out = .error rejection) :
    FailsWithin d.resolver true ts rejection := by
  match n with
  | 0 => exact .of_skip (map_eq_error h)
  | 1 =>
    rw [argumentList_one] at h
    rcases bind_eq_error h with h | ⟨⟨inner, mid⟩, hinner, h⟩
    · exact phrase_failsWithin hd h
    · obtain ⟨used, p, rfl, hp, rfl⟩ := phrase_sound hd hinner
      exact .after hp.settles (.of_skip (map_eq_error h))
  | n + 2 =>
    rw [argumentList_more] at h
    rcases bind_eq_error h with h | ⟨⟨inner, mid⟩, hinner, h⟩
    · exact phrase_failsWithin hd h
    obtain ⟨used, p, rfl, hp, rfl⟩ := phrase_sound hd hinner
    rcases bind_eq_error h with h | ⟨rest, hskip, h⟩
    · exact .after hp.settles (.of_skip h)
    · obtain ⟨c, hc, rfl⟩ := skip_eq_ok hskip
      exact .after hp.settles
        (.after (.symbol hc (by decide) (by decide)) (argumentList_failsWithin hd h))
termination_by 4 * ts.length + 2

/-- A call that fails after its name is one of those that are open, and the
outermost. -/
theorem call_failsWithin (hd : d.Uniform) {t : Token} {f : NativeFunction σ}
    {out : List (Node σ)} {ts : List Token} {rejection : Rejection} (ht : t.kind = .identifier)
    (hf : d.resolver.resolve? t.text = some f)
    (h : reading (call d t f ts out) = .error rejection) :
    FailsWithin d.resolver true (t :: ts) rejection := by
  rw [reading_call] at h
  obtain ⟨unnoted, hread, rfl⟩ := mapError_eq_error (map_eq_error h)
  rcases bind_eq_error hread with hskip | ⟨inside, hskip, hinside⟩
  · rw [skip_eq_error hskip]
    exact .name ht hf _
  · obtain ⟨l, hl, rfl⟩ := skip_eq_ok hskip
    exact .arguments ht hf hl (argumentList_failsWithin hd hinside)
termination_by 4 * ts.length + 3

end

/-! ## Parts of statements -/

variable {out : List (Node σ)} {rejection : Rejection}

/-- A phrase and its semicolon fail with the calls that are open. -/
theorem phraseStatement_failsWithin (hd : d.Uniform) {taker : Directive}
    (h : reading (phraseStatement d ts out taker) = .error rejection) :
    FailsWithin d.resolver true ts rejection := by
  rw [reading_phraseStatement] at h
  rcases bind_eq_error h with hphrase | ⟨⟨inner, mid⟩, hphrase, hskip⟩
  · exact phrase_failsWithin hd hphrase
  · obtain ⟨used, p, rfl, hp, rfl⟩ := phrase_sound hd hphrase
    exact .after hp.settles (.of_skip (map_eq_error hskip))

theorem condition_failsWithin (hd : d.Uniform)
    (h : reading (condition d ts) = .error rejection) :
    FailsWithin d.resolver false ts rejection := by
  rw [reading_condition] at h
  rcases bind_eq_error h with hopen | ⟨inside, hopen, hinside⟩
  · exact .of_skip hopen
  obtain ⟨l, hl, rfl⟩ := skip_eq_ok hopen
  rcases bind_eq_error hinside with hphrase | ⟨⟨inner, mid⟩, hphrase, hskip⟩
  · exact .inside hl (phrase_failsWithin hd hphrase)
  · obtain ⟨used, p, rfl, hp, rfl⟩ := phrase_sound hd hphrase
    exact .inside hl (.after hp.settles (.of_skip (map_eq_error hskip)))

/-- An assignment fails after its name with the calls that are open. -/
theorem assignment_failsWithin (hd : d.Uniform) {name : String}
    (h : reading (assignment d name ts out) = .error rejection) :
    FailsWithin d.resolver false ts rejection := by
  rw [reading_assignment] at h
  rcases bind_eq_error h with hsign | ⟨after, hsign, hafter⟩
  · exact .of_skip hsign
  · obtain ⟨a, ha, rfl⟩ := skip_eq_ok hsign
    exact .after (.symbol ha (by decide) (by decide)) (phraseStatement_failsWithin hd hafter)

/-! ## Statements -/

mutual

/-- **A statement fails with the calls that are open.** -/
theorem statement_failsWithin (hd : d.Uniform) {ts : List Token} {out : List (Node σ)}
    {rejection : Rejection} (h : reading (statement d ts out) = .error rejection) :
    FailsWithin d.resolver false ts rejection := by
  match ts with
  | [] =>
    rw [reading_statement_nil] at h
    cases h
    exact .here _
  | t :: ts =>
    rcases statement_cases d t with ht | ht | ⟨ht, hname⟩ | ⟨ht, hname⟩ | ht
    · rw [reading_statement_if ht] at h
      refine .after (.keyword ht) ?_
      -- what fails is the condition, the first block, or the one after `else`
      rcases bind_eq_error h with hcond | ⟨⟨cond, afterCond⟩, hcond, hrest⟩
      · exact condition_failsWithin hd hcond
      have hcondLe : afterCond.length ≤ ts.length := length_le_of_reading hcond
      obtain ⟨l, condTs, p, c, rfl, hl, hp, hc, -⟩ := condition_sound hd hcond
      have hsettled : Settles d.resolver false (l :: condTs ++ [c]) false :=
        .parenthesised hl hp.settles hc
      rw [show l :: condTs ++ c :: afterCond = l :: condTs ++ [c] ++ afterCond by simp]
      refine .after hsettled ?_
      rcases bind_eq_error hrest with hblock | ⟨⟨success, afterSuccess⟩, hblock, helse⟩
      · exact block_failsWithin hd hblock
      have hblockLe : afterSuccess.length ≤ afterCond.length - 1 := length_le_of_reading hblock
      obtain ⟨blockTs, ss, dangling, rfl, hss, -⟩ := block_sound hd hblock
      exact .after hss.settles (alternative_failsWithin hd (map_eq_error helse))
    · rw [reading_statement_return ht] at h
      exact .after (.keyword ht) (phraseStatement_failsWithin hd h)
    · rw [reading_statement_assign ht hname] at h
      exact .after (.identifier ht rfl) (assignment_failsWithin hd h)
    · rw [reading_statement_function ht hname] at h
      cases h
      exact .here _
    · rw [reading_statement_noStatement ht] at h
      cases h
      exact .here _
termination_by 2 * ts.length

/-- What follows the first block of a conditional fails with the calls that
are open. -/
theorem alternative_failsWithin (hd : d.Uniform) {ts : List Token} {rejection : Rejection}
    (h : alternative d ts = .error rejection) : FailsWithin d.resolver false ts rejection := by
  match ts with
  | [] => cases h
  | e :: ts =>
    rw [alternative] at h
    split at h
    · rename_i he
      exact .after (.keyword he) (block_failsWithin hd (map_eq_error h))
    · cases h
termination_by 2 * ts.length

/-- A block fails with the calls that are open. -/
theorem block_failsWithin (hd : d.Uniform) {ts : List Token} {rejection : Rejection}
    (h : reading (block d ts) = .error rejection) : FailsWithin d.resolver false ts rejection := by
  by_cases hbrace : ∀ t ∈ ts.head?, ¬ t.IsSymbol .leftBrace
  · rw [reading_block_statement hbrace] at h
    exact statement_failsWithin hd h
  · match ts, hbrace with
    | [], hbrace => simp at hbrace
    | l :: ts, hbrace =>
      have hl : l.IsSymbol .leftBrace := by simpa using hbrace
      rw [reading_block_brace hl] at h
      exact .after (.symbol hl (by decide) (by decide)) (statements_failsWithin hd h)
termination_by 2 * ts.length + 1

/-- Statements in braces fail with the calls that are open. -/
theorem statements_failsWithin (hd : d.Uniform) {ts : List Token} {out : List (Node σ)}
    {rejection : Rejection} (h : reading (statements d ts out) = .error rejection) :
    FailsWithin d.resolver false ts rejection := by
  match ts with
  | [] =>
    rw [reading_statements_nil] at h
    cases h
    exact .here _
  | t :: ts =>
    by_cases ht : t.IsSymbol .rightBrace
    · rw [reading_statements_brace ht] at h
      cases h
    · rw [reading_statements_statement ht] at h
      rcases bind_eq_error h with hfirst | ⟨⟨nodes, after⟩, hfirst, hrest⟩
      · exact statement_failsWithin hd hfirst
      · have hle : after.length ≤ ts.length := length_le_of_reading hfirst
        obtain ⟨used, s, dangling, hts, hs, -⟩ := statement_sound hd hfirst
        rw [hts]
        exact .after hs.settles (statements_failsWithin hd hrest)
termination_by 2 * ts.length + 1

end

/-! ## Sources -/

theorem allStatements_failsWithin (hd : d.Uniform) {ts : List Token} {out : List (Node σ)}
    {rejection : Rejection} (h : allStatements d ts out = .error rejection) :
    FailsWithin d.resolver false ts rejection := by
  match ts with
  | [] =>
    rw [allStatements] at h
    cases h
  | t :: ts =>
    rw [allStatements_cons] at h
    rcases bind_eq_error h with hfirst | ⟨⟨nodes, after⟩, hfirst, hrest⟩
    · exact statement_failsWithin hd hfirst
    · have hle : after.length ≤ ts.length := length_le_of_reading hfirst
      obtain ⟨used, s, dangling, hts, hs, -⟩ := statement_sound hd hfirst
      rw [hts]
      exact .after hs.settles (allStatements_failsWithin hd hrest)
termination_by ts.length

theorem topPhrase_failsWithin (hd : d.Uniform) (h : topPhrase d ts = .error rejection) :
    FailsWithin d.resolver true ts rejection := by
  rw [topPhrase] at h
  rcases bind_eq_error h with hphrase | ⟨p, hphrase, hend⟩
  · have hread : reading (phrase d ts []) = .error rejection := by rw [hphrase]; rfl
    exact phrase_failsWithin hd hread
  · obtain ⟨nodes, rest, hle⟩ := p
    have hread : reading (phrase d ts []) = .ok (nodes, rest) := by rw [hphrase]; rfl
    obtain ⟨used, q, rfl, hq, -⟩ := phrase_sound hd hread
    rw [atEnd_eq_error hend]
    exact .after hq.settles (.here _)

theorem topBlock_failsWithin (hd : d.Uniform) (h : topBlock d ts = .error rejection) :
    FailsWithin d.resolver false ts rejection := by
  by_cases hbrace : ∀ t ∈ ts.head?, ¬ t.IsSymbol .leftBrace
  · rw [topBlock_statements hbrace] at h
    exact allStatements_failsWithin hd h
  · match ts, hbrace with
    | [], hbrace => simp at hbrace
    | l :: ts, hbrace =>
      have hl : l.IsSymbol .leftBrace := by simpa using hbrace
      rw [topBlock_brace hl] at h
      rcases bind_eq_error h with hstatements | ⟨p, hstatements, hend⟩
      · have hread : reading (statements d ts []) = .error rejection := by rw [hstatements]; rfl
        exact .after (.symbol hl (by decide) (by decide)) (statements_failsWithin hd hread)
      · obtain ⟨nodes, rest, hle⟩ := p
        have hread : reading (statements d ts []) = .ok (nodes, rest) := by rw [hstatements]; rfl
        obtain ⟨used, e, ss, rfl, hss, he, -⟩ := statements_sound hd hread
        rw [atEnd_eq_error hend, show l :: (used ++ e :: rest) = l :: used ++ [e] ++ rest by simp]
        exact .after (.braced hl hss.settles he) (.here _)

end Parser

/-! ## Rejections -/


/-- A source fails with the calls that are open; a phrase is an operand from
the start. -/
theorem SourceForm.failsWithin (hd : d.Uniform) {form : SourceForm} {ts : List Token}
    {rejection : Rejection} (h : form.parse d ts = .error rejection) :
    FailsWithin d.resolver (form = .phrase) ts rejection := by
  cases form with
  | phrase => exact Parser.topPhrase_failsWithin hd h
  | block => exact Parser.topBlock_failsWithin hd h

/-- Whether the finding only tells where another one was met. -/
def Finding.isNote : Finding → Bool
  | argumentsOf _ => true
  | _ => false

/-- The note on a call. -/
def OpenCall.note (c : OpenCall) : Diagnostic := ⟨.argumentsOf c.function, some c.token.location⟩

namespace Rejection

variable (rejection : Rejection)

/-- What has gone wrong at a token, or at the end, is never a note. -/
theorem isNote_finding : rejection.finding.isNote = false := by
  obtain ⟨reason, rest, calls⟩ := rejection
  cases reason <;> cases rest <;> rfl

/-- **The main diagnostic is the only one that is no note.** -/
theorem filter_not_isNote :
    rejection.toError.diagnostics.filter (fun diagnostic => !diagnostic.finding.isNote)
      = [rejection.toError.main] := by
  have hmain : rejection.toError.main.finding.isNote = false := rejection.isNote_finding
  have hnotes : ∀ note ∈ rejection.toError.notes, note.finding.isNote = true := by
    intro note hnote
    obtain ⟨c, -, rfl⟩ := List.mem_map.mp hnote
    rfl
  rw [ParseError.diagnostics, List.filter_cons_of_pos (by simp [hmain]),
    List.filter_eq_nil_iff.mpr fun note hnote => by simp [hnotes note hnote]]

end Rejection

/-- **The diagnostics of a rejection trace the calls around it.** The first
is the only one that is no note, and is located at the token at fault. The
others are one note for each call that the tokens before that one have begun
and not finished, innermost first, with the name of the function and the
place where it stands. -/
theorem SourceForm.diagnostics_trace_open_calls (resolver : Resolver σ) (form : SourceForm)
    (ts : List Token) (rejection : Rejection)
    (h : form.parse ⟨resolver, BinaryOp.isRightAssoc⟩ ts = .error rejection) :
    let error := rejection.toError
    (error.diagnostics.filter fun diagnostic => !diagnostic.finding.isNote) = [error.main] ∧
      ∃ i ≤ ts.length, rejection.rest = ts.drop i ∧
        error.main.location = ts[i]?.map (·.location) ∧
        error.diagnostics = error.main ::
          (openCalls resolver (form = .phrase) (ts.take i)).reverse.map OpenCall.note := by
  intro error
  refine ⟨rejection.filter_not_isNote, ?_⟩
  obtain ⟨read, hts, hcalls, -⟩ := failsWithin (BinaryOp.uniform_isRightAssoc resolver) h
  have hrest : rejection.rest = ts.drop read.length := by simp [hts]
  have hread : ts.take read.length = read := by simp [hts]
  refine ⟨read.length, by simp [hts], hrest, ?_, ?_⟩
  · change rejection.rest.head?.map _ = _
    rw [hrest, List.head?_drop]
  · rw [hread, hcalls, List.reverse_reverse]
    rfl

/-- The program `x = pi() + max(1, (min(2;`. The call of `pi` is finished, and
those of `max` and `min` are open. -/
theorem SourceForm.diagnostics_trace_open_calls_nested :
    let token (kind : TokenKind) (text : String) (column : Nat) : Token :=
      ⟨kind, text, ⟨column - 1, 1, column⟩⟩
    let symbol (s : Symbol) (column : Nat) : Token := token (.symbol s) s.spelling column
    let max := token .identifier "max" 12
    let min := token .identifier "min" 20
    let read := [token .identifier "x" 1, symbol .assign 3, token .identifier "pi" 5,
      symbol .leftParen 7, symbol .rightParen 8, symbol .plus 10, max, symbol .leftParen 15,
      token (.number (.integer 1)) "1" 16, symbol .comma 17, symbol .leftParen 19, min,
      symbol .leftParen 23, token (.number (.integer 2)) "2" 24]
    let rest := [symbol .semicolon 25]
    let rejection : Rejection :=
      ⟨.expected .commaAfterArgument, rest, [⟨"min", min⟩, ⟨"max", max⟩]⟩
    let d : Dialect Unit := ⟨.math, BinaryOp.isRightAssoc⟩
    SourceForm.parse .block d (read ++ rest) = .error rejection ∧
      openCalls (.math : Resolver Unit) false read = [⟨"max", max⟩, ⟨"min", min⟩] ∧
      rejection.toError.diagnostics =
        [⟨.unexpectedToken .commaAfterArgument ";", some ⟨1, 25⟩⟩,
          ⟨.argumentsOf "min", some ⟨1, 20⟩⟩, ⟨.argumentsOf "max", some ⟨1, 12⟩⟩] := by
  intro token symbol max min read rest rejection d
  have h : SourceForm.parse .block d (read ++ rest) = .error rejection :=
    Parser.eq_error_of_failure? (by decide +kernel)
  have hcalls : openCalls (.math : Resolver Unit) false read = [⟨"max", max⟩, ⟨"min", min⟩] := by
    decide +kernel
  obtain ⟨-, i, -, hi, -, hdiagnostics⟩ :=
    SourceForm.diagnostics_trace_open_calls .math .block (read ++ rest) rejection h
  obtain rfl : i = 14 := by
    have hlength : rest.length = (read ++ rest).length - i := by
      rw [← List.length_drop, ← hi]
    simp only [read, rest, List.length_append, List.length_cons, List.length_nil] at hlength
    omega
  refine ⟨h, hcalls, hdiagnostics.trans ?_⟩
  have htake : (read ++ rest).take 14 = read := rfl
  rw [htake]
  simp only [reduceCtorEq, decide_false]
  rw [hcalls]
  rfl

end ScalarLang
