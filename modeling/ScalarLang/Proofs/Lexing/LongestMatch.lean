import ScalarLang.Proofs.Lexing.Lexemes
/-!
# Longest match

The lexer gives out the longest token there is at each place, and an error
exactly where the lexical grammar has one (`Lexer.next_longestMatch`). A
longer text that starts with a number goes on with a digit, a point or the
mark of an exponent, one that starts with a word with a word character, and
symbols are looked for by length.
-/

namespace ScalarLang

/-- A number of any form. -/
inductive IsNumber : List Char → Prop
  | mantissa {text : List Char} (htext : IsMantissa text) : IsNumber text
  | exponent {mantissa exponent : List Char} (hmantissa : IsMantissa mantissa)
    (hexponent : IsExponent exponent) : IsNumber (mantissa ++ exponent)
  | hexadecimal {text : List Char} (htext : IsHexadecimal text) : IsNumber text

/-- A token is a number, a word or a symbol. -/
theorem LexemeOf.classify {kind : TokenKind} {text : List Char} (h : LexemeOf kind text) :
    IsNumber text ∨ IsWord text ∨ ∃ s : Symbol, text = s.chars := by
  cases h with
  | symbol s => exact .inr (.inr ⟨s, rfl⟩)
  | keyword hword _ => exact .inr (.inl hword)
  | identifier hword _ => exact .inr (.inl hword)
  | integer hdigits => exact .inl (.mantissa (.whole hdigits))
  | hexadecimal htext => exact .inl (.hexadecimal htext)
  | fraction hdigits hplaces => exact .inl (.mantissa (.fraction hdigits hplaces))
  | exponent hmantissa hexponent => exact .inl (.exponent hmantissa hexponent)

theorem IsMantissa.exists_cons {text : List Char} (h : IsMantissa text) :
    ∃ c cs, text = c :: cs ∧ c.isDigit = true := by
  cases h with
  | whole hdigits => exact hdigits.exists_cons
  | fraction hdigits _ =>
    obtain ⟨c, cs, rfl, hc⟩ := hdigits.exists_cons
    exact ⟨c, _, rfl, hc⟩

/-- A number starts with a digit. -/
theorem IsNumber.exists_cons {text : List Char} (h : IsNumber text) :
    ∃ c cs, text = c :: cs ∧ c.isDigit = true := by
  cases h with
  | mantissa htext => exact htext.exists_cons
  | exponent hmantissa _ =>
    obtain ⟨c, cs, rfl, hc⟩ := hmantissa.exists_cons
    exact ⟨c, _, rfl, hc⟩
  | hexadecimal htext => cases htext with | intro => exact ⟨'0', _, rfl, by decide⟩

/-- A word is a token of its kind. -/
theorem Lexeme.WordKind.lexemeOf {word : List Char} {kind : TokenKind}
    (h : Lexeme.WordKind word kind) (hword : IsWord word) : LexemeOf kind word := by
  cases h with
  | keyword hk => exact .keyword hword (Keyword.sameFolded_of_ofWord? hk)
  | identifier hk => exact .identifier hword (Keyword.ofWord?_eq_none_iff.mp hk)

/-! ## The forms of tokens -/

/-- A token that starts with a digit is a number. -/
theorem LexemeOf.isNumber {kind : TokenKind} {c : Char} {cs : List Char}
    (h : LexemeOf kind (c :: cs)) (hc : c.isDigit = true) : IsNumber (c :: cs) := by
  rcases h.classify with hnumber | hword | ⟨s, hs⟩
  · exact hnumber
  · cases hword with
    | intro hstart _ => simp [Lexeme.isDigit_of_isWordStart hstart] at hc
  · obtain ⟨d, ds, hd, -, hdigit, -⟩ := s.exists_chars
    obtain ⟨rfl, -⟩ := List.cons.inj (hs.trans hd)
    simp [hdigit] at hc

/-- A token that starts like a word is one. -/
theorem LexemeOf.isWord {kind : TokenKind} {c : Char} {cs : List Char}
    (h : LexemeOf kind (c :: cs)) (hc : Lexeme.isWordStart c = true) : IsWord (c :: cs) := by
  rcases h.classify with hnumber | hword | ⟨s, hs⟩
  · obtain ⟨d, ds, hd, hdigit⟩ := hnumber.exists_cons
    obtain ⟨rfl, -⟩ := List.cons.inj hd
    simp [Lexeme.isDigit_of_isWordStart hc] at hdigit
  · exact hword
  · obtain ⟨d, ds, hd, -, -, hstart⟩ := s.exists_chars
    obtain ⟨rfl, -⟩ := List.cons.inj (hs.trans hd)
    simp [hstart] at hc

/-- Any other token is a symbol. -/
theorem LexemeOf.exists_symbol {kind : TokenKind} {c : Char} {cs : List Char}
    (h : LexemeOf kind (c :: cs)) (hdigit : c.isDigit = false)
    (hstart : Lexeme.isWordStart c = false) : ∃ s : Symbol, c :: cs = s.chars := by
  rcases h.classify with hnumber | hword | hsymbol
  · obtain ⟨d, ds, hd, hdigit'⟩ := hnumber.exists_cons
    obtain ⟨rfl, -⟩ := List.cons.inj hd
    simp [hdigit] at hdigit'
  · cases hword with
    | intro hstart' _ => simp [hstart] at hstart'
  · exact hsymbol

theorem LexemeOf.exists_cons {kind : TokenKind} {text : List Char} (h : LexemeOf kind text) :
    ∃ c cs, text = c :: cs := by
  rcases h.classify with hnumber | hword | ⟨s, rfl⟩
  · obtain ⟨c, cs, rfl, -⟩ := hnumber.exists_cons
    exact ⟨c, cs, rfl⟩
  · cases hword with
    | intro => exact ⟨_, _, rfl⟩
  · obtain ⟨c, cs, hs, -⟩ := s.exists_chars
    exact ⟨c, cs, hs⟩

namespace Lexeme

/-! ## Numbers -/

theorem MantissaSplit.head {whole fraction rest : List Char}
    (h : MantissaSplit whole fraction rest) :
    ∀ c ∈ (fraction ++ rest).head?, c.isDigit = false := by
  cases h with
  | whole _ hrest => exact fun c hc => (hrest c hc).1
  | fraction _ _ _ => simp

theorem MantissaSplit.isMantissa {whole fraction rest : List Char}
    (h : MantissaSplit whole fraction rest) : IsMantissa (whole ++ fraction) := by
  cases h with
  | whole hdigits _ => simpa using IsMantissa.whole hdigits
  | fraction hdigits hplaces _ => exact .fraction hdigits hplaces

/-- The mantissa that is read is the longest. -/
theorem MantissaSplit.length_le {whole fraction rest m : List Char}
    (h : MantissaSplit whole fraction rest) (hm : IsMantissa m)
    (hfront : m <+: whole ++ fraction ++ rest) : m.length ≤ (whole ++ fraction).length := by
  rw [List.append_assoc] at hfront
  cases hm with
  | whole hdigits =>
    have hle := (prefix_run hfront hdigits.2 h.isDigits.2 h.head).length_le
    rw [List.length_append]
    omega
  | @fraction digits places hdigits hplaces =>
    obtain ⟨more, hmore⟩ := hfront
    rw [List.append_assoc] at hmore
    have hrun := takeWhile_run h.isDigits.2 h.head
    rw [← hmore, takeWhile_run hdigits.2 (by simp)] at hrun
    subst hrun
    have hpoint := List.append_cancel_left hmore
    cases h with
    | whole _ hrest => exact absurd rfl (hrest '.' (congrArg List.head? hpoint).symm).2
    | fraction _ hplaces' hrest =>
      have hle := (prefix_run ⟨more, (List.cons.inj hpoint).2⟩ hplaces hplaces' hrest).length_le
      simpa using hle

/-- A number with an exponent has the mantissa that is read. -/
theorem MantissaSplit.of_exponent {whole fraction rest m e : List Char}
    (h : MantissaSplit whole fraction rest) (hm : IsMantissa m) (he : IsExponent e)
    (hfront : m ++ e <+: whole ++ fraction ++ rest) : m = whole ++ fraction ∧ e <+: rest := by
  obtain ⟨more, hmore⟩ := hfront
  have hstop : ∀ c ∈ (e ++ more).head?, c.isDigit = false ∧ c ≠ '.' := by
    cases he with
    | intro hmark _ _ =>
      rintro c hc
      obtain rfl : _ = c := Option.some.inj hc
      exact ⟨hmark.ends_mantissa.1, hmark.ends_mantissa.2.1⟩
  obtain ⟨whole', fraction', rfl, hsplit⟩ := mantissaSplit_of_isMantissa hm hstop
  obtain ⟨rfl, rfl, rfl⟩ := hsplit.unique h (by simpa using hmore)
  exact ⟨rfl, more, rfl⟩

/-- Without the mark of an exponent the mantissa is the longest number. -/
theorem MantissaSplit.length_le_of_isNumber {whole fraction rest text : List Char}
    (h : MantissaSplit whole fraction rest) (hrest : ∀ c ∈ rest.head?, ¬ IsExponentMark c)
    (hhex : ¬ IsHexadecimal text) (htext : IsNumber text)
    (hfront : text <+: whole ++ fraction ++ rest) : text.length ≤ (whole ++ fraction).length := by
  cases htext with
  | mantissa htext => exact h.length_le htext hfront
  | exponent hm he =>
    obtain ⟨-, more, hmore⟩ := h.of_exponent hm he hfront
    cases he with
    | intro hmark _ _ => exact absurd hmark (hrest _ (by rw [← hmore]; rfl))
  | hexadecimal htext => exact absurd htext hhex

/-- **The longest number is read.** -/
theorem NumberRead.length_le {cs text : List Char} {l : Lexeme} (h : NumberRead cs (.ok l))
    (htext : IsNumber text) (hfront : text <+: cs) : text.length ≤ l.text.length := by
  cases h with
  | @hexadecimal x cs _ hx h =>
    cases h with
    | @integer digits rest hne hdigits hrest hvalue =>
      by_cases hhex : IsHexadecimal text
      · cases hhex with
        | intro hx' hne' hdigits' =>
          obtain ⟨-, hfront⟩ : _ ∧ _ <+: digits ++ rest := by simpa using hfront
          simpa using (prefix_run hfront hdigits' hdigits hrest).length_le
      · -- a decimal number ends before the `x`
        have hsplit := mantissaSplit_zero hx (digits ++ rest)
        have hmark : ∀ c ∈ (x :: (digits ++ rest)).head?, ¬ IsExponentMark c := by
          intro c hc
          obtain rfl : x = c := Option.some.inj hc
          rcases hx with rfl | rfl <;> simp [IsExponentMark]
        have hle := hsplit.length_le_of_isNumber hmark hhex htext (by simpa using hfront)
        simp only [List.length_append, List.length_cons, List.length_nil] at hle ⊢
        omega
  | decimal h hx =>
    have hhex : ¬ IsHexadecimal text := by
      rintro ⟨hx', -, -⟩
      obtain ⟨more, rfl⟩ := hfront
      exact hx _ _ rfl hx'
    cases h with
    | @exponent whole fraction sign digits rest mark hm hmark he hne =>
      cases htext with
      | mantissa htext =>
        have hle := hm.length_le htext (by simpa using hfront)
        simp only [List.length_append] at hle ⊢
        omega
      | exponent hm' he' =>
        obtain ⟨rfl, hexponent⟩ := hm.of_exponent hm' he' hfront
        have hle := (he.of_isExponent he' hexponent).2
        simp only [List.length_append] at hle ⊢
        omega
      | hexadecimal htext => exact absurd htext hhex
    | fraction hm hrest => exact hm.length_le_of_isNumber hrest hhex htext hfront
    | integer hm hrest hvalue =>
      have hle := hm.length_le_of_isNumber hrest hhex htext (by simpa using hfront)
      simpa using hle

/-- What is read as a number is one. -/
theorem NumberRead.lexemeOf {cs : List Char} {l : Lexeme} (h : NumberRead cs (.ok l)) :
    LexemeOf l.kind l.text := by
  cases h with
  | hexadecimal hx h =>
    cases h with
    | integer hne hdigits hrest hvalue => exact .hexadecimal (.intro hx hne hdigits)
  | decimal h hx =>
    cases h with
    | exponent hm hmark he hne =>
      exact .exponent hm.isMantissa (he.isExponent hmark hne)
    | fraction hm hrest =>
      cases hm with
      | fraction hdigits hplaces _ => exact .fraction hdigits hplaces
    | integer hm hrest hvalue => exact .integer hm.isDigits

/-! ## Lexemes -/

/-- What is read as a token is one. -/
theorem LexemeRead.lexemeOf {cs : List Char} {l : Lexeme} (h : LexemeRead cs (.ok l)) :
    LexemeOf l.kind l.text := by
  cases h with
  | number h => exact h.lexemeOf
  | word hword _ hkind => exact hkind.lexemeOf hword
  | symbol _ => exact .symbol _

/-- A word goes on as long as it can. -/
theorem length_le_of_isWord {word rest text : List Char} {kind : TokenKind} (hword : IsWord word)
    (hrest : ∀ d ∈ rest.head?, isWordChar d = false) (htext : LexemeOf kind text)
    (hfront : text <+: word ++ rest) : text.length ≤ word.length := by
  obtain ⟨c, cs, rfl⟩ := htext.exists_cons
  have hstart : isWordStart c = true := by
    cases hword with
    | intro hstart _ =>
      rw [List.cons_append, List.cons_prefix_cons] at hfront
      exact hfront.1 ▸ hstart
  exact (prefix_run hfront (htext.isWord hstart).chars hword.chars hrest).length_le

/-- **The longest token is read.** Another token at the same place starts with
the same character, so it is of the same form. -/
theorem LexemeRead.longestLexeme {cs : List Char} {l : Lexeme} (h : LexemeRead cs (.ok l)) :
    LongestLexeme cs l.kind l.text := by
  refine ⟨h.lexemeOf, ?_, fun kind text htext hfront => ?_⟩
  · obtain ⟨-, rest, rfl⟩ := h.exists_append
    exact List.prefix_append _ _
  cases h with
  | number h =>
    obtain ⟨c, cs, rfl, hc⟩ := h.exists_cons
    obtain ⟨d, ds, rfl⟩ := htext.exists_cons
    obtain rfl : d = c := (List.cons_prefix_cons.mp hfront).1
    exact h.length_le (htext.isNumber hc) hfront
  | word hword hrest _ => exact length_le_of_isWord hword hrest htext hfront
  | @symbol s rest hlongest =>
    obtain ⟨c, cs, hs, -, hdigit, hstart⟩ := s.exists_chars
    obtain ⟨d, ds, rfl⟩ := htext.exists_cons
    obtain rfl : d = c := by
      rw [hs, List.cons_append] at hfront
      exact (List.cons_prefix_cons.mp hfront).1
    obtain ⟨t, ht⟩ := htext.exists_symbol hdigit hstart
    rw [ht] at hfront ⊢
    exact hlongest t hfront

/-! ## Faults -/

/-- What goes wrong with a number is a fault there. -/
theorem NumberRead.faultAt {cs : List Char} {f : LexFault} (h : NumberRead cs (.error f)) :
    FaultAt f.cause cs := by
  cases h with
  | hexadecimal hx h =>
    cases h with
    | malformed hrest => exact .noHexDigit hx hrest
    | tooLarge hne hdigits hrest hvalue => exact .hexTooLarge hx hdigits hrest (by omega)
  | decimal h hx =>
    cases h with
    | malformed hm hmark he =>
      refine .noExponent hm.isMantissa hmark fun e he' hfront => ?_
      exact (he.of_isExponent he' (by simpa using hfront)).1 rfl
    | tooLarge hm hrest hvalue =>
      refine .tooLarge hm.isDigits (fun c hc => ?_) (by omega)
      cases hm with
      | whole _ hstop => exact ⟨(hstop c hc).1, (hstop c hc).2, hrest c hc⟩

/-- What goes wrong is a fault there. -/
theorem LexemeRead.faultAt {cs : List Char} {f : LexFault} (h : LexemeRead cs (.error f)) :
    FaultAt f.cause cs := by
  cases h with
  | nonAscii hc => exact .nonAscii hc
  | number h => exact h.faultAt
  | unexpected hascii hdigit hword hsymbol =>
    refine .unexpectedChar hascii fun kind text htext hfront => ?_
    obtain ⟨d, ds, rfl⟩ := htext.exists_cons
    obtain rfl : d = _ := (List.cons_prefix_cons.mp hfront).1
    obtain ⟨s, hs⟩ := htext.exists_symbol hdigit hword
    exact hsymbol s (hs ▸ hfront)

end Lexeme

open Lexeme in
/-- **A fault is an error of its cause.** -/
theorem FaultAt.exists_lexemeRead {cause : LexCause} {cs : List Char} (h : FaultAt cause cs)
    (hcomment : ¬ ['/', '*'] <+: cs) : ∃ f, LexemeRead cs (.error f) ∧ f.cause = cause := by
  cases h with
  | unfinishedComment hbody => exact absurd ⟨_, rfl⟩ hcomment
  | nonAscii hc => exact ⟨_, .nonAscii hc, rfl⟩
  | noHexDigit hx hcs => exact ⟨_, .number (.hexadecimal hx (.malformed hcs)), rfl⟩
  | @noExponent mantissa cs mark hmantissa hmark hcs =>
    obtain ⟨hdigit, hpoint, hx⟩ := hmark.ends_mantissa
    have hstop : ∀ c ∈ (mark :: cs).head?, c.isDigit = false ∧ c ≠ '.' := by
      simp [hdigit, hpoint]
    obtain ⟨whole, fraction, rfl, hm⟩ := mantissaSplit_of_isMantissa hmantissa hstop
    have hx' := hm.not_hexadecimal (by simpa using hx)
    obtain ⟨sign, digits, rest, rfl, he⟩ := exists_exponentSplit cs
    obtain rfl : digits = [] := Decidable.byContradiction fun hne =>
      hcs _ (he.isExponent hmark hne) (by simp)
    rw [List.append_nil] at hm hx' ⊢
    exact ⟨_, .number (.decimal (.malformed hm hmark he) hx'), rfl⟩
  | @tooLarge digits cs hdigits hcs hvalue =>
    have hm : MantissaSplit digits [] cs :=
      .whole hdigits fun c hc => ⟨(hcs c hc).1, (hcs c hc).2.1⟩
    -- the only digits before an `x` that could be mistaken are a zero, which is not too large
    have hx : ∀ x ds, digits ++ cs = '0' :: x :: ds → ¬ (x = 'x' ∨ x = 'X') := by
      intro x ds heq hx
      obtain ⟨rfl, -, -⟩ := hm.unique (mantissaSplit_zero hx ds) (by simpa using heq)
      revert hvalue
      decide
    exact ⟨_, .number (.decimal (.tooLarge hm (fun c hc => (hcs c hc).2.2) (by omega)) hx), rfl⟩
  | @hexTooLarge x digits cs hx hdigits hcs hvalue =>
    have hne : digits ≠ [] := by
      rintro rfl
      simp [Text.digitsValue] at hvalue
    exact ⟨_, .number (.hexadecimal hx (.tooLarge hne hdigits hcs (by omega))), rfl⟩
  | @unexpectedChar c cs hc hnone =>
    have hdigit : c.isDigit = false := by
      rw [← Bool.not_eq_true]
      intro hdigit
      exact hnone (.number (.integer 0)) [c] (.integer ⟨by simp, by simpa using hdigit⟩) (by simp)
    have hstart : isWordStart c = false := by
      rw [← Bool.not_eq_true]
      intro hstart
      obtain ⟨kind, hkind⟩ := exists_wordKind [c]
      exact hnone kind [c] (hkind.lexemeOf (.intro hstart (by simp))) (by simp)
    exact ⟨_, .unexpected hc hdigit hstart fun s => hnone _ _ (.symbol s), rfl⟩

/-- At a block comment without its end that is the only fault. -/
theorem FaultAt.eq_unfinishedComment {cause : LexCause} {body : List Char}
    (h : FaultAt cause ('/' :: '*' :: body)) : cause = .unfinishedComment := by
  generalize htext : '/' :: '*' :: body = text at h
  have hdigit : ∀ {c : Char} {cs : List Char}, '/' :: '*' :: body = c :: cs → c.isDigit ≠ true := by
    rintro c cs heq
    obtain rfl := (List.cons.inj heq).1
    decide
  cases h with
  | unfinishedComment _ => rfl
  | nonAscii hc =>
    obtain rfl := (List.cons.inj htext).1
    exact absurd hc (by decide)
  | noHexDigit => exact absurd (by decide) (hdigit htext)
  | noExponent hmantissa =>
    obtain ⟨c, cs, rfl, hc⟩ := hmantissa.exists_cons
    exact absurd hc (hdigit htext)
  | tooLarge hdigits =>
    obtain ⟨c, cs, rfl, hc⟩ := hdigits.exists_cons
    exact absurd hc (hdigit htext)
  | hexTooLarge => exact absurd (by decide) (hdigit htext)
  | unexpectedChar _ hnone =>
    rw [← htext] at hnone
    exact absurd ⟨_, rfl⟩ (hnone _ _ (.symbol .slash))

/-! ## The lexer -/

namespace Lexer

/-- **The lexer recognises its grammar by longest match.** Wherever a lexer that
has not stopped stands, blanks and comments can be skipped up to a place. There
the text is at its end and nothing is given out, or the longest token there is
given out, or an error, of a cause exactly if the text has that fault there. -/
theorem next_longestMatch (l : Lexer) (hl : l.finished = false) :
    (∃ gap rest, l.rest = gap ++ rest ∧ SkipsTo gap rest) ∧
      ∀ gap rest, l.rest = gap ++ rest → SkipsTo gap rest →
        (l.next.1 = none ↔ rest = []) ∧
        (∀ t, l.next.1 = some (.ok t) → LongestLexeme rest t.kind t.text.toList) ∧
        ∀ cause, (∃ e, l.next.1 = some (.error e) ∧ e.cause = cause) ↔ FaultAt cause rest := by
  refine ⟨Trivia.exists_skipsTo l.rest, fun gap rest hrest hgap => ?_⟩
  obtain ⟨result, hstep⟩ := exists_stepRead l.position hgap
  rw [hstep.next hrest hl]
  cases hstep with
  | finish _ =>
    refine ⟨by simp, by simp, fun cause => ⟨by simp, fun h => ?_⟩⟩
    obtain ⟨f, hread, -⟩ := h.exists_lexemeRead (by simp)
    obtain ⟨c, cs, hcs⟩ := hread.exists_cons
    cases hcs
  | comment _ hbody =>
    refine ⟨by simp, by simp, fun cause => ⟨?_, fun h => ⟨_, rfl, h.eq_unfinishedComment.symm⟩⟩⟩
    rintro ⟨e, he, rfl⟩
    cases he
    exact .unfinishedComment hbody
  | fault _ hcomment hread =>
    obtain ⟨c, cs, rfl⟩ := hread.exists_cons
    refine ⟨by simp, by simp, fun cause => ⟨?_, fun h => ?_⟩⟩
    · rintro ⟨e, he, rfl⟩
      cases he
      exact hread.faultAt
    · obtain ⟨f, hread', rfl⟩ := h.exists_lexemeRead hcomment
      cases hread.unique hread'
      exact ⟨_, rfl, rfl⟩
  | @token rest lexeme _ hcomment hread =>
    obtain ⟨c, cs, htext⟩ := hread.exists_cons
    refine ⟨by simp [htext], ?_, fun cause => ⟨by simp, fun h => ?_⟩⟩
    · rintro t ht
      cases ht
      simpa [Lexeme.at] using hread.longestLexeme
    · obtain ⟨f, hread', rfl⟩ := h.exists_lexemeRead hcomment
      cases hread.unique hread'

theorem next_longestMatch_tooLarge :
    (ofSource " /**/9223372036854775808+1").finished = false ∧
      ∃ e, (ofSource " /**/9223372036854775808+1").next.1 = some (.error e) ∧
        e.cause = .literalTooLarge := by
  refine ⟨rfl, ?_⟩
  have hgap : SkipsTo " /**/".toList "9223372036854775808+1".toList :=
    .place (.blank (by decide) (@IsTrivia.block [] [] (by decide) .nil))
      ⟨by simp [Trivia.isBlank], by decide, by simp⟩
  have hfault : FaultAt .literalTooLarge "9223372036854775808+1".toList :=
    @FaultAt.tooLarge "9223372036854775808".toList "+1".toList ⟨by decide, by simp⟩
      (by simp [IsExponentMark]) (by decide)
  exact (((next_longestMatch _ rfl).2 _ _ rfl hgap).2.2 _).mpr hfault

end Lexer

end ScalarLang
