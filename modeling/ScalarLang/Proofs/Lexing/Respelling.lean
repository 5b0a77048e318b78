import Mathlib.Data.List.Forall2
import ScalarLang.Grammar.Layout
import ScalarLang.Proofs.Lexing.Lexemes
/-!
# Tokens in another layout

A token that was read is read again, of the same kind, from each of its
spellings, whatever blank or comment comes after it (`LexemeRead.respell`).
So a text with the tokens of another one in some layout has the same tokens,
up to their spelling (`tokenize_of_isLayout`).
-/

namespace ScalarLang

variable {σ : Type} {r : Resolver σ}

/-! ## Ends of tokens -/

/-- A text before which a token ends: it is empty or starts with a blank or a
comment. -/
def IsBoundary (cs : List Char) : Prop := ∀ c ∈ cs.head?, Trivia.isBlank c = true ∨ c = '/'

/-- What trivia starts with can stand after a token. -/
theorem IsTrivia.isBoundary {cs : List Char} (h : IsTrivia cs) : IsBoundary cs := by
  cases h with
  | nil => simp [IsBoundary]
  | blank hc _ => simp [IsBoundary, hc]
  | line => simp [IsBoundary]
  | block => simp [IsBoundary]

/-- No token goes on with what ends one. -/
theorem not_continues {c : Char} (h : Trivia.isBlank c = true ∨ c = '/') :
    c.isDigit = false ∧ c ≠ '.' ∧ ¬ IsExponentMark c ∧ Text.isHexDigit c = false ∧
      ¬ (c = 'x' ∨ c = 'X') ∧ Lexeme.isWordChar c = false := by
  simp only [Trivia.isBlank, Bool.or_eq_true, beq_iff_eq] at h
  rcases h with ((((rfl | rfl) | rfl) | rfl) | rfl) | rfl <;>
    exact ⟨by decide, by decide, by simp [IsExponentMark], by decide, by decide, by decide⟩

namespace Lexeme

/-- A mantissa is one before whatever it does not go on with. -/
theorem MantissaSplit.replace {whole fraction rest rest' : List Char}
    (h : MantissaSplit whole fraction rest)
    (hrest : ∀ c ∈ rest'.head?, c.isDigit = false ∧ c ≠ '.') :
    MantissaSplit whole fraction rest' := by
  cases h with
  | whole hdigits _ => exact .whole hdigits hrest
  | fraction hdigits hplaces _ => exact .fraction hdigits hplaces fun c hc => (hrest c hc).1

theorem ExponentSplit.replace {sign digits rest rest' : List Char}
    (h : ExponentSplit sign digits rest) (hne : digits ≠ [])
    (hrest : ∀ c ∈ rest'.head?, c.isDigit = false) : ExponentSplit sign digits rest' := by
  cases h with
  | unsigned hdigits _ _ => exact .unsigned hdigits hrest fun hnil => absurd hnil hne
  | signed hsign hdigits _ => exact .signed hsign hdigits hrest

/-- A number is read again before another end. -/
theorem NumberRead.replace {cs rest : List Char} {l : Lexeme} (h : NumberRead cs (.ok l))
    (hrest : IsBoundary rest) : NumberRead (l.text ++ rest) (.ok l) := by
  have hend (c : Char) (hc : c ∈ rest.head?) := not_continues (hrest c hc)
  cases h with
  | hexadecimal hx h =>
    cases h with
    | integer hne hdigits _ hvalue =>
      exact .hexadecimal hx (.integer hne hdigits (fun c hc => (hend c hc).2.2.2.1) hvalue)
  | decimal h hx =>
    have hstop (c : Char) (hc : c ∈ rest.head?) : c.isDigit = false ∧ c ≠ '.' :=
      ⟨(hend c hc).1, (hend c hc).2.1⟩
    have hmark (c : Char) (hc : c ∈ rest.head?) : ¬ IsExponentMark c := (hend c hc).2.2.1
    have hplain {whole fraction rest' : List Char} (hm : MantissaSplit whole fraction rest') :=
      (hm.replace hstop).not_hexadecimal fun c hc => (hend c hc).2.2.2.2.1
    cases h with
    | @exponent whole fraction sign digits _ mark hm hmark' he hne =>
      obtain ⟨hdigit, hpoint, hx⟩ := hmark'.ends_mantissa
      have hm' : MantissaSplit whole fraction (mark :: sign ++ digits ++ rest) :=
        hm.replace (by simp [hdigit, hpoint])
      have he' := he.replace hne fun c hc => (hend c hc).1
      have hread := NumberRead.decimal (.exponent hm' hmark' he' hne)
        (hm'.not_hexadecimal (by simpa using hx))
      simpa using hread
    | fraction hm _ => exact .decimal (.fraction (hm.replace hstop) hmark) (hplain hm)
    | integer hm _ hvalue =>
      have hx' := hplain hm
      rw [List.append_nil] at hx'
      exact .decimal (.integer (hm.replace hstop) hmark hvalue) hx'

/-- No symbol goes on with what ends a token. -/
theorem not_mem_tail_chars (s : Symbol) :
    ∀ c ∈ s.chars.tail, ¬ (Trivia.isBlank c = true ∨ c = '/') := by
  cases s <;> simp [Symbol.chars, Symbol.spelling, Trivia.isBlank]

/-- A token is read again before another end. -/
theorem LexemeRead.replace {cs rest : List Char} {l : Lexeme} (h : LexemeRead cs (.ok l))
    (hrest : IsBoundary rest) : LexemeRead (l.text ++ rest) (.ok l) := by
  cases h with
  | number h => exact .number (h.replace hrest)
  | word hword _ hkind =>
    exact .word hword (fun c hc => (not_continues (hrest c hc)).2.2.2.2.2) hkind
  | @symbol s rest' hlongest =>
    refine .symbol fun t ht => Decidable.byContradiction fun hlt => ?_
    -- a longer symbol would go on with the first character of the rest
    obtain ⟨more, hmore⟩ := List.prefix_of_prefix_length_le (List.prefix_append _ _) ht (by omega)
    rw [← hmore, List.prefix_append_right_inj] at ht
    cases more with
    | nil => simp [← hmore] at hlt
    | cons c more =>
      obtain ⟨d, ds, hs, -⟩ := s.exists_chars
      have hmem : c ∈ t.chars.tail := by simp [← hmore, hs]
      obtain ⟨rest, rfl⟩ := ht
      exact not_mem_tail_chars t c hmem (hrest c rfl)

/-! ## Words in another case -/

theorem isWordStart_congr {c d : Char} (h : c.toLower = d.toLower) :
    isWordStart c = isWordStart d := by
  cases hc : c.isAlpha with
  | true => simp [isWordStart, hc, ← Text.isAlpha_congr h]
  | false =>
    obtain rfl := Text.eq_of_toLower_eq h hc
    rfl

theorem isWordChar_congr {c d : Char} (h : c.toLower = d.toLower) :
    isWordChar c = isWordChar d := by
  cases hc : c.isAlpha with
  | true => simp [isWordChar, Char.isAlphanum, hc, ← Text.isAlpha_congr h]
  | false =>
    obtain rfl := Text.eq_of_toLower_eq h hc
    rfl

/-- A word is one in any case. -/
theorem isWord_respell {word word' : List Char} (h : IsWord word)
    (hfold : word'.map Char.toLower = word.map Char.toLower) : IsWord word' := by
  cases h with
  | @intro c cs hc hcs =>
    obtain ⟨d, ds, rfl, hd, hds⟩ := List.map_eq_cons_iff.mp hfold
    refine .intro (by rwa [isWordStart_congr hd]) fun x hx => ?_
    have hmem : x.toLower ∈ cs.map Char.toLower := hds ▸ List.mem_map_of_mem hx
    obtain ⟨y, hy, hyx⟩ := List.mem_map.mp hmem
    rw [← isWordChar_congr hyx]
    exact hcs y hy

/-- A word is read again in another case, as the same reserved word or as an
identifier. -/
theorem LexemeRead.respell {cs rest word word' : List Char} {kind : TokenKind}
    (h : LexemeRead cs (.ok ⟨kind, word⟩)) (hkind : (∃ k, kind = .keyword k) ∨ kind = .identifier)
    (hfold : Text.foldCase (String.ofList word') = Text.foldCase (String.ofList word))
    (hrest : IsBoundary rest) : LexemeRead (word' ++ rest) (.ok ⟨kind, word'⟩) := by
  have hmap : word'.map Char.toLower = word.map Char.toLower := by
    simpa [Text.toList_foldCase] using congrArg String.toList hfold
  have hend (c : Char) (hc : c ∈ rest.head?) : isWordChar c = false :=
    (not_continues (hrest c hc)).2.2.2.2.2
  have hsame : Keyword.ofWord? (String.ofList word') = Keyword.ofWord? (String.ofList word) := by
    simp only [Keyword.ofWord?, Text.sameFolded, hfold]
  cases h with
  | number h =>
    obtain ⟨n, rfl⟩ := kind_scanNumber h.scanNumber
    simp at hkind
  | word hword _ hkind =>
    refine .word (isWord_respell hword hmap) hend ?_
    cases hkind with
    | keyword hk => exact .keyword (hsame.trans hk)
    | identifier hk => exact .identifier (hsame.trans hk)
  | symbol => simp at hkind

/-! ## Starts of tokens -/

/-- What stands in words starts no trivia. -/
theorem not_blank_of_isWordChar {c : Char} (h : isWordChar c = true) :
    Trivia.isBlank c = false ∧ c ≠ '/' := by
  rw [← Bool.not_eq_true, ← not_or]
  intro hends
  rw [(not_continues hends).2.2.2.2.2] at h
  cases h

/-- A token starts with no blank, and with a slash only if it is one. -/
theorem LexemeRead.first {cs : List Char} {l : Lexeme} (h : LexemeRead cs (.ok l)) :
    ∃ c ds, l.text = c :: ds ∧ Trivia.isBlank c = false ∧
      (c = '/' → l = ⟨.symbol .slash, ['/']⟩) := by
  have hword {c : Char} {ds : List Char} (hl : l.text = c :: ds) (hc : isWordChar c = true) :
      ∃ c ds, l.text = c :: ds ∧ Trivia.isBlank c = false ∧
        (c = '/' → l = ⟨.symbol .slash, ['/']⟩) :=
    ⟨c, ds, hl, (not_blank_of_isWordChar hc).1, fun hslash =>
      absurd hslash (not_blank_of_isWordChar hc).2⟩
  cases h with
  | number h =>
    obtain ⟨hne, rest, hrest⟩ := h.exists_append
    obtain ⟨c, ds, hl⟩ := List.exists_cons_of_ne_nil hne
    obtain ⟨d, _, hd, hdigit⟩ := h.exists_cons
    obtain rfl : c = d := by
      rw [hl, hd] at hrest
      exact (List.cons.inj hrest).1.symm
    exact hword hl (by simp [isWordChar, Char.isAlphanum, hdigit])
  | word h _ _ =>
    cases h with
    | intro hc _ => exact hword rfl (isWordChar_of_isWordStart hc)
  | @symbol s => cases s <;> exact ⟨_, _, rfl, by decide, by decide⟩

/-- Skipping ends at a token, unless it is a slash with which a comment
starts. -/
theorem LexemeRead.skipsTo {gap rest : List Char} {l : Lexeme}
    (h : LexemeRead (l.text ++ rest) (.ok l)) (hgap : IsTrivia gap)
    (hslash : l.kind = .symbol .slash → ∀ c ∈ rest.head?, Trivia.isBlank c = true) :
    SkipsTo gap (l.text ++ rest) ∧ ¬ ['/', '*'] <+: l.text ++ rest := by
  obtain ⟨c, ds, hl, hblank, hfirst⟩ := h.first
  have hcomment {d : Char} {more : List Char} (hd : Trivia.isBlank d = false) :
      ¬ '/' :: d :: more <+: l.text ++ rest := by
    rintro ⟨tail, htail⟩
    rw [hl] at htail
    obtain rfl : '/' = c := (List.cons.inj htail).1
    obtain rfl := hfirst rfl
    obtain rfl : ds = [] := (List.cons.inj hl).2.symm
    obtain rfl : d :: more ++ tail = rest := (List.cons.inj htail).2
    rw [hslash rfl d rfl] at hd
    cases hd
  refine ⟨.place hgap ⟨?_, hcomment (by decide), fun body => hcomment (by decide)⟩,
    hcomment (by decide)⟩
  rw [hl]
  rintro d hd
  obtain rfl : c = d := Option.some.inj hd
  exact hblank

end Lexeme

/-! ## Tokens -/

/-- The token is what is read somewhere from its text. -/
def Token.IsRead (t : Token) : Prop :=
  ∃ rest, Lexeme.LexemeRead (t.text.toList ++ rest) (.ok ⟨t.kind, t.text.toList⟩)

/-- The tokens of a source text are read from it. -/
theorem isRead_of_tokenize {source : String} {ts : List Token} (h : tokenize source = .ok ts) :
    ∀ t ∈ ts, t.IsRead := by
  have hrun : ∀ t ∈ (Lexer.ofSource source).run.1, t.IsRead := by
    refine Lexer.forall_mem_run (fun l l' t hnext => ?_) _
    obtain ⟨c, cs, lexeme, p, hscan, rfl⟩ := Lexer.scan_of_next hnext
    obtain ⟨result, hread⟩ := Lexeme.exists_lexemeRead c cs
    obtain rfl : result = .ok lexeme := hread.scan.symm.trans hscan
    obtain ⟨-, rest, hrest⟩ := hread.exists_append
    rw [hrest] at hread
    exact ⟨rest, by simpa [Lexeme.at] using hread⟩
  unfold tokenize at h
  split at h
  · rename_i tokens final heq
    cases h
    rwa [heq] at hrun
  · cases h

/-- **A token is read again from each of its spellings**, before whatever may
follow. -/
theorem Token.IsRead.spelledAs {t : Token} {text : String} {rest : List Char} (ht : t.IsRead)
    (htext : t.SpelledAs r text) (hrest : IsBoundary rest) :
    Lexeme.LexemeRead (text.toList ++ rest) (.ok ⟨t.kind, text.toList⟩) := by
  obtain ⟨rest₀, hread⟩ := ht
  cases htext with
  | same => exact hread.replace hrest
  | keyword hk hfold => exact hread.respell (.inl ⟨_, hk⟩) (by simpa using hfold) hrest
  | function hk _ hfold => exact hread.respell (.inr hk) (by simpa using hfold) hrest

/-- The second token is the first one in another spelling, at any place. -/
structure Token.Respelled (r : Resolver σ) (t u : Token) : Prop where
  kind : u.kind = t.kind
  text : t.SpelledAs r u.text

/-! ## Texts -/

theorem IsSeparator.isTrivia {gap : List Char} (h : IsSeparator gap) : IsTrivia gap := by
  cases h with
  | intro hc hcs => exact .blank hc hcs

/-- What is last of a list is last of a longer one. -/
theorem mem_getLast?_cons {t u : Token} {ts : List Token} (h : u ∈ ts.getLast?) :
    u ∈ (t :: ts).getLast? := by
  have hlast : ts.getLast? = some u := h
  simp [List.getLast?_cons, hlast]

/-- Blanks or a comment follow each token of a layout. -/
theorem LaidAfter.isBoundary {ts : List Token} {cs : List Char} (h : LaidAfter r ts cs) :
    IsBoundary cs := by
  cases h with
  | nil hback => exact hback.isBoundary
  | cons hgap _ _ =>
    cases hgap with
    | intro hc _ => simp [IsBoundary, hc]

/-- Before another token there is a blank. -/
theorem LaidAfter.isBlank {t : Token} {ts : List Token} {cs : List Char}
    (h : LaidAfter r (t :: ts) cs) : ∀ c ∈ cs.head?, Trivia.isBlank c = true := by
  cases h with
  | cons hgap _ _ =>
    cases hgap with
    | intro hc _ => simp [hc]

namespace Lexer

/-- The lexer gives out a lexeme after a gap and goes on after it. -/
theorem run_lexeme {kind : TokenKind} {gap text rest : List Char} (p : Position)
    (hread : Lexeme.LexemeRead (text ++ rest) (.ok ⟨kind, text⟩)) (hgap : IsTrivia gap)
    (hslash : kind = .symbol .slash → ∀ c ∈ rest.head?, Trivia.isBlank c = true) :
    (Lexer.mk p (gap ++ text ++ rest) false).run
      = (⟨kind, String.ofList text, p.advance gap⟩ ::
          (Lexer.mk ((p.advance gap).advance text) rest false).run.1,
        (Lexer.mk ((p.advance gap).advance text) rest false).run.2.1,
        (Lexer.mk ((p.advance gap).advance text) rest false).run.2.2) := by
  obtain ⟨hskips, hcomment⟩ :=
    Lexeme.LexemeRead.skipsTo (l := ⟨kind, text⟩) hread hgap hslash
  exact run_token ((StepRead.token (p := p) hskips hcomment hread).next
    (l := ⟨p, gap ++ text ++ rest, false⟩) (List.append_assoc _ _ _) rfl)

/-- The lexer gives out the first token of a layout and goes on after it. -/
theorem run_spelledAs {t : Token} {ts : List Token} {front rest : List Char} {text : String}
    (p : Position) (ht : t.IsRead) (hfront : IsTrivia front) (htext : t.SpelledAs r text)
    (hrest : LaidAfter r ts rest) (hlast : ∀ u ∈ (t :: ts).getLast?, u.kind ≠ .symbol .slash) :
    ∃ p', (Lexer.mk p (front ++ text.toList ++ rest) false).run
      = (⟨t.kind, text, p.advance front⟩ :: (Lexer.mk p' rest false).run.1,
        (Lexer.mk p' rest false).run.2.1, (Lexer.mk p' rest false).run.2.2) := by
  have hread := ht.spelledAs htext hrest.isBoundary
  have hslash (hslash : t.kind = .symbol .slash) : ∀ c ∈ rest.head?, Trivia.isBlank c = true := by
    cases ts with
    | nil => exact absurd hslash (hlast t rfl)
    | cons => exact hrest.isBlank
  refine ⟨(p.advance front).advance text.toList, ?_⟩
  simpa using run_lexeme p hread hfront hslash

/-- The lexer gives out the tokens of a layout in their spellings. -/
theorem run_of_laidAfter {ts : List Token} {cs : List Char} (h : LaidAfter r ts cs)
    (hread : ∀ t ∈ ts, t.IsRead) (hlast : ∀ t ∈ ts.getLast?, t.kind ≠ .symbol .slash)
    (p : Position) : (Lexer.mk p cs false).run.2.1 = none ∧
      List.Forall₂ (Token.Respelled r) ts (Lexer.mk p cs false).run.1 := by
  induction h generalizing p with
  | nil hback =>
    have hnext := (StepRead.finish (p := p) (.tail (.trivia hback))).next (l := ⟨p, _, false⟩)
      (List.append_nil _).symm rfl
    rw [run_none hnext]
    exact ⟨rfl, .nil⟩
  | @cons t ts gap rest text hgap htext hrest ih =>
    obtain ⟨ht, hts⟩ := List.forall_mem_cons.mp hread
    obtain ⟨p', hrun⟩ := run_spelledAs p ht hgap.isTrivia htext hrest hlast
    obtain ⟨herror, htokens⟩ := ih hts (fun u hu => hlast u (mem_getLast?_cons hu)) p'
    rw [hrun]
    exact ⟨herror, .cons ⟨rfl, htext⟩ htokens⟩

end Lexer

/-- **A text in another layout has the same tokens**, up to their spelling. -/
theorem tokenize_of_isLayout {source source' : String} {ts : List Token}
    (hts : tokenize source = .ok ts) (hlast : ∀ t ∈ ts.getLast?, t.kind ≠ .symbol .slash)
    (hlayout : IsLayout r ts source'.toList) :
    ∃ us, tokenize source' = .ok us ∧ List.Forall₂ (Token.Respelled r) ts us := by
  have hread := isRead_of_tokenize hts
  have hrun : (Lexer.ofSource source').run.2.1 = none ∧
      List.Forall₂ (Token.Respelled r) ts (Lexer.ofSource source').run.1 := by
    unfold Lexer.ofSource
    generalize source'.toList = cs at hlayout
    cases hlayout with
    | nil hcs => exact Lexer.run_of_laidAfter (.nil hcs) hread hlast _
    | @cons t ts front rest text hfront htext hrest =>
      obtain ⟨ht, hts⟩ := List.forall_mem_cons.mp hread
      obtain ⟨p, hrun⟩ := Lexer.run_spelledAs .start ht hfront htext hrest hlast
      obtain ⟨herror, htokens⟩ :=
        Lexer.run_of_laidAfter hrest hts (fun u hu => hlast u (mem_getLast?_cons hu)) p
      rw [hrun]
      exact ⟨herror, .cons ⟨rfl, htext⟩ htokens⟩
  obtain ⟨herror, htokens⟩ := hrun
  refine ⟨_, ?_, htokens⟩
  unfold tokenize
  generalize (Lexer.ofSource source').run = run at herror
  obtain ⟨us, error, final⟩ := run
  obtain rfl : error = none := herror
  rfl

end ScalarLang
