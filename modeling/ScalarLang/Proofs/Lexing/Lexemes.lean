import ScalarLang.Proofs.Lexing.Identifiers
import ScalarLang.Proofs.Lexing.Numbers
/-!
# How lexemes are read

What is read at the front of a text depends on the class of its first
character. What can come of it is said once (`LexemeRead`), and so is what
comes of a step of the lexer (`Lexer.StepRead`).
-/

namespace ScalarLang

/-! ## Words -/

theorem Keyword.mem_all (k : Keyword) : k ∈ all := by cases k <;> decide

/-- A word is the reserved word that it is in some case. -/
theorem Keyword.sameFolded_of_ofWord? {word : String} {k : Keyword} (h : ofWord? word = some k) :
    Text.sameFolded k.spelling word = Bool.true :=
  List.find?_some (p := fun k => Text.sameFolded (Keyword.spelling k) word) h

/-- A word is no reserved word if it is none in any case. -/
theorem Keyword.ofWord?_eq_none_iff {word : String} :
    ofWord? word = none ↔ ∀ k : Keyword, Text.sameFolded k.spelling word = Bool.false := by
  rw [ofWord?, List.find?_eq_none]
  exact ⟨fun h k => by simpa using h k k.mem_all, fun h k _ => by simp [h k]⟩

theorem IsWord.chars {word : List Char} (h : IsWord word) :
    ∀ c ∈ word, Lexeme.isWordChar c = true := by
  cases h with
  | intro hc hcs => simpa [Lexeme.isWordChar_of_isWordStart hc] using hcs

/-! ## Symbols -/

namespace Symbol

/-- The characters of a symbol, as a list. -/
def chars (s : Symbol) : List Char := s.spelling.toList

theorem mem_all (s : Symbol) : s ∈ all := by cases s <;> decide

/-- Longer symbols are looked for first. -/
theorem sorted_all : all.Pairwise fun s t => t.chars.length ≤ s.chars.length := by decide

/-- Symbols are told apart by their characters. -/
theorem chars_injective {s t : Symbol} (h : s.chars = t.chars) : s = t := by
  have hall : ∀ s ∈ all, ∀ t ∈ all, s.chars = t.chars → s = t := by decide +kernel
  exact hall s s.mem_all t t.mem_all h

/-- Symbols have a first character, and it starts neither a number nor a word. -/
theorem exists_chars (s : Symbol) : ∃ c cs, s.chars = c :: cs ∧ c.toNat < 128 ∧
    c.isDigit = false ∧ Lexeme.isWordStart c = false := by
  cases s <;> exact ⟨_, _, rfl, by decide, by decide, by decide⟩

end Symbol

namespace Lexeme

/-- No symbol is found where there is none. -/
theorem scanSymbol?_eq_none_iff {cs : List Char} :
    scanSymbol? cs = none ↔ ∀ s : Symbol, ¬ s.chars <+: cs := by
  rw [scanSymbol?, Option.map_eq_none_iff, List.find?_eq_none]
  exact ⟨fun h s hs => h s s.mem_all (List.isPrefixOf_iff_prefix.mpr hs),
    fun h s _ hs => h s (List.isPrefixOf_iff_prefix.mp hs)⟩

/-- The first symbol found is the longest one there is. -/
theorem length_le_of_scanSymbol? {cs : List Char} {l : Lexeme} (h : scanSymbol? cs = some l) :
    ∃ s : Symbol, l = ⟨.symbol s, s.chars⟩ ∧ s.chars <+: cs ∧
      ∀ t : Symbol, t.chars <+: cs → t.chars.length ≤ s.chars.length := by
  obtain ⟨s, hfind, rfl⟩ := Option.map_eq_some_iff.mp h
  obtain ⟨hs, before, behind, hall, hbefore⟩ := List.find?_eq_some_iff_append.mp hfind
  refine ⟨s, rfl, List.isPrefixOf_iff_prefix.mp hs, fun t ht => ?_⟩
  have hsorted := Symbol.sorted_all
  rw [hall, List.pairwise_append] at hsorted
  have hmem := t.mem_all
  rw [hall, List.mem_append, List.mem_cons] at hmem
  rcases hmem with hmem | rfl | hmem
  · have hnot : t.chars.isPrefixOf cs = false := by
      simpa [Symbol.chars] using hbefore t hmem
    rw [List.isPrefixOf_iff_prefix.mpr ht] at hnot
    cases hnot
  · exact Nat.le_refl _
  · exact (List.pairwise_cons.mp hsorted.2.1).1 t hmem

/-! ## Lexemes -/

/-- A word is of the kind: a reserved word, or an identifier if it is none. -/
inductive WordKind (word : List Char) : TokenKind → Prop
  | keyword {k : Keyword} (hk : Keyword.ofWord? (String.ofList word) = some k) :
    WordKind word (.keyword k)
  | identifier (hk : Keyword.ofWord? (String.ofList word) = none) : WordKind word .identifier

theorem exists_wordKind (word : List Char) : ∃ kind, WordKind word kind := by
  cases hk : Keyword.ofWord? (String.ofList word) with
  | some k => exact ⟨_, .keyword hk⟩
  | none => exact ⟨_, .identifier hk⟩

/-- **How a lexeme is read**, by the class of the first character. -/
inductive LexemeRead : List Char → Except LexFault Lexeme → Prop
  | nonAscii {c : Char} {cs : List Char} (hc : 128 ≤ c.toNat) :
    LexemeRead (c :: cs) (.error ⟨.nonAscii, [], [c]⟩)
  | number {cs : List Char} {result : Except LexFault Lexeme} (h : NumberRead cs result) :
    LexemeRead cs result
  | word {word rest : List Char} {kind : TokenKind} (hword : IsWord word)
    (hrest : ∀ d ∈ rest.head?, isWordChar d = false) (hkind : WordKind word kind) :
    LexemeRead (word ++ rest) (.ok ⟨kind, word⟩)
  | symbol {s : Symbol} {rest : List Char}
    (hlongest : ∀ t : Symbol, t.chars <+: s.chars ++ rest → t.chars.length ≤ s.chars.length) :
    LexemeRead (s.chars ++ rest) (.ok ⟨.symbol s, s.chars⟩)
  | unexpected {c : Char} {cs : List Char} (hascii : c.toNat < 128) (hdigit : c.isDigit = false)
    (hword : isWordStart c = false) (hsymbol : ∀ s : Symbol, ¬ s.chars <+: c :: cs) :
    LexemeRead (c :: cs) (.error ⟨.unexpectedChar, [], [c]⟩)

/-- Every text that is not empty can be read so. -/
theorem exists_lexemeRead (c : Char) (cs : List Char) :
    ∃ result, LexemeRead (c :: cs) result := by
  by_cases hascii : 128 ≤ c.toNat
  · exact ⟨_, .nonAscii hascii⟩
  by_cases hdigit : c.isDigit = true
  · obtain ⟨result, hread⟩ := exists_numberRead cs hdigit
    exact ⟨result, .number hread⟩
  by_cases hstart : isWordStart c = true
  · obtain ⟨run, rest, rfl, -, hrun, hrest⟩ := exists_run isWordChar cs
    obtain ⟨kind, hkind⟩ := exists_wordKind (c :: run)
    exact ⟨_, .word (.intro hstart hrun) hrest hkind⟩
  · cases hscan : scanSymbol? (c :: cs) with
    | some l =>
      obtain ⟨s, rfl, ⟨rest, hrest⟩, hlongest⟩ := length_le_of_scanSymbol? hscan
      rw [← hrest] at hlongest ⊢
      exact ⟨_, .symbol hlongest⟩
    | none =>
      exact ⟨_, .unexpected (by omega) (by simpa using hdigit) (by simpa using hstart)
        (scanSymbol?_eq_none_iff.mp hscan)⟩

theorem toNat_lt_of_isDigit {c : Char} (h : c.isDigit = true) : c.toNat < 128 := by
  rw [Text.isDigit_iff] at h
  omega

theorem isWordStart_iff {c : Char} : isWordStart c = true ↔ c.isAlpha = true ∨ c = '_' := by
  simp [isWordStart]

theorem toNat_lt_of_isWordStart {c : Char} (h : isWordStart c = true) : c.toNat < 128 := by
  rw [isWordStart_iff, Text.isAlpha_iff] at h
  rcases h with h | rfl
  · omega
  · decide

/-- A word does not start with a digit. -/
theorem isDigit_of_isWordStart {c : Char} (h : isWordStart c = true) : c.isDigit = false := by
  rw [← Bool.not_eq_true, Text.isDigit_iff]
  rw [isWordStart_iff, Text.isAlpha_iff] at h
  rcases h with h | rfl
  · omega
  · decide

/-- **Lexemes are read so.** -/
theorem LexemeRead.scan {c : Char} {cs : List Char} {result : Except LexFault Lexeme}
    (h : LexemeRead (c :: cs) result) : scan c cs = result := by
  generalize htext : c :: cs = text at h
  cases h with
  | nonAscii hc =>
    obtain ⟨rfl, -⟩ := List.cons.inj htext
    simp [Lexeme.scan, hc]
  | number h =>
    subst htext
    obtain ⟨d, ds, heq, hc⟩ := h.exists_cons
    obtain ⟨rfl, rfl⟩ := List.cons.inj heq
    have hascii := toNat_lt_of_isDigit hc
    simp [Lexeme.scan, Nat.not_le.mpr hascii, hc, h.scanNumber]
  | @word word rest kind hword hrest hkind =>
    have hrun : (c :: cs).takeWhile isWordChar = word := by
      rw [htext, takeWhile_run hword.chars hrest]
    have hscan : scanWord (c :: cs) = ⟨kind, word⟩ := by
      cases hkind with
      | keyword hk => simp only [scanWord, hrun, hk]
      | identifier hk => simp only [scanWord, hrun, hk]
    cases hword with
    | intro hstart _ =>
      obtain ⟨rfl, -⟩ := List.cons.inj htext
      have hascii := toNat_lt_of_isWordStart hstart
      simp [Lexeme.scan, Nat.not_le.mpr hascii, isDigit_of_isWordStart hstart, hstart, hscan]
  | @symbol s rest hlongest =>
    obtain ⟨d, ds, hs, hascii, hdigit, hstart⟩ := s.exists_chars
    have hfront : s.chars <+: c :: cs := ⟨rest, htext.symm⟩
    obtain rfl : c = d := by
      rw [hs] at htext
      exact (List.cons.inj htext).1
    -- the symbol that is found is at least as long, and at most
    obtain ⟨l, hl⟩ : ∃ l, scanSymbol? (c :: cs) = some l := by
      cases hscan : scanSymbol? (c :: cs) with
      | some l => exact ⟨l, rfl⟩
      | none => exact absurd hfront (scanSymbol?_eq_none_iff.mp hscan s)
    obtain ⟨t, rfl, ht, hmax⟩ := length_le_of_scanSymbol? hl
    have hlen : t.chars.length = s.chars.length :=
      Nat.le_antisymm (hlongest t (htext ▸ ht)) (hmax s hfront)
    have hsame := List.prefix_of_prefix_length_le ht hfront (Nat.le_of_eq hlen)
    obtain rfl : t = s := Symbol.chars_injective (hsame.eq_of_length hlen)
    simp [Lexeme.scan, Nat.not_le.mpr hascii, hdigit, hstart, hl]
  | unexpected hascii hdigit hword hsymbol =>
    obtain ⟨rfl, rfl⟩ := List.cons.inj htext
    have hnone := scanSymbol?_eq_none_iff.mpr hsymbol
    simp [Lexeme.scan, Nat.not_le.mpr hascii, hdigit, hword, hnone]

/-- A text that is read is not empty. -/
theorem LexemeRead.exists_cons {cs : List Char} {result : Except LexFault Lexeme}
    (h : LexemeRead cs result) : ∃ c ds, cs = c :: ds := by
  cases h with
  | nonAscii => exact ⟨_, _, rfl⟩
  | number h =>
    obtain ⟨c, ds, hcs, -⟩ := h.exists_cons
    exact ⟨c, ds, hcs⟩
  | word hword => cases hword with | intro => exact ⟨_, _, rfl⟩
  | @symbol s =>
    obtain ⟨c, ds, hs, -⟩ := s.exists_chars
    exact ⟨c, _, by rw [hs]; rfl⟩
  | unexpected => exact ⟨_, _, rfl⟩

/-- A text is read in one way. -/
theorem LexemeRead.unique {cs : List Char} {result result' : Except LexFault Lexeme}
    (h : LexemeRead cs result) (h' : LexemeRead cs result') : result = result' := by
  obtain ⟨c, ds, rfl⟩ := h.exists_cons
  rw [← h.scan, ← h'.scan]

/-- The characters of a number stand at the front of the text. -/
theorem NumberRead.exists_append {cs : List Char} {l : Lexeme} (h : NumberRead cs (.ok l)) :
    l.text ≠ [] ∧ ∃ rest, cs = l.text ++ rest := by
  cases h with
  | hexadecimal hx h =>
    cases h with
    | integer hne hdigits hrest hvalue => exact ⟨by simp, _, by simp; rfl⟩
  | decimal h hx =>
    cases h with
    | exponent hm hmark he hne => exact ⟨by simp, _, by simp; rfl⟩
    | fraction hm hrest => exact ⟨by simp, _, by simp; rfl⟩
    | integer hm hrest hvalue => exact ⟨hm.isDigits.1, _, rfl⟩

/-- The characters of a lexeme stand at the front of the text. -/
theorem LexemeRead.exists_append {cs : List Char} {l : Lexeme} (h : LexemeRead cs (.ok l)) :
    l.text ≠ [] ∧ ∃ rest, cs = l.text ++ rest := by
  cases h with
  | number h => exact h.exists_append
  | word hword hrest hkind => cases hword with | intro => exact ⟨by simp, _, rfl⟩
  | @symbol s rest hlongest =>
    obtain ⟨c, cs, hs, -⟩ := s.exists_chars
    exact ⟨by simp [hs], rest, rfl⟩

/-- What a fault concerns stands in the text. -/
theorem LexemeRead.exists_append_of_error {cs : List Char} {f : LexFault}
    (h : LexemeRead cs (.error f)) : ∃ rest, cs = f.before ++ f.text ++ rest := by
  cases h with
  | nonAscii hc => exact ⟨_, rfl⟩
  | number h =>
    cases h with
    | @hexadecimal _ cs _ hx h =>
      cases h with
      | malformed hrest => exact ⟨cs.drop 1, by simp [-List.drop_one]⟩
      | tooLarge hne hdigits hrest hvalue => exact ⟨_, rfl⟩
    | decimal h hx =>
      cases h with
      | @malformed _ _ _ rest => exact ⟨rest.drop 1, by simp [-List.drop_one]⟩
      | tooLarge hm hrest hvalue => exact ⟨_, rfl⟩
  | unexpected => exact ⟨_, rfl⟩

end Lexeme

/-! ## The lexer -/

namespace Lexer

/-- **What a step comes to** at `p`, where `gap` is skipped before `rest`: the
end, an unfinished comment, a fault, or a token. -/
inductive StepRead (p : Position) (gap : List Char) :
    List Char → Option (Except LexError Token) × Lexer → Prop
  | finish (hgap : SkipsTo gap []) : StepRead p gap [] (none, ⟨p.advance gap, [], true⟩)
  | comment {body : List Char} (hgap : SkipsTo gap ('/' :: '*' :: body))
    (hbody : ¬ ['*', '/'] <:+: body) :
    StepRead p gap ('/' :: '*' :: body)
      (some (.error (LexFault.at ⟨.unfinishedComment, gap ++ ['/', '*'], body.take 1⟩ p)),
        ⟨p, gap ++ '/' :: '*' :: body, true⟩)
  | fault {rest : List Char} {f : LexFault} (hgap : SkipsTo gap rest)
    (hcomment : ¬ ['/', '*'] <+: rest) (hread : Lexeme.LexemeRead rest (.error f)) :
    StepRead p gap rest (some (.error (f.at (p.advance gap))), ⟨p.advance gap, rest, true⟩)
  | token {rest : List Char} {l : Lexeme} (hgap : SkipsTo gap (l.text ++ rest))
    (hcomment : ¬ ['/', '*'] <+: l.text ++ rest)
    (hread : Lexeme.LexemeRead (l.text ++ rest) (.ok l)) :
    StepRead p gap (l.text ++ rest)
      (some (.ok (l.at (p.advance gap))), ⟨(p.advance gap).advance l.text, rest, false⟩)

/-- Every text can be read so, after any gap up to which it can be skipped. -/
theorem exists_stepRead (p : Position) {gap rest : List Char} (h : SkipsTo gap rest) :
    ∃ result, StepRead p gap rest result := by
  cases rest with
  | nil => exact ⟨_, .finish h⟩
  | cons c cs =>
    by_cases hcomment : ['/', '*'] <+: c :: cs
    · obtain ⟨body, hbody⟩ := hcomment
      rw [← hbody] at h ⊢
      exact ⟨_, .comment h (Trivia.scan_of_skipsTo_comment h).1⟩
    obtain ⟨result, hread⟩ := Lexeme.exists_lexemeRead c cs
    cases result with
    | error f => exact ⟨_, .fault h hcomment hread⟩
    | ok l =>
      obtain ⟨-, rest, hrest⟩ := hread.exists_append
      rw [hrest] at h hcomment hread ⊢
      exact ⟨_, .token h hcomment hread⟩

/-- **Steps are taken so.** -/
theorem StepRead.next {l : Lexer} {gap rest : List Char}
    {result : Option (Except LexError Token) × Lexer} (h : StepRead l.position gap rest result)
    (hrest : l.rest = gap ++ rest) (hl : l.finished = false) : l.next = result := by
  obtain ⟨p, text, finished⟩ := l
  obtain rfl : finished = false := hl
  obtain rfl : text = gap ++ rest := hrest
  cases h with
  | finish hgap =>
    have hscan := Trivia.scan_of_skipsTo hgap (by simp)
    rw [List.append_nil] at hscan
    simp [Lexer.next, hscan]
  | comment hgap hbody =>
    simp [Lexer.next, (Trivia.scan_of_skipsTo_comment hgap).2]
  | fault hgap hcomment hread =>
    obtain ⟨c, cs, rfl⟩ := hread.exists_cons
    simp [Lexer.next, Trivia.scan_of_skipsTo hgap hcomment, hread.scan]
  | @token rest lexeme hgap hcomment hread =>
    have hscan := Trivia.scan_of_skipsTo hgap hcomment
    obtain ⟨kind, text⟩ := lexeme
    obtain ⟨c, cs, rfl⟩ : ∃ c cs, text = c :: cs := List.exists_cons_of_ne_nil hread.exists_append.1
    simp only [List.cons_append] at hread hscan ⊢
    simp [Lexer.next, hscan, hread.scan]

/-- A lexer that has not stopped takes one of these steps. -/
theorem exists_step (l : Lexer) (hl : l.finished = false) :
    ∃ gap rest, l.rest = gap ++ rest ∧ StepRead l.position gap rest l.next := by
  obtain ⟨gap, rest, hrest, hgap⟩ := Trivia.exists_skipsTo l.rest
  obtain ⟨result, hstep⟩ := exists_stepRead l.position hgap
  exact ⟨gap, rest, hrest, hstep.next hrest hl ▸ hstep⟩

end Lexer

end ScalarLang
