import ScalarLang.Token.Lexer
import ScalarLang.Variables
/-!
# Identifiers

The identifiers that a lexer reads are words of the right characters and
no reserved ones. The name under which a program keeps what it returns is
no such word, so no source text can mention it.
-/

namespace ScalarLang

/-- A text that is an identifier: it starts and goes on as a word, and is
no reserved word. -/
structure IsIdentifier (text : String) : Prop where
  start : ∃ c cs, text.toList = c :: cs ∧ Lexeme.isWordStart c = true
  chars : ∀ c ∈ text.toList, Lexeme.isWordChar c = true
  notReserved : Keyword.ofWord? text = none

/-- What starts a word may stand in it. -/
theorem Lexeme.isWordChar_of_isWordStart {c : Char} (h : isWordStart c = true) :
    isWordChar c = true := by
  simp only [isWordStart, Bool.or_eq_true] at h
  simp only [isWordChar, Char.isAlphanum, Bool.or_eq_true]
  exact h.imp_left .inl

/-- The variable of the returned value has no identifier for a name. -/
theorem not_isIdentifier_returnName : ¬ IsIdentifier Variables.returnName := by
  intro h
  have hash : Lexeme.isWordChar '#' = true := h.chars '#' (by decide)
  revert hash
  decide

namespace Lexeme

/-! ## Lexemes -/

/-- What starts like a number is one. -/
theorem kind_scanNumber {cs : List Char} {l : Lexeme} (h : scanNumber cs = .ok l) :
    ∃ n, l.kind = .number n := by
  -- decimal numbers start in two ways: with a zero that no `x` follows, and without
  have decimal {cs : List Char} {l : Lexeme} (h : scanDecimal cs = .ok l) :
      ∃ n, l.kind = .number n := by
    unfold scanDecimal at h
    simp only at h
    split at h
    · split at h
      · cases h
      · cases h
        exact ⟨_, rfl⟩
    · split at h
      · split at h
        · cases h
          exact ⟨_, rfl⟩
        · cases h
      · cases h
        exact ⟨_, rfl⟩
  unfold scanNumber at h
  split at h
  · split at h
    · unfold scanHexadecimal at h
      simp only at h
      split at h
      · cases h
      · split at h
        · cases h
          exact ⟨_, rfl⟩
        · cases h
    · exact decimal h
  · exact decimal h

/-- A word that is an identifier is one by its characters. -/
theorem isIdentifier_of_scanWord {c : Char} {cs : List Char} (hc : isWordStart c = true)
    (h : (scanWord (c :: cs)).kind = .identifier) :
    IsIdentifier (String.ofList (scanWord (c :: cs)).text) := by
  unfold scanWord at h ⊢
  simp only at h ⊢
  split at h
  · cases h
  · rename_i hreserved
    refine ⟨⟨c, cs.takeWhile isWordChar, ?_, hc⟩, fun d hd => ?_, hreserved⟩
    · simp [isWordChar_of_isWordStart hc]
    · rw [String.toList_ofList] at hd
      exact List.all_eq_true.mp List.all_takeWhile d hd

/-- An identifier is read from a word. -/
theorem isIdentifier_of_scan {c : Char} {cs : List Char} {l : Lexeme} (h : scan c cs = .ok l)
    (hkind : l.kind = .identifier) : IsIdentifier (String.ofList l.text) := by
  unfold scan at h
  split at h
  · cases h
  · split at h
    · obtain ⟨n, hn⟩ := kind_scanNumber h
      rw [hkind] at hn
      cases hn
    · split at h
      · rename_i hstart
        cases h
        exact isIdentifier_of_scanWord hstart hkind
      · split at h
        · rename_i l' hsymbol
          cases h
          obtain ⟨s, -, rfl⟩ := Option.map_eq_some_iff.mp hsymbol
          cases hkind
        · cases h

end Lexeme

/-! ## Tokens -/

/-- A token is read from one lexeme. -/
theorem Lexer.scan_of_next {l l' : Lexer} {t : Token} (h : l.next = (some (.ok t), l')) :
    ∃ c cs lexeme p, Lexeme.scan c cs = .ok lexeme ∧ t = lexeme.at p := by
  unfold next at h
  split at h
  · cases h
  · split at h
    · cases h
    · split at h
      · cases h
      · rename_i c cs _
        split at h
        · cases h
        · rename_i lexeme hscan
          cases h
          exact ⟨c, cs, lexeme, _, hscan, rfl⟩

/-- Whatever holds of the tokens given out one at a time holds of all. -/
theorem Lexer.forall_mem_run {P : Token → Prop}
    (hP : ∀ l l' t, Lexer.next l = (some (.ok t), l') → P t) :
    ∀ (l : Lexer), ∀ t ∈ l.run.1, P t := by
  intro l
  induction l using Lexer.run.induct with
  | case1 l token l' hnext _ _ _ _ _ ih =>
    rw [run_token hnext]
    intro t ht
    rcases List.mem_cons.mp ht with rfl | ht
    · exact hP _ _ _ hnext
    · exact ih t ht
  | case2 l e l' hnext => simp [run_error hnext]
  | case3 l l' hnext => simp [run_none hnext]

/-- **The identifiers of a source text** are identifiers. -/
theorem tokenize_identifiers {source : String} {ts : List Token} (h : tokenize source = .ok ts) :
    ∀ t ∈ ts, t.kind = .identifier → IsIdentifier t.text := by
  have hrun : ∀ t ∈ (Lexer.ofSource source).run.1, t.kind = .identifier →
      IsIdentifier t.text := by
    refine Lexer.forall_mem_run (fun l l' t hnext hkind => ?_) _
    obtain ⟨c, cs, lexeme, p, hscan, rfl⟩ := Lexer.scan_of_next hnext
    exact Lexeme.isIdentifier_of_scan hscan hkind
  unfold tokenize at h
  split at h
  · rename_i tokens final heq
    cases h
    rwa [heq] at hrun
  · cases h

end ScalarLang
