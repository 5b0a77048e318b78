import ScalarLang.Proofs.Parsing.PhraseCompleteness
import ScalarLang.Proofs.Parsing.PhraseSoundness
import ScalarLang.Proofs.Parsing.Postfix
/-!
# The phrase parser is the phrase grammar

What is accepted as a phrase is exactly what the grammar derives, and what
is emitted is the postfix form of the one tree that it derives.
Completeness makes the parser a function of any derivation, so two trees
of the same tokens have one postfix form, and are equal.
-/

namespace ScalarLang

namespace Parser

variable {σ : Type} {d : Dialect σ}

/-- A phrase that takes up all tokens leaves none. -/
theorem topPhrase_eq_ok_iff {ts : List Token} {nodes : List (Node σ)} :
    topPhrase d ts = .ok nodes ↔ reading (phrase d ts []) = .ok (nodes, []) := by
  rw [topPhrase]
  cases phrase d ts [] with
  | error r => simp [Except.bind]
  | ok p =>
    obtain ⟨nodes', rest, hle⟩ := p
    cases rest <;> simp [Except.bind, atEnd]

/-- What is accepted as a phrase is one. -/
theorem topPhrase_sound (hd : d.Uniform) {ts : List Token} {nodes : List (Node σ)}
    (h : topPhrase d ts = .ok nodes) : ∃ p, PhraseOf d 0 ts p ∧ nodes = p.nodes := by
  obtain ⟨used, p, rfl, hp, hnodes⟩ := phrase_sound hd (topPhrase_eq_ok_iff.mp h)
  exact ⟨p, by simpa using hp, by simpa using hnodes⟩

/-- What is a phrase is accepted, with its postfix form. -/
theorem topPhrase_of_phraseOf (hd : d.Uniform) {ts : List Token} {p : Phrase σ}
    (h : PhraseOf d 0 ts p) : topPhrase d ts = .ok p.nodes := by
  rw [topPhrase_eq_ok_iff]
  have hread : reading (phrase d (ts ++ []) []) = .ok ([] ++ p.nodes, []) :=
    (readsAs_of_phraseOf hd h).reading_phrase (by simp) []
  rwa [List.append_nil, List.nil_append] at hread

end Parser

end ScalarLang
