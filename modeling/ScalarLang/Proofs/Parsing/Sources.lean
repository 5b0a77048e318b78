import ScalarLang.Compiler
import ScalarLang.Proofs.Parsing.PhraseGrammar
import ScalarLang.Proofs.Parsing.StatementCompleteness
import ScalarLang.Proofs.Parsing.StatementSoundness
/-!
# What a compiler reads

Phrases and programs together: whatever form of source a compiler reads,
it accepts the tokens that have a tree, the nodes are those of the tree,
and the tree has its functions and variables from the tokens.
-/

namespace ScalarLang

variable {σ : Type} {d : Dialect σ} {F : NativeFunction σ → Prop} {N : String → Prop}

/-- The tokens are of the form, with the given tree. -/
inductive SourceForm.Derives (d : Dialect σ) (ts : List Token) :
    SourceForm → SyntaxTree σ → Prop
  | phrase {p : Phrase σ} (hp : PhraseOf d 0 ts p) : Derives d ts .phrase (.phrase p)
  | block {ss : List (Statement σ)} (hss : ProgramOf d ts ss) : Derives d ts .block (.program ss)

/-- What is accepted has a tree. -/
theorem SourceForm.parse_sound (hd : d.Uniform) {form : SourceForm} {ts : List Token}
    {nodes : List (Node σ)} (h : form.parse d ts = .ok nodes) :
    ∃ tree, form.Derives d ts tree ∧ nodes = tree.nodes := by
  cases form with
  | phrase =>
    obtain ⟨p, hp, rfl⟩ := Parser.topPhrase_sound hd h
    exact ⟨.phrase p, .phrase hp, rfl⟩
  | block =>
    obtain ⟨ss, hss, rfl⟩ := Parser.topBlock_sound hd h
    exact ⟨.program ss, .block hss, rfl⟩

/-- What has a tree is accepted, with the nodes of the tree. -/
theorem SourceForm.parse_of_derives (hd : d.Uniform) {form : SourceForm} {ts : List Token}
    {tree : SyntaxTree σ} (h : form.Derives d ts tree) : form.parse d ts = .ok tree.nodes := by
  cases h with
  | phrase hp => exact Parser.topPhrase_of_phraseOf hd hp
  | block hss => exact Parser.topBlock_of_programOf hd hss

/-- The phrase or the program is made of functions in `F` and variables in
`N`. -/
def SyntaxTree.Over (F : NativeFunction σ → Prop) (N : String → Prop) : SyntaxTree σ → Prop
  | .phrase p => p.Over F N
  | .program ss => Statement.AllOver F N ss

/-- The nodes are made of what the tree is. -/
theorem SyntaxTree.Over.nodes {tree : SyntaxTree σ} (h : tree.Over F N) :
    Node.AllOver F N tree.nodes := by
  cases tree with
  | phrase p => exact Phrase.Over.nodes h
  | program ss => exact Statement.AllOver.nodes h

/-- The tree is made of what the tokens mention. -/
theorem SourceForm.Derives.over {form : SourceForm} {ts : List Token} {tree : SyntaxTree σ}
    (h : form.Derives d ts tree) (hts : d.resolver.Mentions F N ts) : tree.Over F N := by
  cases h with
  | phrase hp => exact hp.over hts
  | block hss => exact hss.over hts

end ScalarLang
