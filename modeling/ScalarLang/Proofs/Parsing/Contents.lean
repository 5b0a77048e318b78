import ScalarLang.Grammar.Derivation
/-!
# What trees are made of

The functions and variables of a tree (`Phrase.Over`, `Statement.Over`)
and of compiled nodes (`Node.Over`). A derived tree has them from its
tokens: it calls functions that the tokens name, each with as many
arguments as it has parameters, and its variables are the other
identifiers.
-/

namespace ScalarLang

variable {σ : Type} {F G : NativeFunction σ → Prop} {N M : String → Prop}

/-! ## Trees -/

mutual

/-- The phrase calls functions in `F` only, each with as many arguments as
it has parameters, and mentions variables in `N` only. -/
def Phrase.Over (F : NativeFunction σ → Prop) (N : String → Prop) : Phrase σ → Prop
  | .literal _ => True
  | .variable name => N name
  | .unary _ p => p.Over F N
  | .binary _ p q => p.Over F N ∧ q.Over F N
  | .call f ps => F f ∧ ps.length = f.arity ∧ Phrase.AllOver F N ps

/-- All of the phrases do. -/
def Phrase.AllOver (F : NativeFunction σ → Prop) (N : String → Prop) : List (Phrase σ) → Prop
  | [] => True
  | p :: ps => p.Over F N ∧ Phrase.AllOver F N ps

end

mutual

/-- The statement consists of phrases over `F` and `N`, and assigns to
variables in `N` only. -/
def Statement.Over (F : NativeFunction σ → Prop) (N : String → Prop) : Statement σ → Prop
  | .conditional condition success failure =>
    condition.Over F N ∧ Statement.AllOver F N success ∧
      match failure with
      | none => True
      | some failure => Statement.AllOver F N failure
  | .return result => result.Over F N
  | .assign name value => N name ∧ value.Over F N

/-- All of the statements do. -/
def Statement.AllOver (F : NativeFunction σ → Prop) (N : String → Prop) :
    List (Statement σ) → Prop
  | [] => True
  | s :: ss => s.Over F N ∧ Statement.AllOver F N ss

end

/-! ## Nodes -/

/-- The directive reads and writes variables in `N` only. -/
def Directive.Over (N : String → Prop) : Directive → Prop
  | .load name | .store name => N name
  | .push _ | .return | .unary _ | .binary _ => True

mutual

/-- The node calls functions in `F` only, and reads and writes variables in
`N` only. -/
def Node.Over (F : NativeFunction σ → Prop) (N : String → Prop) : Node σ → Prop
  | .directive d => d.Over N
  | .branch condition success failure =>
    Node.AllOver F N condition ∧ Node.AllOver F N success ∧
      match failure with
      | none => True
      | some failure => Node.AllOver F N failure
  | .call f => F f

/-- All nodes of the block do. -/
def Node.AllOver (F : NativeFunction σ → Prop) (N : String → Prop) : List (Node σ) → Prop
  | [] => True
  | n :: ns => n.Over F N ∧ Node.AllOver F N ns

end

/-- A branch is made of what its blocks are. -/
theorem Node.over_branch {condition success : List (Node σ)} {failure : Option (List (Node σ))} :
    (branch condition success failure).Over F N ↔
      AllOver F N condition ∧ AllOver F N success ∧ ∀ block ∈ failure, AllOver F N block := by
  cases failure <;> simp [Over]

theorem Node.allOver_append {xs ys : List (Node σ)} :
    Node.AllOver F N (xs ++ ys) ↔ Node.AllOver F N xs ∧ Node.AllOver F N ys := by
  induction xs with
  | nil => simp [AllOver]
  | cons n xs ih => simp [AllOver, ih, and_assoc]

theorem Node.allOver_iff {ns : List (Node σ)} :
    Node.AllOver F N ns ↔ ∀ n ∈ ns, n.Over F N := by
  induction ns with
  | nil => simp [AllOver]
  | cons n ns ih => simp [AllOver, ih]

/-- What stands in a node is made of what the node is. -/
theorem Node.Over.within {n k : Node σ} (h : n.Over F N) (hk : k.Within n) : k.Over F N := by
  induction hk with
  | refl => exact h
  | condition hmem _ ih => exact ih (allOver_iff.mp (over_branch.mp h).1 _ hmem)
  | success hmem _ ih => exact ih (allOver_iff.mp (over_branch.mp h).2.1 _ hmem)
  | failure hmem _ ih => exact ih (allOver_iff.mp ((over_branch.mp h).2.2 _ rfl) _ hmem)

mutual

/-- The nodes of a phrase are made of what the phrase is. -/
theorem Phrase.Over.nodes : ∀ {p : Phrase σ}, p.Over F N → Node.AllOver F N p.nodes
  | .literal _, _ => ⟨trivial, trivial⟩
  | .variable _, h => ⟨h, trivial⟩
  | .unary _ _, h => Node.allOver_append.mpr ⟨Phrase.Over.nodes h, trivial, trivial⟩
  | .binary _ _ _, h => by
    obtain ⟨hp, hq⟩ := h
    simp only [Phrase.nodes, Node.allOver_append]
    exact ⟨⟨Phrase.Over.nodes hp, Phrase.Over.nodes hq⟩, trivial, trivial⟩
  | .call _ _, h => by
    obtain ⟨hf, -, hps⟩ := h
    exact Node.allOver_append.mpr ⟨Phrase.AllOver.nodes hps, hf, trivial⟩

/-- And so are those of a list of phrases. -/
theorem Phrase.AllOver.nodes :
    ∀ {ps : List (Phrase σ)}, Phrase.AllOver F N ps → Node.AllOver F N (Phrase.allNodes ps)
  | [], _ => trivial
  | _ :: _, h => Node.allOver_append.mpr ⟨Phrase.Over.nodes h.1, Phrase.AllOver.nodes h.2⟩

end

mutual

/-- The nodes of a statement are made of what the statement is. -/
theorem Statement.Over.nodes : ∀ {s : Statement σ}, s.Over F N → Node.AllOver F N s.nodes
  | .conditional _ _ none, h =>
    ⟨⟨h.1.nodes, Statement.AllOver.nodes h.2.1, trivial⟩, trivial⟩
  | .conditional _ _ (some _), h =>
    ⟨⟨h.1.nodes, Statement.AllOver.nodes h.2.1, Statement.AllOver.nodes h.2.2⟩, trivial⟩
  | .return _, h => Node.allOver_append.mpr ⟨Phrase.Over.nodes h, trivial, trivial⟩
  | .assign _ _, h => Node.allOver_append.mpr ⟨h.2.nodes, h.1, trivial⟩

/-- And so are those of a list of statements. -/
theorem Statement.AllOver.nodes : ∀ {ss : List (Statement σ)},
    Statement.AllOver F N ss → Node.AllOver F N (Statement.allNodes ss)
  | [], _ => trivial
  | _ :: _, h => Node.allOver_append.mpr ⟨Statement.Over.nodes h.1, Statement.AllOver.nodes h.2⟩

end

/-! ## Tokens -/

/-- The tokens name the function. -/
def Resolver.Named (r : Resolver σ) (ts : List Token) (f : NativeFunction σ) : Prop :=
  ∃ t ∈ ts, t.kind = .identifier ∧ r.resolve? t.text = some f

/-- The tokens name functions in `F` only, and the identifiers among them
that the resolver does not resolve, or does not contain, are in `N`. -/
structure Resolver.Mentions (r : Resolver σ) (F : NativeFunction σ → Prop)
    (N : String → Prop) (ts : List Token) : Prop where
  called : ∀ f, r.Named ts f → F f
  named : ∀ t ∈ ts, t.kind = .identifier →
    (r.resolve? t.text = none ∨ r.contains t.text = false) → N t.text

theorem Resolver.Mentions.mono {r : Resolver σ} {ts us : List Token} (h : r.Mentions F N us)
    (hsub : ∀ t ∈ ts, t ∈ us) : r.Mentions F N ts where
  called := fun f ⟨t, ht, hf⟩ => h.called f ⟨t, hsub t ht, hf⟩
  named := fun t ht => h.named t (hsub t ht)

/-- A token that writes no operator. -/
structure Token.NoOperator (t : Token) : Prop where
  unary : t.kind.unaryOp? = none
  binary : t.kind.binaryOp? = none

/-- Only symbols write operators. -/
theorem Token.NoOperator.of_kind {t : Token} (h : ∀ s, ¬ t.IsSymbol s) : t.NoOperator := by
  obtain ⟨kind, text, position⟩ := t
  cases kind with
  | symbol s => exact absurd rfl (h s)
  | _ => exact ⟨rfl, rfl⟩

theorem Token.NoOperator.rightParen {t : Token} (h : t.IsSymbol .rightParen) :
    t.NoOperator := by
  constructor <;> rw [h] <;> rfl

/-- **A phrase ends with an operand**, whatever operators are in it. -/
theorem PhraseOf.endsWithOperand {d : Dialect σ} {k : Nat} {ts : List Token} {p : Phrase σ}
    (h : PhraseOf d k ts p) : ∃ front t, ts = front ++ [t] ∧ t.NoOperator := by
  induction h using PhraseOf.rec (motive_2 := fun _ _ _ _ => True) with
  | @literal t v ht =>
    refine ⟨[], t, rfl, .of_kind fun s hs => ?_⟩
    rw [hs] at ht
    cases ht
  | @«variable» t ht _ =>
    refine ⟨[], t, rfl, .of_kind fun s hs => ?_⟩
    rw [hs] at ht
    cases ht
  | parenthesised _ _ hr _ => exact ⟨_, _, rfl, .rightParen hr⟩
  | call _ _ _ _ hr _ => exact ⟨_, _, rfl, .rightParen hr⟩
  | @unary t _ _ _ _ _ ih =>
    obtain ⟨front, u, rfl, hu⟩ := ih
    exact ⟨t :: front, u, rfl, hu⟩
  | @leftGrouped t _ ts _ _ _ _ _ _ _ _ ih =>
    obtain ⟨front, u, rfl, hu⟩ := ih
    exact ⟨ts ++ t :: front, u, by simp, hu⟩
  | @rightGrouped t _ ts _ _ _ _ _ _ _ _ ih =>
    obtain ⟨front, u, rfl, hu⟩ := ih
    exact ⟨ts ++ t :: front, u, by simp, hu⟩
  | lower _ ih => exact ih
  | none => trivial
  | one => trivial
  | more => trivial

theorem PhraseOf.ne_nil {d : Dialect σ} {k : Nat} {ts : List Token} {p : Phrase σ}
    (h : PhraseOf d k ts p) : ts ≠ [] := by
  obtain ⟨front, t, rfl, -⟩ := h.endsWithOperand
  simp

theorem StatementOf.ne_nil {d : Dialect σ} {dangling : Bool} {ts : List Token}
    {s : Statement σ} (h : StatementOf d dangling ts s) : ts ≠ [] := by
  cases h <;> simp

theorem BlockOf.ne_nil {d : Dialect σ} {dangling : Bool} {ts : List Token}
    {ss : List (Statement σ)} (h : BlockOf d dangling ts ss) : ts ≠ [] := by
  cases h with
  | single hs => exact hs.ne_nil
  | braced => simp

/-- The number of arguments is the one that the derivation counts. -/
theorem ArgumentsOf.length_eq {d : Dialect σ} {n : Nat} {ts : List Token}
    {ps : List (Phrase σ)} (h : ArgumentsOf d n ts ps) : ps.length = n := by
  induction h using ArgumentsOf.rec (motive_1 := fun _ _ _ _ => True) with
  | none => rfl
  | one => rfl
  | more _ _ _ _ ih => simpa using ih
  | _ => trivial

/-- **A derived phrase** is made of what its tokens mention. -/
theorem PhraseOf.over {d : Dialect σ} {k : Nat} {ts : List Token} {p : Phrase σ}
    (h : PhraseOf d k ts p) (hts : d.resolver.Mentions F N ts) : p.Over F N := by
  induction h using PhraseOf.rec (motive_2 := fun n ts ps _ =>
    d.resolver.Mentions F N ts → Phrase.AllOver F N ps) with
  | literal _ => trivial
  | @«variable» t ht hname => exact hts.named t (by simp) ht (.inl hname)
  | parenthesised _ _ _ ih => exact ih (hts.mono (by simp +contextual))
  | @call t l r f ts ps ht hf hl hps _ ih =>
    exact ⟨hts.called f ⟨t, by simp, ht, hf⟩, hps.length_eq,
      ih (hts.mono (by simp +contextual))⟩
  | unary _ _ ih => exact ih (hts.mono (by simp +contextual))
  | leftGrouped _ _ _ _ ihp ihq =>
    exact ⟨ihp (hts.mono (by simp +contextual)), ihq (hts.mono (by simp +contextual))⟩
  | rightGrouped _ _ _ _ ihp ihq =>
    exact ⟨ihp (hts.mono (by simp +contextual)), ihq (hts.mono (by simp +contextual))⟩
  | lower _ ih => exact ih hts
  | none => trivial
  | one _ ih =>
    rename_i hts
    exact ⟨ih hts, trivial⟩
  | more _ _ _ ihp ihps =>
    rename_i hts
    exact ⟨ihp (hts.mono (by simp +contextual)), ihps (hts.mono (by simp +contextual))⟩

/-- **Derived statements** are made of what their tokens mention. -/
theorem StatementsOf.over {d : Dialect σ} {ts : List Token} {ss : List (Statement σ)}
    (h : StatementsOf d ts ss) (hts : d.resolver.Mentions F N ts) :
    Statement.AllOver F N ss := by
  induction h using StatementsOf.rec
    (motive_1 := fun _ ts s _ => d.resolver.Mentions F N ts → s.Over F N)
    (motive_2 := fun _ ts ss _ => d.resolver.Mentions F N ts → Statement.AllOver F N ss) with
  | «return» _ hp _ =>
    rename_i hts
    exact hp.over (hts.mono (by simp +contextual))
  | assign ht hname _ hp _ =>
    rename_i hts
    exact ⟨hts.named _ (by simp) ht (.inr hname), hp.over (hts.mono (by simp +contextual))⟩
  | ifThen _ _ hp _ _ ih =>
    rename_i hts
    exact ⟨hp.over (hts.mono (by simp +contextual)), ih (hts.mono (by simp +contextual)), trivial⟩
  | ifThenElse _ _ hp _ _ _ _ ihs ihf =>
    rename_i hts
    exact ⟨hp.over (hts.mono (by simp +contextual)), ihs (hts.mono (by simp +contextual)),
      ihf (hts.mono (by simp +contextual))⟩
  | single _ ih =>
    rename_i hts
    exact ⟨ih hts, trivial⟩
  | braced _ _ _ ih =>
    rename_i hts
    exact ih (hts.mono (by simp +contextual))
  | nil => trivial
  | cons _ _ ihs ihss =>
    exact ⟨ihs (hts.mono (by simp +contextual)), ihss (hts.mono (by simp +contextual))⟩

/-- **A derived program** is made of what its tokens mention. -/
theorem ProgramOf.over {d : Dialect σ} {ts : List Token} {ss : List (Statement σ)}
    (h : ProgramOf d ts ss) (hts : d.resolver.Mentions F N ts) : Statement.AllOver F N ss := by
  cases h with
  | bare hss => exact hss.over hts
  | braced _ hss _ => exact hss.over (hts.mono (by simp +contextual))

end ScalarLang
