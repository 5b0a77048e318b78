import Mathlib.Data.List.Forall2
import ScalarLang.Proofs.Lexing.Respelling
import ScalarLang.Proofs.Parsing.Sources
/-!
# Tokens in another spelling

Tokens are told apart by their kind, and identifiers by their text. Where a
resolver looks names up without regard to case, a token in another spelling
is the same function or the same variable, so the tokens have the same tree
(`SourceForm.Derives.respell`).
-/

namespace ScalarLang

variable {σ : Type} {d : Dialect σ}

/-! ## Tokens -/

/-- A spelling differs in case at most. -/
theorem Token.SpelledAs.foldCase_eq {r : Resolver σ} {t : Token} {text : String}
    (h : t.SpelledAs r text) : Text.foldCase text = Text.foldCase t.text := by
  cases h with
  | same => rfl
  | keyword _ htext => exact htext
  | function _ _ htext => exact htext

/-- What is no function has one spelling. -/
theorem Token.SpelledAs.eq_of_resolve?_eq_none {r : Resolver σ} {t : Token} {text : String}
    (h : t.SpelledAs r text) (ht : t.kind = .identifier) (hname : r.resolve? t.text = none) :
    text = t.text := by
  cases h with
  | same => rfl
  | keyword hk _ => simp [ht] at hk
  | function _ hf _ => simp [hname] at hf

/-- Lists that correspond to two lists in a row are two in a row. -/
theorem forall₂_append_left_iff {α β : Type} {R : α → β → Prop} {xs ys : List α} {zs : List β} :
    List.Forall₂ R (xs ++ ys) zs ↔
      ∃ xs' ys', List.Forall₂ R xs xs' ∧ List.Forall₂ R ys ys' ∧ zs = xs' ++ ys' := by
  induction xs generalizing zs with
  | nil => simp
  | cons x xs ih =>
    simp only [List.cons_append, List.forall₂_cons_left_iff, ih]
    constructor
    · rintro ⟨z, _, hz, ⟨xs', ys', hxs, hys, rfl⟩, rfl⟩
      exact ⟨z :: xs', ys', ⟨z, xs', hz, hxs, rfl⟩, hys, rfl⟩
    · rintro ⟨_, ys', ⟨z, xs', hz, hxs, rfl⟩, hys, rfl⟩
      exact ⟨z, xs' ++ ys', hz, ⟨xs', ys', hxs, hys, rfl⟩, rfl⟩

/-- What is enclosed by two tokens corresponds to what two tokens enclose. -/
theorem forall₂_enclosed {α β : Type} {R : α → β → Prop} {x y : α} {xs : List α} {zs : List β}
    (h : List.Forall₂ R (x :: xs ++ [y]) zs) :
    ∃ x' xs' y', R x x' ∧ List.Forall₂ R xs xs' ∧ R y y' ∧ zs = x' :: xs' ++ [y'] := by
  obtain ⟨_, _, hfront, hlast, rfl⟩ := forall₂_append_left_iff.mp h
  obtain ⟨x', xs', hx, hxs, rfl⟩ := List.forall₂_cons_left_iff.mp hfront
  obtain ⟨y', _, hy, hnil, rfl⟩ := List.forall₂_cons_left_iff.mp hlast
  obtain rfl := List.forall₂_nil_left_iff.mp hnil
  exact ⟨x', xs', y', hx, hxs, hy, rfl⟩

/-- What stands around a token corresponds to what stands around one. -/
theorem forall₂_around {α β : Type} {R : α → β → Prop} {y : α} {xs ys : List α} {zs : List β}
    (h : List.Forall₂ R (xs ++ y :: ys) zs) :
    ∃ xs' y' ys', List.Forall₂ R xs xs' ∧ R y y' ∧ List.Forall₂ R ys ys' ∧
      zs = xs' ++ y' :: ys' := by
  obtain ⟨xs', _, hxs, hrest, rfl⟩ := forall₂_append_left_iff.mp h
  obtain ⟨y', ys', hy, hys, rfl⟩ := List.forall₂_cons_left_iff.mp hrest
  exact ⟨xs', y', ys', hxs, hy, hys, rfl⟩

theorem Token.Respelled.isSymbol {r : Resolver σ} {t u : Token} {s : Symbol}
    (h : t.Respelled r u) (ht : t.IsSymbol s) : u.IsSymbol s := h.kind.trans ht

theorem Token.Respelled.isKeyword {r : Resolver σ} {t u : Token} {k : Keyword}
    (h : t.Respelled r u) (ht : t.IsKeyword k) : u.IsKeyword k := h.kind.trans ht

/-! ## Phrases -/

/-- **A phrase in another spelling** has the same tree. -/
theorem PhraseOf.respell (hcase : d.resolver.IgnoresCase) {k : Nat} {ts us : List Token}
    {p : Phrase σ} (h : PhraseOf d k ts p)
    (hts : List.Forall₂ (Token.Respelled d.resolver) ts us) : PhraseOf d k us p := by
  induction h using PhraseOf.rec (motive_2 := fun n ts ps _ =>
    ∀ us, List.Forall₂ (Token.Respelled d.resolver) ts us → ArgumentsOf d n us ps)
    generalizing us with
  | literal ht =>
    obtain ⟨u, _, hu, hnil, rfl⟩ := List.forall₂_cons_left_iff.mp hts
    obtain rfl := List.forall₂_nil_left_iff.mp hnil
    exact .literal (hu.kind ▸ ht)
  | @«variable» t ht hname =>
    obtain ⟨u, _, hu, hnil, rfl⟩ := List.forall₂_cons_left_iff.mp hts
    obtain rfl := List.forall₂_nil_left_iff.mp hnil
    have htext : u.text = t.text := hu.text.eq_of_resolve?_eq_none ht hname
    rw [← htext] at hname ⊢
    exact .variable (hu.kind.trans ht) hname
  | parenthesised hl _ hr ih =>
    obtain ⟨l', ts', r', hl', hts', hr', rfl⟩ := forall₂_enclosed hts
    exact .parenthesised (hl'.isSymbol hl) (ih hts') (hr'.isSymbol hr)
  | @call t l r f ts ps ht hf hl hps hr ih =>
    obtain ⟨u, _, r', hu, hinner, hr', rfl⟩ := forall₂_enclosed hts
    obtain ⟨l', ts', hl', hts', rfl⟩ := List.forall₂_cons_left_iff.mp hinner
    have hresolve : d.resolver.resolve? u.text = d.resolver.resolve? t.text :=
      (hcase _ _ hu.text.foldCase_eq).1
    exact .call (hu.kind.trans ht) (hresolve.trans hf) (hl'.isSymbol hl) (ih ts' hts')
      (hr'.isSymbol hr)
  | unary ht _ ih =>
    obtain ⟨u, ts', hu, hts', rfl⟩ := List.forall₂_cons_left_iff.mp hts
    exact .unary (hu.kind ▸ ht) (ih hts')
  | leftGrouped ht hop _ _ ihp ihq =>
    obtain ⟨xs, u, ys, hxs, hu, hys, rfl⟩ := forall₂_around hts
    exact .leftGrouped (hu.kind ▸ ht) hop (ihp hxs) (ihq hys)
  | rightGrouped ht hop _ _ ihp ihq =>
    obtain ⟨xs, u, ys, hxs, hu, hys, rfl⟩ := forall₂_around hts
    exact .rightGrouped (hu.kind ▸ ht) hop (ihp hxs) (ihq hys)
  | lower _ ih => exact .lower (ih hts)
  | none =>
    rename_i hts
    obtain rfl := List.forall₂_nil_left_iff.mp hts
    exact .none
  | one _ ih =>
    rename_i hts
    exact .one (ih hts)
  | more _ hc _ ihp ihps =>
    rename_i hts
    obtain ⟨xs, c', ys, hxs, hc', hys, rfl⟩ := forall₂_around hts
    exact .more (ihp hxs) (hc'.isSymbol hc) (ihps ys hys)

/-! ## Statements -/

/-- **Statements in another spelling** have the same trees. -/
theorem StatementsOf.respell (hresolver : d.resolver.Consistent)
    (hcase : d.resolver.IgnoresCase) {ts us : List Token} {ss : List (Statement σ)}
    (h : StatementsOf d ts ss) (hts : List.Forall₂ (Token.Respelled d.resolver) ts us) :
    StatementsOf d us ss := by
  induction h using StatementsOf.rec
    (motive_1 := fun dangling ts s _ => ∀ us,
      List.Forall₂ (Token.Respelled d.resolver) ts us → StatementOf d dangling us s)
    (motive_2 := fun dangling ts ss _ => ∀ us,
      List.Forall₂ (Token.Respelled d.resolver) ts us → BlockOf d dangling us ss)
    generalizing us with
  | «return» ht hp he =>
    rename_i hts
    obtain ⟨t', ts', e', ht', hts', he', rfl⟩ := forall₂_enclosed hts
    exact .return (ht'.isKeyword ht) (hp.respell hcase hts') (he'.isSymbol he)
  | @assign t a e ts p ht hname ha hp he =>
    rename_i hts
    obtain ⟨u, _, e', hu, hinner, he', rfl⟩ := forall₂_enclosed hts
    obtain ⟨a', ts', ha', hts', rfl⟩ := List.forall₂_cons_left_iff.mp hinner
    have hnone : d.resolver.resolve? t.text = none := by
      rw [hresolver, Option.isSome_eq_false_iff, Option.isNone_iff_eq_none] at hname
      exact hname
    have htext : u.text = t.text := hu.text.eq_of_resolve?_eq_none ht hnone
    rw [← htext] at hname ⊢
    exact .assign (hu.kind.trans ht) hname (ha'.isSymbol ha) (hp.respell hcase hts')
      (he'.isSymbol he)
  | ifThen ht hl hp hr _ ih =>
    rename_i hts
    obtain ⟨_, r', vs, hhead, hr', hvs, rfl⟩ := forall₂_around hts
    obtain ⟨t', _, ht', hinner, rfl⟩ := List.forall₂_cons_left_iff.mp hhead
    obtain ⟨l', ts', hl', hts', rfl⟩ := List.forall₂_cons_left_iff.mp hinner
    exact .ifThen (ht'.isKeyword ht) (hl'.isSymbol hl) (hp.respell hcase hts') (hr'.isSymbol hr)
      (ih _ hvs)
  | ifThenElse ht hl hp hr _ he _ ihs ihf =>
    rename_i hts
    obtain ⟨_, e', ws, hthen, he', hws, rfl⟩ := forall₂_around hts
    obtain ⟨_, r', vs, hhead, hr', hvs, rfl⟩ := forall₂_around hthen
    obtain ⟨t', _, ht', hinner, rfl⟩ := List.forall₂_cons_left_iff.mp hhead
    obtain ⟨l', ts', hl', hts', rfl⟩ := List.forall₂_cons_left_iff.mp hinner
    exact .ifThenElse (ht'.isKeyword ht) (hl'.isSymbol hl) (hp.respell hcase hts')
      (hr'.isSymbol hr) (ihs _ hvs) (he'.isKeyword he) (ihf _ hws)
  | single _ ih =>
    rename_i hts
    exact .single (ih _ hts)
  | braced hl _ hr ih =>
    rename_i hts
    obtain ⟨l', ts', r', hl', hts', hr', rfl⟩ := forall₂_enclosed hts
    exact .braced (hl'.isSymbol hl) (ih hts') (hr'.isSymbol hr)
  | nil =>
    obtain rfl := List.forall₂_nil_left_iff.mp hts
    exact .nil
  | cons _ _ ihs ihss =>
    obtain ⟨xs, ys, hxs, hys, rfl⟩ := forall₂_append_left_iff.mp hts
    exact .cons (ihs xs hxs) (ihss hys)

/-- **A source text in another spelling** has the same tree. -/
theorem SourceForm.Derives.respell (hresolver : d.resolver.Consistent)
    (hcase : d.resolver.IgnoresCase) {form : SourceForm} {ts us : List Token}
    {tree : SyntaxTree σ} (h : form.Derives d ts tree)
    (hts : List.Forall₂ (Token.Respelled d.resolver) ts us) : form.Derives d us tree := by
  cases h with
  | phrase hp => exact .phrase (hp.respell hcase hts)
  | block hss =>
    refine .block ?_
    cases hss with
    | bare hss => exact .bare (hss.respell hresolver hcase hts)
    | braced hl hss hr =>
      obtain ⟨l', ts', r', hl', hts', hr', rfl⟩ := forall₂_enclosed hts
      exact .braced (hl'.isSymbol hl) (hss.respell hresolver hcase hts') (hr'.isSymbol hr)

/-! ## Last tokens -/

/-- The last token is no slash, so a comment may follow it. -/
def EndsBeforeComment (ts : List Token) : Prop :=
  ∃ front t, ts = front ++ [t] ∧ t.kind ≠ .symbol .slash

theorem EndsBeforeComment.append {us : List Token} (h : EndsBeforeComment us) (ts : List Token) :
    EndsBeforeComment (ts ++ us) := by
  obtain ⟨front, t, rfl, ht⟩ := h
  exact ⟨ts ++ front, t, (List.append_assoc _ _ _).symm, ht⟩

theorem EndsBeforeComment.of_isSymbol {t : Token} {s : Symbol} (ht : t.IsSymbol s)
    (hs : s ≠ .slash) (ts : List Token) : EndsBeforeComment (ts ++ [t]) :=
  ⟨ts, t, rfl, fun hslash => hs (TokenKind.symbol.inj (ht.symm.trans hslash))⟩

/-- A phrase does not end with a slash, which is an operator. -/
theorem PhraseOf.endsBeforeComment {k : Nat} {ts : List Token} {p : Phrase σ}
    (h : PhraseOf d k ts p) : EndsBeforeComment ts := by
  obtain ⟨front, t, rfl, ht⟩ := h.endsWithOperand
  refine ⟨front, t, rfl, fun hslash => ?_⟩
  have hbinary := ht.binary
  rw [hslash] at hbinary
  cases hbinary

/-- Statements do not either. -/
theorem StatementsOf.endsBeforeComment {ts : List Token} {ss : List (Statement σ)}
    (h : StatementsOf d ts ss) : ts = [] ∨ EndsBeforeComment ts := by
  induction h using StatementsOf.rec (motive_1 := fun _ ts _ _ => EndsBeforeComment ts)
    (motive_2 := fun _ ts _ _ => EndsBeforeComment ts) with
  | «return» _ _ he => exact .of_isSymbol he (by decide) _
  | assign _ _ _ _ he => exact .of_isSymbol he (by decide) _
  | @ifThen t l r ts us _ _ _ _ _ _ _ _ ih => simpa using ih.append (t :: l :: ts ++ [r])
  | @ifThenElse t l r e ts us vs _ _ _ _ _ _ _ _ _ _ _ _ ih =>
    simpa using ih.append (t :: l :: ts ++ r :: us ++ [e])
  | single _ ih => exact ih
  | braced _ _ hr _ => exact .of_isSymbol hr (by decide) _
  | nil => exact .inl rfl
  | cons _ _ ihs ihss =>
    rcases ihss with rfl | ihss
    · exact .inr (by simpa using ihs)
    · exact .inr (ihss.append _)

/-- **No source text ends with a slash.** -/
theorem SourceForm.Derives.getLast?_ne_slash {form : SourceForm} {ts : List Token}
    {tree : SyntaxTree σ} (h : form.Derives d ts tree) :
    ∀ t ∈ ts.getLast?, t.kind ≠ .symbol .slash := by
  have hends : ts = [] ∨ EndsBeforeComment ts := by
    cases h with
    | phrase hp => exact .inr hp.endsBeforeComment
    | block hss =>
      cases hss with
      | bare hss => exact hss.endsBeforeComment
      | braced _ _ hr => exact .inr (.of_isSymbol hr (by decide) _)
  rcases hends with rfl | ⟨front, t, rfl, ht⟩
  · simp
  · simpa using ht

end ScalarLang
