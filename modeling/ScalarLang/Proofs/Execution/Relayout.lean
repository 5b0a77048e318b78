import ScalarLang.Proofs.Execution.SharedStack
import ScalarLang.Proofs.Function.Resolvers
import ScalarLang.Proofs.Parsing.Respelling
/-!
# Compilation ignores layout

Nothing of the layout of a source text gets into what is compiled from it:
the tokens are the same up to their spelling, so the tree and its nodes are
the same, and what is folded is folded to the same value, whatever state the
embedding program is in. A table of shared instances that keeps what it has
does not change that.
-/

namespace ScalarLang

variable {σ : Type}

/-! ## Folding -/

/-- Where the source is remembered makes no difference to the bytes. -/
@[simp] theorem Expression.canonicalBytes_withSource (e : Expression σ) (source : Option String) :
    (e.withSource source).canonicalBytes = e.canonicalBytes := rfl

/-- **A program is folded to the same expression** in all states of the
embedding program, if the foldable functions it calls see values and
variables only. -/
theorem fold_eq {root : Branch σ} {N : String → Prop}
    (hroot : root.toNode.Over (fun f => f.foldable = true →
      f.SeesValues fun _ _ => True) N) (host host' : σ) :
    (fold root host).1 = (fold root host').1 := by
  unfold fold
  split
  · rename_i hfoldable
    have hcalls :
        (Expression.ofBranch root).CallsOnly (NativeFunction.SeesValues fun _ _ => True) := by
      rintro _ ⟨⟩
      exact Node.over_of_isFoldable hfoldable hroot
    have hcleared : (Machine.cleared ⟨.empty, .empty, host⟩).SameView (fun _ _ => True)
        (Machine.cleared ⟨.empty, .empty, host'⟩) := ⟨rfl, rfl, trivial⟩
    have hvalue := (Expression.evaluate_sameView hcalls hcleared).1
    simp only [Expression.evaluateIn]
    generalize (Expression.ofBranch root).evaluate ⟨.empty, .empty, host⟩ = run at hvalue
    generalize (Expression.ofBranch root).evaluate ⟨.empty, .empty, host'⟩ = run' at hvalue
    obtain ⟨outcome, m⟩ := run
    obtain ⟨outcome', m'⟩ := run'
    obtain rfl : outcome = outcome' := hvalue
    cases outcome <;> rfl
  · rfl

/-! ## Tables -/

namespace InternTable

variable {t t' : InternTable σ}

/-- The second table has all that the first one has. -/
def Within (t t' : InternTable σ) : Prop :=
  ∀ digest i, t.find? digest = some i → t'.find? digest = some i

theorem Within.refl (t : InternTable σ) : t.Within t := fun _ _ h => h

/-- An instance is answered by the one the table has for its digest, or else
by itself. -/
theorem intern_fst (t : InternTable σ) (i : Instance σ) :
    (t.intern i).1 = (t.find? i.expr.digest).getD i := by
  cases hfind : t.find? i.expr.digest with
  | some canonical => rw [intern_of_find?_eq_some hfind, Option.getD_some]
  | none => rw [intern_of_find?_eq_none hfind, Option.getD_none]

/-- What a table has once an instance is interned. -/
theorem find?_of_intern (t : InternTable σ) (i : Instance σ) (digest : Digest) :
    (t.intern i).2.find? digest
      = (t.find? digest).or (if i.expr.digest = digest then some i else none) := by
  cases hfind : t.find? i.expr.digest with
  | some canonical =>
    rw [intern_of_find?_eq_some hfind]
    split
    · rename_i hdigest
      rw [← hdigest, hfind, Option.some_or]
    · rw [Option.or_none]
  | none =>
    rw [intern_of_find?_eq_none hfind]
    split
    · rename_i hdigest
      rw [← hdigest, hfind]
      simp [find?]
    · rename_i hdigest
      simp [find?, List.lookup_cons, beq_eq_false_iff_ne.mpr (Ne.symm hdigest)]

/-- What is interned is what the table has for its digest. -/
theorem find?_intern (t : InternTable σ) (i : Instance σ) :
    (t.intern i).2.find? i.expr.digest = some (t.intern i).1 := by
  rw [find?_of_intern, if_pos rfl, intern_fst, Option.or_some]

/-- **A table keeps what it has.** -/
theorem within_intern (t : InternTable σ) (i : Instance σ) : t.Within (t.intern i).2 := by
  intro digest j hj
  rw [find?_of_intern, hj, Option.some_or]

/-- What a table has for a digest is what is interned for it. -/
theorem intern_of_within {i : Instance σ} {canonical : Instance σ}
    (h : t.find? i.expr.digest = some canonical) (ht : t.Within t') :
    (t'.intern i).1 = canonical := by
  rw [intern_of_find?_eq_some (ht _ _ h)]

/-- **Instances of the same bytes are handed out as such** by tables that are
the same, or of which one has all that interning has left in the other one. -/
theorem canonicalBytes_intern {i j : Instance σ}
    (hbytes : i.expr.canonicalBytes = j.expr.canonicalBytes)
    (htables : t' = t ∨ (t.intern i).2.Within t' ∨ (t'.intern j).2.Within t) :
    (t.intern i).1.expr.canonicalBytes = (t'.intern j).1.expr.canonicalBytes := by
  have hdigest : i.expr.digest = j.expr.digest := congrArg Digest.ofBytes hbytes
  rcases htables with rfl | hwithin | hwithin
  · cases hfind : t'.find? i.expr.digest with
    | some canonical =>
      rw [intern_of_find?_eq_some hfind, intern_of_find?_eq_some (hdigest ▸ hfind)]
    | none => rwa [intern_of_find?_eq_none hfind, intern_of_find?_eq_none (hdigest ▸ hfind)]
  · have hfind := find?_intern t i
    rw [hdigest] at hfind
    rw [intern_of_within hfind hwithin]
  · have hfind := find?_intern t' j
    rw [← hdigest] at hfind
    rw [intern_of_within hfind hwithin]

end InternTable

/-! ## Compilation -/

namespace Compiler

variable {c : Compiler σ} {form : SourceForm} {source : String} {ts : List Token}
  {w : Workspace σ}

/-- The expression that nodes become, before it is shared. -/
def unshared (c : Compiler σ) (nodes : List (Node σ)) (source : String) (w : Workspace σ) :
    Instance σ := ⟨w.nextId, (c.ofNodes nodes (some source) w.host).1⟩

/-- What is parsed is compiled, and interned if instances are shared. -/
theorem compile_of_parse {nodes : List (Node σ)} (hts : tokenize source = .ok ts)
    (hparse : form.parse ⟨c.resolver, BinaryOp.isRightAssoc⟩ ts = .ok nodes) :
    (c.compile form source w).1 = .ok (if c.options.intern then
        (w.shared.intern (c.unshared nodes source w)).1 else c.unshared nodes source w) ∧
      (c.compile form source w).2.shared = if c.options.intern then
        (w.shared.intern (c.unshared nodes source w)).2 else w.shared := by
  simp only [compile, hts, compileTokens, hparse]
  cases c.options.intern <;> exact ⟨rfl, rfl⟩

/-- What is compiled was parsed. -/
theorem exists_parse_of_compile {i : Instance σ} (h : (c.compile form source w).1 = .ok i) :
    ∃ ts nodes, tokenize source = .ok ts ∧
      form.parse ⟨c.resolver, BinaryOp.isRightAssoc⟩ ts = .ok nodes := by
  unfold compile at h
  cases hts : tokenize source with
  | error e => simp [hts] at h
  | ok ts =>
    cases hparse : form.parse ⟨c.resolver, BinaryOp.isRightAssoc⟩ ts with
    | error rejection => simp [hts, compileTokens_of_not_parse hparse] at h
    | ok nodes => exact ⟨ts, nodes, rfl, hparse⟩

/-- **Compilation keeps what is shared.** -/
theorem within_compile (c : Compiler σ) (form : SourceForm) (source : String) (w : Workspace σ) :
    w.shared.Within (c.compile form source w).2.shared := by
  cases hts : tokenize source with
  | error e => simp [compile, hts, InternTable.Within.refl]
  | ok ts =>
    cases hparse : form.parse ⟨c.resolver, BinaryOp.isRightAssoc⟩ ts with
    | error rejection =>
      simp [compile, hts, compileTokens_of_not_parse hparse, InternTable.Within.refl]
    | ok nodes =>
      rw [(compile_of_parse hts hparse).2]
      split
      · exact InternTable.within_intern _ _
      · exact .refl _

/-- Two compilations use one table: both find it the same, or one of them finds
what the other one has left there, and perhaps more. -/
def UseOneTable (c : Compiler σ) (form : SourceForm) (source source' : String)
    (w w' : Workspace σ) : Prop :=
  w'.shared = w.shared ∨ (c.compile form source w).2.shared.Within w'.shared ∨
    (c.compile form source' w').2.shared.Within w.shared

/-- Nodes become expressions of the same bytes in all workspaces, if what is
folded calls functions that see values and variables only. -/
theorem canonicalBytes_unshared {nodes : List (Node σ)} {N : String → Prop}
    (hnodes : c.options.foldConstants = true → Node.AllOver (fun f => f.foldable = true →
      f.SeesValues fun _ _ => True) N nodes) (source source' : String) (w w' : Workspace σ) :
    (c.unshared nodes source w).expr.canonicalBytes
      = (c.unshared nodes source' w').expr.canonicalBytes := by
  simp only [unshared, ofNodes]
  cases hfold : c.options.foldConstants with
  | false => rfl
  | true =>
    have hroot : (Branch.unconditional nodes).toNode.Over (fun f => f.foldable = true →
        f.SeesValues fun _ _ => True) N := ⟨⟨trivial, trivial⟩, hnodes hfold, trivial⟩
    simp [fold_eq hroot w.host w'.host]

/-- **Compilation ignores layout** and the case of reserved words and names of
functions: if the resolver ignores case, a source text in another layout is
compiled as well, to an expression with the same bytes. -/
theorem compile_of_isLayout (c : Compiler σ) (form : SourceForm) (source source' : String)
    (ts : List Token) (w w' : Workspace σ) (i : Instance σ) (hresolver : c.resolver.Consistent)
    (hcase : c.resolver.IgnoresCase) (hts : tokenize source = .ok ts)
    (hlayout : IsLayout c.resolver ts source'.toList)
    (hcompiled : (c.compile form source w).1 = .ok i)
    (hfolding : c.options.foldConstants = true → ∀ f, c.resolver.Named ts f →
      f.foldable = true → f.SeesValues fun _ _ => True)
    (hshared : c.options.intern = true → c.UseOneTable form source source' w w') :
    ∃ j, (c.compile form source' w').1 = .ok j ∧
      j.expr.canonicalBytes = i.expr.canonicalBytes := by
  obtain ⟨ts', nodes, hts', hparse⟩ := exists_parse_of_compile hcompiled
  obtain rfl : ts = ts' := Except.ok.inj (hts.symm.trans hts')
  have huniform := BinaryOp.uniform_isRightAssoc c.resolver
  obtain ⟨tree, htree, rfl⟩ := SourceForm.parse_sound huniform hparse
  obtain ⟨us, hus, hrespelled⟩ := tokenize_of_isLayout hts htree.getLast?_ne_slash hlayout
  have hparse' := SourceForm.parse_of_derives huniform (htree.respell hresolver hcase hrespelled)
  have hnodes (hfold : c.options.foldConstants = true) : Node.AllOver
      (fun f => f.foldable = true → f.SeesValues fun _ _ => True) (fun _ => True) tree.nodes :=
    (htree.over ⟨hfolding hfold, fun _ _ _ _ => trivial⟩).nodes
  have hbytes := canonicalBytes_unshared hnodes source source' w w'
  obtain ⟨hresult, htable⟩ := compile_of_parse (w := w) hts hparse
  obtain ⟨hresult', htable'⟩ := compile_of_parse (w := w') hus hparse'
  refine ⟨_, hresult', ?_⟩
  obtain rfl := Except.ok.inj (hcompiled.symm.trans hresult)
  cases hintern : c.options.intern with
  | false => simpa using hbytes.symm
  | true =>
    have htables := hshared hintern
    simp only [UseOneTable, htable, htable', hintern, if_true] at htables
    simpa using (InternTable.canonicalBytes_intern hbytes htables).symm

/-- The phrase `true&&max(2,1)`, and the same with other gaps and in capitals,
compiled after it and after another one. -/
theorem compile_of_isLayout_max :
    let c : Compiler Unit := ⟨.math, ⟨true, true⟩⟩
    let start : Workspace Unit := .start ()
    let later := (c.compile .phrase "x + 1" (c.compile .phrase "true&&max(2,1)" start).2).2
    ∃ i j, (c.compile .phrase "true&&max(2,1)" start).1 = .ok i ∧
      (c.compile .phrase "\tTRUE && MAX /**/( 2 , 1\n)// folded\n" later).1 = .ok j ∧
      j.expr.canonicalBytes = i.expr.canonicalBytes := by
  intro c start later
  let token (kind : TokenKind) (text : String) (offset : Nat) : Token :=
    ⟨kind, text, ⟨offset, 1, offset + 1⟩⟩
  let ts := [token (.keyword .true) "true" 0, token (.symbol .ampAmp) "&&" 4,
    token .identifier "max" 6, token (.symbol .leftParen) "(" 9,
    token (.number (.integer 2)) "2" 10, token (.symbol .comma) "," 11,
    token (.number (.integer 1)) "1" 12, token (.symbol .rightParen) ")" 13]
  have hts : tokenize "true&&max(2,1)" = .ok ts := by
    have hread : (tokenize "true&&max(2,1)").toOption = some ts := by decide +kernel
    cases htokens : tokenize "true&&max(2,1)" with
    | error e => simp [htokens, Except.toOption] at hread
    | ok us => simpa [htokens, Except.toOption] using hread
  obtain ⟨nodes, hparse⟩ : ∃ nodes,
      SourceForm.phrase.parse ⟨c.resolver, BinaryOp.isRightAssoc⟩ ts = .ok nodes := by
    have hread : (SourceForm.phrase.parse ⟨c.resolver, BinaryOp.isRightAssoc⟩ ts).isOk = true := by
      decide +kernel
    cases hnodes : SourceForm.phrase.parse ⟨c.resolver, BinaryOp.isRightAssoc⟩ ts with
    | error e => simp [hnodes, Except.isOk, Except.toBool] at hread
    | ok nodes => exact ⟨nodes, rfl⟩
  have blank : IsSeparator [' '] := .intro (by decide) .nil
  have htext : "\tTRUE && MAX /**/( 2 , 1\n)// folded\n".toList
      = ['\t'] ++ "TRUE".toList ++ ([' '] ++ "&&".toList ++ ([' '] ++ "MAX".toList ++
        (' ' :: ('/' :: '*' :: [] ++ '*' :: '/' :: []) ++ "(".toList ++ ([' '] ++ "2".toList ++
          ([' '] ++ ",".toList ++ ([' '] ++ "1".toList ++ (['\n'] ++ ")".toList ++
            ('/' :: '/' :: " folded".toList ++ '\n' :: [])))))))) := by
    simp
  have hlayout : IsLayout c.resolver ts "\tTRUE && MAX /**/( 2 , 1\n)// folded\n".toList := by
    rw [htext]
    refine .cons (.blank (by decide) .nil) (.keyword rfl (by decide)) ?_
    refine .cons blank .same (.cons blank (.function rfl (by decide) (by decide)) ?_)
    refine .cons (.intro (by decide) (.block (by decide) .nil)) .same (.cons blank .same ?_)
    refine .cons blank .same (.cons blank .same (.cons (.intro (by decide) .nil) .same ?_))
    exact .nil (.line (by decide) .nil)
  -- in whatever workspace, so that nothing is computed in this one
  have hall (w : Workspace Unit) :
      ∃ i j, (c.compile .phrase "true&&max(2,1)" w).1 = .ok i ∧
        (c.compile .phrase "\tTRUE && MAX /**/( 2 , 1\n)// folded\n"
          (c.compile .phrase "x + 1" (c.compile .phrase "true&&max(2,1)" w).2).2).1 = .ok j ∧
        j.expr.canonicalBytes = i.expr.canonicalBytes := by
    have hcompiled := (compile_of_parse (w := w) hts hparse).1
    have hlater := compile_of_isLayout c .phrase "true&&max(2,1)"
      "\tTRUE && MAX /**/( 2 , 1\n)// folded\n" ts w _ _ Resolver.consistent_math
      Resolver.ignoresCase_math hts hlayout hcompiled
      (fun _ f hf _ => by
        obtain ⟨t, -, -, ht⟩ := hf
        exact (Resolver.actsOnStack_of_math ht).seesValues)
      fun _ => .inr (.inl (within_compile c .phrase "x + 1" _))
    exact ⟨_, hlater.imp fun j hj => ⟨hcompiled, hj⟩⟩
  exact hall start

end Compiler

end ScalarLang
