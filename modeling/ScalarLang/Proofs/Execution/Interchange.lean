import ScalarLang.Compiler
import ScalarLang.Proofs.Encoding.Canonical
import ScalarLang.Proofs.Parsing.Contents
/-!
# Equal expressions

Expressions are equal if their digests are, and a digest knows a function
by its name and its number of parameters alone. So equal expressions do
the same if functions of one name and one number of parameters do
(`NativeFunction.ActAlike`); then it does not matter either which of them
a table hands out. Where two compilers give one name to two functions,
equal expressions differ.
-/

namespace ScalarLang

variable {σ : Type} {F : NativeFunction σ → Prop} {N M : String → Prop}

/-- **Functions act alike** if those that are the same to a program have the
same effect. -/
def NativeFunction.ActAlike (F : NativeFunction σ → Prop) : Prop :=
  ∀ f g, F f → F g → f.same g = true → f.call = g.call

/-! ## Programs -/

/-- The call of a function does what the function does. -/
theorem NativeFunction.execute_congr {f g : NativeFunction σ} (h : f.call = g.call) :
    f.execute = g.execute := by
  funext m
  simp only [execute, h]

namespace Node

mutual

/-- **The same programs do the same** with functions that act alike. -/
theorem execute_eq_of_same (hF : NativeFunction.ActAlike F) : ∀ {n m : Node σ},
    n.Over F N → m.Over F M → n.same m = true → n.execute = m.execute
  | .directive d, m, _, _, h => by
    cases m with
    | directive e =>
      obtain rfl : d = e := by simpa [same] using h
      rfl
    | branch => simp [same] at h
    | call => simp [same] at h
  | .call f, m, hn, hm, h => by
    cases m with
    | call g =>
      have hcall : f.call = g.call := hF f g hn hm h
      funext machine
      exact congrFun (NativeFunction.execute_congr hcall) machine
    | directive => simp [same] at h
    | branch => simp [same] at h
  | .branch condition success failure, m, hn, hm, h => by
    obtain ⟨condition', success', failure', rfl, hcondition, hsuccess, hfailure⟩ :=
      same_branch h
    obtain ⟨hcOver, hsOver, hfOver⟩ := over_branch.mp hn
    obtain ⟨hcOver', hsOver', hfOver'⟩ := over_branch.mp hm
    have hcond : executeAll condition = executeAll condition' :=
      executeAll_eq_of_sameAll hF hcOver hcOver' hcondition
    have hchosen (v : Value) :
        executeAll (chosen v success failure) = executeAll (chosen v success' failure') := by
      unfold chosen
      split
      · exact executeAll_eq_of_sameAll hF hsOver hsOver' hsuccess
      · match failure, failure', hfailure, hfOver, hfOver' with
        | none, none, _, _, _ => rfl
        | some _, some _, .some hfailure, hfOver, hfOver' =>
          exact executeAll_eq_of_sameAll hF (hfOver _ rfl) (hfOver' _ rfl) hfailure
    funext machine
    simp only [execute_branch, hcond, hchosen]

/-- And so do the same blocks. -/
theorem executeAll_eq_of_sameAll (hF : NativeFunction.ActAlike F) : ∀ {ns ms : List (Node σ)},
    AllOver F N ns → AllOver F M ms → sameAll ns ms = true → executeAll ns = executeAll ms
  | [], [], _, _, _ => rfl
  | [], _ :: _, _, _, h => by simp [sameAll] at h
  | _ :: _, [], _, _, h => by simp [sameAll] at h
  | n :: ns, m :: ms, hn, hm, h => by
    simp only [sameAll, Bool.and_eq_true] at h
    have hfirst : n.execute = m.execute := execute_eq_of_same hF hn.1 hm.1 h.1
    have hrest : executeAll ns = executeAll ms := executeAll_eq_of_sameAll hF hn.2 hm.2 h.2
    funext machine
    rw [executeAll, executeAll, hfirst, hrest]

end

end Node

/-! ## Expressions -/

namespace Expression

/-- The expression calls functions in `F` only. -/
def CallsOnly (F : NativeFunction σ → Prop) (e : Expression σ) : Prop :=
  ∀ root ∈ e.root?, root.toNode.Over F fun _ => True

/-- No two of the expressions have one digest for different bytes. -/
def NoCollision (used : Expression σ → Prop) : Prop :=
  ∀ e f, used e → used f → e.digest = f.digest → e.canonicalBytes = f.canonicalBytes

/-- **Expressions of the same bytes do the same** with functions that act
alike. -/
theorem evaluate_eq_of_canonicalBytes_eq {e f : Expression σ} (hF : NativeFunction.ActAlike F)
    (he : e.CallsOnly F) (hf : f.CallsOnly F) (h : e.canonicalBytes = f.canonicalBytes)
    (m : Machine σ) : e.evaluate m = f.evaluate m := by
  rcases selfDelimiting_canonicalBytes.same_of_eq h with
    ⟨v, w, hv, hw, hsame⟩ | ⟨b, c, hb, hc, hsame⟩
  · obtain rfl : v = w := by simpa [Value.identical] using hsame
    simp only [evaluate, code_of_literal? hv, code_of_literal? hw]
  · have hexecute : b.toNode.execute = c.toNode.execute :=
      Node.execute_eq_of_same hF (he b hb) (hf c hc) hsame
    simp only [evaluate, code_of_root? hb, code_of_root? hc, Branch.execute, hexecute]

end Expression

/-! ## Tables -/

namespace InternTable

/-- The table after a history of instances that were interned one after the
other. -/
def internAll (history : List (Instance σ)) : InternTable σ :=
  history.foldl (fun t i => (t.intern i).2) .empty

/-- **What a table keeps**: under each digest an expression in use, with that
digest. -/
def Keeps (used : Expression σ → Prop) (t : InternTable σ) : Prop :=
  ∀ digest i, t.find? digest = some i → i.expr.digest = digest ∧ used i.expr

variable {used : Expression σ → Prop} {t : InternTable σ} {i : Instance σ}

theorem keeps_empty : (empty : InternTable σ).Keeps used := by
  intro digest i hi
  cases hi

/-- A digest that is known has its instance handed out. -/
theorem intern_of_find?_eq_some {canonical : Instance σ}
    (h : t.find? i.expr.digest = some canonical) : t.intern i = (canonical, t) := by
  simp [intern, h]

/-- An instance whose digest is not known becomes the one of its digest. -/
theorem intern_of_find?_eq_none (h : t.find? i.expr.digest = none) :
    t.intern i = (i, ⟨(i.expr.digest, i) :: t.entries⟩) := by
  simp [intern, h]

/-- Interning an expression in use yields one in use, of the same digest,
and the table keeps such expressions only. -/
theorem Keeps.intern (ht : t.Keeps used) (hi : used i.expr) :
    ((t.intern i).1.expr.digest = i.expr.digest ∧ used (t.intern i).1.expr) ∧
      (t.intern i).2.Keeps used := by
  cases hfind : t.find? i.expr.digest with
  | some canonical =>
    rw [intern_of_find?_eq_some hfind]
    exact ⟨ht _ _ hfind, ht⟩
  | none =>
    rw [intern_of_find?_eq_none hfind]
    refine ⟨⟨rfl, hi⟩, fun digest j hj => ?_⟩
    simp only [find?, List.lookup_cons] at hj
    split at hj
    · rename_i hdigest
      cases hj
      exact ⟨(beq_iff_eq.mp hdigest).symm, hi⟩
    · exact ht digest j hj

/-- After a history of expressions in use a table keeps such expressions
only. -/
theorem keeps_internAll {history : List (Instance σ)} (h : ∀ j ∈ history, used j.expr) :
    (internAll history).Keeps used := by
  have hfrom : ∀ (js : List (Instance σ)) (t : InternTable σ), (∀ j ∈ js, used j.expr) →
      t.Keeps used → (js.foldl (fun t j => (t.intern j).2) t).Keeps used := by
    intro js
    induction js with
    | nil => exact fun t _ ht => ht
    | cons j js ih =>
      intro t hjs ht
      have hj : used j.expr := hjs j List.mem_cons_self
      exact ih _ (fun k hk => hjs k (List.mem_cons_of_mem _ hk)) (ht.intern hj).2
  exact hfrom history empty h keeps_empty

end InternTable

/-! ## Interchange -/

/-- **Equal expressions are interchangeable** where the functions in use act
alike and no two of the expressions in use collide: they do the same on
every machine, and so does the instance that a table hands out for an
expression, whatever was interned before. -/
theorem equal_expressions_interchangeable (F : NativeFunction σ → Prop)
    (used : Expression σ → Prop) (hF : NativeFunction.ActAlike F)
    (hcalls : ∀ e, used e → e.CallsOnly F) (hcollision : Expression.NoCollision used) :
    (∀ e f, used e → used f → e.same f = true → ∀ m, e.evaluate m = f.evaluate m) ∧
    ∀ (history : List (Instance σ)) (i : Instance σ), (∀ j ∈ history, used j.expr) →
      used i.expr → ∀ m,
        ((InternTable.internAll history).intern i).1.expr.evaluate m = i.expr.evaluate m := by
  have hequal (e f : Expression σ) (he : used e) (hf : used f) (h : e.digest = f.digest)
      (m : Machine σ) : e.evaluate m = f.evaluate m :=
    Expression.evaluate_eq_of_canonicalBytes_eq hF (hcalls e he) (hcalls f hf)
      (hcollision e f he hf h) m
  refine ⟨fun e f he hf h m => ?_, fun history i hhistory hi m => ?_⟩
  · exact hequal e f he hf (by simpa [Expression.same] using h) m
  · obtain ⟨⟨hdigest, hused⟩, -⟩ := (InternTable.keeps_internAll hhistory).intern hi
    exact hequal _ _ hused hi hdigest m

/-- Programs that call `max` and a function `MAX` of the same effect. -/
theorem equal_expressions_interchangeable_max :
    let max : NativeFunction Unit := MathFunction.max.toValueFunction.toNative Unit
    let loudMax : NativeFunction Unit := { max with name := "MAX" }
    let program (f : NativeFunction Unit) : Expression Unit :=
      .ofBranch (.unconditional [.directive (.load "x"), .directive (.load "y"), .call f])
    (program max).same (program loudMax) = true ∧
      (∀ m, (program max).evaluate m = (program loudMax).evaluate m) ∧
      ∀ m, ((InternTable.internAll [⟨0, program max⟩]).intern ⟨1, program loudMax⟩).1.expr.evaluate m
        = (program loudMax).evaluate m := by
  intro max loudMax program
  let F (f : NativeFunction Unit) : Prop := f = max ∨ f = loudMax
  let used (e : Expression Unit) : Prop := ∃ f, F f ∧ e = program f
  have hsame : (program max).same (program loudMax) = true := by decide +kernel
  have hF : NativeFunction.ActAlike F := by
    rintro f g (rfl | rfl) (rfl | rfl) _ <;> rfl
  have hcalls (e : Expression Unit) (he : used e) : e.CallsOnly F := by
    obtain ⟨f, hf, rfl⟩ := he
    rintro root ⟨⟩
    exact ⟨⟨trivial, trivial⟩, ⟨trivial, trivial, hf, trivial⟩, trivial⟩
  have hbytes (e : Expression Unit) (he : used e) :
      e.canonicalBytes = (program max).canonicalBytes := by
    obtain ⟨f, rfl | rfl, rfl⟩ := he
    · rfl
    · decide +kernel
  have hcollision : Expression.NoCollision used :=
    fun e f he hf _ => (hbytes e he).trans (hbytes f hf).symm
  obtain ⟨hequal, hintern⟩ := equal_expressions_interchangeable F used hF hcalls hcollision
  have hmax : used (program max) := ⟨max, .inl rfl, rfl⟩
  have hloud : used (program loudMax) := ⟨loudMax, .inr rfl, rfl⟩
  refine ⟨hsame, hequal _ _ hmax hloud hsame, hintern _ _ (fun j hj => ?_) hloud⟩
  obtain rfl := List.mem_singleton.mp hj
  exact hmax

/-- **Equal expressions need not do the same** where compilers disagree: the
phrase `twice(x)`, compiled with a function that doubles and with one that
triples. To intern the second after the first replaces its value. -/
theorem equal_expressions_differ :
    let times (name : String) (factor : Int64) : ValueFunction :=
      ⟨name, 1, true, fun args => .ok (MathFunction.onOne (·.mul (.integer factor)) args)⟩
    let word (text : String) : Token := ⟨.identifier, text, .start⟩
    let sign (s : Symbol) : Token := ⟨.symbol s, s.spelling, .start⟩
    let ts := [word "twice", sign .leftParen, word "x", sign .rightParen]
    let compile (f : ValueFunction) := Compiler.compileTokens (σ := Unit)
      ⟨(FunctionTable.ofList [f.toNative Unit]).toResolver, ⟨true, false⟩⟩ .phrase ts none
      ⟨(), 0, .empty⟩
    let value? (e : Expression Unit) : Option Value :=
      (e.evaluateIn (.ofList [("x", .integer 5)]) ()).1.toOption
    ∃ i w j w', compile (times "Twice" 2) = (.ok i, w) ∧ compile (times "TWICE" 3) = (.ok j, w') ∧
      i.expr.canonicalBytes = j.expr.canonicalBytes ∧ i.expr.same j.expr = true ∧
      value? i.expr = some (.integer 10) ∧ value? j.expr = some (.integer 15) ∧
      value? ((InternTable.internAll [i]).intern j).1.expr = some (.integer 10) := by
  intro times word sign ts compile value?
  let findings (i j : Instance Unit) : Prop :=
    i.expr.canonicalBytes = j.expr.canonicalBytes ∧ i.expr.same j.expr = true ∧
      value? i.expr = some (.integer 10) ∧ value? j.expr = some (.integer 15) ∧
      value? ((InternTable.internAll [i]).intern j).1.expr = some (.integer 10)
  have hrun : ∃ i ∈ (compile (times "Twice" 2)).1.toOption,
      ∃ j ∈ (compile (times "TWICE" 3)).1.toOption, findings i j := by
    decide +kernel
  obtain ⟨i, hi, j, hj, hfindings⟩ := hrun
  rcases hcompile : compile (times "Twice" 2) with ⟨_ | i', w⟩
  · simp [hcompile, Except.toOption] at hi
  rcases hcompile' : compile (times "TWICE" 3) with ⟨_ | j', w'⟩
  · simp [hcompile', Except.toOption] at hj
  obtain rfl : i' = i := by simpa [hcompile, Except.toOption] using hi
  obtain rfl : j' = j := by simpa [hcompile', Except.toOption] using hj
  exact ⟨i', w, j', w', rfl, rfl, hfindings⟩

end ScalarLang
