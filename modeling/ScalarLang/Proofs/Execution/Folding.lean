import ScalarLang.Proofs.Execution.Assignments
import ScalarLang.Proofs.Execution.Simulation
import ScalarLang.Proofs.Parsing.Sources
/-!
# Constant folding

A program that uses no variables, and whose functions act on the stack
alone, runs alike from all machines that hold the same values on the
stack and the same returned value (`Machine.simulation_alike`), and changes no
variable but the one of the returned value. So the run ahead of time, on
an empty stack and without variables, yields what every later run yields;
if it fails, the program is kept and fails again.
-/

namespace ScalarLang

variable {σ : Type}

/-! ## Functions -/

/-- **A function acts on the stack** if what it leaves there and its error
are determined by what it finds there: neither the variables nor the state
of the embedding program matter. It may take and leave any values. -/
def NativeFunction.ActsOnStack (f : NativeFunction σ) : Prop :=
  ∀ (vars vars' : String → Option Value) (s s' : Stack) (host host' : σ),
    s.toList = s'.toList →
      (f.call vars s host).error = (f.call vars' s' host').error ∧
        (f.call vars s host).stack.toList = (f.call vars' s' host').stack.toList

/-- Functions of values act on the stack. -/
theorem ValueFunction.actsOnStack_toNative (f : ValueFunction) : (f.toNative σ).ActsOnStack := by
  intro vars vars' s s' host host' hs
  simp only [toNative]
  rcases Stack.popArgs?_of_toList_eq hs f.arity with
    ⟨hnone, hnone'⟩ | ⟨args, t, t', hpop, hpop', ht⟩
  · simp [hnone, hnone', hs]
  · -- the arguments determine the result
    simp only [hpop, hpop']
    cases f.apply args <;> simp [ht]

/-- The mathematical functions act on the stack. -/
theorem Resolver.actsOnStack_of_math {name : String} {f : NativeFunction σ}
    (h : (math : Resolver σ).resolve? name = some f) : f.ActsOnStack := by
  obtain ⟨g, -, rfl⟩ := Option.map_eq_some_iff.mp h
  rw [g.toNative_eq]
  exact g.toValueFunction.actsOnStack_toNative

/-- A function that may be called ahead of time acts on the stack. -/
def NativeFunction.FoldsSafely (f : NativeFunction σ) : Prop :=
  f.foldable = true → f.ActsOnStack

/-! ## Machines -/

/-- Machines hold the same values on the stack and the same returned
value. -/
structure Machine.Alike (m m' : Machine σ) : Prop where
  stack : m.stack.toList = m'.stack.toList
  returned : m.vars.returnValue? = m'.vars.returnValue?

theorem Machine.Alike.seesValues : Machine.SeesValues (Machine.Alike (σ := σ)) where
  values h := h.stack
  restack h hs := ⟨hs, h.returned⟩

/-- **Runs without variables see values** and the returned value, if the
functions they call act on the stack. -/
theorem Machine.simulation_alike : Machine.Simulation (Machine.Alike (σ := σ))
    NativeFunction.ActsOnStack (fun _ => False) fun _ => False where
  push v h := Alike.seesValues.push h v
  pop h := Alike.seesValues.pop h
  load _ hname := hname.elim
  assign v h hname := by
    obtain rfl := hname.resolve_left id
    exact ⟨h.stack, by simp [Machine.assign, Variables.returnValue?]⟩
  call {m m' f} h hf := by
    obtain ⟨herror, hstack⟩ := hf m.vars.get? m'.vars.get? m.stack m'.stack m.host m'.host h.stack
    simp only [NativeFunction.execute]
    rw [← herror]
    cases (f.call m.vars.get? m.stack m.host).error with
    | none => exact ⟨rfl, hstack, h.returned⟩
    | some e => exact ⟨rfl, hstack, h.returned⟩

/-! ## Foldable nodes -/

namespace Node

variable {F : NativeFunction σ → Prop} {N M : String → Prop}

/-- The blocks of a foldable branch are foldable. -/
theorem areFoldable_of_branch {condition success : List (Node σ)}
    {failure : Option (List (Node σ))}
    (h : (branch condition success failure).isFoldable = true) :
    areFoldable condition = true ∧ areFoldable success = true ∧
      ∀ block ∈ failure, areFoldable block = true := by
  cases failure with
  | none => simpa [isFoldable] using h
  | some block => simpa [isFoldable, and_assoc] using h

theorem areFoldable_iff {ns : List (Node σ)} :
    areFoldable ns = true ↔ ∀ n ∈ ns, n.isFoldable = true := by
  induction ns with
  | nil => simp [areFoldable]
  | cons n ns ih => simp [areFoldable, ih]

/-- What stands in a foldable node is foldable. -/
theorem isFoldable_of_within {n k : Node σ} (h : n.isFoldable = true) (hk : k.Within n) :
    k.isFoldable = true := by
  induction hk with
  | refl => exact h
  | condition hmem _ ih => exact ih (areFoldable_iff.mp (areFoldable_of_branch h).1 _ hmem)
  | success hmem _ ih => exact ih (areFoldable_iff.mp (areFoldable_of_branch h).2.1 _ hmem)
  | failure hmem _ ih => exact ih (areFoldable_iff.mp ((areFoldable_of_branch h).2.2 _ rfl) _ hmem)

/-- Foldable nodes assign to no variable. -/
theorem not_store_within_of_isFoldable {n : Node σ} {name : String} (h : n.isFoldable = true) :
    ¬ (directive (.store name)).Within n := by
  intro hstore
  cases isFoldable_of_within h hstore

mutual

/-- Foldable nodes use no variables, and call foldable functions only. -/
theorem over_of_isFoldable : ∀ {n : Node σ}, n.isFoldable = true →
    n.Over (fun f => f.foldable = true → F f) N → n.Over F M
  | directive d, h, _ => by
    cases d with
    | load name => cases h
    | store name => cases h
    | _ => trivial
  | call _, h, hf => hf h
  | branch condition success failure, h, hf => by
    obtain ⟨hcondition, hsuccess, hfailure⟩ := areFoldable_of_branch h
    obtain ⟨hconditionOver, hsuccessOver, hfailureOver⟩ := over_branch.mp hf
    refine over_branch.mpr ⟨allOver_of_areFoldable hcondition hconditionOver,
      allOver_of_areFoldable hsuccess hsuccessOver, ?_⟩
    rintro block hblock
    match failure, hfailure, hfailureOver, hblock with
    | some _, hfailure, hfailureOver, rfl =>
      exact allOver_of_areFoldable (hfailure _ rfl) (hfailureOver _ rfl)

/-- And so do blocks of them. -/
theorem allOver_of_areFoldable : ∀ {ns : List (Node σ)}, areFoldable ns = true →
    AllOver (fun f => f.foldable = true → F f) N ns → AllOver F M ns
  | [], _, _ => trivial
  | n :: ns, h, hf => by
    simp only [areFoldable, Bool.and_eq_true] at h
    exact ⟨over_of_isFoldable h.1 hf.1, allOver_of_areFoldable h.2 hf.2⟩

end

end Node

/-! ## Expressions -/

/-- The first expression, evaluated on the first machine, yields the value
or the error that the second one yields on the second machine, and every
variable but the one of the returned value is the same in the end. -/
def Expression.Agrees (e : Expression σ) (m : Machine σ) (e' : Expression σ) (m' : Machine σ) :
    Prop :=
  (e.evaluate m).1 = (e'.evaluate m').1 ∧
    ∀ name, name ≠ Variables.returnName →
      (e.evaluate m).2.vars.get? name = (e'.evaluate m').2.vars.get? name

namespace Expression

theorem Agrees.refl (e : Expression σ) (m : Machine σ) : e.Agrees m e m :=
  ⟨rfl, fun _ _ => rfl⟩

section

variable {root : Branch σ} {N : String → Prop}

/-- Machines that are alike have the same result. -/
theorem result_eq {m m' : Machine σ} (h : m.Alike m') : m.result = m'.result := by
  simp [Machine.result, h.stack, h.returned]

/-- **The value of a foldable program** is the same on all machines. -/
theorem evaluate_foldable (hroot : root.isFoldable = true)
    (hf : root.toNode.Over NativeFunction.FoldsSafely N) (m m' : Machine σ) :
    ((ofBranch root).evaluate m).1 = ((ofBranch root).evaluate m').1 := by
  have hstart : m.cleared.Alike m'.cleared :=
    ⟨by simp [Machine.cleared], by simp [Machine.cleared, Variables.returnValue?]⟩
  refine (Machine.simulation_alike.evaluate result_eq ?_ hstart).1
  rintro _ ⟨⟩
  exact (Node.over_of_isFoldable hroot hf).uses

/-- A foldable program changes no variable but the one of the returned
value. -/
theorem get?_evaluate_foldable (hroot : root.isFoldable = true) (m : Machine σ) {name : String}
    (hname : name ≠ Variables.returnName) :
    ((ofBranch root).evaluate m).2.vars.get? name = m.vars.get? name := by
  refine get?_evaluate hname ?_ m
  rintro ⟨_, ⟨⟩, hstore⟩
  exact Node.not_store_within_of_isFoldable hroot hstore

/-- **Folding keeps the meaning** of a program, also of one that changes
the state of the embedding program when it is carried out early. -/
theorem fold_agrees (hf : root.toNode.Over NativeFunction.FoldsSafely N) (host : σ)
    (stack : Stack) (vars : Variables) (h h' : σ) (hhost : root.isFoldable = true ∨ h = h') :
    (fold root host).1.Agrees ⟨stack, vars, h⟩ (ofBranch root) ⟨stack, vars, h'⟩ := by
  unfold fold
  split
  · rename_i hroot
    have hearly := evaluate_foldable hroot hf ⟨.empty, .empty, host⟩ ⟨stack, vars, h'⟩
    simp only [evaluateIn]
    generalize (ofBranch root).evaluate ⟨.empty, .empty, host⟩ = early at hearly
    obtain ⟨outcome, early⟩ := early
    cases outcome with
    | ok v =>
      -- the literal changes no variable, and neither does the program
      refine ⟨hearly, fun name hname => ?_⟩
      rw [get?_evaluate_foldable hroot _ hname]
      simp [evaluate, literal, Machine.cleared, hname]
    | error e =>
      -- the program is kept, and runs in a state that does not matter to it
      refine ⟨evaluate_foldable hroot hf _ _, fun name hname => ?_⟩
      rw [get?_evaluate_foldable hroot ⟨stack, vars, h⟩ hname,
        get?_evaluate_foldable hroot ⟨stack, vars, h'⟩ hname]
  · rename_i hroot
    obtain rfl := hhost.resolve_left hroot
    exact .refl _ _

end

end Expression

/-- What an expression does is determined by its code. -/
theorem Expression.evaluate_congr {e e' : Expression σ} (h : e.code = e'.code) (m : Machine σ) :
    e.evaluate m = e'.evaluate m := by
  simp only [evaluate, h]

theorem Expression.Agrees.of_code {e e₀ e' e₀' : Expression σ} {m m' : Machine σ}
    (h : e₀.Agrees m e₀' m') (he : e.code = e₀.code) (he' : e'.code = e₀'.code) :
    e.Agrees m e' m' := by
  rw [Agrees, evaluate_congr he, evaluate_congr he']
  exact h

/-! ## Compiled expressions -/

namespace Compiler

/-- **What is compiled is shared faithfully**: an instance that is shared
already under its digest, and handed out for it, has its code. Without
sharing this is no condition. -/
def SharesFaithfully (c : Compiler σ) (form : SourceForm) (ts : List Token)
    (source : Option String) (w : Workspace σ) : Prop :=
  c.options.intern = true →
    ∀ nodes, form.parse ⟨c.resolver, BinaryOp.isRightAssoc⟩ ts = .ok nodes →
    ∀ i, w.shared.find? (c.ofNodes nodes source w.host).1.digest = some i →
      i.expr.code = (c.ofNodes nodes source w.host).1.code

section

variable {c : Compiler σ} {form : SourceForm} {ts : List Token} {source : Option String}
variable {w : Workspace σ}

/-- What is parsed is compiled, to an instance with its code. -/
theorem compileTokens_of_parse {nodes : List (Node σ)}
    (hparse : form.parse ⟨c.resolver, BinaryOp.isRightAssoc⟩ ts = .ok nodes)
    (hshared : c.SharesFaithfully form ts source w) :
    ∃ i w', c.compileTokens form ts source w = (.ok i, w') ∧
      i.expr.code = (c.ofNodes nodes source w.host).1.code ∧
      w'.host = (c.ofNodes nodes source w.host).2 := by
  have hfaithful := fun hintern => hshared hintern nodes hparse
  simp only [compileTokens, hparse]
  generalize c.ofNodes nodes source w.host = compiled at hfaithful
  obtain ⟨e, host⟩ := compiled
  cases hintern : c.options.intern with
  | false => exact ⟨_, _, rfl, rfl, rfl⟩
  | true =>
    simp only [if_true, Workspace.share, Workspace.instantiate, InternTable.intern]
    cases hfind : w.shared.find? e.digest with
    | none => exact ⟨_, _, rfl, rfl, rfl⟩
    | some i => exact ⟨i, _, rfl, hfaithful hintern i hfind, rfl⟩

/-- What is not parsed is not compiled. -/
theorem compileTokens_of_not_parse {rejection : Rejection}
    (hparse : form.parse ⟨c.resolver, BinaryOp.isRightAssoc⟩ ts = .error rejection) :
    c.compileTokens form ts source w = (.error rejection.toError, w) := by
  simp only [compileTokens, hparse]

end

end Compiler

/-- **Folding preserves meaning.** If the foldable functions that are named
act on the stack alone, what is compiled with folding and what is compiled
without it, in whatever workspaces, agree on every machine; and so they do
where each is evaluated in the state that its compilation left the
embedding program in. What is rejected is rejected alike. -/
theorem compileTokens_folding_agrees (r : Resolver σ) (intern : Bool) (form : SourceForm)
    (ts : List Token) (source : Option String) (w w' : Workspace σ)
    (hfunctions : ∀ f, r.Named ts f → f.foldable = true → f.ActsOnStack)
    (hshared : Compiler.SharesFaithfully ⟨r, ⟨true, intern⟩⟩ form ts source w)
    (hshared' : Compiler.SharesFaithfully ⟨r, ⟨false, intern⟩⟩ form ts source w') :
    match Compiler.compileTokens ⟨r, ⟨true, intern⟩⟩ form ts source w,
      Compiler.compileTokens ⟨r, ⟨false, intern⟩⟩ form ts source w' with
    | (.ok i, w₁), (.ok j, w₂) =>
      (∀ m, i.expr.Agrees m j.expr m) ∧
        (w.host = w'.host →
          ∀ stack vars, i.expr.Agrees ⟨stack, vars, w₁.host⟩ j.expr ⟨stack, vars, w₂.host⟩)
    | (.error e, _), (.error e', _) => e = e'
    | _, _ => False := by
  cases hparse : form.parse ⟨r, BinaryOp.isRightAssoc⟩ ts with
  | error rejection =>
    rw [Compiler.compileTokens_of_not_parse hparse, Compiler.compileTokens_of_not_parse hparse]
  | ok nodes =>
    obtain ⟨tree, htree, rfl⟩ := SourceForm.parse_sound (BinaryOp.uniform_isRightAssoc r) hparse
    have hover : Node.AllOver NativeFunction.FoldsSafely (fun _ => True) tree.nodes :=
      (htree.over ⟨hfunctions, fun _ _ _ _ => trivial⟩).nodes
    have hroot : (Branch.unconditional tree.nodes).toNode.Over
        NativeFunction.FoldsSafely (fun _ => True) :=
      ⟨⟨trivial, trivial⟩, hover, trivial⟩
    obtain ⟨i, w₁, hi, hcode, hhost⟩ := Compiler.compileTokens_of_parse hparse hshared
    obtain ⟨j, w₂, hj, hcode', hhost'⟩ := Compiler.compileTokens_of_parse hparse hshared'
    rw [hi, hj]
    refine ⟨fun m => ?_, fun hw stack vars => ?_⟩
    · exact .of_code (Expression.fold_agrees hroot w.host m.stack m.vars m.host m.host (.inr rfl))
        hcode hcode'
    · refine .of_code (Expression.fold_agrees hroot w.host stack vars _ _ ?_) hcode hcode'
      -- only a program that is carried out early can change the state
      by_cases hfoldable : (Branch.unconditional tree.nodes).isFoldable = true
      · exact .inl hfoldable
      · have hkept : (fold (Branch.unconditional tree.nodes) w.host).2 = w.host := by
          simp [fold, hfoldable]
        exact .inr ((hhost.trans hkept).trans (hw.trans hhost'.symm))

/-- The phrase `min(2, 1)` is folded to a literal, which agrees with the
program that calls the function. -/
theorem compileTokens_folding_agrees_min :
    let number (n : Int64) : Token := ⟨.number (.integer n), toString n.toInt, .start⟩
    let sign (s : Symbol) : Token := ⟨.symbol s, s.spelling, .start⟩
    let ts := [⟨.identifier, "min", .start⟩, sign .leftParen, number 2, sign .comma, number 1,
      sign .rightParen]
    let compile (folds : Bool) := Compiler.compileTokens (σ := Unit) ⟨.math, ⟨folds, true⟩⟩
      .phrase ts none ⟨(), 0, .empty⟩
    ∃ i w₁ j w₂, compile true = (.ok i, w₁) ∧ compile false = (.ok j, w₂) ∧
      i.expr.isLiteral = true ∧ j.expr.isLiteral = false ∧ ∀ m, i.expr.Agrees m j.expr m := by
  intro number sign ts compile
  have hshared (folds : Bool) : Compiler.SharesFaithfully ⟨(.math : Resolver Unit), ⟨folds, true⟩⟩
      .phrase ts none ⟨(), 0, .empty⟩ := by
    -- nothing is shared before
    intro _ _ _ i hi
    cases hi
  have hagrees := compileTokens_folding_agrees (.math : Resolver Unit) true .phrase ts none
    ⟨(), 0, .empty⟩ ⟨(), 0, .empty⟩
    (fun f hf _ => by
      obtain ⟨t, -, -, ht⟩ := hf
      exact Resolver.actsOnStack_of_math ht)
    (hshared true) (hshared false)
  have hfolded : (compile true).1.toOption.map (·.expr.isLiteral) = some true := by
    decide +kernel
  have hplain : (compile false).1.toOption.map (·.expr.isLiteral) = some false := by
    decide +kernel
  have hcompile (folds : Bool) : Compiler.compileTokens (σ := Unit) ⟨.math, ⟨folds, true⟩⟩
      .phrase ts none ⟨(), 0, .empty⟩ = compile folds := rfl
  rw [hcompile, hcompile] at hagrees
  rcases hi : compile true with ⟨_ | i, w₁⟩
  · simp [hi, Except.toOption] at hfolded
  rcases hj : compile false with ⟨_ | j, w₂⟩
  · simp [hj, Except.toOption] at hplain
  rw [hi, hj] at hagrees
  rw [hi] at hfolded
  rw [hj] at hplain
  exact ⟨i, w₁, j, w₂, rfl, rfl, by simpa [Except.toOption] using hfolded,
    by simpa [Except.toOption] using hplain, hagrees.1⟩

end ScalarLang
