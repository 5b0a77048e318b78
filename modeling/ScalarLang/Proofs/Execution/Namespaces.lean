import ScalarLang.Proofs.Execution.Assignments
import ScalarLang.Proofs.Execution.EarlyReturn
import ScalarLang.Proofs.Execution.Relayout
import ScalarLang.Proofs.Lexing.Lexemes
/-!
# Namespaces

What a source text calls a variable is neither a reserved word nor a
function, in whatever case it is written, and it is not the name under
which a program keeps what it returns. So a program writes that name by a
`return` and by nothing else, and since an evaluation removes it before it
starts, the name is there in the end if and only if a `return` has been
executed.
-/

namespace ScalarLang

variable {σ : Type} {r : Resolver σ}

/-! ## The name of the returned value -/

/-- A step that returns a value assigns it to the variable of the returned
value. -/
theorem Step.Returns.assignment? {s : Step σ} {v : Value} (h : s.Returns v) :
    s.assignment? = some (Variables.returnName, v) := by
  obtain ⟨haction, stack, hpop⟩ := h
  refine assignment?_eq_some_iff.mpr ⟨?_, .inr ⟨haction, rfl⟩⟩
  simp [Stack.pop?_eq_some hpop]

/-- A `return` that assigns a value returns it. -/
theorem Step.returns_of_assignment? {s : Step σ} {name : String} {v : Value}
    (h : s.assignment? = some (name, v)) (haction : s.action = .directive .return) :
    s.Returns v := by
  obtain ⟨hpeek, -⟩ := assignment?_eq_some_iff.mp h
  obtain ⟨below, hstack⟩ := List.getLast?_eq_some_iff.mp (s.before.stack.peek?_eq_getLast? ▸ hpeek)
  obtain ⟨stack, hpop, -⟩ := Stack.pop?_of_toList hstack
  exact ⟨haction, stack, hpop⟩

/-- **The returned value is there if and only if a `return` was executed**, in a
program that does not store to the variable of it. -/
theorem Expression.contains_returnName_iff {e : Expression σ}
    (he : ¬ e.Contains (.directive (.store Variables.returnName))) (m : Machine σ) :
    (e.evaluate m).2.vars.contains Variables.returnName = true ↔
      ∃ s ∈ e.steps m, ∃ v, s.Returns v := by
  rw [Variables.contains_eq, vars_evaluate]
  constructor
  · intro hcontains
    by_contra hnone
    have hassigned (v : Value) : (Variables.returnName, v) ∉ e.assignments m := by
      rw [assignments_eq]
      intro hv
      obtain ⟨s, hs, hassignment⟩ := List.mem_filterMap.mp hv
      obtain ⟨-, hstore | ⟨hreturn, -⟩⟩ := Step.assignment?_eq_some_iff.mp hassignment
      · exact he (contains_of_mem_steps hs hstore)
      · exact hnone ⟨s, hs, v, Step.returns_of_assignment? hassignment hreturn⟩
    rw [Variables.get?_extend_of_not_mem hassigned] at hcontains
    simp at hcontains
  · rintro ⟨s, hs, v, hv⟩
    refine Variables.isSome_get?_extend (.inr ⟨v, ?_⟩)
    rw [assignments_eq]
    exact List.mem_filterMap.mpr ⟨s, hs, hv.assignment?⟩

/-- A `return` that is reached is executed, unless there is no value to return:
then the evaluation fails. -/
theorem Expression.returns_of_mem_steps {e : Expression σ} {m : Machine σ} {s : Step σ}
    (hs : s ∈ e.steps m) (haction : s.action = .directive .return) :
    (∃ v, s.Returns v) ∨ (e.evaluate m).1 = .error (.stackUnderflow .return) := by
  cases hpop : s.before.stack.pop? with
  | some popped => exact .inl ⟨popped.1, haction, popped.2, hpop⟩
  | none =>
    have hfailed : (Directive.return.execute s.before).1 = .failed (.stackUnderflow .return) := by
      simp [Directive.execute, Machine.withPop, hpop]
    obtain ⟨code, source⟩ := e
    cases code with
    | literal v => cases hs
    | program root =>
      have hrun : (root.execute m.cleared).1 = .failed (.stackUnderflow .return) :=
        Node.failed_of_mem_steps haction hfailed hs
      right
      simp only [evaluate]
      generalize root.execute m.cleared = run at hrun
      obtain ⟨signal, m'⟩ := run
      obtain rfl : signal = _ := hrun
      rfl

/-! ## Names apart -/

/-- **A name for a variable**: an identifier that is no reserved word in any
case, no function of the resolver, and not the name of the returned
value. -/
structure Resolver.NamesVariable (r : Resolver σ) (name : String) : Prop where
  identifier : IsIdentifier name
  notReserved : ∀ k : Keyword, Text.foldCase k.spelling ≠ Text.foldCase name
  notResolved : r.resolve? name = none
  notContained : r.contains name = false
  notReturned : name ≠ Variables.returnName

/-- An identifier that a consistent resolver does not resolve, or does not
contain, names a variable. -/
theorem Resolver.Consistent.namesVariable {name : String} (hr : r.Consistent)
    (hidentifier : IsIdentifier name) (h : r.resolve? name = none ∨ r.contains name = false) :
    r.NamesVariable name where
  identifier := hidentifier
  notReserved k hk :=
    Bool.eq_false_iff.mp (Keyword.ofWord?_eq_none_iff.mp hidentifier.notReserved k)
      (Text.sameFolded_iff.mpr hk)
  notResolved := h.elim id fun hcontains => by simpa [hr name] using hcontains
  notContained := h.elim (fun hresolve => by simp [hr name, hresolve]) id
  notReturned hname := not_isIdentifier_returnName (hname ▸ hidentifier)

/-- **An expression keeps namespaces apart**: whatever its program loads and
stores to is a name for a variable, and on every machine the returned value
is there after an evaluation if and only if this has executed a `return`. One
that is reached is executed, unless the evaluation fails for lack of a value
to return. -/
structure Expression.KeepsNamespaces (e : Expression σ) (r : Resolver σ) : Prop where
  loads : ∀ name, e.Contains (.directive (.load name)) → r.NamesVariable name
  stores : ∀ name, e.Contains (.directive (.store name)) → r.NamesVariable name
  returned : ∀ m, (e.evaluate m).2.vars.contains Variables.returnName = true ↔
    ∃ s ∈ e.steps m, ∃ v, s.Returns v
  reached : ∀ m, ∀ s ∈ e.steps m, s.action = .directive .return →
    (∃ v, s.Returns v) ∨ (e.evaluate m).1 = .error (.stackUnderflow .return)

theorem Expression.keepsNamespaces {e : Expression σ}
    (h : ∀ d, e.Contains (.directive d) → d.Over r.NamesVariable) : e.KeepsNamespaces r where
  loads _ := h _
  stores _ := h _
  returned := contains_returnName_iff fun hstore => (h _ hstore).notReturned rfl
  reached _ _ := returns_of_mem_steps

/-! ## Shared instances -/

namespace Node

theorem exists_same_of_sameAll {ns ms : List (Node σ)} (h : sameAll ns ms = true) :
    ∀ n ∈ ns, ∃ m ∈ ms, n.same m = true := by
  induction ns generalizing ms with
  | nil => simp
  | cons n ns ih =>
    cases ms with
    | nil => simp [sameAll] at h
    | cons m ms =>
      simp only [sameAll, Bool.and_eq_true] at h
      refine List.forall_mem_cons.mpr ⟨⟨m, List.mem_cons_self, h.1⟩, fun k hk => ?_⟩
      obtain ⟨j, hj, hsame⟩ := ih h.2 k hk
      exact ⟨j, List.mem_cons_of_mem _ hj, hsame⟩

/-- **The same directives stand in the same programs.** -/
theorem Within.of_same {d : Directive} {n m : Node σ} (hd : (directive d).Within n)
    (h : n.same m = true) : (directive d).Within m := by
  induction hd generalizing m with
  | refl =>
    cases m with
    | directive e =>
      obtain rfl : d = e := by simpa [same] using h
      exact .refl
    | branch => simp [same] at h
    | call => simp [same] at h
  | condition hk _ ih =>
    obtain ⟨_, _, _, rfl, hcondition, -, -⟩ := same_branch h
    obtain ⟨j, hj, hsame⟩ := exists_same_of_sameAll hcondition _ hk
    exact .condition hj (ih hsame)
  | success hk _ ih =>
    obtain ⟨_, _, _, rfl, -, hsuccess, -⟩ := same_branch h
    obtain ⟨j, hj, hsame⟩ := exists_same_of_sameAll hsuccess _ hk
    exact .success hj (ih hsame)
  | failure hk _ ih =>
    obtain ⟨_, _, _, rfl, -, -, hfailure⟩ := same_branch h
    cases hfailure with
    | some hfailure =>
      obtain ⟨j, hj, hsame⟩ := exists_same_of_sameAll hfailure _ hk
      exact .failure hj (ih hsame)

end Node

/-- And in expressions of the same bytes. -/
theorem Expression.contains_of_canonicalBytes_eq {e f : Expression σ} {d : Directive}
    (h : e.canonicalBytes = f.canonicalBytes) (hd : e.Contains (.directive d)) :
    f.Contains (.directive d) := by
  obtain ⟨root, hroot, hd⟩ := hd
  rcases selfDelimiting_canonicalBytes.same_of_eq h with ⟨v, w, hv, -, -⟩ | ⟨b, c, hb, hc, hsame⟩
  · have hcode := code_of_literal? hv
    simp [root?, hcode] at hroot
  · obtain rfl : root = b := Option.some.inj (hroot.symm.trans hb)
    exact ⟨c, hc, hd.of_same hsame⟩

/-! ## Compiled sources -/

namespace Compiler

variable {c : Compiler σ} {form : SourceForm} {ts : List Token} {nodes : List (Node σ)}

/-- What nodes become contains what stands in them, or has been carried
out. -/
theorem contains_of_contains_ofNodes {source : Option String} {host : σ} {n : Node σ}
    (h : (c.ofNodes nodes source host).1.Contains n) :
    (Expression.ofBranch (.unconditional nodes)).Contains n := by
  obtain ⟨root, hroot, hn⟩ := h
  refine ⟨root, ?_, hn⟩
  simp only [ofNodes, fold] at hroot
  split at hroot
  · split at hroot
    · split at hroot
      · cases hroot
      · exact hroot
    · exact hroot
  · exact hroot

/-- The nodes of a source text load and store to names for variables. -/
theorem over_of_parse {source : String} (hr : c.resolver.Consistent)
    (hts : tokenize source = .ok ts)
    (hparse : form.parse ⟨c.resolver, BinaryOp.isRightAssoc⟩ ts = .ok nodes) {d : Directive}
    (hd : (Expression.ofBranch (.unconditional nodes)).Contains (.directive d)) :
    d.Over c.resolver.NamesVariable := by
  obtain ⟨tree, htree, rfl⟩ :=
    SourceForm.parse_sound (BinaryOp.uniform_isRightAssoc c.resolver) hparse
  have hover : Node.AllOver (fun _ => True) c.resolver.NamesVariable tree.nodes :=
    (htree.over ⟨fun _ _ => trivial, fun t ht hkind hname =>
      hr.namesVariable (tokenize_identifiers hts t ht hkind) hname⟩).nodes
  have hroot : (Branch.unconditional tree.nodes).toNode.Over (fun _ => True)
      c.resolver.NamesVariable := ⟨⟨trivial, trivial⟩, hover, trivial⟩
  obtain ⟨_, ⟨⟩, hd⟩ := hd
  exact hroot.within hd

/-- **Compiled sources keep namespaces apart**, if the resolver contains what it
resolves: the program that the nodes make does, and so does what the
compiler hands out, whether it is folded or shared. An instance that is
shared already is handed out for its digest, and has to have the bytes that
the digest stands for. -/
theorem keepsNamespaces_of_compile (c : Compiler σ) (form : SourceForm) (source : String)
    (w : Workspace σ) (i : Instance σ) (hresolver : c.resolver.Consistent)
    (hcompiled : (c.compile form source w).1 = .ok i) :
    ∃ ts nodes, tokenize source = .ok ts ∧
      form.parse ⟨c.resolver, BinaryOp.isRightAssoc⟩ ts = .ok nodes ∧
      (Expression.ofBranch (.unconditional nodes)).KeepsNamespaces c.resolver ∧
      ((c.options.intern = true →
          ∀ j, w.shared.find? (c.unshared nodes source w).expr.digest = some j →
            j.expr.canonicalBytes = (c.unshared nodes source w).expr.canonicalBytes) →
        i.expr.KeepsNamespaces c.resolver) := by
  obtain ⟨ts, nodes, hts, hparse⟩ := exists_parse_of_compile hcompiled
  have hover {d : Directive} (hd : (Expression.ofBranch (.unconditional nodes)).Contains
      (.directive d)) : d.Over c.resolver.NamesVariable := over_of_parse hresolver hts hparse hd
  refine ⟨ts, nodes, hts, hparse, Expression.keepsNamespaces fun d => hover, fun hshared => ?_⟩
  obtain rfl := Except.ok.inj (hcompiled.symm.trans (compile_of_parse hts hparse).1)
  refine Expression.keepsNamespaces fun d hd => ?_
  have hunshared : (c.unshared nodes source w).expr.Contains (.directive d) := by
    cases hintern : c.options.intern with
    | false => simpa [hintern] using hd
    | true =>
      simp only [hintern, if_true, InternTable.intern_fst] at hd
      cases hfind : w.shared.find? (c.unshared nodes source w).expr.digest with
      | none => simpa [hfind] using hd
      | some j =>
        rw [hfind, Option.getD_some] at hd
        exact Expression.contains_of_canonicalBytes_eq (hshared hintern j hfind) hd
  exact hover (contains_of_contains_ofNodes hunshared)

/-- The program `y = max(x, 2); if (y > 2) return y;` returns for 5, and for 1 it
does not, although something was returned before. -/
theorem keepsNamespaces_of_compile_max :
    let c : Compiler Unit := ⟨.math, ⟨true, true⟩⟩
    let source := "y = max(x, 2); if (y > 2) return y;"
    let start (x : Int64) : Machine Unit :=
      ⟨.empty, .ofList [("x", .integer x), (Variables.returnName, .integer 9)], ()⟩
    ∃ i, (c.compile .block source ⟨(), 0, .empty⟩).1 = .ok i ∧
      i.expr.KeepsNamespaces c.resolver ∧
      (∃ s ∈ i.expr.steps (start 5), ∃ v, s.Returns v) ∧
      ¬ ∃ s ∈ i.expr.steps (start 1), ∃ v, s.Returns v := by
  intro c source start
  have hreturned (x : Int64) (b : Bool)
      (hb : ((c.compile .block source ⟨(), 0, .empty⟩).1.toOption.map fun i =>
        (i.expr.evaluate (start x)).2.vars.contains Variables.returnName) = some b) :
      ∃ i, (c.compile .block source ⟨(), 0, .empty⟩).1 = .ok i ∧
        (i.expr.evaluate (start x)).2.vars.contains Variables.returnName = b := by
    cases hi : (c.compile .block source ⟨(), 0, .empty⟩).1 with
    | error e => simp [hi, Except.toOption] at hb
    | ok i => exact ⟨i, rfl, by simpa [hi, Except.toOption] using hb⟩
  obtain ⟨i, hi, hfive⟩ := hreturned 5 true (by decide +kernel)
  obtain ⟨j, hj, hone⟩ := hreturned 1 false (by decide +kernel)
  obtain rfl : i = j := Except.ok.inj (hi.symm.trans hj)
  obtain ⟨ts, nodes, -, -, -, hshared⟩ :=
    keepsNamespaces_of_compile c .block source ⟨(), 0, .empty⟩ i Resolver.consistent_math hi
  -- nothing is shared before
  have hkeeps := hshared fun _ j hj => by cases hj
  refine ⟨i, hi, hkeeps, (hkeeps.returned (start 5)).mp hfive, fun hreturns => ?_⟩
  rw [(hkeeps.returned (start 1)).mpr hreturns] at hone
  cases hone

end Compiler

end ScalarLang
