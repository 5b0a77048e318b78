import ScalarLang.Expression
/-!
# What a run assigns

A run changes variables by the assignments it carries out, one after the
other, and by nothing else: native functions cannot change any. So the
variables after an evaluation are those before it, without what was
returned earlier, in which the assignments have been made. What is assigned
is named by an assignment within the program, or returned, and the other
variables are left alone.
-/

namespace ScalarLang

variable {σ : Type}

namespace Variables

theorem extend_append (c : Variables) (xs ys : List (String × Value)) :
    c.extend (xs ++ ys) = (c.extend xs).extend ys :=
  List.foldl_append

/-- **A variable that is not set keeps what it has.** -/
theorem get?_extend_of_not_mem {c : Variables} {es : List (String × Value)} {name : String}
    (h : ∀ v, (name, v) ∉ es) : (c.extend es).get? name = c.get? name := by
  induction es generalizing c with
  | nil => rfl
  | cons e es ih =>
    obtain ⟨other, w⟩ := e
    have hother : name ≠ other := fun heq => h w (by simp [heq])
    have hset : (c.set other w).get? name = c.get? name := by simp [hother]
    exact (ih fun v hv => h v (List.mem_cons_of_mem _ hv)).trans hset

/-- And one that is set is defined. -/
theorem isSome_get?_extend {c : Variables} {es : List (String × Value)} {name : String}
    (h : (c.get? name).isSome ∨ ∃ v, (name, v) ∈ es) : ((c.extend es).get? name).isSome := by
  induction es generalizing c with
  | nil => simpa [extend] using h
  | cons e es ih =>
    refine ih ?_
    rw [get?_set]
    split
    · exact .inl rfl
    · rename_i hother
      refine h.imp_right fun ⟨v, hv⟩ => ⟨v, (List.mem_cons.mp hv).resolve_left fun heq => ?_⟩
      exact hother (congrArg Prod.fst heq)

end Variables

/-- A call changes no variable. -/
theorem NativeFunction.vars_execute (f : NativeFunction σ) (m : Machine σ) :
    (f.execute m).2.vars = m.vars := by
  simp only [execute]
  split <;> rfl

/-- A directive changes the variables by its assignment. -/
theorem Directive.vars_execute (d : Directive) (m : Machine σ) :
    (d.execute m).2.vars = m.vars.extend (Step.assignments [⟨.directive d, m⟩]) := by
  have hpeek : m.stack.peek? = m.stack.pop?.map Prod.fst := by
    simp [Stack.pop?, Option.map_map, Function.comp_def]
  simp only [Step.assignments, List.filterMap_cons, List.filterMap_nil, Step.assignment?, hpeek]
  cases d with
  | push v => rfl
  | load name => rfl
  | store name =>
    simp only [execute, Machine.withPop]
    cases m.stack.pop? <;> rfl
  | «return» =>
    simp only [execute, Machine.withPop]
    cases m.stack.pop? <;> rfl
  | unary op =>
    simp only [execute, Machine.withPop]
    cases m.stack.pop? <;> rfl
  | binary op =>
    simp only [execute, Machine.withPop]
    cases m.stack.pop? with
    | none => rfl
    | some popped =>
      dsimp only
      cases popped.2.pop? <;> rfl

/-- **A step changes the variables by its assignment.** -/
theorem Step.vars_after (s : Step σ) :
    s.after.vars = s.before.vars.extend (assignments [s]) := by
  obtain ⟨action, m⟩ := s
  cases action with
  | directive d => exact d.vars_execute m
  | choose =>
    simp only [after, Action.perform, Machine.withPop]
    cases m.stack.pop? <;> rfl
  | call f => exact f.vars_execute m

/-- **A run changes the variables by its assignments.** -/
theorem Step.Chain.vars {m m' : Machine σ} {steps : List (Step σ)} (h : Chain m steps m') :
    m'.vars = m.vars.extend (assignments steps) := by
  induction h with
  | nil => rfl
  | @cons s steps m _ ih =>
    have hsteps : assignments (s :: steps) = assignments [s] ++ assignments steps :=
      List.filterMap_append (l := [s])
    rw [ih, s.vars_after, hsteps, Variables.extend_append]

/-! ## What is named and returned -/

/-- The value given is on top of the stack on which the step returns or assigns
to the variable. -/
theorem Step.assignment?_eq_some_iff {s : Step σ} {name : String} {v : Value} :
    s.assignment? = some (name, v) ↔ s.before.stack.peek? = some v ∧
      (s.action = .directive (.store name) ∨
        s.action = .directive .return ∧ name = Variables.returnName) := by
  obtain ⟨action, m⟩ := s
  constructor
  · intro h
    cases action with
    | choose => cases h
    | call f => cases h
    | directive d =>
      cases d with
      | store other =>
        obtain ⟨w, hw, ⟨⟩⟩ := Option.map_eq_some_iff.mp h
        exact ⟨hw, .inl rfl⟩
      | «return» =>
        obtain ⟨w, hw, ⟨⟩⟩ := Option.map_eq_some_iff.mp h
        exact ⟨hw, .inr ⟨rfl, rfl⟩⟩
      | push w => cases h
      | load other => cases h
      | unary op => cases h
      | binary op => cases h
  · rintro ⟨hv, hstore | ⟨hreturn, rfl⟩⟩
    · obtain rfl : action = .directive (.store name) := hstore
      exact Option.map_eq_some_iff.mpr ⟨v, hv, rfl⟩
    · obtain rfl : action = .directive .return := hreturn
      exact Option.map_eq_some_iff.mpr ⟨v, hv, rfl⟩

/-! ## Evaluations -/

namespace Expression

/-- **An evaluation takes out what was returned, and assigns.** -/
theorem vars_evaluate (e : Expression σ) (m : Machine σ) :
    (e.evaluate m).2.vars
      = (m.vars.erase Variables.returnName).extend (e.assignments m) := by
  have hconclude (run : Signal × Machine σ) : (conclude run).2 = run.2 := by
    obtain ⟨signal, m⟩ := run
    cases signal <;> rfl
  unfold evaluate assignments
  cases e.code with
  | literal v => rfl
  | program root =>
    rw [hconclude]
    exact (Node.chain_steps root.toNode m.cleared).vars

/-- The directives that an evaluation executes stand in the program. -/
theorem contains_of_mem_steps {e : Expression σ} {m : Machine σ} {s : Step σ} {d : Directive}
    (hs : s ∈ e.steps m) (hd : s.action = .directive d) : e.Contains (.directive d) := by
  obtain ⟨code, source⟩ := e
  cases code with
  | literal w => cases hs
  | program root => exact ⟨root, rfl, Node.within_of_mem_steps hd hs⟩

/-- **An evaluation assigns to variables that the program stores to**, or it
returns. -/
theorem contains_of_mem_assignments {e : Expression σ} {m : Machine σ} {name : String} {v : Value}
    (h : (name, v) ∈ e.assignments m) :
    e.Contains (.directive (.store name)) ∨ name = Variables.returnName := by
  rw [assignments_eq] at h
  obtain ⟨s, hs, hassignment⟩ := List.mem_filterMap.mp h
  obtain ⟨-, hstore | ⟨-, hname⟩⟩ := Step.assignment?_eq_some_iff.mp hassignment
  · exact .inl (contains_of_mem_steps hs hstore)
  · exact .inr hname

/-- **An evaluation leaves a variable alone** that the program does not store
to. -/
theorem get?_evaluate {e : Expression σ} {name : String} (hname : name ≠ Variables.returnName)
    (he : ¬ e.Contains (.directive (.store name))) (m : Machine σ) :
    (e.evaluate m).2.vars.get? name = m.vars.get? name := by
  rw [vars_evaluate, Variables.get?_extend_of_not_mem fun v hv => ?_, Variables.get?_erase,
    if_neg hname]
  exact (contains_of_mem_assignments hv).elim he hname

end Expression

end ScalarLang
