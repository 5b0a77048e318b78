import ScalarLang.Program.Execution
/-!
# Traces

What a run does, step by step: the directives it carries out, the choices
between the blocks of branches, and the calls, each with the machine it
finds. A run is the chain of its steps (`Node.chain_stepsAll`): each step
starts from the machine that the one before it left. The calls and the
assignments of a run are read off its steps.
-/

namespace ScalarLang

/-- What a run does in one step. -/
inductive Action (σ : Type) where
  | directive (d : Directive)
  /-- Takes a value off the stack to choose a block of a branch. -/
  | choose
  | call (f : NativeFunction σ)

namespace Action

variable {σ : Type}

/-- How many values an action works on. -/
def arity : Action σ → Nat
  | directive (.push _) | directive (.load _) => 0
  | directive (.store _) | directive .return | directive (.unary _) => 1
  | directive (.binary _) => 2
  | choose => 1
  | call f => f.arity

/-- The effect of an action on a machine. -/
def perform : Action σ → Machine σ → Machine σ
  | directive d, m => (d.execute m).2
  | choose, m => (m.withPop .condition fun _ m => (.next, m)).2
  | call f, m => (f.execute m).2

end Action

/-- A step of a run: what is done, and the machine it is done on. -/
structure Step (σ : Type) where
  action : Action σ
  before : Machine σ

/-- A call of a function with its arguments. -/
structure NativeCall (σ : Type) where
  function : NativeFunction σ
  arguments : List Value

namespace Step

variable {σ : Type}

/-- The machine after a step. -/
def after (s : Step σ) : Machine σ := s.action.perform s.before

/-- The call a step carries out. The arguments are the values on top of the
stack, as many as the function has parameters. -/
def call? (s : Step σ) : Option (NativeCall σ) :=
  match s.action with
  | .call f => some ⟨f, s.before.stack.toList.drop (s.before.stack.size - f.arity)⟩
  | _ => none

/-- The calls among steps. -/
def calls (steps : List (Step σ)) : List (NativeCall σ) := steps.filterMap call?

@[simp] theorem calls_nil : calls ([] : List (Step σ)) = [] := rfl

@[simp] theorem calls_append (xs ys : List (Step σ)) : calls (xs ++ ys) = calls xs ++ calls ys :=
  List.filterMap_append

@[simp] theorem calls_directive (d : Directive) (m : Machine σ) (steps : List (Step σ)) :
    calls (⟨.directive d, m⟩ :: steps) = calls steps := rfl

@[simp] theorem calls_choose (m : Machine σ) (steps : List (Step σ)) :
    calls (⟨.choose, m⟩ :: steps) = calls steps := rfl

/-- The assignment a step carries out: the variable, and the value on top of
the stack. -/
def assignment? (s : Step σ) : Option (String × Value) :=
  match s.action with
  | .directive (.store name) => s.before.stack.peek?.map fun v => (name, v)
  | .directive .return => s.before.stack.peek?.map fun v => (Variables.returnName, v)
  | _ => none

/-- The assignments among steps. -/
def assignments (steps : List (Step σ)) : List (String × Value) := steps.filterMap assignment?

/-- Steps of which each starts where the one before it ends, from the first
machine to the last. -/
inductive Chain : Machine σ → List (Step σ) → Machine σ → Prop
  | nil {m : Machine σ} : Chain m [] m
  | cons {s : Step σ} {steps : List (Step σ)} {m : Machine σ} (h : Chain s.after steps m) :
    Chain s.before (s :: steps) m

end Step

namespace Node

variable {σ : Type}

mutual

/-- The steps of the execution of a node. -/
def steps : Node σ → Machine σ → List (Step σ)
  | directive d, m => [⟨.directive d, m⟩]
  | branch condition success failure, m =>
    stepsAll condition m ++
      match executeAll condition m with
      | (.failed _, _) => []
      | (_, m) =>
        ⟨.choose, m⟩ ::
          match m.stack.pop? with
          | none => []
          | some (v, stack) =>
            if v.truthy then stepsAll success { m with stack }
            else
              match failure with
              | some failure => stepsAll failure { m with stack }
              | none => []
  | call f, m => [⟨.call f, m⟩]

/-- The steps of the execution of a block. -/
def stepsAll : List (Node σ) → Machine σ → List (Step σ)
  | [], _ => []
  | n :: ns, m =>
    n.steps m ++
      match n.execute m with
      | (.next, m) => stepsAll ns m
      | _ => []

end

end Node

/-! ## Runs one after the other -/

namespace Step.Chain

variable {σ : Type} {m m' m'' : Machine σ} {xs ys : List (Step σ)}

theorem append (hx : Chain m xs m') (hy : Chain m' ys m'') : Chain m (xs ++ ys) m'' := by
  induction hx with
  | nil => exact hy
  | cons _ ih => exact .cons (ih hy)

theorem single (s : Step σ) : Chain s.before [s] s.after := .cons .nil

end Step.Chain

namespace Node

variable {σ : Type}

theorem stepsAll_append (xs ys : List (Node σ)) (m : Machine σ) :
    stepsAll (xs ++ ys) m
      = stepsAll xs m ++
        match executeAll xs m with
        | (.next, m) => stepsAll ys m
        | _ => [] := by
  induction xs generalizing m with
  | nil => rfl
  | cons n xs ih =>
    simp only [List.cons_append, executeAll, stepsAll]
    obtain ⟨signal, m'⟩ := n.execute m
    cases signal with
    | next => simp only [ih, List.append_assoc]
    | returned => simp
    | failed e => simp

theorem stepsAll_singleton (n : Node σ) (m : Machine σ) : stepsAll [n] m = n.steps m := by
  rw [stepsAll]
  obtain ⟨signal, m'⟩ := n.execute m
  cases signal <;> simp [stepsAll]

/-- A branch takes the steps of its condition, chooses, and takes the steps
of the block chosen. -/
theorem steps_branch (condition success : List (Node σ)) (failure : Option (List (Node σ)))
    (m : Machine σ) :
    (branch condition success failure).steps m
      = stepsAll condition m ++
        match executeAll condition m with
        | (.failed _, _) => []
        | (_, m) =>
          ⟨.choose, m⟩ ::
            match m.stack.pop? with
            | none => []
            | some (v, stack) => stepsAll (chosen v success failure) { m with stack } := by
  have hchosen (v : Value) (m : Machine σ) : stepsAll (chosen v success failure) m
      = if v.truthy then stepsAll success m
        else
          match failure with
          | some failure => stepsAll failure m
          | none => [] := by
    unfold chosen
    split
    · rfl
    · cases failure <;> rfl
  simp only [hchosen]
  cases failure <;> rfl

/-! ## Runs are chains of steps -/

mutual

/-- The execution of a node is the chain of its steps. -/
theorem chain_steps : ∀ (n : Node σ) (m : Machine σ),
    Step.Chain m (n.steps m) (n.execute m).2
  | directive d, m => .single ⟨.directive d, m⟩
  | call f, m => .single ⟨.call f, m⟩
  | branch condition success failure, m => by
    have hcondition := chain_stepsAll condition m
    have hchosen (v : Value) (m : Machine σ) :
        Step.Chain m (stepsAll (chosen v success failure) m)
          (executeAll (chosen v success failure) m).2 := by
      unfold chosen
      split
      · exact chain_stepsAll success m
      · match failure with
        | none => exact .nil
        | some failure => exact chain_stepsAll failure m
    -- a condition that has returned is chosen by as well, so this is stated once for both
    have hrest (m' : Machine σ) (h : Step.Chain m (stepsAll condition m) m') :
        Step.Chain m
          (stepsAll condition m ++ ⟨.choose, m'⟩ ::
            match m'.stack.pop? with
            | none => []
            | some (v, stack) => stepsAll (chosen v success failure) { m' with stack })
          (m'.withPop .condition fun v m => executeAll (chosen v success failure) m).2 := by
      refine h.append (.cons (s := ⟨.choose, m'⟩) ?_)
      simp only [Step.after, Action.perform, Machine.withPop]
      cases m'.stack.pop? with
      | none => exact .nil
      | some popped => exact hchosen popped.1 _
    rw [steps_branch, execute_branch]
    generalize executeAll condition m = run at hcondition
    obtain ⟨signal, m'⟩ := run
    cases signal with
    | next => exact hrest m' hcondition
    | returned => exact hrest m' hcondition
    | failed e => simpa using hcondition

/-- **The execution of a block is the chain of its steps.** -/
theorem chain_stepsAll : ∀ (ns : List (Node σ)) (m : Machine σ),
    Step.Chain m (stepsAll ns m) (executeAll ns m).2
  | [], _ => .nil
  | n :: ns, m => by
    have hn := chain_steps n m
    rw [stepsAll, executeAll]
    generalize n.execute m = run at hn
    obtain ⟨signal, m'⟩ := run
    cases signal with
    | next => exact hn.append (chain_stepsAll ns m')
    | returned => simpa using hn
    | failed e => simpa using hn

end

/-! ## How branches run -/

/-- How a branch runs: its condition fails, or leaves no value to choose by,
or a block runs. -/
inductive BranchRun (condition success : List (Node σ)) (failure : Option (List (Node σ)))
    (m : Machine σ) : List (Step σ) → Signal × Machine σ → Prop
  | failed {e : EvalError} {m' : Machine σ} (hrun : executeAll condition m = (.failed e, m')) :
    BranchRun condition success failure m (stepsAll condition m) (.failed e, m')
  | starved {signal : Signal} {m' : Machine σ} (hrun : executeAll condition m = (signal, m'))
    (hsignal : ∀ e, signal ≠ .failed e) (hpop : m'.stack.pop? = none) :
    BranchRun condition success failure m (stepsAll condition m ++ [⟨.choose, m'⟩])
      (.failed (.stackUnderflow .condition), m')
  | chose {signal : Signal} {m' : Machine σ} {v : Value} {stack : Stack}
    (hrun : executeAll condition m = (signal, m')) (hsignal : ∀ e, signal ≠ .failed e)
    (hpop : m'.stack.pop? = some (v, stack)) :
    BranchRun condition success failure m
      (stepsAll condition m ++
        ⟨.choose, m'⟩ :: stepsAll (chosen v success failure) { m' with stack })
      (executeAll (chosen v success failure) { m' with stack })

/-- A branch runs so. -/
theorem branchRun (condition success : List (Node σ)) (failure : Option (List (Node σ)))
    (m : Machine σ) :
    BranchRun condition success failure m ((branch condition success failure).steps m)
      ((branch condition success failure).execute m) := by
  rw [steps_branch, execute_branch]
  rcases hrun : executeAll condition m with ⟨signal, m'⟩
  cases hpop : m'.stack.pop? with
  | none =>
    cases signal with
    | failed e => simpa using BranchRun.failed hrun
    | next => simpa [Machine.withPop, hpop] using BranchRun.starved hrun (by simp) hpop
    | returned => simpa [Machine.withPop, hpop] using BranchRun.starved hrun (by simp) hpop
  | some popped =>
    cases signal with
    | failed e => simpa using BranchRun.failed hrun
    | next => simpa [Machine.withPop, hpop] using BranchRun.chose hrun (by simp) hpop
    | returned => simpa [Machine.withPop, hpop] using BranchRun.chose hrun (by simp) hpop

/-- **Where a branch carries out a directive**: in its condition, with which it
fails, or in the block chosen, with which it ends. -/
theorem mem_steps_branch {condition success : List (Node σ)} {failure : Option (List (Node σ))}
    {m : Machine σ} {s : Step σ} {d : Directive} (hd : s.action = .directive d)
    (hs : s ∈ (branch condition success failure).steps m) :
    (s ∈ stepsAll condition m ∧ ∀ e, (executeAll condition m).1 = .failed e →
      ((branch condition success failure).execute m).1 = .failed e) ∨
    ∃ v m', s ∈ stepsAll (chosen v success failure) m' ∧
      (branch condition success failure).execute m = executeAll (chosen v success failure) m' := by
  have hbranch := branchRun condition success failure m
  generalize (branch condition success failure).steps m = steps,
    (branch condition success failure).execute m = run at hs hbranch ⊢
  cases hbranch with
  | failed hrun => exact .inl ⟨hs, fun e he => by simpa [hrun] using he⟩
  | starved hrun hsignal =>
    rcases List.mem_append.mp hs with hs | hs
    · exact .inl ⟨hs, fun e he => absurd (by simpa [hrun] using he) (hsignal e)⟩
    · obtain rfl := List.mem_singleton.mp hs
      cases hd
  | chose hrun hsignal =>
    rcases List.mem_append.mp hs with hs | hs
    · exact .inl ⟨hs, fun e he => absurd (by simpa [hrun] using he) (hsignal e)⟩
    · rcases List.mem_cons.mp hs with rfl | hs
      · cases hd
      · exact .inr ⟨_, _, hs, rfl⟩

/-! ## What steps are taken -/

mutual

/-- The directive of a step stands in the node. -/
theorem within_of_mem_steps {s : Step σ} {d : Directive} (hd : s.action = .directive d) :
    ∀ {n : Node σ} {m : Machine σ}, s ∈ n.steps m → (directive d).Within n
  | directive _, _, hs => by
    obtain rfl := List.mem_singleton.mp hs
    cases hd
    exact .refl
  | call _, _, hs => by
    obtain rfl := List.mem_singleton.mp hs
    cases hd
  | branch condition success failure, m, hs => by
    have hchosen (v : Value) (m : Machine σ) : s ∈ stepsAll (chosen v success failure) m →
        ∃ k ∈ chosen v success failure, (directive d).Within k := by
      unfold chosen
      split
      · exact within_of_mem_stepsAll hd
      · match failure with
        | none => simp [stepsAll]
        | some failure => exact within_of_mem_stepsAll hd
    rcases mem_steps_branch hd hs with ⟨hs, -⟩ | ⟨v, m', hs, -⟩
    · obtain ⟨k, hk, h⟩ := within_of_mem_stepsAll hd hs
      exact .condition hk h
    · obtain ⟨k, hk, h⟩ := hchosen v m' hs
      exact .of_mem_chosen hk h

/-- And in the block. -/
theorem within_of_mem_stepsAll {s : Step σ} {d : Directive} (hd : s.action = .directive d) :
    ∀ {ns : List (Node σ)} {m : Machine σ}, s ∈ stepsAll ns m → ∃ k ∈ ns, (directive d).Within k
  | [], _, hs => by cases hs
  | n :: ns, m, hs => by
    rw [stepsAll] at hs
    rcases List.mem_append.mp hs with hs | hs
    · exact ⟨n, List.mem_cons_self, within_of_mem_steps hd hs⟩
    · generalize n.execute m = run at hs
      obtain ⟨signal, m'⟩ := run
      cases signal with
      | next =>
        obtain ⟨k, hk, h⟩ := within_of_mem_stepsAll hd hs
        exact ⟨k, List.mem_cons_of_mem _ hk, h⟩
      | returned => cases hs
      | failed e => cases hs

end

mutual

/-- A run fails if a directive fails in one of its steps, and with the same
error. -/
theorem failed_of_mem_steps {s : Step σ} {d : Directive} {e : EvalError}
    (hd : s.action = .directive d) (he : (d.execute s.before).1 = .failed e) :
    ∀ {n : Node σ} {m : Machine σ}, s ∈ n.steps m → (n.execute m).1 = .failed e
  | directive _, _, hs => by
    obtain rfl := List.mem_singleton.mp hs
    cases hd
    exact he
  | call _, _, hs => by
    obtain rfl := List.mem_singleton.mp hs
    cases hd
  | branch condition success failure, m, hs => by
    have hchosen (v : Value) (m : Machine σ) : s ∈ stepsAll (chosen v success failure) m →
        (executeAll (chosen v success failure) m).1 = .failed e := by
      unfold chosen
      split
      · exact failed_of_mem_stepsAll hd he
      · match failure with
        | none => simp [stepsAll]
        | some failure => exact failed_of_mem_stepsAll hd he
    rcases mem_steps_branch hd hs with ⟨hs, hfails⟩ | ⟨v, m', hs, hrun⟩
    · exact hfails e (failed_of_mem_stepsAll hd he hs)
    · rw [hrun]
      exact hchosen v m' hs

/-- And so does the run of a block. -/
theorem failed_of_mem_stepsAll {s : Step σ} {d : Directive} {e : EvalError}
    (hd : s.action = .directive d) (he : (d.execute s.before).1 = .failed e) :
    ∀ {ns : List (Node σ)} {m : Machine σ}, s ∈ stepsAll ns m → (executeAll ns m).1 = .failed e
  | [], _, hs => by cases hs
  | n :: ns, m, hs => by
    have hn : s ∈ n.steps m → (n.execute m).1 = .failed e := failed_of_mem_steps hd he
    rw [stepsAll] at hs
    rw [executeAll]
    generalize n.execute m = run at hs hn ⊢
    obtain ⟨signal, m'⟩ := run
    rcases List.mem_append.mp hs with hs | hs
    · obtain rfl : signal = .failed e := hn hs
      rfl
    · cases signal with
      | next => exact failed_of_mem_stepsAll hd he hs
      | returned => cases hs
      | failed e' => cases hs

end

end Node

end ScalarLang
