import ScalarLang.Grammar.Meaning
import ScalarLang.Proofs.Lexing.Identifiers
import ScalarLang.Proofs.Parsing.Sources
/-!
# Compiled programs mean what their trees mean

The nodes of a phrase push the value that the phrase has, carry out the
calls that its evaluation carries out, and fail where that fails
(`Phrase.computes`); the nodes of statements do to the variables what the
statements do (`Statement.runs`). Both are stated from any machine, since
operands run above the operands before them and blocks after the
statements before them.

A function has to do on top of a stack what it does on a stack of its own
(`NativeFunction.ActsOnArguments`).
-/

namespace ScalarLang

variable {σ : Type}

/-! ## Functions -/

theorem Stack.toList_foldl_push (args : List Value) (s : Stack) :
    (args.foldl push s).toList = s.toList ++ args := by
  induction args generalizing s with
  | nil => simp
  | cons v args ih => simp [ih]

/-- **A function acts on its arguments** if it takes as many values off the
stack as it has parameters and puts one in their place, or fails, and does
so whatever lies below them. -/
def NativeFunction.ActsOnArguments (f : NativeFunction σ) : Prop :=
  ∀ (vars : String → Option Value) (s : Stack) (host : σ) (below args : List Value),
    s.toList = below ++ args → args.length = f.arity →
      (f.call vars s host).host = (f.valueOf vars args host).2 ∧
        match (f.valueOf vars args host).1 with
        | .ok v =>
          (f.call vars s host).error = none ∧ (f.call vars s host).stack.toList = below ++ [v]
        | .error e => (f.call vars s host).error = some e

/-- Functions of values act on their arguments. -/
theorem ValueFunction.actsOnArguments_toNative (f : ValueFunction) :
    (f.toNative σ).ActsOnArguments := by
  intro vars s host below args hs hargs
  obtain ⟨taken, t, htaken, ht, hcall⟩ := f.toNative_call vars host hs hargs
  -- the same call on a stack of its own, with nothing below
  have hown : (args.foldl Stack.push .empty).toList = [] ++ args := by
    rw [Stack.toList_foldl_push, Stack.toList_empty]
  obtain ⟨taken', t', htaken', ht', hcall'⟩ := f.toNative_call vars host hown hargs
  obtain rfl : taken = taken' := Vector.toList_inj.mp (htaken.trans htaken'.symm)
  simp only [NativeFunction.valueOf, hcall, hcall']
  cases f.apply taken with
  | ok v => simp [ht, ht']
  | error message => simp

/-- The mathematical functions act on their arguments. -/
theorem Resolver.actsOnArguments_of_math {name : String} {f : NativeFunction σ}
    (h : (math : Resolver σ).resolve? name = some f) : f.ActsOnArguments := by
  obtain ⟨g, -, rfl⟩ := Option.map_eq_some_iff.mp h
  rw [g.toNative_eq]
  exact g.toValueFunction.actsOnArguments_toNative

/-! ## Phrases -/

namespace Node

/-- The nodes, run from a machine, do what an evaluation has come to that
started from the same state and calls: they leave its values above `base`,
or fail with its error, and carry out the calls that it has added. -/
inductive Computes (base : List Value) (ns : List (Node σ)) (m : Machine σ)
    (calls : List (NativeCall σ)) : Except EvalError (List Value) × World σ → Prop
  | ok {stack : Stack} {host : σ} {vs : List Value}
    (hrun : executeAll ns m = (.next, ⟨stack, m.vars, host⟩))
    (hstack : stack.toList = base ++ vs) :
    Computes base ns m calls (.ok vs, ⟨host, calls ++ Step.calls (stepsAll ns m)⟩)
  | error {stack : Stack} {host : σ} {e : EvalError}
    (hrun : executeAll ns m = (.failed e, ⟨stack, m.vars, host⟩)) :
    Computes base ns m calls (.error e, ⟨host, calls ++ Step.calls (stepsAll ns m)⟩)

section

variable {base base' : List Value} {xs ys : List (Node σ)} {m : Machine σ}
variable {calls : List (NativeCall σ)}

/-- Nodes that follow go on from the values and the world that are left. -/
theorem Computes.andThen {vs : List Value} {w : World σ}
    {r : Except EvalError (List Value) × World σ} (hx : Computes base xs m calls (.ok vs, w))
    (hy : ∀ stack : Stack, stack.toList = base ++ vs →
      Computes base' ys ⟨stack, m.vars, w.host⟩ w.calls r) :
    Computes base' (xs ++ ys) m calls r := by
  cases hx with
  | @ok stack host _ hrun hstack =>
    have hsteps : calls ++ Step.calls (stepsAll (xs ++ ys) m)
        = calls ++ Step.calls (stepsAll xs m) ++
          Step.calls (stepsAll ys ⟨stack, m.vars, host⟩) := by
      simp [stepsAll_append, hrun]
    cases hy stack hstack with
    | ok hrun' hstack' =>
      rw [← hsteps]
      exact .ok (by rw [executeAll_append, hrun]; exact hrun') hstack'
    | error hrun' =>
      rw [← hsteps]
      exact .error (by rw [executeAll_append, hrun]; exact hrun')

/-- Nodes that fail are not followed by others. -/
theorem Computes.error_append {e : EvalError} {w : World σ}
    (hx : Computes base xs m calls (.error e, w)) (ys : List (Node σ)) :
    Computes base (xs ++ ys) m calls (.error e, w) := by
  cases hx with
  | @error stack host _ hrun =>
    have hsteps : stepsAll (xs ++ ys) m = stepsAll xs m := by simp [stepsAll_append, hrun]
    rw [← hsteps]
    exact .error (by rw [executeAll_append, hrun])

/-- Values that are there before count as left. -/
theorem Computes.above {vs : List Value} {r : Except EvalError (List Value)} {w : World σ}
    (h : Computes (base ++ vs) xs m calls (r, w)) :
    Computes base xs m calls (r.map (vs ++ ·), w) := by
  cases h with
  | ok hrun hstack => exact .ok hrun (by rw [hstack, List.append_assoc])
  | error hrun => exact .error hrun

theorem computes_nil : Computes m.stack.toList [] m calls (.ok [], ⟨m.host, calls⟩) := by
  have h : Computes m.stack.toList [] m calls
      (.ok [], ⟨m.host, calls ++ Step.calls (stepsAll [] m)⟩) :=
    .ok rfl (List.append_nil _).symm
  rwa [stepsAll, Step.calls_nil, List.append_nil] at h

/-- A node that calls nothing leaves the world as it is. -/
theorem computes_single {n : Node σ} {stack : Stack} {vs : List Value}
    (hrun : n.execute m = (.next, ⟨stack, m.vars, m.host⟩)) (hstack : stack.toList = base ++ vs)
    (hcalls : Step.calls (n.steps m) = []) :
    Computes base [n] m calls (.ok vs, ⟨m.host, calls⟩) := by
  have h : Computes base [n] m calls
      (.ok vs, ⟨m.host, calls ++ Step.calls (stepsAll [n] m)⟩) :=
    .ok (by rw [executeAll_singleton, hrun]) hstack
  rwa [stepsAll_singleton, hcalls, List.append_nil] at h

theorem computes_push (v : Value) :
    Computes m.stack.toList [.directive (.push v)] m calls (.ok [v], ⟨m.host, calls⟩) :=
  computes_single rfl (m.stack.toList_push v) rfl

theorem computes_load (name : String) :
    Computes m.stack.toList [.directive (.load name)] m calls
      (.ok [(m.vars.get? name).getD (.boolean false)], ⟨m.host, calls⟩) :=
  computes_single rfl (m.stack.toList_push _) rfl

theorem computes_unary (op : UnaryOp) {v : Value} (hs : m.stack.toList = base ++ [v]) :
    Computes base [.directive (.unary op)] m calls (.ok [op.apply v], ⟨m.host, calls⟩) := by
  obtain ⟨t, hpop, ht⟩ := Stack.pop?_of_toList hs
  have hrun : (directive (.unary op)).execute m
      = (.next, ⟨t.push (op.apply v), m.vars, m.host⟩) := by
    simp [Directive.execute, Machine.withPop, Machine.push, hpop]
  exact computes_single hrun (by rw [Stack.toList_push, ht]) rfl

theorem computes_binary (op : BinaryOp) {v w : Value} (hs : m.stack.toList = base ++ [v, w]) :
    Computes base [.directive (.binary op)] m calls (.ok [op.apply v w], ⟨m.host, calls⟩) := by
  have hs' : m.stack.toList = (base ++ [v]) ++ [w] := by simpa using hs
  obtain ⟨t, hpop, ht⟩ := Stack.pop?_of_toList hs'
  obtain ⟨u, hpop', hu⟩ := Stack.pop?_of_toList ht
  have hrun : (directive (.binary op)).execute m
      = (.next, ⟨u.push (op.apply v w), m.vars, m.host⟩) := by
    simp [Directive.execute, Machine.withPop, Machine.push, hpop, hpop']
  exact computes_single hrun (by rw [Stack.toList_push, hu]) rfl

theorem computes_call {f : NativeFunction σ} (hf : f.ActsOnArguments) {args : List Value}
    (hs : m.stack.toList = base ++ args) (hargs : args.length = f.arity) :
    Computes base [.call f] m calls ((f.valueOf m.vars.get? args m.host).1.map ([·]),
      ⟨(f.valueOf m.vars.get? args m.host).2, calls ++ [⟨f, args⟩]⟩) := by
  obtain ⟨hhost, houtcome⟩ := hf m.vars.get? m.stack m.host base args hs hargs
  have hsteps : Step.calls (stepsAll [call f] m) = [⟨f, args⟩] := by
    have hdrop : m.stack.toList.drop (m.stack.size - f.arity) = args := by
      rw [← Stack.length_toList, hs, List.length_append, hargs, Nat.add_sub_cancel,
        List.drop_left]
    simp [stepsAll_singleton, steps, Step.calls, Step.call?, hdrop]
  rw [← hsteps]
  generalize f.valueOf m.vars.get? args m.host = result at hhost houtcome ⊢
  obtain ⟨outcome, host⟩ := result
  simp only at hhost
  cases outcome with
  | ok v =>
    obtain ⟨herror, hstack⟩ := houtcome
    have hrun : executeAll [call f] m
        = (.next, ⟨(f.call m.vars.get? m.stack m.host).stack, m.vars, host⟩) := by
      simp [executeAll_singleton, NativeFunction.execute, herror, hhost]
    exact .ok hrun hstack
  | error e =>
    simp only at houtcome
    have hrun : executeAll [call f] m
        = (.failed e, ⟨(f.call m.vars.get? m.stack m.host).stack, m.vars, host⟩) := by
      simp [executeAll_singleton, NativeFunction.execute, houtcome, hhost]
    exact .error hrun

end

end Node

/-- An evaluation of one phrase as one of a list of phrases. -/
def asList (r : Except EvalError Value × World σ) : Except EvalError (List Value) × World σ :=
  (r.1.map ([·]), r.2)

/-- The second of two operands leaves both. -/
theorem Node.Computes.second {base : List Value} {ns : List (Node σ)} {m : Machine σ}
    {calls : List (NativeCall σ)} {v : Value} {r : Except EvalError Value × World σ}
    (h : Computes (base ++ [v]) ns m calls (asList r)) :
    Computes base ns m calls (r.1.map fun v' => [v, v'], r.2) := by
  obtain ⟨outcome, w⟩ := r
  cases outcome with
  | ok v' => exact h.above
  | error e => exact h.above

/-- Phrases have a value each. -/
theorem Phrase.length_evalAll {vars : String → Option Value} {ps : List (Phrase σ)}
    {w w' : World σ} {vs : List Value} (h : evalAll vars ps w = (.ok vs, w')) :
    vs.length = ps.length := by
  induction ps generalizing w w' vs with
  | nil =>
    cases h
    rfl
  | cons p ps ih =>
    rw [evalAll] at h
    split at h
    · split at h
      · rename_i hps
        cases h
        rw [List.length_cons, List.length_cons, ih hps]
      · cases h
    · cases h

section

variable {N : String → Prop}

mutual

/-- **The nodes of a phrase compute its value.** -/
theorem Phrase.computes : ∀ {p : Phrase σ}, p.Over NativeFunction.ActsOnArguments N →
    ∀ (m : Machine σ) (calls : List (NativeCall σ)),
      Node.Computes m.stack.toList p.nodes m calls (asList (p.eval m.vars.get? ⟨m.host, calls⟩))
  | .literal v, _, m, calls => Node.computes_push v
  | .variable name, _, m, calls => Node.computes_load name
  | .unary op p, h, m, calls => by
    have hp := Phrase.computes (p := p) h m calls
    rw [eval, nodes]
    generalize p.eval m.vars.get? ⟨m.host, calls⟩ = r at hp
    obtain ⟨outcome, w⟩ := r
    cases outcome with
    | error e => exact hp.error_append _
    | ok v => exact hp.andThen fun stack hs => Node.computes_unary op hs
  | .binary op p q, h, m, calls => by
    have hp := Phrase.computes h.1 m calls
    rw [eval, nodes]
    generalize p.eval m.vars.get? ⟨m.host, calls⟩ = r at hp
    obtain ⟨outcome, w⟩ := r
    cases outcome with
    | error e => exact (hp.error_append _).error_append _
    | ok v =>
      -- the right operand runs above the value of the left one
      have hpq : Node.Computes m.stack.toList (p.nodes ++ q.nodes) m calls
          ((q.eval m.vars.get? w).1.map fun v' => [v, v'], (q.eval m.vars.get? w).2) := by
        refine hp.andThen fun stack hs => ?_
        have hq := Phrase.computes (p := q) h.2 ⟨stack, m.vars, w.host⟩ w.calls
        rw [hs] at hq
        exact hq.second
      simp only
      generalize q.eval m.vars.get? w = r' at hpq
      obtain ⟨outcome', w'⟩ := r'
      cases outcome' with
      | error e => exact hpq.error_append _
      | ok v' => exact hpq.andThen fun stack hs => Node.computes_binary op hs
  | .call f ps, h, m, calls => by
    obtain ⟨hf, hlen, hover⟩ := h
    have hps := Phrase.computes_allNodes hover m calls
    rw [eval, nodes]
    rcases hr : Phrase.evalAll m.vars.get? ps ⟨m.host, calls⟩ with ⟨e | vs, w⟩
    · rw [hr] at hps
      exact hps.error_append _
    · rw [hr] at hps
      have hargs : vs.length = f.arity := (Phrase.length_evalAll hr).trans hlen
      exact hps.andThen fun stack hs => Node.computes_call hf hs hargs

/-- The nodes of phrases compute their values. -/
theorem Phrase.computes_allNodes : ∀ {ps : List (Phrase σ)},
    Phrase.AllOver NativeFunction.ActsOnArguments N ps →
      ∀ (m : Machine σ) (calls : List (NativeCall σ)),
        Node.Computes m.stack.toList (Phrase.allNodes ps) m calls
          (Phrase.evalAll m.vars.get? ps ⟨m.host, calls⟩)
  | [], _, m, calls => Node.computes_nil
  | p :: ps, h, m, calls => by
    have hp := Phrase.computes h.1 m calls
    rw [evalAll, allNodes]
    generalize p.eval m.vars.get? ⟨m.host, calls⟩ = r at hp
    obtain ⟨outcome, w⟩ := r
    cases outcome with
    | error e => exact hp.error_append _
    | ok v =>
      -- and so do the phrases after the first
      have hps : Node.Computes m.stack.toList (p.nodes ++ Phrase.allNodes ps) m calls
          ((Phrase.evalAll m.vars.get? ps w).1.map (v :: ·),
            (Phrase.evalAll m.vars.get? ps w).2) := by
        refine hp.andThen fun stack hs => ?_
        have hrest := Phrase.computes_allNodes h.2 ⟨stack, m.vars, w.host⟩ w.calls
        rw [hs] at hrest
        exact hrest.above
      simp only
      generalize Phrase.evalAll m.vars.get? ps w = r' at hps
      obtain ⟨outcome', w'⟩ := r'
      cases outcome' <;> exact hps

end

end

/-! ## Statements -/

namespace Node

/-- The nodes, run from a machine, do what statements have come to that
started from the same variables, state and calls: they end as the
statements do, with their variables, and carry out the calls that they
have added. Where they go on, the stack holds what it held before, and
nothing has been returned; where they have returned, the value is kept
among the variables. -/
inductive Runs (ns : List (Node σ)) (m : Machine σ) (calls : List (NativeCall σ)) :
    Completion × Variables × World σ → Prop
  | next {stack : Stack} {vars : Variables} {host : σ}
    (hrun : executeAll ns m = (.next, ⟨stack, vars, host⟩))
    (hstack : stack.toList = m.stack.toList) (hvars : vars.returnValue? = m.vars.returnValue?) :
    Runs ns m calls (.next, vars, ⟨host, calls ++ Step.calls (stepsAll ns m)⟩)
  | returned {stack : Stack} {vars : Variables} {host : σ} {v : Value}
    (hrun : executeAll ns m = (.returned, ⟨stack, vars, host⟩))
    (hvars : vars.returnValue? = some v) :
    Runs ns m calls (.returned v, vars, ⟨host, calls ++ Step.calls (stepsAll ns m)⟩)
  | failed {stack : Stack} {vars : Variables} {host : σ} {e : EvalError}
    (hrun : executeAll ns m = (.failed e, ⟨stack, vars, host⟩)) :
    Runs ns m calls (.failed e, vars, ⟨host, calls ++ Step.calls (stepsAll ns m)⟩)

section

variable {xs ys : List (Node σ)} {m : Machine σ} {calls : List (NativeCall σ)}

theorem runs_nil : Runs [] m calls (.next, m.vars, ⟨m.host, calls⟩) := by
  have h : Runs [] m calls (.next, m.vars, ⟨m.host, calls ++ Step.calls (stepsAll [] m)⟩) :=
    .next rfl rfl rfl
  rwa [stepsAll, Step.calls_nil, List.append_nil] at h

/-- What runs on from a machine does what the run up to it and the run from
it do. -/
theorem Runs.of_continue {m' : Machine σ} {r : Completion × Variables × World σ}
    (hrun : executeAll xs m = executeAll ys m')
    (hsteps : Step.calls (stepsAll xs m) = calls ++ Step.calls (stepsAll ys m'))
    (hstack : m'.stack.toList = m.stack.toList)
    (hvars : m'.vars.returnValue? = m.vars.returnValue?) {before : List (NativeCall σ)}
    (h : Runs ys m' (before ++ calls) r) : Runs xs m before r := by
  cases h with
  | next hrun' hstack' hvars' =>
    rw [List.append_assoc, ← hsteps]
    exact .next (hrun.trans hrun') (hstack'.trans hstack) (hvars'.trans hvars)
  | returned hrun' hvars' =>
    rw [List.append_assoc, ← hsteps]
    exact .returned (hrun.trans hrun') hvars'
  | failed hrun' =>
    rw [List.append_assoc, ← hsteps]
    exact .failed (hrun.trans hrun')

/-- Statements that follow go on from what is left. -/
theorem Runs.andThen {vars : Variables} {w : World σ} {r : Completion × Variables × World σ}
    (hx : Runs xs m calls (.next, vars, w))
    (hy : ∀ stack : Stack, Runs ys ⟨stack, vars, w.host⟩ w.calls r) :
    Runs (xs ++ ys) m calls r := by
  cases hx with
  | @next stack _ host hrun hstack hvars =>
    have hcontinue : executeAll (xs ++ ys) m = executeAll ys ⟨stack, vars, host⟩ := by
      rw [executeAll_append, hrun]
    have hsteps : Step.calls (stepsAll (xs ++ ys) m)
        = Step.calls (stepsAll xs m) ++ Step.calls (stepsAll ys ⟨stack, vars, host⟩) := by
      simp [stepsAll_append, hrun]
    exact .of_continue hcontinue hsteps hstack hvars (hy stack)

/-- Statements that do not go on are not followed by others. -/
theorem Runs.append_of_ended {completion : Completion} {vars : Variables} {w : World σ}
    (hx : Runs xs m calls (completion, vars, w)) (hended : completion ≠ .next)
    (ys : List (Node σ)) : Runs (xs ++ ys) m calls (completion, vars, w) := by
  cases hx with
  | next => exact absurd rfl hended
  | returned hrun hvars =>
    have hsteps : stepsAll (xs ++ ys) m = stepsAll xs m := by simp [stepsAll_append, hrun]
    rw [← hsteps]
    exact .returned (by rw [executeAll_append, hrun]) hvars
  | failed hrun =>
    have hsteps : stepsAll (xs ++ ys) m = stepsAll xs m := by simp [stepsAll_append, hrun]
    rw [← hsteps]
    exact .failed (by rw [executeAll_append, hrun])

/-- A phrase that fails ends the statement it is in. -/
theorem Computes.fails {base : List Value} {e : EvalError} {w : World σ}
    (hx : Computes base xs m calls (.error e, w)) (ys : List (Node σ)) :
    Runs (xs ++ ys) m calls (.failed e, m.vars, w) := by
  cases hx.error_append ys with
  | error hrun => exact .failed hrun

/-- A `return` keeps the value of its phrase. -/
theorem Computes.returns {v : Value} {w : World σ}
    (hx : Computes m.stack.toList xs m calls (.ok [v], w)) :
    Runs (xs ++ [.directive .return]) m calls
      (.returned v, m.vars.set Variables.returnName v, w) := by
  cases hx with
  | @ok stack host _ hrun hstack =>
    obtain ⟨t, hpop, -⟩ := Stack.pop?_of_toList hstack
    have hsteps : Step.calls (stepsAll xs m)
        = Step.calls (stepsAll (xs ++ [.directive .return]) m) := by
      simp [stepsAll_append, hrun, stepsAll_singleton, steps]
    have hreturn : executeAll (xs ++ [.directive .return]) m
        = (.returned, ⟨t, m.vars.set Variables.returnName v, host⟩) := by
      simp [executeAll_append, hrun, executeAll_singleton, Directive.execute, Machine.withPop,
        hpop, Machine.assign]
    rw [hsteps]
    exact .returned hreturn (by simp [Variables.returnValue?])

/-- An assignment gives its variable the value of its phrase. -/
theorem Computes.assigns {v : Value} {w : World σ} {name : String}
    (hx : Computes m.stack.toList xs m calls (.ok [v], w)) (hname : name ≠ Variables.returnName) :
    Runs (xs ++ [.directive (.store name)]) m calls (.next, m.vars.set name v, w) := by
  cases hx with
  | @ok stack host _ hrun hstack =>
    obtain ⟨t, hpop, ht⟩ := Stack.pop?_of_toList hstack
    have hsteps : Step.calls (stepsAll xs m)
        = Step.calls (stepsAll (xs ++ [.directive (.store name)]) m) := by
      simp [stepsAll_append, hrun, stepsAll_singleton, steps]
    have hstore : executeAll (xs ++ [.directive (.store name)]) m
        = (.next, ⟨t, m.vars.set name v, host⟩) := by
      simp [executeAll_append, hrun, executeAll_singleton, Directive.execute, Machine.withPop,
        hpop, Machine.assign]
    rw [hsteps]
    exact .next hstore ht (by simp [Variables.returnValue?, Ne.symm hname])

/-- A branch runs the block chosen by its condition. -/
theorem Computes.branch {condition success : List (Node σ)}
    {failure : Option (List (Node σ))} {v : Value} {w : World σ}
    {r : Completion × Variables × World σ}
    (hx : Computes m.stack.toList condition m calls (.ok [v], w))
    (hy : ∀ stack : Stack, Runs (chosen v success failure) ⟨stack, m.vars, w.host⟩ w.calls r) :
    Runs [.branch condition success failure] m calls r := by
  cases hx with
  | @ok stack host _ hrun hstack =>
    obtain ⟨t, hpop, ht⟩ := Stack.pop?_of_toList hstack
    have hcontinue : executeAll [.branch condition success failure] m
        = executeAll (chosen v success failure) ⟨t, m.vars, host⟩ := by
      rw [executeAll_singleton, execute_branch, hrun]
      simp [Machine.withPop, hpop]
    have hsteps : Step.calls (stepsAll [.branch condition success failure] m)
        = Step.calls (stepsAll condition m) ++
          Step.calls (stepsAll (chosen v success failure) ⟨t, m.vars, host⟩) := by
      simp [stepsAll_singleton, steps_branch, hrun, hpop]
    exact .of_continue hcontinue hsteps ht rfl (hy t)

/-- A branch whose condition fails ends with it. -/
theorem Computes.branch_fails {condition success : List (Node σ)}
    {failure : Option (List (Node σ))} {e : EvalError} {w : World σ}
    (hx : Computes m.stack.toList condition m calls (.error e, w)) :
    Runs [.branch condition success failure] m calls (.failed e, m.vars, w) := by
  cases hx with
  | error hrun =>
    have hsteps : stepsAll [.branch condition success failure] m = stepsAll condition m := by
      simp [stepsAll_singleton, steps_branch, hrun]
    rw [← hsteps]
    exact .failed (by rw [executeAll_singleton, execute_branch, hrun])

end

end Node

section

/-- The variables that statements may assign to: all but the one of the
returned value. -/
abbrev Assignable (name : String) : Prop := name ≠ Variables.returnName

mutual

/-- **The nodes of a statement do what the statement does.** -/
theorem Statement.runs : ∀ {s : Statement σ}, s.Over NativeFunction.ActsOnArguments Assignable →
    ∀ (m : Machine σ) (calls : List (NativeCall σ)),
      Node.Runs s.nodes m calls (s.run m.vars ⟨m.host, calls⟩)
  | .conditional condition success none, h, m, calls => by
    have hcondition := Phrase.computes h.1 m calls
    rw [run, nodes]
    generalize condition.eval m.vars.get? ⟨m.host, calls⟩ = r at hcondition
    obtain ⟨outcome, w⟩ := r
    cases outcome with
    | error e => exact hcondition.branch_fails
    | ok v =>
      refine hcondition.branch fun stack => ?_
      simp only [Node.chosen]
      split
      · exact Statement.runs_allNodes h.2.1 ⟨stack, m.vars, w.host⟩ w.calls
      · exact Node.runs_nil
  | .conditional condition success (some failure), h, m, calls => by
    have hcondition := Phrase.computes h.1 m calls
    rw [run, nodes]
    generalize condition.eval m.vars.get? ⟨m.host, calls⟩ = r at hcondition
    obtain ⟨outcome, w⟩ := r
    cases outcome with
    | error e => exact hcondition.branch_fails
    | ok v =>
      refine hcondition.branch fun stack => ?_
      simp only [Node.chosen]
      split
      · exact Statement.runs_allNodes h.2.1 ⟨stack, m.vars, w.host⟩ w.calls
      · exact Statement.runs_allNodes h.2.2 ⟨stack, m.vars, w.host⟩ w.calls
  | .return result, h, m, calls => by
    have hresult := Phrase.computes (p := result) h m calls
    rw [run, nodes]
    generalize result.eval m.vars.get? ⟨m.host, calls⟩ = r at hresult
    obtain ⟨outcome, w⟩ := r
    cases outcome with
    | error e => exact hresult.fails _
    | ok v => exact hresult.returns
  | .assign name value, h, m, calls => by
    have hvalue := Phrase.computes h.2 m calls
    rw [run, nodes]
    generalize value.eval m.vars.get? ⟨m.host, calls⟩ = r at hvalue
    obtain ⟨outcome, w⟩ := r
    cases outcome with
    | error e => exact hvalue.fails _
    | ok v => exact hvalue.assigns h.1

/-- The nodes of statements do what the statements do. -/
theorem Statement.runs_allNodes : ∀ {ss : List (Statement σ)},
    Statement.AllOver NativeFunction.ActsOnArguments Assignable ss →
      ∀ (m : Machine σ) (calls : List (NativeCall σ)),
        Node.Runs (Statement.allNodes ss) m calls (Statement.runAll ss m.vars ⟨m.host, calls⟩)
  | [], _, m, calls => Node.runs_nil
  | s :: ss, h, m, calls => by
    have hs := Statement.runs h.1 m calls
    rw [runAll, allNodes]
    generalize s.run m.vars ⟨m.host, calls⟩ = r at hs
    obtain ⟨completion, vars, w⟩ := r
    cases completion with
    | next =>
      exact hs.andThen fun stack => Statement.runs_allNodes h.2 ⟨stack, vars, w.host⟩ w.calls
    | returned v => exact hs.append_of_ended (by simp) _
    | failed e => exact hs.append_of_ended (by simp) _

end

end

/-! ## Expressions -/

/-- A program that runs a block in any case is evaluated by running the
block on an empty stack. -/
theorem Expression.evaluate_unconditional (nodes : List (Node σ)) (m : Machine σ) :
    ∃ t : Stack, t.toList = [] ∧
      (ofBranch (.unconditional nodes)).evaluate m
        = conclude (Node.executeAll nodes ⟨t, m.cleared.vars, m.host⟩) ∧
      (ofBranch (.unconditional nodes)).calls m
        = Step.calls (Node.stepsAll nodes ⟨t, m.cleared.vars, m.host⟩) := by
  have hcondition : Node.executeAll [.directive (.push (.boolean true))] m.cleared
      = (.next, m.cleared.push (.boolean true)) := rfl
  have hsteps : Node.stepsAll [.directive (.push (.boolean true))] m.cleared
      = [⟨.directive (.push (.boolean true)), m.cleared⟩] := rfl
  obtain ⟨t, hpop, ht⟩ := Stack.pop?_of_toList (m.cleared.stack.toList_push (.boolean true))
  have hchosen : Node.chosen (.boolean true) nodes none = nodes := rfl
  have hrun : (Branch.unconditional nodes).execute m.cleared
      = Node.executeAll nodes ⟨t, m.cleared.vars, m.host⟩ := by
    simp only [Branch.execute, Branch.unconditional, Branch.toNode, Node.execute_branch,
      hcondition, Machine.withPop, Machine.push, hpop, hchosen]
    rfl
  refine ⟨t, by simpa [Machine.cleared] using ht, ?_, ?_⟩
  · simp only [evaluate, ofBranch, hrun]
  · simp only [calls, ofBranch, Branch.unconditional, Branch.toNode, Node.steps_branch,
      hcondition, hsteps, Machine.push, hpop, hchosen, Step.calls_append, Step.calls_directive,
      Step.calls_choose, Step.calls_nil, List.nil_append]
    rfl

/-- **The expression means the tree**: on every machine its evaluation
comes to what the evaluation of the tree comes to, in its value or error,
in the variables and the state of the embedding program, and in the calls
with their arguments and their order. -/
def Expression.Means (e : Expression σ) (tree : SyntaxTree σ) : Prop :=
  ∀ m : Machine σ, tree.eval m.vars ⟨m.host, []⟩
    = ((e.evaluate m).1, (e.evaluate m).2.vars, ⟨(e.evaluate m).2.host, e.calls m⟩)

/-- Nothing has been returned when an evaluation starts. -/
theorem Machine.returnValue?_cleared (m : Machine σ) : m.cleared.vars.returnValue? = none := by
  simp [cleared, Variables.returnValue?]

/-- A compiled phrase means its tree. -/
theorem Expression.means_phrase {N : String → Prop} {p : Phrase σ}
    (h : p.Over NativeFunction.ActsOnArguments N) :
    (ofBranch (.unconditional p.nodes)).Means (.phrase p) := by
  intro m
  obtain ⟨t, ht, hevaluate, hcalls⟩ := evaluate_unconditional p.nodes m
  have htree : SyntaxTree.eval (.phrase p) m.vars ⟨m.host, []⟩
      = ((p.eval m.cleared.vars.get? ⟨m.host, []⟩).1, m.cleared.vars,
        (p.eval m.cleared.vars.get? ⟨m.host, []⟩).2) := rfl
  have hp := Phrase.computes h ⟨t, m.cleared.vars, m.host⟩ []
  rw [htree, hevaluate, hcalls]
  generalize p.eval m.cleared.vars.get? ⟨m.host, []⟩ = r at hp
  obtain ⟨outcome, w⟩ := r
  cases outcome with
  | error e =>
    cases hp with
    | error hrun => simp [hrun, conclude]
  | ok v =>
    cases hp with
    | ok hrun hstack => simp [hrun, conclude, Machine.result, m.returnValue?_cleared, hstack]

/-- A compiled program means its statements. -/
theorem Expression.means_program {ss : List (Statement σ)}
    (h : Statement.AllOver NativeFunction.ActsOnArguments Assignable ss) :
    (ofBranch (.unconditional (Statement.allNodes ss))).Means (.program ss) := by
  intro m
  obtain ⟨t, ht, hevaluate, hcalls⟩ := evaluate_unconditional (Statement.allNodes ss) m
  have hss := Statement.runs_allNodes h ⟨t, m.cleared.vars, m.host⟩ []
  -- a value that was returned earlier would be mistaken for one of this evaluation
  have hcleared := m.returnValue?_cleared
  rw [hevaluate, hcalls, SyntaxTree.eval]
  change Node.Runs _ _ _ (Statement.runAll ss (m.vars.erase Variables.returnName) _) at hss
  generalize Statement.runAll ss (m.vars.erase Variables.returnName) ⟨m.host, []⟩ = r at hss
  cases hss with
  | next hrun hstack hvars => simp [hrun, conclude, Machine.result, hstack, ht, hvars, hcleared]
  | returned hrun hvars => simp [hrun, conclude, Machine.result, hvars]
  | failed hrun => simp [hrun, conclude]

/-! ## Compiled sources -/

/-- What a compiler makes of tokens that name functions that act on their
arguments, and no variable of the returned value, means the tree of the
tokens. -/
theorem Compiler.means_of_compileTokens {r : Resolver σ} {form : SourceForm} {ts : List Token}
    {source : Option String} {w w' : Workspace σ} {i : Instance σ}
    (h : compileTokens ⟨r, ⟨false, false⟩⟩ form ts source w = (.ok i, w'))
    (hnames : ∀ t ∈ ts, t.kind = .identifier → t.text ≠ Variables.returnName)
    (hfunctions : ∀ f, r.Named ts f → f.ActsOnArguments) :
    (∃ tree, form.Derives ⟨r, BinaryOp.isRightAssoc⟩ ts tree) ∧
      ∀ tree, form.Derives ⟨r, BinaryOp.isRightAssoc⟩ ts tree → i.expr.Means tree := by
  have hd := BinaryOp.uniform_isRightAssoc r
  unfold compileTokens at h
  split at h
  · cases h
  · rename_i nodes hparse
    obtain ⟨tree₀, htree₀, -⟩ := SourceForm.parse_sound hd hparse
    refine ⟨⟨tree₀, htree₀⟩, fun tree htree => ?_⟩
    obtain rfl : nodes = tree.nodes := by
      have h := hparse.symm.trans (SourceForm.parse_of_derives hd htree)
      injection h
    have hover : tree.Over NativeFunction.ActsOnArguments Assignable :=
      htree.over ⟨hfunctions, fun t ht hkind _ => hnames t ht hkind⟩
    have hmeans : (Expression.ofBranch (.unconditional tree.nodes)).Means tree := by
      cases tree with
      | phrase p => exact Expression.means_phrase hover
      | program ss => exact Expression.means_program hover
    cases h
    exact hmeans

/-- **Compiled sources mean their trees**, without folding and shared
instances, if the functions that are named act on their arguments. Tokens
that are handed over one by one must not name the variable of the returned
value; those of a source text never do. What is compiled has a tree. -/
theorem compiled_means_tree (r : Resolver σ) (form : SourceForm) (w : Workspace σ) :
    (∀ ts source i w', Compiler.compileTokens ⟨r, ⟨false, false⟩⟩ form ts source w = (.ok i, w') →
      (∀ t ∈ ts, t.kind = .identifier → t.text ≠ Variables.returnName) →
      (∀ f, r.Named ts f → f.ActsOnArguments) →
        (∃ tree, form.Derives ⟨r, BinaryOp.isRightAssoc⟩ ts tree) ∧
          ∀ tree, form.Derives ⟨r, BinaryOp.isRightAssoc⟩ ts tree → i.expr.Means tree) ∧
    ∀ source i w', Compiler.compile ⟨r, ⟨false, false⟩⟩ form source w = (.ok i, w') →
      ∃ ts, tokenize source = .ok ts ∧
        ((∀ f, r.Named ts f → f.ActsOnArguments) →
          (∃ tree, form.Derives ⟨r, BinaryOp.isRightAssoc⟩ ts tree) ∧
            ∀ tree, form.Derives ⟨r, BinaryOp.isRightAssoc⟩ ts tree → i.expr.Means tree) := by
  refine ⟨fun ts source i w' h hnames hfunctions =>
    Compiler.means_of_compileTokens h hnames hfunctions, fun source i w' h => ?_⟩
  unfold Compiler.compile at h
  split at h
  · cases h
  · rename_i ts htokens
    refine ⟨ts, htokens, Compiler.means_of_compileTokens h fun t ht hkind hname => ?_⟩
    exact not_isIdentifier_returnName (hname ▸ tokenize_identifiers htokens t ht hkind)

/-- The tokens of a call, and the text of a program that calls a function,
assigns and returns, are compiled and mean their trees. -/
theorem compiled_means_tree_max :
    let r : Resolver Unit := .math
    let c : Compiler Unit := ⟨r, ⟨false, false⟩⟩
    let w : Workspace Unit := ⟨(), 0, .empty⟩
    let word (text : String) : Token := ⟨.identifier, text, .start⟩
    let sign (s : Symbol) : Token := ⟨.symbol s, s.spelling, .start⟩
    let call := [word "max", sign .leftParen, word "x", sign .comma, word "y", sign .rightParen]
    let program := "if (x > 2) \x7b y = max(x, 3); \x7d else return x; return y;"
    (∃ i w' tree, c.compileTokens .phrase call none w = (.ok i, w') ∧
      SourceForm.phrase.Derives ⟨r, BinaryOp.isRightAssoc⟩ call tree ∧ i.expr.Means tree) ∧
    ∃ i w' ts tree, c.compile .block program w = (.ok i, w') ∧ tokenize program = .ok ts ∧
      SourceForm.block.Derives ⟨r, BinaryOp.isRightAssoc⟩ ts tree ∧ i.expr.Means tree := by
  intro r c w word sign call program
  have hfunctions (ts : List Token) (f : NativeFunction Unit) (hf : r.Named ts f) :
      f.ActsOnArguments := by
    obtain ⟨t, -, -, ht⟩ := hf
    exact Resolver.actsOnArguments_of_math ht
  constructor
  · have hok : (c.compileTokens .phrase call none w).1.isOk = true := by decide +kernel
    have hnames : ∀ t ∈ call, t.kind = .identifier → t.text ≠ Variables.returnName := by
      decide +kernel
    rcases hcompile : c.compileTokens .phrase call none w with ⟨_ | i, w'⟩
    · simp [hcompile, Except.isOk, Except.toBool] at hok
    · obtain ⟨⟨tree, htree⟩, hi⟩ :=
        (compiled_means_tree r .phrase w).1 _ _ _ _ hcompile hnames (hfunctions _)
      exact ⟨i, w', tree, rfl, htree, hi tree htree⟩
  · have hok : (c.compile .block program w).1.isOk = true := by decide +kernel
    rcases hcompile : c.compile .block program w with ⟨_ | i, w'⟩
    · simp [hcompile, Except.isOk, Except.toBool] at hok
    · obtain ⟨ts, hts, hmeans⟩ := (compiled_means_tree r .block w).2 _ _ _ hcompile
      obtain ⟨⟨tree, htree⟩, hi⟩ := hmeans (hfunctions _)
      exact ⟨i, w', ts, tree, rfl, hts, htree, hi tree htree⟩

end ScalarLang
