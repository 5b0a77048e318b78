import Mathlib.Data.List.Forall2
import ScalarLang.Expression
import ScalarLang.Proofs.Parsing.Contents
/-!
# Runs side by side

Two runs of one program stay in step if they start from machines that are
related and the relation says enough: that pushing and popping keep it and
yield the same values, that the variables the program loads are read alike,
and that assignments and calls keep it (`Machine.Simulation`). Then both
runs take the same steps and end in the same way, always on machines that
are related. What a relation has to say is asked once, and every kind of
node is followed once.
-/

namespace ScalarLang

variable {σ : Type} {S : Machine σ → Machine σ → Prop} {F : NativeFunction σ → Prop}
variable {L W : String → Prop}

/-! ## What a program uses -/

/-- The node calls functions in `F` only, loads variables in `L` only and
stores to variables in `W` only. -/
structure Node.Uses (F : NativeFunction σ → Prop) (L W : String → Prop) (n : Node σ) : Prop where
  calls : ∀ f, (call f).Within n → F f
  loads : ∀ name, (directive (.load name)).Within n → L name
  stores : ∀ name, (directive (.store name)).Within n → W name

namespace Node.Uses

variable {xs ys : List (Node σ)}

/-- What is within a part of the node is within the node. -/
theorem part {n k : Node σ} (h : n.Uses F L W) (hk : ∀ j : Node σ, j.Within k → j.Within n) :
    k.Uses F L W where
  calls f hf := h.calls f (hk _ hf)
  loads name hload := h.loads name (hk _ hload)
  stores name hstore := h.stores name (hk _ hstore)

theorem condition {zs : Option (List (Node σ))} (h : (branch xs ys zs).Uses F L W) :
    ∀ n ∈ xs, n.Uses F L W :=
  fun _ hn => h.part fun _ => .condition hn

theorem success {zs : Option (List (Node σ))} (h : (branch xs ys zs).Uses F L W) :
    ∀ n ∈ ys, n.Uses F L W :=
  fun _ hn => h.part fun _ => .success hn

theorem failure {zs : List (Node σ)} (h : (branch xs ys (some zs)).Uses F L W) :
    ∀ n ∈ zs, n.Uses F L W :=
  fun _ hn => h.part fun _ => .failure hn

end Node.Uses

/-- What a node is made of it uses. -/
theorem Node.Over.uses {N : String → Prop} {n : Node σ} (h : n.Over F N) : n.Uses F N N where
  calls _ hf := h.within hf
  loads _ hload := h.within hload
  stores _ hstore := h.within hstore

/-! ## Runs in step -/

/-- Runs end in the same way, on machines that are related. -/
structure Machine.EndRelated (S : Machine σ → Machine σ → Prop) (run run' : Signal × Machine σ) :
    Prop where
  signal : run.1 = run'.1
  machine : S run.2 run'.2

/-- Steps do the same, on machines that are related. -/
structure Step.Related (S : Machine σ → Machine σ → Prop) (s s' : Step σ) : Prop where
  action : s.action = s'.action
  before : S s.before s'.before

/-- **Runs in step** take the same steps and end in the same way, always on
machines that are related. -/
structure Machine.InStep (S : Machine σ → Machine σ → Prop) (steps steps' : List (Step σ))
    (run run' : Signal × Machine σ) : Prop extends EndRelated S run run' where
  steps : List.Forall₂ (Step.Related S) steps steps'

/-- Steps that are related may come before. -/
theorem Machine.InStep.prepend {xs xs' ys ys' : List (Step σ)} {run run' : Signal × Machine σ}
    (hxs : List.Forall₂ (Step.Related S) xs xs') (h : InStep S ys ys' run run') :
    InStep S (xs ++ ys) (xs' ++ ys') run run' :=
  ⟨h.toEndRelated, List.rel_append hxs h.steps⟩

/-- What is popped off two machines: nothing, or the same value, and then what is
left of them is related. -/
inductive Machine.PopRelated (S : Machine σ → Machine σ → Prop) (m m' : Machine σ) :
    Option (Value × Stack) → Option (Value × Stack) → Prop
  | none : PopRelated S m m' none none
  | some {v : Value} {s s' : Stack} (h : S { m with stack := s } { m' with stack := s' }) :
    PopRelated S m m' (some (v, s)) (some (v, s'))

/-- **A relation that runs keep**, of programs that call functions in `F`, load
variables in `L` and store to variables in `W`. -/
structure Machine.Simulation (S : Machine σ → Machine σ → Prop) (F : NativeFunction σ → Prop)
    (L W : String → Prop) : Prop where
  push {m m' : Machine σ} (v : Value) : S m m' → S (m.push v) (m'.push v)
  pop {m m' : Machine σ} : S m m' → PopRelated S m m' m.stack.pop? m'.stack.pop?
  load {m m' : Machine σ} {name : String} : S m m' → L name →
    (m.vars.get? name).getD (.boolean false) = (m'.vars.get? name).getD (.boolean false)
  assign {m m' : Machine σ} {name : String} (v : Value) : S m m' →
    W name ∨ name = Variables.returnName → S (m.assign name v) (m'.assign name v)
  call {m m' : Machine σ} {f : NativeFunction σ} : S m m' → F f →
    EndRelated S (f.execute m) (f.execute m')

/-- The relation sees the values on the stacks and nothing else of them. -/
structure Machine.SeesValues (S : Machine σ → Machine σ → Prop) : Prop where
  values {m m' : Machine σ} : S m m' → m.stack.toList = m'.stack.toList
  restack {m m' : Machine σ} {s s' : Stack} : S m m' → s.toList = s'.toList →
    S { m with stack := s } { m' with stack := s' }

namespace Machine.SeesValues

variable {m m' : Machine σ}

/-- Pushing keeps a relation that sees values. -/
theorem push (hS : SeesValues S) (h : S m m') (v : Value) : S (m.push v) (m'.push v) :=
  hS.restack h (by simp [hS.values h])

/-- And so does popping, which yields the same value. -/
theorem pop (hS : SeesValues S) (h : S m m') :
    PopRelated S m m' m.stack.pop? m'.stack.pop? := by
  rcases Stack.pop?_of_toList_eq (hS.values h) with
    ⟨hnone, hnone'⟩ | ⟨v, t, t', hpop, hpop', ht⟩
  · rw [hnone, hnone']
    exact .none
  · rw [hpop, hpop']
    exact .some (hS.restack h ht)

end Machine.SeesValues

namespace Machine.Simulation

variable {m m' : Machine σ}

/-- Related machines give off the same value. -/
theorem withPop (hS : Simulation S F L W) (h : S m m') (operation : Operation)
    {k k' : Value → Machine σ → Signal × Machine σ}
    (hk : ∀ v m m', S m m' → EndRelated S (k v m) (k' v m')) :
    EndRelated S (m.withPop operation k) (m'.withPop operation k') := by
  have hpop := hS.pop h
  unfold Machine.withPop
  generalize m.stack.pop? = popped, m'.stack.pop? = popped' at hpop
  cases hpop with
  | none => exact ⟨rfl, h⟩
  | some hm => exact hk _ _ _ hm

/-- A directive keeps the relation. -/
theorem directive (hS : Simulation S F L W) {d : Directive}
    (hd : (Node.directive d : Node σ).Uses F L W) (h : S m m') :
    EndRelated S (d.execute m) (d.execute m') := by
  cases d with
  | push v => exact ⟨rfl, hS.push v h⟩
  | load name =>
    simp only [Directive.execute, hS.load h (hd.loads name .refl)]
    exact ⟨rfl, hS.push _ h⟩
  | store name =>
    simp only [Directive.execute]
    exact hS.withPop h _ fun v m m' hm => ⟨rfl, hS.assign v hm (.inl (hd.stores name .refl))⟩
  | «return» =>
    simp only [Directive.execute]
    exact hS.withPop h _ fun v m m' hm => ⟨rfl, hS.assign v hm (.inr rfl)⟩
  | unary op =>
    simp only [Directive.execute]
    exact hS.withPop h _ fun v m m' hm => ⟨rfl, hS.push _ hm⟩
  | binary op =>
    simp only [Directive.execute]
    exact hS.withPop h _ fun w m m' hm =>
      hS.withPop hm _ fun v m m' hm' => ⟨rfl, hS.push _ hm'⟩

/-- The choice between blocks that stay in step stays in step. -/
theorem choose (hS : Simulation S F L W) (h : S m m')
    {steps : Value → Machine σ → List (Step σ)} {k : Value → Machine σ → Signal × Machine σ}
    (hk : ∀ v m m', S m m' → InStep S (steps v m) (steps v m') (k v m) (k v m')) :
    InStep S
      (⟨.choose, m⟩ :: match m.stack.pop? with
        | none => []
        | some (v, stack) => steps v { m with stack })
      (⟨.choose, m'⟩ :: match m'.stack.pop? with
        | none => []
        | some (v, stack) => steps v { m' with stack })
      (m.withPop .condition k) (m'.withPop .condition k) := by
  refine ⟨hS.withPop h _ fun v m m' hm => (hk v m m' hm).toEndRelated, .cons ⟨rfl, h⟩ ?_⟩
  have hpop := hS.pop h
  generalize m.stack.pop? = popped, m'.stack.pop? = popped' at hpop
  cases hpop with
  | none => exact .nil
  | some hm => exact (hk _ _ _ hm).steps

mutual

/-- **Runs of a node stay in step.** -/
theorem node (hS : Simulation S F L W) : ∀ {n : Node σ} {m m' : Machine σ},
    n.Uses F L W → S m m' → InStep S (n.steps m) (n.steps m') (n.execute m) (n.execute m')
  | .directive _, _, _, hn, h => ⟨hS.directive hn h, .cons ⟨rfl, h⟩ .nil⟩
  | .call f, _, _, hn, h => ⟨hS.call h (hn.calls f .refl), .cons ⟨rfl, h⟩ .nil⟩
  | .branch condition success failure, m, m', hn, h => by
    obtain ⟨⟨hsignal, hmachine⟩, hsteps⟩ := hS.block hn.condition h
    have hchosen (v : Value) (m m' : Machine σ) (hm : S m m') :
        InStep S (Node.stepsAll (Node.chosen v success failure) m)
          (Node.stepsAll (Node.chosen v success failure) m')
          (Node.executeAll (Node.chosen v success failure) m)
          (Node.executeAll (Node.chosen v success failure) m') := by
      unfold Node.chosen
      split
      · exact hS.block hn.success hm
      · match failure, hn with
        | none, _ => exact ⟨⟨rfl, hm⟩, .nil⟩
        | some block, hn => exact hS.block hn.failure hm
    rw [Node.steps_branch, Node.steps_branch, Node.execute_branch, Node.execute_branch]
    generalize Node.executeAll condition m = run at hsignal hmachine
    generalize Node.executeAll condition m' = run' at hsignal hmachine
    obtain ⟨signal, m₁⟩ := run
    obtain ⟨signal', m₁'⟩ := run'
    obtain rfl : signal = signal' := hsignal
    -- a condition that has returned is chosen by as well
    cases signal with
    | failed e => exact .prepend hsteps ⟨⟨rfl, hmachine⟩, .nil⟩
    | next => exact .prepend hsteps (hS.choose hmachine hchosen)
    | returned => exact .prepend hsteps (hS.choose hmachine hchosen)

/-- **And so do those of a block.** -/
theorem block (hS : Simulation S F L W) : ∀ {ns : List (Node σ)} {m m' : Machine σ},
    (∀ n ∈ ns, n.Uses F L W) → S m m' → InStep S (Node.stepsAll ns m) (Node.stepsAll ns m')
      (Node.executeAll ns m) (Node.executeAll ns m')
  | [], _, _, _, h => ⟨⟨rfl, h⟩, .nil⟩
  | n :: ns, m, m', hn, h => by
    obtain ⟨hfirst, hrest⟩ := List.forall_mem_cons.mp hn
    obtain ⟨⟨hsignal, hmachine⟩, hsteps⟩ := hS.node hfirst h
    rw [Node.stepsAll, Node.stepsAll, Node.executeAll, Node.executeAll]
    generalize n.execute m = run at hsignal hmachine
    generalize n.execute m' = run' at hsignal hmachine
    obtain ⟨signal, m₁⟩ := run
    obtain ⟨signal', m₁'⟩ := run'
    obtain rfl : signal = signal' := hsignal
    cases signal with
    | next => exact .prepend hsteps (hS.block hrest hmachine)
    | returned => exact .prepend hsteps ⟨⟨rfl, hmachine⟩, .nil⟩
    | failed e => exact .prepend hsteps ⟨⟨rfl, hmachine⟩, .nil⟩

end

/-- **Evaluations stay in step**: if related machines have the same result, the
evaluations of an expression on machines that are related once they are
cleared take the same steps and yield the same value or error, always on
machines that are related. -/
theorem evaluate (hS : Simulation S F L W)
    (hresult : ∀ {m m' : Machine σ}, S m m' → m.result = m'.result) {e : Expression σ}
    (he : ∀ root ∈ e.root?, root.toNode.Uses F L W) (h : S m.cleared m'.cleared) :
    (e.evaluate m).1 = (e.evaluate m').1 ∧ S (e.evaluate m).2 (e.evaluate m').2 ∧
      List.Forall₂ (Step.Related S) (e.steps m) (e.steps m') := by
  obtain ⟨code, source⟩ := e
  cases code with
  | literal v => exact ⟨rfl, h, .nil⟩
  | program root =>
    obtain ⟨⟨hsignal, hmachine⟩, hsteps⟩ := hS.node (he root rfl) h
    refine (and_assoc.mp ⟨?_, hsteps⟩)
    simp only [Expression.evaluate, Branch.execute]
    generalize root.toNode.execute m.cleared = run at hsignal hmachine
    generalize root.toNode.execute m'.cleared = run' at hsignal hmachine
    obtain ⟨signal, m₁⟩ := run
    obtain ⟨signal', m₁'⟩ := run'
    obtain rfl : signal = signal' := hsignal
    cases signal with
    | failed e => exact ⟨rfl, hmachine⟩
    | next => exact ⟨congrArg Except.ok (hresult hmachine), hmachine⟩
    | returned => exact ⟨congrArg Except.ok (hresult hmachine), hmachine⟩

end Machine.Simulation

end ScalarLang
