import ScalarLang.Proofs.Execution.Folding
import ScalarLang.Proofs.Execution.Interchange
import ScalarLang.Proofs.Execution.Simulation
/-!
# Evaluations on one stack

A stack that is used again still has the slots of earlier evaluations, and
when an evaluation fails or leaves values behind, those as well. None of
it is seen: an evaluation takes all values off first, and then machines
that hold the same values, whatever else is in the slots, stay so
(`Machine.simulation_sameView`). So a series of evaluations on one stack
yields what it yields on fresh stacks. The value that an earlier
evaluation returned is removed as well and has no influence either.
-/

namespace ScalarLang

variable {σ : Type} {R : σ → σ → Prop}

/-! ## What is seen of a machine -/

/-- **A function sees values and variables**: slots that hold no value do not
matter to it. States of the embedding program that `R` relates are the
same to it, and stay related; with all states related, the state does not
matter at all. -/
def NativeFunction.SeesValues (R : σ → σ → Prop) (f : NativeFunction σ) : Prop :=
  ∀ (vars : String → Option Value) (s s' : Stack) (host host' : σ),
    s.toList = s'.toList → R host host' →
      (f.call vars s host).error = (f.call vars s' host').error ∧
        (f.call vars s host).stack.toList = (f.call vars s' host').stack.toList ∧
          R (f.call vars s host).host (f.call vars s' host').host

/-- A function that acts on the stack sees values at most. -/
theorem NativeFunction.ActsOnStack.seesValues {f : NativeFunction σ} (hf : f.ActsOnStack) :
    f.SeesValues fun _ _ => True := by
  intro vars s s' host host' hs _
  obtain ⟨herror, hstack⟩ := hf vars vars s s' host host' hs
  exact ⟨herror, hstack, trivial⟩

/-- Machines hold the same values on the stack and have the same
variables. -/
structure Machine.SameView (R : σ → σ → Prop) (m m' : Machine σ) : Prop where
  stack : m.stack.toList = m'.stack.toList
  vars : m.vars = m'.vars
  host : R m.host m'.host

/-- A call sees no more of a machine than the function does. -/
theorem NativeFunction.SeesValues.execute {f : NativeFunction σ} (hf : f.SeesValues R)
    {m m' : Machine σ} (h : m.SameView R m') :
    Machine.EndRelated (Machine.SameView R) (f.execute m) (f.execute m') := by
  obtain ⟨herror, hstack, hhost⟩ := hf m'.vars.get? m.stack m'.stack m.host m'.host h.stack h.host
  simp only [NativeFunction.execute, h.vars]
  rw [← herror]
  cases (f.call m'.vars.get? m.stack m.host).error with
  | none => exact ⟨rfl, hstack, rfl, hhost⟩
  | some e => exact ⟨rfl, hstack, rfl, hhost⟩

theorem Machine.SameView.seesValues : Machine.SeesValues (Machine.SameView R) where
  values h := h.stack
  restack h hs := ⟨hs, h.vars, h.host⟩

/-- **Runs see values and variables**, if the functions they call do. -/
theorem Machine.simulation_sameView : Machine.Simulation (Machine.SameView R)
    (NativeFunction.SeesValues R) (fun _ => True) fun _ => True where
  push v h := SameView.seesValues.push h v
  pop h := SameView.seesValues.pop h
  load h _ := by rw [h.vars]
  assign v h _ := ⟨h.stack, by simp [Machine.assign, h.vars], h.host⟩
  call h hf := hf.execute h

namespace Expression

/-- Machines with the same view have the same result. -/
theorem result_eq_of_sameView {m m' : Machine σ} (h : m.SameView R m') :
    m.result = m'.result := by
  simp [Machine.result, h.stack, h.vars]

/-- **An evaluation sees what is left once a machine is cleared.** -/
theorem evaluate_sameView {e : Expression σ} (he : e.CallsOnly (NativeFunction.SeesValues R))
    {m m' : Machine σ} (h : m.cleared.SameView R m'.cleared) :
    (e.evaluate m).1 = (e.evaluate m').1 ∧ (e.evaluate m).2.SameView R (e.evaluate m').2 := by
  obtain ⟨hvalue, hmachine, -⟩ := Machine.simulation_sameView.evaluate result_eq_of_sameView
    (fun root hroot => (he root hroot).uses) h
  exact ⟨hvalue, hmachine⟩

/-- **An earlier returned value has no influence**: variables that differ in
it alone are the same to an evaluation. -/
theorem evaluate_eq_of_vars (e : Expression σ) (stack : Stack) {vars vars' : Variables}
    (host : σ) (h : ∀ name, name ≠ Variables.returnName → vars.get? name = vars'.get? name) :
    e.evaluate ⟨stack, vars, host⟩ = e.evaluate ⟨stack, vars', host⟩ := by
  have hvars : vars.erase Variables.returnName = vars'.erase Variables.returnName := by
    refine Variables.eq_of_get?_eq fun name => ?_
    by_cases hname : name = Variables.returnName
    · simp [hname]
    · simp [hname, h name hname]
  simp only [evaluate, Machine.cleared, hvars]

end Expression

/-! ## Series of evaluations -/

/-- What a client learns from an evaluation: the value or the error, and the
variables after it. -/
structure Outcome where
  value : Except EvalError Value
  vars : Variables

/-- A client's next evaluation: an expression and variables, chosen by what
it has learned so far, the latest outcome first. -/
abbrev Request (σ : Type) := List Outcome → Expression σ × Variables

namespace Request

/-- The outcomes of evaluations one after the other on one stack. -/
def onStack : List (Request σ) → List Outcome → Stack → σ → List Outcome
  | [], _, _, _ => []
  | request :: requests, learned, stack, host =>
    let (e, vars) := request learned
    let (value, m) := e.evaluate ⟨stack, vars, host⟩
    ⟨value, m.vars⟩ :: onStack requests (⟨value, m.vars⟩ :: learned) m.stack m.host

/-- The outcomes of the same evaluations, each on a stack of its own. -/
def onFreshStacks : List (Request σ) → List Outcome → σ → List Outcome
  | [], _, _ => []
  | request :: requests, learned, host =>
    let (e, vars) := request learned
    let (value, vars, host) := e.evaluateIn vars host
    ⟨value, vars⟩ :: onFreshStacks requests (⟨value, vars⟩ :: learned) host

/-- **A stack is as good as fresh**, whatever it holds and whatever was
learned before. -/
theorem onStack_eq_onFreshStacks {requests : List (Request σ)}
    (hrequests : ∀ request ∈ requests, ∀ learned,
      (request learned).1.CallsOnly (NativeFunction.SeesValues R))
    (learned : List Outcome) (stack : Stack) {host host' : σ} (hhost : R host host') :
    onStack requests learned stack host = onFreshStacks requests learned host' := by
  induction requests generalizing learned stack host host' with
  | nil => rfl
  | cons request requests ih =>
    obtain ⟨hrequest, hrest⟩ := List.forall_mem_cons.mp hrequests
    have he := hrequest learned
    simp only [onStack, onFreshStacks, Expression.evaluateIn]
    generalize request learned = asked at he
    obtain ⟨e, vars⟩ := asked
    have hcleared : (Machine.cleared ⟨stack, vars, host⟩).SameView R
        (Machine.cleared ⟨.empty, vars, host'⟩) :=
      ⟨by simp [Machine.cleared], rfl, hhost⟩
    obtain ⟨hvalue, hend⟩ := Expression.evaluate_sameView he hcleared
    rw [hvalue, hend.vars, ih hrest _ _ hend.host]

end Request

/-- **Evaluations do not influence each other** by the stack they share, nor
by the value that an earlier one returned: on whatever stack a series of
evaluations starts, it yields what it yields on fresh stacks, and
variables that differ in the returned value alone yield the same. -/
theorem evaluations_independent (R : σ → σ → Prop) (requests : List (Request σ))
    (hrequests : ∀ request ∈ requests, ∀ learned,
      (request learned).1.CallsOnly (NativeFunction.SeesValues R)) :
    (∀ (stack : Stack) (host : σ), R host host →
      Request.onStack requests [] stack host = Request.onFreshStacks requests [] host) ∧
    ∀ (e : Expression σ) (stack : Stack) (vars vars' : Variables) (host : σ),
      (∀ name, name ≠ Variables.returnName → vars.get? name = vars'.get? name) →
        (e.evaluate ⟨stack, vars, host⟩).1 = (e.evaluate ⟨stack, vars', host⟩).1 ∧
          (e.evaluate ⟨stack, vars, host⟩).2.vars = (e.evaluate ⟨stack, vars', host⟩).2.vars := by
  refine ⟨fun stack host hhost => Request.onStack_eq_onFreshStacks hrequests [] stack hhost,
    fun e stack vars vars' host hvars => ?_⟩
  rw [e.evaluate_eq_of_vars stack host hvars]
  exact ⟨rfl, rfl⟩

/-- Four evaluations on a stack with one slot, which is taken: the first leaves
values behind, the second fails halfway, the third returns a value and the
fourth calls `max` on the variables of the third. -/
theorem evaluations_independent_max :
    let max : NativeFunction Unit := MathFunction.max.toValueFunction.toNative Unit
    let program (block : List (Node Unit)) : Expression Unit := .ofBranch (.unconditional block)
    let number (n : Int64) : Node Unit := .directive (.push (.integer n))
    let requests : List (Request Unit) :=
      [fun _ => (program [number 1, number 2], .empty),
       fun _ => (program [number 7, .directive (.binary .add)], .empty),
       fun _ => (program [.directive (.load "x"), .directive .return],
         .ofList [("x", .integer 5), (Variables.returnName, .integer 9)]),
       fun learned => (program [.directive (.load "x"), number 3, .call max],
         (learned.head?.map (·.vars)).getD .empty)]
    let stack := (Stack.withCapacity 1).push (.integer 9)
    Request.onStack requests [] stack () = Request.onFreshStacks requests [] () ∧
      (Request.onStack requests [] stack ()).map (·.value.toOption)
        = [some (.integer 2), none, some (.integer 5), some (.integer 5)] := by
  intro max program number requests stack
  have hmax : max.SeesValues fun _ _ => True :=
    (ValueFunction.actsOnStack_toNative _).seesValues
  have hrequests : ∀ request ∈ requests, ∀ learned,
      (request learned).1.CallsOnly (NativeFunction.SeesValues fun _ _ => True) := by
    intro request hrequest learned
    simp only [requests, List.mem_cons, List.not_mem_nil, or_false] at hrequest
    rcases hrequest with rfl | rfl | rfl | rfl <;> rintro root ⟨⟩
    · exact ⟨⟨trivial, trivial⟩, ⟨trivial, trivial, trivial⟩, trivial⟩
    · exact ⟨⟨trivial, trivial⟩, ⟨trivial, trivial, trivial⟩, trivial⟩
    · exact ⟨⟨trivial, trivial⟩, ⟨trivial, trivial, trivial⟩, trivial⟩
    · exact ⟨⟨trivial, trivial⟩, ⟨trivial, trivial, hmax, trivial⟩, trivial⟩
  obtain ⟨hfresh, -⟩ := evaluations_independent (fun _ _ => True) requests hrequests
  exact ⟨hfresh stack () trivial, by decide +kernel⟩

end ScalarLang
