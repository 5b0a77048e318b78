import ScalarLang.Proofs.Execution.Assignments
import ScalarLang.Proofs.Execution.Simulation
/-!
# The variables an evaluation uses

What an evaluation does to variables, and what it learns from them, can be
read off the program: it assigns to the variables that are stored to
somewhere within it, and it reads the ones that are loaded somewhere within
it, where one that is not defined reads as `false`. Contexts that read
alike there are told apart by nothing: the two evaluations take the same
steps, although they choose the blocks of branches by what they read and
may read again what they have assigned.

A native function may look up any variable, so this is said of programs
whose functions do not (`NativeFunction.IgnoresVariables`).
-/

namespace ScalarLang

variable {σ : Type} {L : String → Prop}

/-- **A function ignores variables** if a call does the same whatever they
are. -/
def NativeFunction.IgnoresVariables (f : NativeFunction σ) : Prop :=
  ∀ (vars vars' : String → Option Value) (s : Stack) (host : σ),
    f.call vars s host = f.call vars' s host

namespace Machine

/-! ## Machines that read alike -/

/-- Machines read alike if they differ in variables alone, and neither in what
has been returned nor in what a load of a variable in `L` pushes. -/
structure ReadAlike (L : String → Prop) (m m' : Machine σ) : Prop where
  stack : m.stack = m'.stack
  host : m.host = m'.host
  read : ∀ name, L name →
    (m.vars.get? name).getD (.boolean false) = (m'.vars.get? name).getD (.boolean false)
  returned : m.vars.returnValue? = m'.vars.returnValue?

namespace ReadAlike

variable {m m' : Machine σ}

/-- An assignment makes machines read what is assigned, and the rest as
before. -/
theorem assign (h : m.ReadAlike L m') (name : String) (v : Value) :
    (m.assign name v).ReadAlike L (m'.assign name v) where
  stack := h.stack
  host := h.host
  read other hother := by
    simp only [Machine.assign, Variables.get?_set]
    split
    · rfl
    · exact h.read other hother
  returned := by
    have hreturned := h.returned
    simp only [Machine.assign, Variables.returnValue?, Variables.get?_set] at hreturned ⊢
    split
    · rfl
    · exact hreturned

/-- The call of a function that ignores variables does the same on both. -/
theorem call (h : m.ReadAlike L m') {f : NativeFunction σ} (hf : f.IgnoresVariables) :
    EndRelated (ReadAlike L) (f.execute m) (f.execute m') := by
  simp only [NativeFunction.execute, hf m.vars.get? m'.vars.get?, h.stack, h.host]
  cases (f.call m'.vars.get? m'.stack m'.host).error with
  | none => exact ⟨rfl, rfl, rfl, h.read, h.returned⟩
  | some e => exact ⟨rfl, rfl, rfl, h.read, h.returned⟩

/-- Contexts in which the variables in `L` read alike do so once what was
returned is taken out. -/
theorem cleared {vars vars' : Variables} (stack : Stack) (host : σ)
    (h : ∀ name, L name →
      (vars.get? name).getD (.boolean false) = (vars'.get? name).getD (.boolean false)) :
    (Machine.cleared ⟨stack, vars, host⟩).ReadAlike L (Machine.cleared ⟨stack, vars', host⟩) where
  stack := rfl
  host := rfl
  read name hname := by
    simp only [Machine.cleared, Variables.get?_erase]
    split
    · rfl
    · exact h name hname
  returned := by simp [Machine.cleared, Variables.returnValue?]

/-- Machines that read alike have the same result. -/
theorem result_eq (h : m.ReadAlike L m') : m.result = m'.result := by
  simp [Machine.result, h.stack, h.returned]

end ReadAlike

/-- **Runs read what they load**, if the functions they call ignore variables;
what they store to does not matter. -/
theorem simulation_readAlike : Simulation (ReadAlike (σ := σ) L)
    NativeFunction.IgnoresVariables L fun _ => True where
  push v h := ⟨by rw [push, push, h.stack], h.host, h.read, h.returned⟩
  pop {m m'} h := by
    rw [h.stack]
    cases m'.stack.pop? with
    | none => exact .none
    | some popped => exact .some ⟨rfl, h.host, h.read, h.returned⟩
  load h hname := h.read _ hname
  assign v h _ := h.assign _ v
  call h hf := h.call hf

end Machine

/-! ## Evaluations -/

/-- Steps of the same kind on machines that read alike assign the same. -/
theorem Step.assignments_eq_of_related {xs ys : List (Step σ)}
    (h : List.Forall₂ (Step.Related (Machine.ReadAlike L)) xs ys) :
    assignments xs = assignments ys := by
  induction h with
  | nil => rfl
  | @cons s t xs ys hst _ ih =>
    have hassignment : s.assignment? = t.assignment? := by
      simp only [assignment?, hst.action, hst.before.stack]
    simp only [assignments, List.filterMap_cons, hassignment] at ih ⊢
    rw [ih]

namespace Expression

/-- **An evaluation uses the variables that its program names**, whether it
succeeds or fails. It leaves a variable as it is that no assignment within
the program names, but for the one of the returned value. If the functions
it calls ignore variables, it yields the same value or error and makes the
same assignments in all contexts in which the variables that are loaded
within the program read alike; so a variable that is not defined might as
well be `false`. -/
theorem evaluate_footprint (e : Expression σ) :
    (∀ m name, name ≠ Variables.returnName → ¬ e.Contains (.directive (.store name)) →
      (e.evaluate m).2.vars.get? name = m.vars.get? name) ∧
    ((∀ f, e.Contains (.call f) → f.IgnoresVariables) →
      (∀ stack vars vars' host,
        (∀ name, e.Contains (.directive (.load name)) →
          (vars.get? name).getD (.boolean false) = (vars'.get? name).getD (.boolean false)) →
        (e.evaluate ⟨stack, vars, host⟩).1 = (e.evaluate ⟨stack, vars', host⟩).1 ∧
          e.assignments ⟨stack, vars, host⟩ = e.assignments ⟨stack, vars', host⟩) ∧
      ∀ stack vars host name, vars.get? name = none →
        (e.evaluate ⟨stack, vars.set name (.boolean false), host⟩).1
            = (e.evaluate ⟨stack, vars, host⟩).1 ∧
          e.assignments ⟨stack, vars.set name (.boolean false), host⟩
            = e.assignments ⟨stack, vars, host⟩) := by
  refine ⟨fun m name hname he => get?_evaluate hname he m, fun hcalls => ?_⟩
  have halike (stack : Stack) (vars vars' : Variables) (host : σ)
      (hvars : ∀ name, e.Contains (.directive (.load name)) →
        (vars.get? name).getD (.boolean false) = (vars'.get? name).getD (.boolean false)) :
      (e.evaluate ⟨stack, vars, host⟩).1 = (e.evaluate ⟨stack, vars', host⟩).1 ∧
        e.assignments ⟨stack, vars, host⟩ = e.assignments ⟨stack, vars', host⟩ := by
    have huses : ∀ root ∈ e.root?, root.toNode.Uses NativeFunction.IgnoresVariables
        (fun name => e.Contains (.directive (.load name))) fun _ => True := fun root hroot =>
      ⟨fun f hf => hcalls f ⟨root, hroot, hf⟩, fun name hload => ⟨root, hroot, hload⟩,
        fun _ _ => trivial⟩
    obtain ⟨hvalue, -, hsteps⟩ := Machine.simulation_readAlike.evaluate (·.result_eq) huses
      (Machine.ReadAlike.cleared stack host hvars)
    exact ⟨hvalue, by
      rw [assignments_eq, assignments_eq, Step.assignments_eq_of_related hsteps]⟩
  refine ⟨halike, fun stack vars host name hname => halike stack _ _ host fun other _ => ?_⟩
  rw [Variables.get?_set]
  split
  · rename_i hother
    rw [hother, hname]
    rfl
  · rfl

/-- The program `if (x) y = max(x, z); else x = 1; return x;` leaves `w` alone,
and makes no difference between `x` not defined and `x` being `false`. -/
theorem evaluate_footprint_max :
    let load (name : String) : Node Unit := .directive (.load name)
    let store (name : String) : Node Unit := .directive (.store name)
    let e : Expression Unit := .ofBranch (.unconditional
      [.branch [load "x"] [load "x", load "z", .call (MathFunction.max.toNative Unit), store "y"]
        (some [.directive (.push (.integer 1)), store "x"]), load "x", .directive .return])
    let vars : Variables := .ofList [("w", .integer 7), ("z", .integer 2)]
    let vars' : Variables := .ofList [("x", .boolean false), ("z", .integer 2)]
    (e.evaluate ⟨.empty, vars, ()⟩).2.vars.get? "w" = some (.integer 7) ∧
      (e.evaluate ⟨.empty, vars, ()⟩).1 = (e.evaluate ⟨.empty, vars', ()⟩).1 ∧
      e.assignments ⟨.empty, vars, ()⟩ = e.assignments ⟨.empty, vars', ()⟩ ∧
      e.assignments ⟨.empty, vars, ()⟩
        = [("x", .integer 1), (Variables.returnName, .integer 1)] := by
  intro load store e vars vars'
  have hover : ∀ root ∈ e.root?, root.toNode.Over NativeFunction.IgnoresVariables
      (· ∈ ["x", "y", "z"]) := by
    rintro _ ⟨⟩
    have hmax : (MathFunction.max.toNative Unit).IgnoresVariables := fun _ _ _ _ => rfl
    simp [Branch.unconditional, Branch.toNode, Node.Over, Node.AllOver, Directive.Over, load,
      store, hmax]
  have hnamed (d : Directive) (he : e.Contains (.directive d)) : d.Over (· ∈ ["x", "y", "z"]) := by
    obtain ⟨root, hroot, hd⟩ := he
    exact (hover root hroot).within hd
  have hcalls : ∀ f, e.Contains (.call f) → f.IgnoresVariables := by
    rintro f ⟨root, hroot, hf⟩
    exact (hover root hroot).within hf
  have hread (name : String) (hload : e.Contains (.directive (.load name))) :
      (vars.get? name).getD (.boolean false) = (vars'.get? name).getD (.boolean false) := by
    have hname := hnamed _ hload
    simp only [Directive.Over, List.mem_cons, List.not_mem_nil, or_false] at hname
    rcases hname with rfl | rfl | rfl <;> decide +kernel
  obtain ⟨hframe, hreads⟩ := evaluate_footprint e
  obtain ⟨hvalue, hassignments⟩ := (hreads hcalls).1 .empty vars vars' () hread
  refine ⟨?_, hvalue, hassignments, by decide +kernel⟩
  rw [hframe _ "w" (by decide) fun hstore => absurd (hnamed _ hstore) (by simp [Directive.Over])]
  decide +kernel

end Expression

end ScalarLang
