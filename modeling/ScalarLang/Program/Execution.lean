import ScalarLang.Program.Node
import ScalarLang.Variables
/-!
# Execution

Running a node changes a machine and ends in one of three ways: the
program goes on, it has returned, or it has failed. A block stops at the
first node after which the program does not go on, and the machine stays
as that node left it.
-/

namespace ScalarLang

/-- What a program works on: a stack, variables and the state of the
embedding program. -/
structure Machine (σ : Type) where
  stack : Stack
  vars : Variables
  host : σ

/-- How the execution of a node ends. -/
inductive Signal where
  /-- The program goes on with the next node. -/
  | next
  /-- A `return` statement has been executed. -/
  | returned
  | failed (error : EvalError)
  deriving DecidableEq

namespace Machine

variable {σ : Type}

/-- Puts a value on the stack. -/
def push (m : Machine σ) (v : Value) : Machine σ := { m with stack := m.stack.push v }

/-- Takes a value off the stack for an operation and goes on with it. -/
def withPop (m : Machine σ) (operation : Operation)
    (k : Value → Machine σ → Signal × Machine σ) : Signal × Machine σ :=
  match m.stack.pop? with
  | some (v, stack) => k v { m with stack }
  | none => (.failed (.stackUnderflow operation), m)

/-- Gives a variable a value. -/
def assign (m : Machine σ) (name : String) (v : Value) : Machine σ :=
  { m with vars := m.vars.set name v }

end Machine

/-- Executes a directive. -/
def Directive.execute {σ : Type} (d : Directive) (m : Machine σ) : Signal × Machine σ :=
  match d with
  | .push v => (.next, m.push v)
  | .load name => (.next, m.push ((m.vars.get? name).getD (.boolean false)))
  | .store name => m.withPop .store fun v m => (.next, m.assign name v)
  | .return => m.withPop .return fun v m => (.returned, m.assign Variables.returnName v)
  | .unary op => m.withPop (.unary op) fun v m => (.next, m.push (op.apply v))
  | .binary op =>
    m.withPop (.binary op) fun w m =>
      m.withPop (.binary op) fun v m => (.next, m.push (op.apply v w))

/-- Carries out a call; the function sees the variables but cannot change
them. -/
def NativeFunction.execute {σ : Type} (f : NativeFunction σ) (m : Machine σ) :
    Signal × Machine σ :=
  let reply := f.call m.vars.get? m.stack m.host
  let m := { m with stack := reply.stack, host := reply.host }
  match reply.error with
  | none => (.next, m)
  | some e => (.failed e, m)

namespace Node

variable {σ : Type}

mutual

/-- Executes a node. A `return` within the condition of a branch does not
keep the branch from choosing a block. -/
def execute : Node σ → Machine σ → Signal × Machine σ
  | directive d, m => d.execute m
  | branch condition success failure, m =>
    match executeAll condition m with
    | (.failed e, m) => (.failed e, m)
    | (_, m) =>
      m.withPop .condition fun v m =>
        if v.truthy then executeAll success m
        else
          match failure with
          | some failure => executeAll failure m
          | none => (.next, m)
  | call f, m => f.execute m

/-- Executes the nodes of a block until one does not go on. -/
def executeAll : List (Node σ) → Machine σ → Signal × Machine σ
  | [], m => (.next, m)
  | n :: ns, m =>
    match n.execute m with
    | (.next, m) => executeAll ns m
    | ended => ended

end

/-! ## Blocks and branches -/

@[simp] theorem execute_directive (d : Directive) (m : Machine σ) :
    (directive d).execute m = d.execute m := rfl

@[simp] theorem execute_call (f : NativeFunction σ) (m : Machine σ) :
    (call f).execute m = f.execute m := rfl

/-- A block runs its parts one after the other. -/
theorem executeAll_append (xs ys : List (Node σ)) (m : Machine σ) :
    executeAll (xs ++ ys) m
      = match executeAll xs m with
        | (.next, m) => executeAll ys m
        | ended => ended := by
  induction xs generalizing m with
  | nil => rfl
  | cons n xs ih =>
    simp only [List.cons_append, executeAll]
    obtain ⟨signal, m'⟩ := n.execute m
    cases signal with
    | next => exact ih m'
    | returned => rfl
    | failed e => rfl

theorem executeAll_singleton (n : Node σ) (m : Machine σ) : executeAll [n] m = n.execute m := by
  rw [executeAll]
  obtain ⟨signal, m'⟩ := n.execute m
  cases signal <;> rfl

/-- The block that a branch runs for the value of its condition. -/
def chosen (v : Value) (success : List (Node σ)) (failure : Option (List (Node σ))) :
    List (Node σ) :=
  if v.truthy then success else failure.getD []

/-- What stands in the block chosen stands in the branch. -/
theorem Within.of_mem_chosen {n k : Node σ} {condition success : List (Node σ)}
    {failure : Option (List (Node σ))} {v : Value} (hk : k ∈ chosen v success failure)
    (h : n.Within k) : n.Within (branch condition success failure) := by
  unfold chosen at hk
  split at hk
  · exact .success hk h
  · cases failure with
    | none => simp at hk
    | some block => exact .failure hk h

/-- **A branch runs its condition and the block chosen by it.** -/
theorem execute_branch (condition success : List (Node σ)) (failure : Option (List (Node σ)))
    (m : Machine σ) :
    (branch condition success failure).execute m
      = match executeAll condition m with
        | (.failed e, m) => (.failed e, m)
        | (_, m) => m.withPop .condition fun v m => executeAll (chosen v success failure) m := by
  have hchosen (v : Value) (m : Machine σ) : executeAll (chosen v success failure) m
      = if v.truthy then executeAll success m
        else
          match failure with
          | some failure => executeAll failure m
          | none => (.next, m) := by
    unfold chosen
    split
    · rfl
    · cases failure <;> rfl
  simp only [hchosen]
  cases failure <;> rfl

end Node

/-- Executes a program from its root. -/
def Branch.execute {σ : Type} (b : Branch σ) (m : Machine σ) : Signal × Machine σ :=
  b.toNode.execute m

end ScalarLang
