import ScalarLang.Program.Trace
import ScalarLang.Proofs.Parsing.PhraseGrammar
import ScalarLang.Proofs.Parsing.StatementSoundness
/-!
# Stack balance

A compiled phrase leaves one value on the stack and a compiled statement
leaves none, whatever the stack holds before, and neither works on what
it holds. This is shared between two sides: operands lie below the node
that works on them, in the number it takes (`Node.Applies`), and what a
node does to a stack it does above the values below its operands. A
statement takes the one value of its phrase away again, and its blocks
start from the stack it started from.

The functions that are called have to keep to this as well
(`NativeFunction.Balanced`); those made of functions of values do.
-/

namespace ScalarLang

variable {σ : Type}

/-! ## Functions -/

/-- **A balanced function** takes as many values off the stack as it has
parameters and leaves one, or fails for a reason of its own. Either way
what lies below stays as it is. -/
def NativeFunction.Balanced (f : NativeFunction σ) : Prop :=
  ∀ (vars : String → Option Value) (s : Stack) (host : σ) (below args : List Value),
    s.toList = below ++ args → args.length = f.arity →
      match (f.call vars s host).error with
      | none => ∃ v, (f.call vars s host).stack.toList = below ++ [v]
      | some e =>
        below <+: (f.call vars s host).stack.toList ∧ ∀ operation, e ≠ .stackUnderflow operation

/-- Functions of values are balanced. -/
theorem ValueFunction.balanced_toNative (f : ValueFunction) : (f.toNative σ).Balanced := by
  intro vars s host below args hs hargs
  obtain ⟨taken, t, -, ht, hcall⟩ := f.toNative_call vars host hs hargs
  rw [hcall]
  cases f.apply taken with
  | ok v => exact ⟨v, by simp [ht]⟩
  | error message => exact ⟨⟨[], by simp [ht]⟩, by simp⟩

/-- The mathematical functions are balanced. -/
theorem Resolver.balanced_of_math {name : String} {f : NativeFunction σ}
    (h : (math : Resolver σ).resolve? name = some f) : f.Balanced := by
  obtain ⟨g, -, rfl⟩ := Option.map_eq_some_iff.mp h
  rw [g.toNative_eq]
  exact g.toValueFunction.balanced_toNative

/-! ## What runs leave -/

/-- The run leaves the given number of values above `base` and the
variables as they are, or fails with `base` in place and not for a lack of
values. -/
inductive Leaves (base : List Value) (n : Nat) (vars : Variables) : Signal × Machine σ → Prop
  | next {m : Machine σ} {vs : List Value} (hlen : vs.length = n)
    (hstack : m.stack.toList = base ++ vs) (hvars : m.vars = vars) : Leaves base n vars (.next, m)
  | failed {e : EvalError} {m : Machine σ} (hstack : base <+: m.stack.toList)
    (he : ∀ operation, e ≠ .stackUnderflow operation) : Leaves base n vars (.failed e, m)

/-- The run leaves the stack with `base` alone, whether it goes on or has
returned, or fails with `base` in place and not for a lack of values. -/
inductive Restores (base : List Value) : Signal × Machine σ → Prop
  | next {m : Machine σ} (hstack : m.stack.toList = base) : Restores base (.next, m)
  | returned {m : Machine σ} (hstack : m.stack.toList = base) : Restores base (.returned, m)
  | failed {e : EvalError} {m : Machine σ} (hstack : base <+: m.stack.toList)
    (he : ∀ operation, e ≠ .stackUnderflow operation) : Restores base (.failed e, m)

/-- The step finds the values it works on above `base`. -/
def Step.Above (base : List Value) (s : Step σ) : Prop :=
  ∃ top, s.before.stack.toList = base ++ top ∧ s.action.arity ≤ top.length

/-- What is above more values is above fewer. -/
theorem Step.Above.lower {base more : List Value} {s : Step σ} (h : s.Above (base ++ more)) :
    s.Above base := by
  obtain ⟨top, hstack, hle⟩ := h
  refine ⟨more ++ top, by rw [hstack, List.append_assoc], ?_⟩
  rw [List.length_append]
  omega

namespace Node

/-- From every machine, the nodes leave `n` values on top and work above
what is on the stack. -/
def LeaveOnTop (n : Nat) (ns : List (Node σ)) : Prop :=
  ∀ m : Machine σ, (∀ s ∈ stepsAll ns m, s.Above m.stack.toList) ∧
    Leaves m.stack.toList n m.vars (executeAll ns m)

/-- From every machine, the nodes leave the stack as it is and work above
what is on it. -/
def RestoreStack (ns : List (Node σ)) : Prop :=
  ∀ m : Machine σ, (∀ s ∈ stepsAll ns m, s.Above m.stack.toList) ∧
    Restores m.stack.toList (executeAll ns m)

/-- The node is one step that works on `n` values on top and replaces them
by one. -/
def Applies (n : Nat) (node : Node σ) : Prop :=
  ∃ action : Action σ, action.arity = n ∧ (∀ m, node.steps m = [⟨action, m⟩]) ∧
    ∀ (m : Machine σ) (below args : List Value), m.stack.toList = below ++ args →
      args.length = n → Leaves below 1 m.vars (node.execute m)

/-! ## Nodes that work on operands -/

theorem applies_push (v : Value) : Applies (σ := σ) 0 (.directive (.push v)) := by
  refine ⟨.directive (.push v), rfl, fun _ => rfl, fun m below args hs hargs => ?_⟩
  obtain rfl := List.length_eq_zero_iff.mp hargs
  have hstack : (m.push v).stack.toList = below ++ [v] := by simpa [Machine.push] using hs
  exact .next rfl hstack rfl

theorem applies_load (name : String) : Applies (σ := σ) 0 (.directive (.load name)) := by
  refine ⟨.directive (.load name), rfl, fun _ => rfl, fun m below args hs hargs => ?_⟩
  obtain rfl := List.length_eq_zero_iff.mp hargs
  let v := (m.vars.get? name).getD (.boolean false)
  have hstack : (m.push v).stack.toList = below ++ [v] := by simpa [Machine.push] using hs
  exact .next rfl hstack rfl

theorem applies_unary (op : UnaryOp) : Applies (σ := σ) 1 (.directive (.unary op)) := by
  refine ⟨.directive (.unary op), rfl, fun _ => rfl, fun m below args hs hargs => ?_⟩
  obtain ⟨v, rfl⟩ := List.length_eq_one_iff.mp hargs
  obtain ⟨t, hpop, ht⟩ := Stack.pop?_of_toList hs
  simp only [execute_directive, Directive.execute, Machine.withPop, hpop]
  have hstack : (t.push (op.apply v)).toList = below ++ [op.apply v] := by simp [ht]
  exact .next rfl hstack rfl

theorem applies_binary (op : BinaryOp) : Applies (σ := σ) 2 (.directive (.binary op)) := by
  refine ⟨.directive (.binary op), rfl, fun _ => rfl, fun m below args hs hargs => ?_⟩
  obtain ⟨v, w, rfl⟩ : ∃ v w, args = [v, w] := by
    match args, hargs with
    | [v, w], _ => exact ⟨v, w, rfl⟩
  have hs' : m.stack.toList = (below ++ [v]) ++ [w] := by simpa using hs
  obtain ⟨t, hpop, ht⟩ := Stack.pop?_of_toList hs'
  obtain ⟨u, hpop', hu⟩ := Stack.pop?_of_toList ht
  simp only [execute_directive, Directive.execute, Machine.withPop, hpop, hpop']
  have hstack : (u.push (op.apply v w)).toList = below ++ [op.apply v w] := by simp [hu]
  exact .next rfl hstack rfl

theorem applies_call {f : NativeFunction σ} (hf : f.Balanced) : Applies f.arity (.call f) := by
  refine ⟨.call f, rfl, fun _ => rfl, fun m below args hs hargs => ?_⟩
  have h := hf m.vars.get? m.stack m.host below args hs hargs
  simp only [execute_call, NativeFunction.execute]
  cases herror : (f.call m.vars.get? m.stack m.host).error with
  | none =>
    obtain ⟨v, hv⟩ := by simpa only [herror] using h
    exact .next rfl hv rfl
  | some e =>
    simp only [herror] at h
    exact .failed h.1 h.2

/-! ## Runs one after the other -/

theorem leaveOnTop_nil : LeaveOnTop (σ := σ) 0 [] :=
  fun m => ⟨by simp [stepsAll], .next rfl (List.append_nil _).symm rfl⟩

/-- What two runs leave adds up. -/
theorem LeaveOnTop.append {a b : Nat} {xs ys : List (Node σ)} (hx : LeaveOnTop a xs)
    (hy : LeaveOnTop b ys) : LeaveOnTop (a + b) (xs ++ ys) := by
  intro m
  obtain ⟨habove, hends⟩ := hx m
  rw [stepsAll_append, executeAll_append]
  generalize executeAll xs m = run at hends
  cases hends with
  | failed hstack he => exact ⟨by simpa using habove, .failed hstack he⟩
  | @next m' vs hlen hstack hvars =>
    -- the second run leaves the values of the first alone with the rest below it
    obtain ⟨habove', hends'⟩ := hy m'
    rw [hstack] at habove' hends'
    refine ⟨fun s hs => ?_, ?_⟩
    · rcases List.mem_append.mp hs with hs | hs
      · exact habove s hs
      · exact (habove' s hs).lower
    · simp only
      generalize executeAll ys m' = run' at hends'
      cases hends' with
      | failed hstack' he => exact .failed ((List.prefix_append _ _).trans hstack') he
      | @next m'' vs' hlen' hstack' hvars' =>
        rw [List.append_assoc] at hstack'
        exact .next (by simp [hlen, hlen']) hstack' (hvars'.trans hvars)

/-- **A node works on what the nodes before it leave.** -/
theorem LeaveOnTop.apply {n : Nat} {xs : List (Node σ)} {node : Node σ} (hx : LeaveOnTop n xs)
    (hnode : node.Applies n) : LeaveOnTop 1 (xs ++ [node]) := by
  intro m
  obtain ⟨habove, hends⟩ := hx m
  obtain ⟨action, harity, hsteps, hexecute⟩ := hnode
  rw [stepsAll_append, executeAll_append]
  generalize executeAll xs m = run at hends
  cases hends with
  | failed hstack he => exact ⟨by simpa using habove, .failed hstack he⟩
  | @next m' vs hlen hstack hvars =>
    simp only [stepsAll_singleton, executeAll_singleton, hsteps]
    refine ⟨fun s hs => ?_, hvars ▸ hexecute m' _ vs hstack hlen⟩
    rcases List.mem_append.mp hs with hs | hs
    · exact habove s hs
    · obtain rfl := List.mem_singleton.mp hs
      exact ⟨vs, hstack, by simp [harity, hlen]⟩

theorem restoreStack_nil : RestoreStack (σ := σ) [] := fun _ => ⟨by simp [stepsAll], .next rfl⟩

/-- Runs that leave the stack as it is do so together. -/
theorem RestoreStack.append {xs ys : List (Node σ)} (hx : RestoreStack xs)
    (hy : RestoreStack ys) : RestoreStack (xs ++ ys) := by
  intro m
  obtain ⟨habove, hends⟩ := hx m
  rw [stepsAll_append, executeAll_append]
  generalize executeAll xs m = run at hends
  cases hends with
  | failed hstack he => exact ⟨by simpa using habove, .failed hstack he⟩
  | returned hstack => exact ⟨by simpa using habove, .returned hstack⟩
  | @next m' hstack =>
    obtain ⟨habove', hends'⟩ := hy m'
    rw [hstack] at habove' hends'
    refine ⟨fun s hs => ?_, hends'⟩
    rcases List.mem_append.mp hs with hs | hs
    · exact habove s hs
    · exact habove' s hs

/-- **A value is taken away again** by an assignment or a `return`. -/
theorem LeaveOnTop.take {xs : List (Node σ)} {d : Directive} (hx : LeaveOnTop 1 xs)
    (hd : d = .return ∨ ∃ name, d = .store name) : RestoreStack (xs ++ [.directive d]) := by
  intro m
  obtain ⟨habove, hends⟩ := hx m
  rw [stepsAll_append, executeAll_append]
  generalize executeAll xs m = run at hends
  cases hends with
  | failed hstack he => exact ⟨by simpa using habove, .failed hstack he⟩
  | @next m' vs hlen hstack hvars =>
    obtain ⟨v, rfl⟩ := List.length_eq_one_iff.mp hlen
    obtain ⟨t, hpop, ht⟩ := Stack.pop?_of_toList hstack
    simp only [stepsAll_singleton, executeAll_singleton, steps, execute_directive]
    refine ⟨fun s hs => ?_, ?_⟩
    · rcases List.mem_append.mp hs with hs | hs
      · exact habove s hs
      · obtain rfl := List.mem_singleton.mp hs
        refine ⟨[v], hstack, ?_⟩
        rcases hd with rfl | ⟨name, rfl⟩ <;> exact Nat.le_refl _
    · rcases hd with rfl | ⟨name, rfl⟩
      · simp only [Directive.execute, Machine.withPop, hpop]
        exact .returned ht
      · simp only [Directive.execute, Machine.withPop, hpop]
        exact .next ht

/-- **A branch** takes the value of its condition, and its blocks start
from the stack that the branch started from. -/
theorem LeaveOnTop.branch {condition success : List (Node σ)}
    {failure : Option (List (Node σ))} (hcondition : LeaveOnTop 1 condition)
    (hblocks : ∀ v, RestoreStack (chosen v success failure)) :
    RestoreStack [.branch condition success failure] := by
  intro m
  obtain ⟨habove, hends⟩ := hcondition m
  rw [stepsAll_singleton, executeAll_singleton, steps_branch, execute_branch]
  generalize executeAll condition m = run at hends
  cases hends with
  | failed hstack he => exact ⟨by simpa using habove, .failed hstack he⟩
  | @next m' vs hlen hstack hvars =>
    obtain ⟨v, rfl⟩ := List.length_eq_one_iff.mp hlen
    obtain ⟨t, hpop, ht⟩ := Stack.pop?_of_toList hstack
    -- with the condition taken away, the block starts from the stack of the branch
    obtain ⟨habove', hends'⟩ := hblocks v { m' with stack := t }
    rw [ht] at habove' hends'
    simp only [Machine.withPop, hpop]
    refine ⟨fun s hs => ?_, hends'⟩
    rcases List.mem_append.mp hs with hs | hs
    · exact habove s hs
    · rcases List.mem_cons.mp hs with rfl | hs
      · exact ⟨[v], hstack, Nat.le_refl _⟩
      · exact habove' s hs

end Node

/-! ## Trees -/

section

variable {N : String → Prop}

mutual

/-- The nodes of a phrase leave its value. -/
theorem Phrase.leaveOnTop :
    ∀ {p : Phrase σ}, p.Over NativeFunction.Balanced N → Node.LeaveOnTop 1 p.nodes
  | .literal v, _ => Node.leaveOnTop_nil.apply (Node.applies_push v)
  | .variable name, _ => Node.leaveOnTop_nil.apply (Node.applies_load name)
  | .unary op p, h => (Phrase.leaveOnTop (p := p) h).apply (Node.applies_unary op)
  | .binary op p q, h =>
    ((Phrase.leaveOnTop (p := p) h.1).append (Phrase.leaveOnTop (p := q) h.2)).apply
      (Node.applies_binary op)
  | .call f ps, h => by
    obtain ⟨hf, hlen, hps⟩ := h
    have hargs := Phrase.leaveOnTop_allNodes hps
    rw [hlen] at hargs
    exact hargs.apply (Node.applies_call hf)

/-- The nodes of phrases leave a value for each. -/
theorem Phrase.leaveOnTop_allNodes : ∀ {ps : List (Phrase σ)},
    Phrase.AllOver NativeFunction.Balanced N ps →
      Node.LeaveOnTop ps.length (Phrase.allNodes ps)
  | [], _ => Node.leaveOnTop_nil
  | p :: ps, h => by
    rw [List.length_cons, Nat.add_comm]
    exact (Phrase.leaveOnTop h.1).append (Phrase.leaveOnTop_allNodes h.2)

end

mutual

/-- The nodes of a statement leave the stack as it is. -/
theorem Statement.restoreStack :
    ∀ {s : Statement σ}, s.Over NativeFunction.Balanced N → Node.RestoreStack s.nodes
  | .conditional condition success none, h => by
    refine (Phrase.leaveOnTop h.1).branch fun v => ?_
    unfold Node.chosen
    split
    · exact Statement.restoreStack_allNodes h.2.1
    · exact Node.restoreStack_nil
  | .conditional condition success (some failure), h => by
    refine (Phrase.leaveOnTop h.1).branch fun v => ?_
    unfold Node.chosen
    split
    · exact Statement.restoreStack_allNodes h.2.1
    · exact Statement.restoreStack_allNodes h.2.2
  | .return result, h => (Phrase.leaveOnTop (p := result) h).take (.inl rfl)
  | .assign name value, h => (Phrase.leaveOnTop (p := value) h.2).take (.inr ⟨name, rfl⟩)

/-- And so do the nodes of statements. -/
theorem Statement.restoreStack_allNodes : ∀ {ss : List (Statement σ)},
    Statement.AllOver NativeFunction.Balanced N ss → Node.RestoreStack (Statement.allNodes ss)
  | [], _ => Node.restoreStack_nil
  | _ :: _, h => (Statement.restoreStack h.1).append (Statement.restoreStack_allNodes h.2)

end

end

/-! ## Parsed programs -/

/-- **Parsed programs are balanced.** With balanced functions, and from any
machine, what is parsed works above the values on the stack and never
lacks one. A phrase leaves one more value and the variables as they are,
and a program of statements leaves the stack as it is, at its end and at
a `return` at any depth. -/
theorem parsed_balanced (r : Resolver σ) (ts : List Token)
    (hfunctions : ∀ f, r.Named ts f → f.Balanced) (nodes : List (Node σ)) (m : Machine σ) :
    (Parser.topPhrase ⟨r, BinaryOp.isRightAssoc⟩ ts = .ok nodes →
      (∀ s ∈ Node.stepsAll nodes m, s.Above m.stack.toList) ∧
        Leaves m.stack.toList 1 m.vars (Node.executeAll nodes m)) ∧
    (Parser.topBlock ⟨r, BinaryOp.isRightAssoc⟩ ts = .ok nodes →
      (∀ s ∈ Node.stepsAll nodes m, s.Above m.stack.toList) ∧
        Restores m.stack.toList (Node.executeAll nodes m)) := by
  have hd : Dialect.Uniform ⟨r, BinaryOp.isRightAssoc⟩ := BinaryOp.uniform_isRightAssoc r
  have hts : r.Mentions NativeFunction.Balanced (fun _ => True) ts :=
    ⟨hfunctions, fun _ _ _ _ => trivial⟩
  constructor
  · intro h
    obtain ⟨p, hp, rfl⟩ := Parser.topPhrase_sound hd h
    exact Phrase.leaveOnTop (hp.over hts) m
  · intro h
    obtain ⟨ss, hss, rfl⟩ := Parser.topBlock_sound hd h
    exact Statement.restoreStack_allNodes (hss.over hts) m

/-- The phrase `max(x, y)`, and the program that returns it. -/
theorem parsed_balanced_max :
    let word (text : String) : Token := ⟨.identifier, text, .start⟩
    let sign (s : Symbol) : Token := ⟨.symbol s, s.spelling, .start⟩
    let d : Dialect Unit := ⟨.math, BinaryOp.isRightAssoc⟩
    let call := [word "max", sign .leftParen, word "x", sign .comma, word "y", sign .rightParen]
    let program := ⟨.keyword .return, "return", .start⟩ :: call ++ [sign .semicolon]
    (∃ nodes, Parser.topPhrase d call = .ok nodes ∧
      ∀ m, (∀ s ∈ Node.stepsAll nodes m, s.Above m.stack.toList) ∧
        Leaves m.stack.toList 1 m.vars (Node.executeAll nodes m)) ∧
    ∃ nodes, Parser.topBlock d program = .ok nodes ∧
      ∀ m, (∀ s ∈ Node.stepsAll nodes m, s.Above m.stack.toList) ∧
        Restores m.stack.toList (Node.executeAll nodes m) := by
  intro word sign d call program
  have hfunctions (ts : List Token) (f : NativeFunction Unit) (hf : d.resolver.Named ts f) :
      f.Balanced := by
    obtain ⟨t, -, -, ht⟩ := hf
    exact Resolver.balanced_of_math ht
  constructor
  · have hok : (Parser.topPhrase d call).isOk = true := by decide +kernel
    cases h : Parser.topPhrase d call with
    | error r => simp [h, Except.isOk, Except.toBool] at hok
    | ok nodes => exact ⟨nodes, rfl, fun m => (parsed_balanced _ _ (hfunctions _) nodes m).1 h⟩
  · have hok : (Parser.topBlock d program).isOk = true := by decide +kernel
    cases h : Parser.topBlock d program with
    | error r => simp [h, Except.isOk, Except.toBool] at hok
    | ok nodes => exact ⟨nodes, rfl, fun m => (parsed_balanced _ _ (hfunctions _) nodes m).2 h⟩

end ScalarLang
