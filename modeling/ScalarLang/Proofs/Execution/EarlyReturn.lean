import ScalarLang.Program.Trace
import ScalarLang.Proofs.Parsing.StatementNodes
import ScalarLang.Proofs.Parsing.StatementSoundness
/-!
# Early return

A `return` ends the whole run wherever it stands, but for the condition of
a branch: a branch chooses a block whether its condition has returned or
not. So a run stops at its `return` if and only if it executes none within
a condition. The grammar has no place for a `return` in a condition, so
the programs that are compiled from sources stop.
-/

namespace ScalarLang

variable {σ : Type}

/-! ## Stopping -/

/-- The step executes a `return`, of the value given. -/
def Step.Returns (s : Step σ) (v : Value) : Prop :=
  s.action = .directive .return ∧ ∃ stack, s.before.stack.pop? = some (v, stack)

/-- None of the steps executes a `return`. -/
def NoneReturns (steps : List (Step σ)) : Prop := ∀ s ∈ steps, ∀ v, ¬ s.Returns v

/-- **The run stops at its `return`**: no step follows one that executes a
`return`, the run has returned, and what it has returned is the value of
that step. -/
def StopsAtReturn (steps : List (Step σ)) (run : Signal × Machine σ) : Prop :=
  ∀ before s after v, steps = before ++ s :: after → s.Returns v →
    after = [] ∧ run.1 = .returned ∧ run.2.vars.returnValue? = some v

namespace StopsAtReturn

variable {xs ys : List (Step σ)} {run : Signal × Machine σ}

theorem of_noneReturns (h : NoneReturns xs) : StopsAtReturn xs run := by
  rintro before s after v rfl hs
  exact absurd hs (h s (by simp) v)

/-- A run that stops at its `return` and has not returned executes none. -/
theorem noneReturns (h : StopsAtReturn xs run) (hrun : run.1 ≠ .returned) : NoneReturns xs := by
  intro s hs v hv
  obtain ⟨before, after, hsplit⟩ := List.append_of_mem hs
  exact hrun (h before s after v hsplit hv).2.1

/-- Steps before the `return` do not matter. -/
theorem append (hxs : NoneReturns xs) (hys : StopsAtReturn ys run) :
    StopsAtReturn (xs ++ ys) run := by
  intro before s after v hsplit hv
  rcases List.append_eq_append_iff.mp hsplit with ⟨rest, -, hrest⟩ | ⟨rest, hxs', hrest⟩
  · exact hys rest s after v hrest hv
  · cases rest with
    | nil => exact hys [] s after v hrest.symm hv
    | cons t rest =>
      obtain ⟨rfl, -⟩ := List.cons.inj hrest
      exact absurd hv (hxs s (by simp [hxs']) v)

theorem right (h : StopsAtReturn (xs ++ ys) run) : StopsAtReturn ys run := by
  rintro before s after v rfl hv
  exact h (xs ++ before) s after v (by simp) hv

theorem tail {s : Step σ} (h : StopsAtReturn (s :: xs) run) : StopsAtReturn xs run := by
  change StopsAtReturn ([s] ++ xs) run at h
  exact h.right

/-- Steps that others follow execute no `return`. -/
theorem noneReturns_left (h : StopsAtReturn (xs ++ ys) run) (hys : ys ≠ []) :
    NoneReturns xs := by
  intro s hs v hv
  obtain ⟨before, after, rfl⟩ := List.append_of_mem hs
  obtain ⟨hafter, -⟩ := h before s (after ++ ys) v (by simp) hv
  exact hys (List.append_eq_nil_iff.mp hafter).2

/-- A directive is the last step of its own run, and a `return` leaves its
value. -/
theorem directive (d : Directive) (m : Machine σ) :
    StopsAtReturn [⟨.directive d, m⟩] (d.execute m) := by
  intro before s after v hsplit hv
  obtain ⟨rfl, hrest⟩ : before = [] ∧ [⟨.directive d, m⟩] = s :: after := by
    cases before with
    | nil => exact ⟨rfl, hsplit⟩
    | cons t before => simp at hsplit
  obtain ⟨rfl, rfl⟩ := List.cons.inj hrest
  obtain ⟨haction, stack, hpop⟩ := hv
  obtain rfl : d = .return := by simpa using haction
  simp [Directive.execute, Machine.withPop, hpop, Machine.assign, Variables.returnValue?]

end StopsAtReturn

namespace Node

/-! ## Taking steps -/

mutual

/-- Every node takes a step. -/
theorem steps_ne_nil : ∀ (n : Node σ) (m : Machine σ), n.steps m ≠ []
  | directive _, _ => List.cons_ne_nil _ _
  | call _, _ => List.cons_ne_nil _ _
  | branch condition success failure, m => by
    have hcondition := eq_nil_of_stepsAll condition m
    have hbranch := branchRun condition success failure m
    generalize (branch condition success failure).steps m = steps,
      (branch condition success failure).execute m = run at hbranch
    cases hbranch with
    | failed hrun =>
      intro h
      rw [hcondition h] at hrun
      cases hrun
    | starved => simp
    | chose => simp

/-- A block without steps is empty. -/
theorem eq_nil_of_stepsAll : ∀ (ns : List (Node σ)) (m : Machine σ), stepsAll ns m = [] → ns = []
  | [], _, _ => rfl
  | n :: _, m, h => absurd (List.append_eq_nil_iff.mp h).1 (steps_ne_nil n m)

end

/-! ## Steps within conditions -/

mutual

/-- The run of the node takes the step within the condition of a branch. -/
inductive InCondition (s : Step σ) : Node σ → Machine σ → Prop
  | condition {condition success : List (Node σ)} {failure : Option (List (Node σ))}
    {m : Machine σ} (hs : s ∈ stepsAll condition m) :
    InCondition s (branch condition success failure) m
  | block {condition success : List (Node σ)} {failure : Option (List (Node σ))}
    {m m' : Machine σ} {signal : Signal} {v : Value} {stack : Stack}
    (hrun : executeAll condition m = (signal, m')) (hsignal : ∀ e, signal ≠ .failed e)
    (hpop : m'.stack.pop? = some (v, stack))
    (hs : AnyInCondition s (chosen v success failure) { m' with stack }) :
    InCondition s (branch condition success failure) m

/-- The run of the block does. -/
inductive AnyInCondition (s : Step σ) : List (Node σ) → Machine σ → Prop
  | head {n : Node σ} {ns : List (Node σ)} {m : Machine σ} (hs : InCondition s n m) :
    AnyInCondition s (n :: ns) m
  | tail {n : Node σ} {ns : List (Node σ)} {m m' : Machine σ} (hrun : n.execute m = (.next, m'))
    (hs : AnyInCondition s ns m') : AnyInCondition s (n :: ns) m

end

mutual

/-- **A node stops at its `return`** if it executes none within a
condition. -/
theorem stopsAtReturn : ∀ (n : Node σ) (m : Machine σ),
    (∀ s v, n.InCondition s m → ¬ s.Returns v) → StopsAtReturn (n.steps m) (n.execute m)
  | directive d, m, _ => .directive d m
  | call f, m, _ => by
    refine .of_noneReturns fun s hs v hv => ?_
    obtain rfl := List.mem_singleton.mp hs
    cases hv.1
  | branch condition success failure, m, h => by
    have hchosen (v : Value) (m : Machine σ) :
        (∀ s w, AnyInCondition s (chosen v success failure) m → ¬ s.Returns w) →
          StopsAtReturn (stepsAll (chosen v success failure) m)
            (executeAll (chosen v success failure) m) := by
      unfold chosen
      split
      · exact stopsAtReturn_block success m
      · match failure with
        | none => exact fun _ => .of_noneReturns (by simp [NoneReturns, stepsAll])
        | some failure => exact stopsAtReturn_block failure m
    have hcondition : NoneReturns (stepsAll condition m) :=
      fun s hs v => h s v (.condition hs)
    have hchoose (m' : Machine σ) : NoneReturns [⟨.choose, m'⟩] := by
      intro s hs v hv
      obtain rfl := List.mem_singleton.mp hs
      cases hv.1
    have hbranch := branchRun condition success failure m
    generalize (branch condition success failure).steps m = steps,
      (branch condition success failure).execute m = run at hbranch
    cases hbranch with
    | failed => exact .of_noneReturns hcondition
    | starved => exact .append hcondition (.of_noneReturns (hchoose _))
    | chose hrun hsignal hpop =>
      refine .append hcondition (.append (hchoose _) (hchosen _ _ fun s w hs => ?_))
      exact h s w (.block hrun hsignal hpop hs)

/-- And so does a block. -/
theorem stopsAtReturn_block : ∀ (ns : List (Node σ)) (m : Machine σ),
    (∀ s v, AnyInCondition s ns m → ¬ s.Returns v) →
      StopsAtReturn (stepsAll ns m) (executeAll ns m)
  | [], _, _ => .of_noneReturns (by simp [NoneReturns, stepsAll])
  | n :: ns, m, h => by
    have hn := stopsAtReturn n m fun s v hs => h s v (.head hs)
    rw [stepsAll, executeAll]
    rcases hrun : n.execute m with ⟨signal, m'⟩
    rw [hrun] at hn
    cases signal with
    | next =>
      refine .append (hn.noneReturns (by simp)) ?_
      exact stopsAtReturn_block ns m' fun s v hs => h s v (.tail hrun hs)
    | returned => simpa using hn
    | failed e => simpa using hn

end

mutual

/-- **A node that stops at its `return`** executes none within a
condition. -/
theorem not_returns_of_inCondition : ∀ {n : Node σ} {m : Machine σ},
    StopsAtReturn (n.steps m) (n.execute m) →
      ∀ s v, n.InCondition s m → ¬ s.Returns v
  | directive _, _, _, _, _, hs => by cases hs
  | call _, _, _, _, _, hs => by cases hs
  | branch condition success failure, m, h, s, v, hs => by
    have hchosen (w : Value) (m : Machine σ) :
        StopsAtReturn (stepsAll (chosen w success failure) m)
            (executeAll (chosen w success failure) m) →
          AnyInCondition s (chosen w success failure) m → ¬ s.Returns v := by
      unfold chosen
      split
      · exact fun hm => not_returns_of_anyInCondition hm s v
      · match failure with
        | none =>
          intro _ hs
          cases hs
        | some failure => exact fun hm => not_returns_of_anyInCondition hm s v
    have hbranch := branchRun condition success failure m
    generalize (branch condition success failure).steps m = steps,
      (branch condition success failure).execute m = run at h hbranch
    cases hbranch with
    | failed hrun =>
      cases hs with
      | condition hs => exact h.noneReturns (by simp) s hs v
      | block hrun' hsignal =>
        rw [hrun] at hrun'
        cases hrun'
        exact absurd rfl (hsignal _)
    | starved hrun hsignal hpop =>
      cases hs with
      | condition hs => exact h.noneReturns_left (by simp) s hs v
      | block hrun' _ hpop' =>
        rw [hrun] at hrun'
        cases hrun'
        rw [hpop] at hpop'
        cases hpop'
    | chose hrun hsignal hpop =>
      cases hs with
      -- the choice follows what the condition does
      | condition hs => exact h.noneReturns_left (by simp) s hs v
      | block hrun' _ hpop' hs =>
        rw [hrun] at hrun'
        cases hrun'
        rw [hpop] at hpop'
        cases hpop'
        exact hchosen _ _ h.right.tail hs

/-- And so does a block. -/
theorem not_returns_of_anyInCondition : ∀ {ns : List (Node σ)} {m : Machine σ},
    StopsAtReturn (stepsAll ns m) (executeAll ns m) →
      ∀ s v, AnyInCondition s ns m → ¬ s.Returns v
  | [], _, _, _, _, hs => by cases hs
  | n :: ns, m, h, s, v, hs => by
    rw [stepsAll, executeAll] at h
    rcases hrun : n.execute m with ⟨signal, m'⟩
    have hn : StopsAtReturn (n.steps m) (n.execute m) := by
      rw [hrun] at h ⊢
      cases signal with
      | next =>
        -- a `return` in the first node would be followed by the next one
        refine .of_noneReturns ?_
        cases ns with
        | nil =>
          have h : StopsAtReturn (n.steps m) (.next, m') := by
            simpa [stepsAll, executeAll] using h
          exact h.noneReturns (by simp)
        | cons k ns => exact h.noneReturns_left fun hnil => by cases eq_nil_of_stepsAll _ _ hnil
      | returned => simpa using h
      | failed e => simpa using h
    cases hs with
    | head hs => exact not_returns_of_inCondition hn s v hs
    | tail hrun' hs =>
      rw [hrun'] at h
      exact not_returns_of_anyInCondition h.right s v hs

end

/-! ## Returns as written -/

/-- No condition within the node has a `return` within it. -/
def ConditionsReturnFree (n : Node σ) : Prop :=
  ∀ condition success failure, (branch condition success failure).Within n →
    ∀ k ∈ condition, ¬ (directive .return).Within k

/-- A directive that is executed within a condition stands in one. -/
theorem InCondition.exists_condition {s : Step σ} {d : Directive} {n : Node σ} {m : Machine σ}
    (hd : s.action = .directive d) (h : n.InCondition s m) :
    ∃ condition success failure, (branch condition success failure).Within n ∧
      ∃ k ∈ condition, (directive d).Within k := by
  induction h using InCondition.rec (motive_2 := fun ns _ _ => ∃ n ∈ ns,
    ∃ condition success failure, (branch condition success failure).Within n ∧
      ∃ k ∈ condition, (directive d).Within k) with
  | condition hs => exact ⟨_, _, _, .refl, within_of_mem_stepsAll hd hs⟩
  | block _ _ _ _ ih =>
    obtain ⟨n, hn, _, _, _, hbranch, hreturn⟩ := ih
    exact ⟨_, _, _, .of_mem_chosen hn hbranch, hreturn⟩
  | head _ ih => exact ⟨_, List.mem_cons_self, ih⟩
  | tail _ _ ih =>
    obtain ⟨n, hn, h⟩ := ih
    exact ⟨n, List.mem_cons_of_mem _ hn, h⟩

namespace ConditionsReturnFree

/-- A node without a `return` in a condition executes none there. -/
theorem not_returns {n : Node σ} (hn : n.ConditionsReturnFree) {m : Machine σ} (s : Step σ)
    (v : Value) (hs : n.InCondition s m) : ¬ s.Returns v := by
  intro hv
  obtain ⟨condition, success, failure, hbranch, k, hk, hreturn⟩ := hs.exists_condition hv.1
  exact hn condition success failure hbranch k hk hreturn

theorem directive (d : Directive) : (Node.directive d : Node σ).ConditionsReturnFree := by
  intro condition success failure hbranch
  cases hbranch

theorem branch {condition success : List (Node σ)} {failure : Option (List (Node σ))}
    (hreturn : ∀ k ∈ condition, ¬ (Node.directive .return).Within k)
    (hcondition : ∀ k ∈ condition, k.ConditionsReturnFree)
    (hsuccess : ∀ k ∈ success, k.ConditionsReturnFree)
    (hfailure : ∀ block ∈ failure, ∀ k ∈ block, k.ConditionsReturnFree) :
    (Node.branch condition success failure).ConditionsReturnFree := by
  intro condition' success' failure' hbranch
  cases hbranch with
  | refl => exact hreturn
  | condition hk h => exact hcondition _ hk _ _ _ h
  | success hk h => exact hsuccess _ hk _ _ _ h
  | failure hk h => exact hfailure _ rfl _ hk _ _ _ h

end ConditionsReturnFree

end Node

/-! ## Compiled programs -/

/-- Neither a branch nor a `return` stands in a node of a phrase. -/
theorem Phrase.not_within {p : Phrase σ} {n k : Node σ} (hn : n.EndsStatement)
    (hk : k ∈ p.nodes) : ¬ n.Within k := by
  have hk := Phrase.not_endsStatement hk
  intro h
  cases h with
  | refl => exact hk hn
  | condition => exact hk trivial
  | success => exact hk trivial
  | failure => exact hk trivial

theorem Phrase.conditionsReturnFree {p : Phrase σ} {n : Node σ} (hn : n ∈ p.nodes) :
    n.ConditionsReturnFree :=
  fun _ _ _ hbranch => absurd hbranch (Phrase.not_within trivial hn)

namespace Statement

mutual

/-- The conditions of a statement are phrases, so no `return` stands in
them. -/
theorem conditionsReturnFree : ∀ {s : Statement σ} {n : Node σ}, n ∈ s.nodes →
    n.ConditionsReturnFree
  | .return p, n, hn => by
    rcases List.mem_append.mp hn with hn | hn
    · exact Phrase.conditionsReturnFree hn
    · obtain rfl := List.mem_singleton.mp hn
      exact .directive .return
  | .assign name p, n, hn => by
    rcases List.mem_append.mp hn with hn | hn
    · exact Phrase.conditionsReturnFree hn
    · obtain rfl := List.mem_singleton.mp hn
      exact .directive (.store name)
  | .conditional p success failure, n, hn => by
    obtain rfl : n = .branch p.nodes (allNodes success) (failure.map allNodes) := by
      simpa [nodes_eq, valueNodes, last] using hn
    refine .branch (fun k hk => Phrase.not_within trivial hk)
      (fun k hk => Phrase.conditionsReturnFree hk)
      (fun k hk => conditionsReturnFree_of_mem_allNodes hk) ?_
    match failure with
    | none =>
      intro block hblock
      cases hblock
    | some failure =>
      rintro block ⟨⟩ k hk
      exact conditionsReturnFree_of_mem_allNodes hk

/-- And so for statements one after the other. -/
theorem conditionsReturnFree_of_mem_allNodes : ∀ {ss : List (Statement σ)} {n : Node σ},
    n ∈ allNodes ss → n.ConditionsReturnFree
  | [], n, hn => by cases hn
  | s :: ss, n, hn => by
    rcases List.mem_append.mp hn with hn | hn
    · exact conditionsReturnFree hn
    · exact conditionsReturnFree_of_mem_allNodes hn

end

end Statement

/-- **Compiled programs stop at their `return`.** -/
theorem Parser.stopsAtReturn_of_topBlock {r : Resolver σ} {ts : List Token}
    {nodes : List (Node σ)} (h : topBlock ⟨r, BinaryOp.isRightAssoc⟩ ts = .ok nodes)
    (m : Machine σ) :
    StopsAtReturn ((Branch.unconditional nodes).toNode.steps m)
      ((Branch.unconditional nodes).execute m) := by
  obtain ⟨ss, -, rfl⟩ := topBlock_sound (BinaryOp.uniform_isRightAssoc r) h
  have hroot : (Branch.unconditional (Statement.allNodes ss)).toNode.ConditionsReturnFree := by
    refine .branch (fun k hk hreturn => ?_) (fun k hk => ?_)
      (fun k hk => Statement.conditionsReturnFree_of_mem_allNodes hk) (by rintro block ⟨⟩)
    · obtain rfl := List.mem_singleton.mp hk
      cases hreturn
    · obtain rfl := List.mem_singleton.mp hk
      exact .directive _
  exact Node.stopsAtReturn _ m hroot.not_returns

/-! ## All programs -/

/-- **A program stops at its `return` unless it executes one within a
condition**, and only then; where no condition has a `return` within it,
the program stops on every machine. -/
theorem Branch.stopsAtReturn_iff (b : Branch σ) :
    (∀ m, StopsAtReturn (b.toNode.steps m) (b.execute m) ↔
      ∀ s v, b.toNode.InCondition s m → ¬ s.Returns v) ∧
    (b.toNode.ConditionsReturnFree → ∀ m, StopsAtReturn (b.toNode.steps m) (b.execute m)) := by
  have hiff (m : Machine σ) : StopsAtReturn (b.toNode.steps m) (b.execute m) ↔
      ∀ s v, b.toNode.InCondition s m → ¬ s.Returns v :=
    ⟨Node.not_returns_of_inCondition, b.toNode.stopsAtReturn m⟩
  exact ⟨hiff, fun hfree m => (hiff m).mpr hfree.not_returns⟩

/-- A branch that returns 1, within a program that would go on after it. -/
theorem Branch.stopsAtReturn_iff_nested :
    let push (v : Value) : Node Unit := .directive (.push v)
    let inner : Node Unit := .branch [push (.boolean true)]
      [push (.integer 1), .directive .return, push (.integer 2)] none
    let b : Branch Unit := .unconditional [inner, push (.integer 3)]
    let start : Machine Unit := ⟨.empty, .empty, ()⟩
    (∀ m, StopsAtReturn (b.toNode.steps m) (b.execute m)) ∧
      (∃ s ∈ b.toNode.steps start, s.Returns (.integer 1)) ∧
      (b.execute start).1 = .returned ∧
      (b.execute start).2.vars.returnValue? = some (.integer 1) := by
  intro push inner b start
  have hpush (v : Value) : ∀ k ∈ [push v], ¬ (Node.directive .return).Within k := by
    intro k hk hreturn
    obtain rfl := List.mem_singleton.mp hk
    cases hreturn
  have hfree (d : Directive) : (Node.directive d : Node Unit).ConditionsReturnFree := .directive d
  have hinner : inner.ConditionsReturnFree :=
    .branch (hpush _) (by simp [push, hfree]) (by simp [push, hfree]) (by rintro block ⟨⟩)
  have hroot : (Node.branch [push (.boolean true)] [inner, push (.integer 3)]
      none).ConditionsReturnFree :=
    .branch (hpush _) (by simp [push, hfree]) (by simp [push, hfree, hinner])
      (by rintro block ⟨⟩)
  have hreturns : ∃ s ∈ b.toNode.steps start, s.Returns (.integer 1) :=
    ⟨⟨.directive .return, _⟩, List.mem_of_getElem? (i := 5) rfl, rfl, _, rfl⟩
  have hstops := (Branch.stopsAtReturn_iff b).2 hroot
  obtain ⟨s, hs, hv⟩ := hreturns
  obtain ⟨before, after, hsplit⟩ := List.append_of_mem hs
  obtain ⟨-, hsignal, hvalue⟩ := hstops start before s after _ hsplit hv
  exact ⟨hstops, ⟨s, hs, hv⟩, hsignal, hvalue⟩

/-- **A program that goes on after its `return`**: the condition returns 1,
and then the block that it chooses assigns 2 to a variable. -/
theorem Branch.goes_on_after_return :
    let push (v : Value) : Node Unit := .directive (.push v)
    let b : Branch Unit :=
      ⟨[push (.boolean true), push (.integer 1), .directive .return],
        [push (.integer 2), .directive (.store "y")], none⟩
    let start : Machine Unit := ⟨.empty, .empty, ()⟩
    (∃ s ∈ b.toNode.steps start, s.Returns (.integer 1)) ∧ (b.execute start).1 = .next ∧
      (b.execute start).2.vars.get? "y" = some (.integer 2) ∧
      ¬ StopsAtReturn (b.toNode.steps start) (b.execute start) := by
  intro push b start
  have hnext : (b.execute start).1 = .next := rfl
  have hreturns : ∃ s ∈ b.toNode.steps start, s.Returns (.integer 1) :=
    ⟨⟨.directive .return, _⟩, List.mem_of_getElem? (i := 2) rfl, rfl, _, rfl⟩
  refine ⟨hreturns, hnext, by decide +kernel, fun hstops => ?_⟩
  obtain ⟨s, hs, hv⟩ := hreturns
  obtain ⟨before, after, hsplit⟩ := List.append_of_mem hs
  obtain ⟨-, hsignal, -⟩ := hstops before s after _ hsplit hv
  rw [hnext] at hsignal
  cases hsignal

end ScalarLang
