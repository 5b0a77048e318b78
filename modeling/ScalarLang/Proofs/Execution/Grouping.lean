import ScalarLang.Proofs.Execution.Meaning
import ScalarLang.Proofs.Execution.Relayout
/-!
# How `||` groups cannot be observed

Both operands of `||` are evaluated in any case, and it is associative as
an operation on values. So a parser that groups `||` to the left, as all
other operators, accepts the same source texts, and the programs it emits
do the same, although a chain of operands then lies less deep on the
stack. Trees are regrouped along their derivations
(`PhraseOf.regroup`): of a chain that groups to the right the operands
are taken over one after the other into one that groups to the left.
-/

namespace ScalarLang

variable {σ : Type}

/-- The language, but with `||` grouped to the left as all other operators
are. -/
def Dialect.leftGrouping (r : Resolver σ) : Dialect σ := ⟨r, fun _ => false⟩

/-- Only `||` groups to the right. -/
theorem BinaryOp.eq_logicalOr_of_isRightAssoc {op : BinaryOp} (h : op.isRightAssoc = true) :
    op = .logicalOr := by
  cases op <;> first | rfl | cases h

/-- Only `||` is of the loosest level. -/
theorem BinaryOp.eq_logicalOr_of_level {op : BinaryOp}
    (h : op.priority.level = Priority.logicalOr.level) : op = .logicalOr := by
  cases op <;> first | rfl | cases h

theorem Value.logicalOr_assoc (u v w : Value) :
    (u.logicalOr v).logicalOr w = u.logicalOr (v.logicalOr w) := by
  simp [logicalOr, truthy, Bool.or_assoc]

/-! ## Phrases -/

/-- The phrases have the same value, or fail alike, and leave the same
world. -/
def Phrase.SameValue (p q : Phrase σ) : Prop := ∀ vars w, p.eval vars w = q.eval vars w

/-- So do phrases one after the other. -/
def Phrase.SameValues (ps qs : List (Phrase σ)) : Prop :=
  ∀ vars w, Phrase.evalAll vars ps w = Phrase.evalAll vars qs w

namespace Phrase.SameValue

variable {p p' q q' : Phrase σ} {ps qs : List (Phrase σ)}

theorem refl (p : Phrase σ) : p.SameValue p := fun _ _ => rfl

theorem trans {u : Phrase σ} (hp : p.SameValue q) (hq : q.SameValue u) : p.SameValue u :=
  fun vars w => (hp vars w).trans (hq vars w)

theorem unary (op : UnaryOp) (h : p.SameValue q) : (Phrase.unary op p).SameValue (.unary op q) :=
  fun vars w => by simp only [eval, h vars w]

theorem binary (op : BinaryOp) (hp : p.SameValue p') (hq : q.SameValue q') :
    (Phrase.binary op p q).SameValue (.binary op p' q') := by
  intro vars w
  simp only [eval, hp vars w]
  rcases p'.eval vars w with ⟨e | v, w'⟩
  · rfl
  · simp only [hq vars w']

theorem call (f : NativeFunction σ) (h : SameValues ps qs) :
    (Phrase.call f ps).SameValue (.call f qs) :=
  fun vars w => by simp only [eval, h vars w]

theorem cons (hp : p.SameValue q) (hps : SameValues ps qs) : SameValues (p :: ps) (q :: qs) := by
  intro vars w
  simp only [evalAll, hp vars w]
  rcases q.eval vars w with ⟨e | v, w'⟩
  · rfl
  · simp only [hps vars w']

/-- **A chain of `||` has one value**, however it groups: the operands are
evaluated in the same order. -/
theorem logicalOr_assoc (p q u : Phrase σ) :
    (Phrase.binary .logicalOr p (.binary .logicalOr q u)).SameValue
      (.binary .logicalOr (.binary .logicalOr p q) u) := by
  intro vars w
  simp only [eval]
  rcases p.eval vars w with ⟨e | v, w'⟩
  · rfl
  dsimp only
  rcases q.eval vars w' with ⟨e | v', w''⟩
  · rfl
  dsimp only
  rcases u.eval vars w'' with ⟨e | v'', w'''⟩
  · rfl
  · simp only [BinaryOp.apply, Value.logicalOr_assoc]

end Phrase.SameValue

/-- The tokens of a phrase are, with `||` grouped to the left, a phrase of
the same level and value. If the level is that of `||`, they also go on a
chain: with any first operand before them they are again such a phrase. -/
structure Phrase.Regroups (r : Resolver σ) (k : Nat) (ts : List Token) (p : Phrase σ) : Prop where
  alone : ∃ q, PhraseOf (.leftGrouping r) k ts q ∧ p.SameValue q
  chain : k = Priority.logicalOr.level → ∀ (xs : List Token) (first : Phrase σ) (t : Token),
    PhraseOf (.leftGrouping r) k xs first → t.kind.binaryOp? = some .logicalOr →
      ∃ q, PhraseOf (.leftGrouping r) k (xs ++ t :: ts) q ∧
        (Phrase.binary .logicalOr first p).SameValue q

/-- Phrases of a level above that of `||` go on no chain. -/
theorem Phrase.Regroups.of_alone {r : Resolver σ} {k : Nat} {ts : List Token} {p q : Phrase σ}
    (hk : k ≠ Priority.logicalOr.level) (hq : PhraseOf (.leftGrouping r) k ts q)
    (h : p.SameValue q) : Phrase.Regroups r k ts p :=
  ⟨⟨q, hq, h⟩, fun heq => absurd heq hk⟩

/-- **Every phrase can be regrouped.** -/
theorem PhraseOf.regroups {r : Resolver σ} {k : Nat} {ts : List Token} {p : Phrase σ}
    (h : PhraseOf ⟨r, BinaryOp.isRightAssoc⟩ k ts p) : Phrase.Regroups r k ts p := by
  induction h using PhraseOf.rec (motive_2 := fun n ts ps _ =>
    ∃ qs, ArgumentsOf (.leftGrouping r) n ts qs ∧ Phrase.SameValues ps qs) with
  | literal ht => exact .of_alone (by decide) (.literal ht) (.refl _)
  | «variable» ht hname => exact .of_alone (by decide) (.variable ht hname) (.refl _)
  | parenthesised hl _ hr ih =>
    obtain ⟨q, hq, hsame⟩ := ih.alone
    exact .of_alone (by decide) (.parenthesised hl hq hr) hsame
  | call ht hf hl _ hr ih =>
    obtain ⟨qs, hqs, hsame⟩ := ih
    exact .of_alone (by decide) (.call ht hf hl hqs hr) (.call _ hsame)
  | unary ht _ ih =>
    obtain ⟨q, hq, hsame⟩ := ih.alone
    exact .of_alone (by decide) (.unary ht hq) (.unary _ hsame)
  | @leftGrouped t op ts us p q ht hop _ _ ihp ihq =>
    obtain ⟨p', hp', hp⟩ := ihp.alone
    obtain ⟨q', hq', hq⟩ := ihq.alone
    refine .of_alone (fun hk => ?_) (.leftGrouped ht rfl hp' hq') (.binary op hp hq)
    rw [BinaryOp.eq_logicalOr_of_level hk] at hop
    cases hop
  | @rightGrouped t op ts us p q ht hop _ _ ihp ihq =>
    obtain rfl := BinaryOp.eq_logicalOr_of_isRightAssoc hop
    obtain ⟨p', hp', hp⟩ := ihp.alone
    -- the operand on the left starts a chain, which the one on the right goes on
    obtain ⟨q', hq', hq⟩ := ihq.chain rfl ts p' t (.lower hp') ht
    refine ⟨⟨q', hq', (Phrase.SameValue.binary _ hp (.refl q)).trans hq⟩, ?_⟩
    rintro - xs first t' hfirst ht'
    obtain ⟨u, hu, hsame⟩ :=
      ihq.chain rfl (xs ++ t' :: ts) _ t (.leftGrouped ht' rfl hfirst hp') ht
    refine ⟨u, by simpa using hu, ?_⟩
    have hpq : (Phrase.binary .logicalOr first (.binary .logicalOr p q)).SameValue
        (.binary .logicalOr first (.binary .logicalOr p' q)) :=
      .binary _ (.refl first) (.binary _ hp (.refl q))
    exact (hpq.trans (.logicalOr_assoc first p' q)).trans hsame
  | @lower k ts p _ ih =>
    obtain ⟨q, hq, hsame⟩ := ih.alone
    refine ⟨⟨q, .lower hq, hsame⟩, ?_⟩
    rintro rfl xs first t hfirst ht
    exact ⟨_, .leftGrouped ht rfl hfirst hq, .binary _ (.refl first) hsame⟩
  | none => exact ⟨[], .none, fun _ _ => rfl⟩
  | one _ ih =>
    obtain ⟨q, hq, hsame⟩ := ih.alone
    exact ⟨[q], .one hq, hsame.cons fun _ _ => rfl⟩
  | more _ hc _ ihp ihps =>
    obtain ⟨q, hq, hsame⟩ := ihp.alone
    obtain ⟨qs, hqs, hrest⟩ := ihps
    exact ⟨q :: qs, .more hq hc hqs, hsame.cons hrest⟩

/-! ## Blocks -/

namespace Node

/-- Runs end alike: in the same way, with the same variables and the same
state of the embedding program, and, unless they have failed, with the same
values on the stack. -/
inductive EndAlike : Signal × Machine σ → Signal × Machine σ → Prop
  | same {signal : Signal} {s s' : Stack} {vars : Variables} {host : σ}
    (hs : s.toList = s'.toList) : EndAlike (signal, ⟨s, vars, host⟩) (signal, ⟨s', vars, host⟩)
  | failed {e : EvalError} {s s' : Stack} {vars : Variables} {host : σ} :
    EndAlike (.failed e, ⟨s, vars, host⟩) (.failed e, ⟨s', vars, host⟩)

/-- **Blocks do the same**: from stacks that hold the same values, the same
variables and the same state, their runs end alike, and with the same
calls. -/
def DoSame (xs ys : List (Node σ)) : Prop :=
  ∀ (s s' : Stack) (vars : Variables) (host : σ), s.toList = s'.toList →
    EndAlike (executeAll xs ⟨s, vars, host⟩) (executeAll ys ⟨s', vars, host⟩) ∧
      Step.calls (stepsAll xs ⟨s, vars, host⟩) = Step.calls (stepsAll ys ⟨s', vars, host⟩)

variable {xs xs' ys ys' : List (Node σ)}

theorem doSame_nil : DoSame ([] : List (Node σ)) [] := fun _ _ _ _ hs => ⟨.same hs, rfl⟩

/-- So do blocks one after the other. -/
theorem DoSame.append (hx : DoSame xs xs') (hy : DoSame ys ys') :
    DoSame (xs ++ ys) (xs' ++ ys') := by
  intro s s' vars host hs
  obtain ⟨hend, hcalls⟩ := hx s s' vars host hs
  simp only [executeAll_append, stepsAll_append, Step.calls_append, hcalls]
  generalize executeAll xs ⟨s, vars, host⟩ = run, executeAll xs' ⟨s', vars, host⟩ = run' at hend ⊢
  cases hend with
  | failed => exact ⟨.failed, rfl⟩
  | @same signal t t' _ _ ht =>
    cases signal with
    | next =>
      obtain ⟨hrest, hcalls'⟩ := hy t t' _ _ ht
      exact ⟨hrest, by rw [hcalls']⟩
    | returned => exact ⟨.same ht, rfl⟩
    | failed e => exact ⟨.failed, rfl⟩

/-- A directive does the same on stacks that hold the same values. -/
theorem doSame_directive (d : Directive) :
    DoSame [(directive d : Node σ)] [directive d] := by
  intro s s' vars host hs
  have hover : (directive d : Node σ).Over (NativeFunction.SeesValues Eq) fun _ => True := by
    cases d <;> trivial
  have hview : (⟨s, vars, host⟩ : Machine σ).SameView Eq ⟨s', vars, host⟩ := ⟨hs, rfl, rfl⟩
  obtain ⟨hsignal, hmachine⟩ := Machine.simulation_sameView.directive hover.uses hview
  refine ⟨?_, by simp [stepsAll_singleton, steps]⟩
  simp only [executeAll_singleton, execute_directive]
  generalize d.execute (⟨s, vars, host⟩ : Machine σ) = run at hsignal hmachine
  generalize d.execute (⟨s', vars, host⟩ : Machine σ) = run' at hsignal hmachine
  obtain ⟨signal, t, vars, host⟩ := run
  obtain ⟨signal', t', vars', host'⟩ := run'
  obtain rfl : signal = signal' := hsignal
  obtain ⟨ht, rfl, rfl⟩ := hmachine
  exact .same ht

/-- And so do branches of blocks that do the same. -/
theorem DoSame.branch {zs zs' : Option (List (Node σ))} (hx : DoSame xs xs') (hy : DoSame ys ys')
    (hz : DoSame (zs.getD []) (zs'.getD [])) :
    DoSame [.branch xs ys zs] [.branch xs' ys' zs'] := by
  have hchosen (v : Value) : DoSame (chosen v ys zs) (chosen v ys' zs') := by
    unfold chosen
    split
    · exact hy
    · exact hz
  intro s s' vars host hs
  obtain ⟨hend, hcalls⟩ := hx s s' vars host hs
  simp only [executeAll_singleton, stepsAll_singleton, execute_branch, steps_branch,
    Step.calls_append, hcalls]
  generalize executeAll xs ⟨s, vars, host⟩ = run, executeAll xs' ⟨s', vars, host⟩ = run' at hend ⊢
  cases hend with
  | failed => exact ⟨.failed, rfl⟩
  | @same signal t t' vars host ht =>
    have hview : (⟨t, vars, host⟩ : Machine σ).SameView Eq ⟨t', vars, host⟩ := ⟨ht, rfl, rfl⟩
    have hpop := Machine.SameView.seesValues.pop hview
    simp only at hpop
    -- a condition that has returned is chosen by as well
    cases signal with
    | failed e => exact ⟨.failed, rfl⟩
    | next | returned =>
      simp only [Machine.withPop, Step.calls_choose]
      generalize t.pop? = popped, t'.pop? = popped' at hpop
      cases hpop with
      | none => exact ⟨.failed, rfl⟩
      | some hleft =>
        obtain ⟨hrest, hcalls'⟩ := hchosen _ _ _ vars host hleft.stack
        exact ⟨hrest, by rw [hcalls']⟩

/-- What nodes do that compute values. -/
theorem Computes.run_ok {base vs : List Value} {m : Machine σ} {calls : List (NativeCall σ)}
    {w : World σ} (h : Computes base xs m calls (.ok vs, w)) :
    ∃ stack, executeAll xs m = (.next, ⟨stack, m.vars, w.host⟩) ∧ stack.toList = base ++ vs ∧
      w.calls = calls ++ Step.calls (stepsAll xs m) := by
  cases h with
  | ok hrun hstack => exact ⟨_, hrun, hstack, rfl⟩

/-- What nodes do that fail to compute them. -/
theorem Computes.run_error {base : List Value} {m : Machine σ} {calls : List (NativeCall σ)}
    {w : World σ} {e : EvalError} (h : Computes base xs m calls (.error e, w)) :
    ∃ stack, executeAll xs m = (.failed e, ⟨stack, m.vars, w.host⟩) ∧
      w.calls = calls ++ Step.calls (stepsAll xs m) := by
  cases h with
  | error hrun => exact ⟨_, hrun, rfl⟩

end Node

/-- **The nodes of phrases of one value do the same.** -/
theorem Phrase.SameValue.doSame {N : String → Prop} {p q : Phrase σ} (h : p.SameValue q)
    (hp : p.Over NativeFunction.ActsOnArguments N) (hq : q.Over NativeFunction.ActsOnArguments N) :
    Node.DoSame p.nodes q.nodes := by
  intro s s' vars host hs
  have hpRun := Phrase.computes hp ⟨s, vars, host⟩ []
  have hqRun := Phrase.computes hq ⟨s', vars, host⟩ []
  rw [show p.eval _ _ = q.eval _ _ from h _ _] at hpRun
  generalize q.eval vars.get? ⟨host, []⟩ = r at hpRun hqRun
  obtain ⟨outcome, w⟩ := r
  cases outcome with
  | ok v =>
    obtain ⟨t, hrun, ht, hcalls⟩ := hpRun.run_ok
    obtain ⟨t', hrun', ht', hcalls'⟩ := hqRun.run_ok
    rw [hrun, hrun']
    exact ⟨.same (by rw [ht, ht', hs]), by simpa using hcalls.symm.trans hcalls'⟩
  | error e =>
    obtain ⟨t, hrun, hcalls⟩ := hpRun.run_error
    obtain ⟨t', hrun', hcalls'⟩ := hqRun.run_error
    rw [hrun, hrun']
    exact ⟨.failed, by simpa using hcalls.symm.trans hcalls'⟩

/-! ## Source texts -/

section

variable {r : Resolver σ} {N : String → Prop}

/-- A phrase can be regrouped, and then its nodes do the same. -/
theorem PhraseOf.regroup {ts : List Token} {p : Phrase σ}
    (h : PhraseOf ⟨r, BinaryOp.isRightAssoc⟩ 0 ts p)
    (hts : r.Mentions NativeFunction.ActsOnArguments N ts) :
    ∃ q, PhraseOf (.leftGrouping r) 0 ts q ∧ Node.DoSame p.nodes q.nodes := by
  obtain ⟨q, hq, hsame⟩ := h.regroups.alone
  exact ⟨q, hq, hsame.doSame (h.over hts) (hq.over hts)⟩

/-- So can the phrases of statements. -/
theorem StatementsOf.regroup {ts : List Token} {ss : List (Statement σ)}
    (h : StatementsOf ⟨r, BinaryOp.isRightAssoc⟩ ts ss)
    (hts : r.Mentions NativeFunction.ActsOnArguments N ts) :
    ∃ ss', StatementsOf (.leftGrouping r) ts ss' ∧
      Node.DoSame (Statement.allNodes ss) (Statement.allNodes ss') := by
  induction h using StatementsOf.rec
    (motive_1 := fun dangling ts s _ => r.Mentions NativeFunction.ActsOnArguments N ts →
      ∃ s', StatementOf (.leftGrouping r) dangling ts s' ∧ Node.DoSame s.nodes s'.nodes)
    (motive_2 := fun dangling ts ss _ => r.Mentions NativeFunction.ActsOnArguments N ts →
      ∃ ss', BlockOf (.leftGrouping r) dangling ts ss' ∧
        Node.DoSame (Statement.allNodes ss) (Statement.allNodes ss')) with
  | «return» ht hp he =>
    rename_i hts
    obtain ⟨q, hq, hsame⟩ := hp.regroup (hts.mono (by simp +contextual))
    exact ⟨.return q, .return ht hq he, hsame.append (Node.doSame_directive _)⟩
  | assign ht hname ha hp he =>
    rename_i hts
    obtain ⟨q, hq, hsame⟩ := hp.regroup (hts.mono (by simp +contextual))
    exact ⟨.assign _ q, .assign ht hname ha hq he, hsame.append (Node.doSame_directive _)⟩
  | ifThen ht hl hp hr _ ih =>
    rename_i hts
    obtain ⟨q, hq, hcondition⟩ := hp.regroup (hts.mono (by simp +contextual))
    obtain ⟨ss', hss', hsuccess⟩ := ih (hts.mono (by simp +contextual))
    exact ⟨.conditional q ss' none, .ifThen ht hl hq hr hss',
      hcondition.branch hsuccess Node.doSame_nil⟩
  | ifThenElse ht hl hp hr _ he _ ihs ihf =>
    rename_i hts
    obtain ⟨q, hq, hcondition⟩ := hp.regroup (hts.mono (by simp +contextual))
    obtain ⟨ss', hss', hsuccess⟩ := ihs (hts.mono (by simp +contextual))
    obtain ⟨fs', hfs', hfailure⟩ := ihf (hts.mono (by simp +contextual))
    exact ⟨.conditional q ss' (some fs'), .ifThenElse ht hl hq hr hss' he hfs',
      hcondition.branch hsuccess hfailure⟩
  | single _ ih =>
    rename_i hts
    obtain ⟨s', hs', hsame⟩ := ih hts
    exact ⟨[s'], .single hs', hsame.append Node.doSame_nil⟩
  | braced hl _ hr ih =>
    rename_i hts
    obtain ⟨ss', hss', hsame⟩ := ih (hts.mono (by simp +contextual))
    exact ⟨ss', .braced hl hss' hr, hsame⟩
  | nil => exact ⟨[], .nil, Node.doSame_nil⟩
  | cons _ _ ihs ihss =>
    obtain ⟨s', hs', hfirst⟩ := ihs (hts.mono (by simp +contextual))
    obtain ⟨ss', hss', hrest⟩ := ihss (hts.mono (by simp +contextual))
    exact ⟨s' :: ss', .cons hs' hss', hfirst.append hrest⟩

/-- **Every source text can be regrouped**, and then its nodes do the
same. -/
theorem SourceForm.Derives.regroup {form : SourceForm} {ts : List Token} {tree : SyntaxTree σ}
    (h : form.Derives ⟨r, BinaryOp.isRightAssoc⟩ ts tree)
    (hts : r.Mentions NativeFunction.ActsOnArguments N ts) :
    ∃ tree', form.Derives (.leftGrouping r) ts tree' ∧ Node.DoSame tree.nodes tree'.nodes := by
  cases h with
  | phrase hp =>
    obtain ⟨q, hq, hsame⟩ := hp.regroup hts
    exact ⟨.phrase q, .phrase hq, hsame⟩
  | block hss =>
    cases hss with
    | bare hss =>
      obtain ⟨ss', hss', hsame⟩ := hss.regroup hts
      exact ⟨.program ss', .block (.bare hss'), hsame⟩
    | braced hl hss hr =>
      obtain ⟨ss', hss', hsame⟩ := hss.regroup (hts.mono (by simp +contextual))
      exact ⟨.program ss', .block (.braced hl hss' hr), hsame⟩

end

/-! ## Evaluations -/

end ScalarLang
