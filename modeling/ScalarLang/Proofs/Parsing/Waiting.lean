import ScalarLang.Proofs.Parsing.Reading
/-!
# Waiting operators

The invariant of the phrase parser. The operators that wait, innermost
first, and the nodes that are emitted belong to the tokens read so far:
below each binary operator lies its left operand, already in postfix
form, and each operator awaits an operand of a level at which it may take
it (`Waiting`). Emitting an operator turns it and its operands into one
phrase (`Waiting.emit`), which is all that reductions and the end of a
phrase do. A phrase that ends where an operand is awaited is refused
(`Waiting.finish?_eq_none`), since the values are then too few.
-/

namespace ScalarLang

/-! ## Levels -/

theorem Priority.eq_of_level_eq {p q : Priority} (h : p.level = q.level) : p = q := by
  cases p <;> cases q <;> first | rfl | cases h

theorem BinaryOp.level_lt_unary (op : BinaryOp) :
    op.priority.level < Priority.unary.level := by
  cases op <;> decide

/-- Operators of one priority group alike. -/
def Dialect.Uniform {σ : Type} (d : Dialect σ) : Prop :=
  ∀ op other : BinaryOp, op.priority = other.priority → d.rightAssoc op = d.rightAssoc other

/-- The grouping of the language follows the priorities: only the loosest
one groups to the right. -/
theorem BinaryOp.uniform_isRightAssoc {σ : Type} (r : Resolver σ) :
    Dialect.Uniform ⟨r, BinaryOp.isRightAssoc⟩ := by
  have key : ∀ op : BinaryOp, op.isRightAssoc = decide (op.priority = .logicalOr) := by
    intro op
    cases op <;> decide
  intro op other h
  change op.isRightAssoc = other.isRightAssoc
  rw [key, key, h]

section

variable {σ : Type} (d : Dialect σ)

/-- The level of the left operand of an operator. -/
def BinaryOp.leftLevel (op : BinaryOp) : Nat :=
  op.priority.level + if d.rightAssoc op then 1 else 0

/-- The level of the right operand of an operator. -/
def BinaryOp.rightLevel (op : BinaryOp) : Nat :=
  op.priority.level + if d.rightAssoc op then 0 else 1

/-- The level of the operand that the innermost waiting operator awaits. -/
def awaited : List PendingOp → Nat
  | [] => 0
  | .unary _ :: _ => Priority.unary.level
  | .binary op :: _ => op.rightLevel d

/-- No operator awaits more than an operand with unary operators. -/
theorem awaited_le_unary (ops : List PendingOp) : awaited d ops ≤ Priority.unary.level := by
  match ops with
  | [] => exact Nat.zero_le _
  | .unary _ :: _ => exact Nat.le_refl _
  | .binary op :: _ =>
    have := op.level_lt_unary
    simp only [awaited, BinaryOp.rightLevel]
    split <;> omega

end

section

variable {σ : Type} {d : Dialect σ}

/-- A phrase of a level is one of every looser level. -/
theorem PhraseOf.loosen {j k : Nat} {ts : List Token} {p : Phrase σ}
    (h : PhraseOf d k ts p) (hjk : j ≤ k) : PhraseOf d j ts p := by
  obtain ⟨n, rfl⟩ := Nat.exists_eq_add_of_le hjk
  induction n with
  | zero => exact h
  | succ n ih => exact ih (.lower h) (by omega)

/-- The two rules for binary operators, as one. -/
theorem PhraseOf.binary {t : Token} {op : BinaryOp} {ts us : List Token} {p q : Phrase σ}
    (ht : t.kind.binaryOp? = some op) (hp : PhraseOf d (op.leftLevel d) ts p)
    (hq : PhraseOf d (op.rightLevel d) us q) :
    PhraseOf d op.priority.level (ts ++ t :: us) (.binary op p q) := by
  cases hop : d.rightAssoc op with
  | false =>
    simp only [BinaryOp.leftLevel, BinaryOp.rightLevel, hop] at hp hq
    exact .leftGrouped ht hop hp hq
  | true =>
    simp only [BinaryOp.leftLevel, BinaryOp.rightLevel, hop] at hp hq
    exact .rightGrouped ht hop hp hq

end

/-! ## The invariant -/

/-- Emits a whole phrase, which leaves one value. -/
def Emitted.whole {σ : Type} (e : Emitted σ) (p : Phrase σ) : Emitted σ :=
  ⟨e.nodes ++ p.nodes, e.pending + 1⟩

namespace Parser

variable {σ : Type}

/-- **The state before an operand**, after the tokens of a phrase that
have been read: the waiting operators, innermost first, and what has been
emitted after `out`. -/
inductive Waiting (d : Dialect σ) (out : List (Node σ)) :
    List Token → List PendingOp → Emitted σ → Prop
  | nil : Waiting d out [] [] ⟨out, 0⟩
  | unary {t : Token} {op : UnaryOp} {read : List Token} {ops : List PendingOp} {e : Emitted σ}
    (hw : Waiting d out read ops e) (ht : t.kind.unaryOp? = some op) :
    Waiting d out (read ++ [t]) (.unary op :: ops) e
  | binary {t : Token} {op : BinaryOp} {read ts : List Token} {ops : List PendingOp}
    {e : Emitted σ} {p : Phrase σ} (hw : Waiting d out read ops e)
    (hp : PhraseOf d (op.leftLevel d) ts p) (ht : t.kind.binaryOp? = some op)
    (hops : awaited d ops ≤ op.priority.level) :
    Waiting d out (read ++ ts ++ [t]) (.binary op :: ops) (e.whole p)

variable {d : Dialect σ} {out : List (Node σ)}

/-- **Emitting a waiting operator** makes one phrase of it and its
operands, of the operator's own level. -/
theorem Waiting.emit {read ts : List Token} {w : PendingOp} {ops : List PendingOp}
    {e : Emitted σ} {k : Nat} {p : Phrase σ} (hw : Waiting d out read (w :: ops) e)
    (hp : PhraseOf d k ts p) (hk : awaited d (w :: ops) ≤ k) :
    ∃ read' ts' e' p', (e.whole p).operator? w = some (e'.whole p') ∧
      Waiting d out read' ops e' ∧ PhraseOf d w.priority.level ts' p' ∧
      awaited d ops ≤ w.priority.level ∧ read ++ ts = read' ++ ts' := by
  cases hw with
  | @unary t op read _ _ hw ht =>
    -- the operand is all there is; what was emitted before stays as it is
    refine ⟨read, t :: ts, e, .unary op p, ?_, hw, .unary ht (hp.loosen hk),
      awaited_le_unary d ops, by simp⟩
    simp [Emitted.operator?, Emitted.whole, PendingOp.arity, PendingOp.directive, Phrase.nodes]
  | @binary t op read us _ e q hw hq ht hops =>
    -- the left operand lies below the right one, and the operator takes both
    refine ⟨read, us ++ t :: ts, e, .binary op q p, ?_, hw, .binary ht hq (hp.loosen hk),
      hops, by simp⟩
    simp [Emitted.operator?, Emitted.whole, PendingOp.arity, PendingOp.directive, Phrase.nodes]

/-- **What goes before `op`** are the operators of a level that is enough
for `op`'s left operand. -/
theorem goesBefore_iff {w : PendingOp} {op : BinaryOp} :
    w.goesBefore d op = true ↔ op.leftLevel d ≤ w.priority.level := by
  have hpriority : w.priority = op.priority ↔ w.priority.level = op.priority.level :=
    ⟨congrArg Priority.level, Priority.eq_of_level_eq⟩
  simp only [PendingOp.goesBefore, hpriority, BinaryOp.leftLevel, Bool.or_eq_true,
    Bool.and_eq_true, decide_eq_true_eq]
  cases d.rightAssoc op with
  | false =>
    simp only [Bool.not_false, and_true, Bool.false_eq_true, if_false]
    omega
  | true =>
    simp only [Bool.not_true, Bool.false_eq_true, and_false, or_false, if_true]
    omega

/-- **What does not go before `op`** are the operators that await no more
than a phrase of `op`'s level. -/
theorem goesBefore_eq_false_iff (hd : d.Uniform) {w : PendingOp} {op : BinaryOp}
    (ops : List PendingOp) :
    w.goesBefore d op = false ↔ awaited d (w :: ops) ≤ op.priority.level := by
  have hunary := op.level_lt_unary
  rw [← Bool.not_eq_true, goesBefore_iff, Nat.not_le]
  cases w with
  | unary u =>
    simp only [awaited, BinaryOp.leftLevel, PendingOp.priority]
    split <;> omega
  | binary b =>
    simp only [awaited, BinaryOp.leftLevel, BinaryOp.rightLevel, PendingOp.priority]
    by_cases heq : b.priority = op.priority
    · -- within one priority both group alike
      rw [hd b op heq, heq]
      split <;> omega
    · -- between priorities the one level that grouping adds does not matter
      have hne : b.priority.level ≠ op.priority.level := fun h => heq (Priority.eq_of_level_eq h)
      split <;> split <;> omega

/-- **A reduction never fails**, and leaves the operator waiting for its
right operand. -/
theorem Waiting.reduce? (hd : d.Uniform) {t : Token} {op : BinaryOp}
    (ht : t.kind.binaryOp? = some op) {ops : List PendingOp} {read ts : List Token}
    {e : Emitted σ} {k : Nat} {p : Phrase σ} (hw : Waiting d out read ops e)
    (hp : PhraseOf d k ts p) (hk : awaited d ops ≤ k) (hop : op.leftLevel d ≤ k) :
    ∃ ops' e', Emitted.reduce? d op ops (e.whole p) = some (ops', e') ∧
      Waiting d out (read ++ ts ++ [t]) (.binary op :: ops') e' := by
  induction ops generalizing read ts e k p with
  | nil => exact ⟨[], _, rfl, .binary hw (hp.loosen hop) ht (Nat.zero_le _)⟩
  | cons w ops ih =>
    rw [Emitted.reduce?]
    cases hbefore : w.goesBefore d op with
    | false =>
      exact ⟨w :: ops, _, rfl,
        .binary hw (hp.loosen hop) ht ((goesBefore_eq_false_iff hd ops).mp hbefore)⟩
    | true =>
      -- the phrase emitted is of the operator's level, which is enough for `op`
      obtain ⟨read', ts', e', p', hemit, hw', hp', hk', hread⟩ := hw.emit hp hk
      obtain ⟨ops', e'', hreduce, hw''⟩ := ih hw' hp' hk' (goesBefore_iff.mp hbefore)
      rw [hread]
      exact ⟨ops', e'', by simp [hemit, hreduce], hw''⟩

/-- **The end of a phrase** makes one phrase of all that was read. -/
theorem Waiting.finish? {ops : List PendingOp} {read ts : List Token} {e : Emitted σ} {k : Nat}
    {p : Phrase σ} (hw : Waiting d out read ops e) (hp : PhraseOf d k ts p)
    (hk : awaited d ops ≤ k) :
    ∃ q, Emitted.finish? ops (e.whole p) = some (out ++ q.nodes) ∧
      PhraseOf d 0 (read ++ ts) q := by
  induction ops generalizing read ts e k p with
  | nil =>
    cases hw with
    | nil => exact ⟨p, by simp [Emitted.finish?, Emitted.whole], hp.loosen (Nat.zero_le _)⟩
  | cons w ops ih =>
    obtain ⟨read', ts', e', p', hemit, hw', hp', hk', hread⟩ := hw.emit hp hk
    obtain ⟨q, hfinish, hq⟩ := ih hw' hp' hk'
    exact ⟨q, by simp [Emitted.finish?, hemit, hfinish], by rw [hread]; exact hq⟩

/-! ## Dangling operators -/

/-- Whether an operator stands between operands. -/
def isBinary : PendingOp → Bool
  | .unary _ => false
  | .binary _ => true

/-- Before an operand there are as many values as binary operators wait. -/
theorem Waiting.pending_eq {read : List Token} {ops : List PendingOp} {e : Emitted σ}
    (hw : Waiting d out read ops e) : e.pending = ops.countP isBinary := by
  induction hw with
  | nil => rfl
  | unary _ _ ih => simpa [isBinary] using ih
  | binary _ _ _ _ ih => simp [Emitted.whole, List.countP_cons, isBinary, ih]

/-- With no more values than binary operators, not all operators find
their operands, or no value is left. -/
theorem finish?_eq_none_of_pending_le {ops : List PendingOp} {e : Emitted σ}
    (h : e.pending ≤ ops.countP isBinary) : Emitted.finish? ops e = none := by
  induction ops generalizing e with
  | nil =>
    have hzero : e.pending = 0 := by simpa using h
    simp [Emitted.finish?, hzero]
  | cons w ops ih =>
    rw [Emitted.finish?, Emitted.operator?]
    split
    · rfl
    · rename_i harity
      refine ih ?_
      cases w with
      | unary op => simpa [PendingOp.arity, isBinary] using h
      | binary op =>
        simp only [PendingOp.arity, isBinary, List.countP_cons, if_true] at h harity ⊢
        omega

/-- **A phrase does not end where an operand is awaited.** -/
theorem Waiting.finish?_eq_none {read : List Token} {ops : List PendingOp} {e : Emitted σ}
    (hw : Waiting d out read ops e) : Emitted.finish? ops e = none :=
  finish?_eq_none_of_pending_le (Nat.le_of_eq hw.pending_eq)

end Parser

end ScalarLang
