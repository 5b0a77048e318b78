import ScalarLang.Proofs.Parsing.Waiting
/-!
# Every phrase is read

A phrase in the middle of a larger one is read without touching the
operators that wait for it, but some of its own operators may still wait
at its end. What is read is settled when these are emitted
(`Emitted.emitAll`), and whatever follows the phrase emits them first:
an operator that takes the phrase on its left reduces them, and the end
of the phrase around it emits all. So the induction over derivations
(`readsAs_of_phraseOf`) states where the parser is left up to settling.
-/

namespace ScalarLang

/-- Emits operators, innermost first. -/
def Emitted.emitAll {σ : Type} (ops : List PendingOp) (e : Emitted σ) : Option (Emitted σ) :=
  ops.foldlM Emitted.operator? e

namespace Parser

variable {σ : Type} {d : Dialect σ}

/-! ## Settling -/

/-- The end of a phrase emits the innermost operators first. -/
theorem finish?_append (inner ops : List PendingOp) (e : Emitted σ) :
    Emitted.finish? (inner ++ ops) e = (e.emitAll inner).bind (Emitted.finish? ops) := by
  induction inner generalizing e with
  | nil => rfl
  | cons w inner ih =>
    simp only [List.cons_append, Emitted.finish?, Emitted.emitAll, List.foldlM_cons]
    cases e.operator? w with
    | none => rfl
    | some e' => exact ih e'

/-- And so does a reduction, of the operators that go before the new one. -/
theorem reduce?_append {op : BinaryOp} {inner : List PendingOp}
    (h : ∀ w ∈ inner, w.goesBefore d op = true) (ops : List PendingOp) (e : Emitted σ) :
    Emitted.reduce? d op (inner ++ ops) e
      = (e.emitAll inner).bind (Emitted.reduce? d op ops) := by
  induction inner generalizing e with
  | nil => rfl
  | cons w inner ih =>
    simp only [List.cons_append, Emitted.reduce?, Emitted.emitAll, List.foldlM_cons,
      h w List.mem_cons_self, if_true]
    cases e.operator? w with
    | none => rfl
    | some e' => exact ih (fun w hw => h w (List.mem_cons_of_mem _ hw)) e'

/-- A reduction stops at an operator that awaits a phrase of `op`'s
level. -/
theorem reduce?_eq_self (hd : d.Uniform) {op : BinaryOp} {ops : List PendingOp}
    (h : awaited d ops ≤ op.priority.level) (e : Emitted σ) :
    Emitted.reduce? d op ops e = some (ops, e) := by
  cases ops with
  | nil => rfl
  | cons w ops => simp [Emitted.reduce?, (goesBefore_eq_false_iff hd ops).mpr h]

/-! ## Derivations -/

/-- **Tokens are read as a phrase** of a level: before an operand that may
be of that level, they bring the parser to a state that settles to the one
with the phrase emitted. -/
def ReadsAs (d : Dialect σ) (k : Nat) (ts : List Token) (p : Phrase σ) : Prop :=
  ∀ (ops : List PendingOp) (e : Emitted σ) (rest : List Token), awaited d ops ≤ k →
    ∃ inner e', reading (phraseRest d (ts ++ rest) ops e true)
        = reading (phraseRest d rest (inner ++ ops) e' false) ∧
      e'.emitAll inner = some (e.whole p) ∧ ∀ w ∈ inner, k ≤ w.priority.level

/-- Tokens are read as the arguments of a function, up to the parenthesis
after them. -/
def ReadAsArguments (d : Dialect σ) (n : Nat) (ts : List Token) (ps : List (Phrase σ)) : Prop :=
  ∀ (out : List (Node σ)) (r : Token) (rest : List Token), r.IsSymbol .rightParen →
    argumentList d n (ts ++ r :: rest) out = .ok (out ++ Phrase.allNodes ps, rest)

/-- An operand that is read at once leaves nothing to settle. -/
theorem readsAs_of_reading {ts : List Token} {p : Phrase σ}
    (h : ∀ ops e rest, reading (phraseRest d (ts ++ rest) ops e true)
      = reading (phraseRest d rest ops (e.whole p) false)) :
    ReadsAs d Priority.operandLevel ts p :=
  fun ops e rest _ => ⟨[], e.whole p, h ops e rest, rfl, by simp⟩

/-- **A phrase of its own** is read up to the first token after it that is
no operator. -/
theorem ReadsAs.reading_phrase {ts rest : List Token} {p : Phrase σ} (h : ReadsAs d 0 ts p)
    (hrest : ∀ t ∈ rest.head?, t.kind.binaryOp? = none) (out : List (Node σ)) :
    reading (phrase d (ts ++ rest) out) = .ok (out ++ p.nodes, rest) := by
  obtain ⟨inner, e', hread, hemit, -⟩ := h [] ⟨out, 0⟩ rest (Nat.zero_le _)
  have hfinish : Emitted.finish? inner e' = some (out ++ p.nodes) := by
    rw [← List.append_nil inner, finish?_append, hemit]
    rfl
  rw [Parser.reading_phrase, hread, List.append_nil]
  cases rest with
  | nil => simp [reading_phraseRest_nil, ending, hfinish]
  | cons t rest => simp [reading_phraseRest_noBinary (hrest t rfl), ending, hfinish]

/-- What is read at a level is read at the looser one before it. -/
theorem ReadsAs.loosen {k : Nat} {ts : List Token} {p : Phrase σ} (h : ReadsAs d (k + 1) ts p) :
    ReadsAs d k ts p := by
  intro ops e rest hops
  obtain ⟨inner, e', hread, hemit, hinner⟩ := h ops e rest (Nat.le_succ_of_le hops)
  exact ⟨inner, e', hread, hemit, fun w hw => Nat.le_of_succ_le (hinner w hw)⟩

/-- A unary operator waits until the phrase around it goes on. -/
theorem ReadsAs.unary {t : Token} {op : UnaryOp} {ts : List Token} {p : Phrase σ}
    (ht : t.kind.unaryOp? = some op) (h : ReadsAs d Priority.unary.level ts p) :
    ReadsAs d Priority.unary.level (t :: ts) (.unary op p) := by
  intro ops e rest _
  obtain ⟨inner, e', hread, hemit, hinner⟩ := h (.unary op :: ops) e rest (Nat.le_refl _)
  refine ⟨inner ++ [.unary op], e', ?_, ?_, ?_⟩
  · rw [List.cons_append, reading_phraseRest_unary ht, List.append_assoc]
    exact hread
  · rw [Emitted.emitAll, List.foldlM_append]
    rw [Emitted.emitAll] at hemit
    simp [hemit, Emitted.operator?, Emitted.whole, PendingOp.arity, PendingOp.directive,
      Phrase.nodes]
  · intro w hw
    rcases List.mem_append.mp hw with hw | hw
    · exact hinner w hw
    · obtain rfl := List.mem_singleton.mp hw
      exact Nat.le_refl _

/-- **A binary operator** settles its left operand, finds below it an
operator that awaits no more than a phrase of its level, and waits. -/
theorem ReadsAs.binary (hd : d.Uniform) {t : Token} {op : BinaryOp} {ts us : List Token}
    {p q : Phrase σ} (ht : t.kind.binaryOp? = some op) (hp : ReadsAs d (op.leftLevel d) ts p)
    (hq : ReadsAs d (op.rightLevel d) us q) :
    ReadsAs d op.priority.level (ts ++ t :: us) (.binary op p q) := by
  intro ops e rest hops
  have hleft : op.priority.level ≤ op.leftLevel d := Nat.le_add_right _ _
  have hright : op.priority.level ≤ op.rightLevel d := Nat.le_add_right _ _
  -- what still waits of the left operand goes before `op`, and nothing below it does
  obtain ⟨left, e₁, hread₁, hemit₁, hlevel₁⟩ := hp ops e (t :: us ++ rest) (by omega)
  have hreduce : Emitted.reduce? d op (left ++ ops) e₁ = some (ops, e.whole p) := by
    rw [reduce?_append (fun w hw => goesBefore_iff.mpr (hlevel₁ w hw)), hemit₁]
    exact reduce?_eq_self hd hops _
  -- `op` itself waits below what still waits of the right operand
  obtain ⟨right, e₂, hread₂, hemit₂, hlevel₂⟩ :=
    hq (.binary op :: ops) (e.whole p) rest (Nat.le_refl _)
  refine ⟨right ++ [.binary op], e₂, ?_, ?_, ?_⟩
  · rw [List.cons_append, reading_phraseRest_binary ht, hreduce] at hread₁
    rw [List.append_assoc, List.cons_append, List.append_assoc]
    exact hread₁.trans hread₂
  · rw [Emitted.emitAll, List.foldlM_append]
    rw [Emitted.emitAll] at hemit₂
    simp [hemit₂, Emitted.operator?, Emitted.whole, PendingOp.arity, PendingOp.directive,
      Phrase.nodes]
  · intro w hw
    rcases List.mem_append.mp hw with hw | hw
    · exact Nat.le_trans hright (hlevel₂ w hw)
    · obtain rfl := List.mem_singleton.mp hw
      exact Nat.le_refl _

/-- A phrase of its own is read up to a symbol that is no operator. -/
theorem ReadsAs.reading_phrase_upTo {ts rest : List Token} {p : Phrase σ} {t : Token}
    {s : Symbol} (h : ReadsAs d 0 ts p) (ht : t.IsSymbol s) (hs : BinaryOp.ofSymbol? s = none)
    (out : List (Node σ)) :
    reading (phrase d (ts ++ t :: rest) out) = .ok (out ++ p.nodes, t :: rest) := by
  refine h.reading_phrase (fun u hu => ?_) out
  obtain rfl : t = u := by simpa using hu
  rw [show t.kind = .symbol s from ht]
  exact hs

/-- **Every phrase is read**, at whatever level it is derived. -/
theorem readsAs_of_phraseOf (hd : d.Uniform) {k : Nat} {ts : List Token} {p : Phrase σ}
    (h : PhraseOf d k ts p) : ReadsAs d k ts p := by
  induction h using PhraseOf.rec (motive_2 := fun n ts ps _ => ReadAsArguments d n ts ps) with
  | literal ht => exact readsAs_of_reading fun _ _ _ => reading_phraseRest_literal ht
  | «variable» ht hname =>
    exact readsAs_of_reading fun _ _ _ => reading_phraseRest_variable ht hname
  | @parenthesised l r ts p hl _ hr ih =>
    refine readsAs_of_reading fun ops e rest => ?_
    rw [show l :: ts ++ [r] ++ rest = l :: (ts ++ r :: rest) by simp,
      reading_phraseRest_parenthesis hl,
      ih.reading_phrase_upTo hr rfl]
    simp only [Except.bind, skip_cons hr]
    rfl
  | @call t l r f ts ps ht hf hl _ hr ih =>
    refine readsAs_of_reading fun ops e rest => ?_
    rw [show t :: l :: ts ++ [r] ++ rest = t :: l :: (ts ++ r :: rest) by simp,
      reading_phraseRest_call ht hf, reading_call, skip_cons hl]
    simp only [Except.bind]
    rw [ih e.nodes r rest hr]
    simp [mapError_ok, Except.map, Emitted.whole, Phrase.nodes]
  | unary ht _ ih => exact ih.unary ht
  | leftGrouped ht hop _ _ ihp ihq =>
    exact .binary hd ht (by simpa [BinaryOp.leftLevel, hop] using ihp)
      (by simpa [BinaryOp.rightLevel, hop] using ihq)
  | rightGrouped ht hop _ _ ihp ihq =>
    exact .binary hd ht (by simpa [BinaryOp.leftLevel, hop] using ihp)
      (by simpa [BinaryOp.rightLevel, hop] using ihq)
  | lower _ ih => exact ih.loosen
  | none =>
    intro out r rest hr
    simp [argumentList, skip_cons hr, Except.map, Phrase.allNodes]
  | one _ ih =>
    intro out r rest hr
    rw [argumentList_one, ih.reading_phrase_upTo hr rfl]
    simp [Except.bind, skip_cons hr, Except.map, Phrase.allNodes]
  | @more n c ts us p ps _ hc _ ihp ihps =>
    intro out r rest hr
    rw [show ts ++ c :: us ++ r :: rest = ts ++ c :: (us ++ r :: rest) by simp,
      argumentList_more, ihp.reading_phrase_upTo hc rfl]
    simp only [Except.bind, skip_cons hc, ihps _ r rest hr]
    simp [Phrase.allNodes]

end Parser

end ScalarLang
