import ScalarLang.Proofs.Parsing.Contents
import ScalarLang.Proofs.Parsing.StatementSoundness
/-!
# The loop of a phrase

A phrase is read in a loop over a state (`PhraseState`): the tokens left,
the operators that wait, what has been emitted, and whether a value or an
operator is expected next. What the loop meets at the next token is a
function of its own here (`PhraseState.meets`), and so is the iteration
that follows from it (`PhraseState.iterate`); the parser does what
iterating does (`PhraseState.outcome_eq`, `PhraseState.outcome_iterate`).

An iteration keeps the count of the values: there are as many of them as
binary operators wait, and one more where an operator is expected
(`PhraseState.Counted`). So operators always find their operands, and only
a phrase that stops where a value is expected is refused.
-/

namespace ScalarLang

namespace Parser

variable {σ : Type} {d : Dialect σ}

/-! ## What is met -/

/-- A phrase that is being read. -/
structure PhraseState (σ : Type) where
  tokens : List Token
  waiting : List PendingOp
  emitted : Emitted σ
  expectsValue : Bool

/-- What the loop meets at the next token. -/
inductive Meeting (σ : Type) where
  /-- A token by itself, after which the phrase goes on. -/
  | token (next : PhraseState σ)
  /-- A parenthesis that opens a phrase. -/
  | opens (inside : List Token)
  /-- The name of a function, with the tokens after it. -/
  | calls (name : Token) (f : NativeFunction σ) (after : List Token)
  /-- Nothing that the phrase can go on with. -/
  | stops
  /-- A binary operator before which one lacks an operand. -/
  | refuses

/-- The tokens that are left after what is met, if the phrase goes on. -/
def Meeting.left? : Meeting σ → Option (List Token)
  | token next => some next.tokens
  | opens inside => some inside
  | calls _ _ after => some after
  | stops | refuses => none

namespace PhraseState

/-- The state after an operand that was read by a parser of its own. -/
def afterOperand (s : PhraseState σ) (nodes : List (Node σ)) (rest : List Token) :
    PhraseState σ :=
  ⟨rest, s.waiting, ⟨nodes, s.emitted.pending + 1⟩, false⟩

/-- What is met in a state. -/
def meets (d : Dialect σ) : PhraseState σ → Meeting σ
  | ⟨[], _, _, _⟩ => .stops
  | ⟨t :: ts, ops, e, true⟩ =>
    match t.kind.literal?, t.kind.unaryOp? with
    | some v, _ => .token ⟨ts, ops, e.operand (.push v), false⟩
    | none, some op => .token ⟨ts, .unary op :: ops, e, true⟩
    | none, none =>
      if t.kind = .symbol .leftParen then .opens ts
      else if t.kind = .identifier then
        match d.resolver.resolve? t.text with
        | some f => .calls t f ts
        | none => .token ⟨ts, ops, e.operand (.load t.text), false⟩
      else .stops
  | ⟨t :: ts, ops, e, false⟩ =>
    match t.kind.binaryOp? with
    | none => .stops
    | some op =>
      match Emitted.reduce? d op ops e with
      | none => .refuses
      | some (ops, e) => .token ⟨ts, .binary op :: ops, e, true⟩

/-- The state in which a phrase starts that is read after the given nodes. -/
def start (ts : List Token) (out : List (Node σ)) : PhraseState σ := ⟨ts, [], ⟨out, 0⟩, true⟩

/-- What the phrase comes to from a state on. -/
def outcome (d : Dialect σ) (s : PhraseState σ) : Except Rejection (List (Node σ) × List Token) :=
  reading (phraseRest d s.tokens s.waiting s.emitted s.expectsValue)

/-- A phrase is what its loop comes to. -/
theorem reading_phrase_eq_outcome (ts : List Token) (out : List (Node σ)) :
    reading (phrase d ts out) = (start ts out).outcome d := reading_phrase ts out

/-- **The parser goes by what it meets.** -/
theorem outcome_eq (d : Dialect σ) (s : PhraseState σ) :
    s.outcome d = match s.meets d with
      | .token next => next.outcome d
      | .opens inside =>
        (reading (phrase d inside s.emitted.nodes)).bind fun inner =>
          (skip (.symbol .rightParen) .closeAfterPhrase inner.2).bind fun after =>
            (s.afterOperand inner.1 after).outcome d
      | .calls t f after =>
        (reading (call d t f after s.emitted.nodes)).bind fun inner =>
          (s.afterOperand inner.1 inner.2).outcome d
      | .stops => ending s.tokens s.waiting s.emitted
      | .refuses => .error ⟨.invalidPhrase, s.tokens, []⟩ := by
  obtain ⟨ts, ops, e, expectsValue⟩ := s
  match ts, expectsValue with
  | [], _ => exact reading_phraseRest_nil _
  | t :: ts, true =>
    rcases operand_cases d t with
      ⟨v, ht⟩ | ⟨op, ht⟩ | ht | ⟨ht, f, hf⟩ | ⟨ht, hname⟩ | ht
    · simp only [outcome, meets, ht]
      exact reading_phraseRest_literal ht
    · -- a token writes an operator or a value, not both
      have hliteral : t.kind.literal? = none := by
        obtain ⟨kind, text, position⟩ := t
        cases kind <;> first | rfl | cases ht
      simp only [outcome, meets, hliteral, ht]
      exact reading_phraseRest_unary ht
    · have hkind : t.kind = .symbol .leftParen := ht
      have hliteral : t.kind.literal? = none := hkind ▸ rfl
      have hunary : t.kind.unaryOp? = none := hkind ▸ rfl
      simp only [outcome, meets, hliteral, hunary, if_pos hkind]
      exact reading_phraseRest_parenthesis ht
    · have hliteral : t.kind.literal? = none := ht ▸ rfl
      have hunary : t.kind.unaryOp? = none := ht ▸ rfl
      have hparenthesis : t.kind ≠ .symbol .leftParen := by simp [ht]
      simp only [outcome, meets, hliteral, hunary, if_neg hparenthesis, if_pos ht, hf]
      exact reading_phraseRest_call ht hf
    · have hliteral : t.kind.literal? = none := ht ▸ rfl
      have hunary : t.kind.unaryOp? = none := ht ▸ rfl
      have hparenthesis : t.kind ≠ .symbol .leftParen := by simp [ht]
      simp only [outcome, meets, hliteral, hunary, if_neg hparenthesis, if_pos ht, hname]
      exact reading_phraseRest_variable ht hname
    · have hparenthesis : t.kind ≠ .symbol .leftParen := ht.parenthesis
      simp only [outcome, meets, ht.literal, ht.unary, hparenthesis, ht.identifier, if_false]
      exact reading_phraseRest_noOperand ht
  | t :: ts, false =>
    cases ht : t.kind.binaryOp? with
    | none =>
      simp only [outcome, meets, ht]
      exact reading_phraseRest_noBinary ht
    | some op =>
      rw [outcome, reading_phraseRest_binary ht]
      simp only [meets, ht]
      cases Emitted.reduce? d op ops e <;> rfl

/-- What can be met. Where a value is expected that is an operand, an operator
that waits, or the start of an operand with a parser of its own; where an
operator is expected, one that waits after a reduction, or one that is
refused because the reduction fails. -/
inductive Meets (d : Dialect σ) : PhraseState σ → Meeting σ → Prop
  | operand {t : Token} {ts : List Token} {ops : List PendingOp} {e : Emitted σ} {v : Directive} :
    Meets d ⟨t :: ts, ops, e, true⟩ (.token ⟨ts, ops, e.operand v, false⟩)
  | unary {t : Token} {ts : List Token} {ops : List PendingOp} {e : Emitted σ} {op : UnaryOp} :
    Meets d ⟨t :: ts, ops, e, true⟩ (.token ⟨ts, .unary op :: ops, e, true⟩)
  | opens {t : Token} {ts : List Token} {ops : List PendingOp} {e : Emitted σ} :
    Meets d ⟨t :: ts, ops, e, true⟩ (.opens ts)
  | calls {t : Token} {f : NativeFunction σ} {ts : List Token} {ops : List PendingOp}
    {e : Emitted σ} : Meets d ⟨t :: ts, ops, e, true⟩ (.calls t f ts)
  | binary {t : Token} {ts : List Token} {ops ops' : List PendingOp} {e e' : Emitted σ}
    {op : BinaryOp} (hreduce : Emitted.reduce? d op ops e = some (ops', e')) :
    Meets d ⟨t :: ts, ops, e, false⟩ (.token ⟨ts, .binary op :: ops', e', true⟩)
  | refuses {ts : List Token} {ops : List PendingOp} {e : Emitted σ} {op : BinaryOp}
    (hreduce : Emitted.reduce? d op ops e = none) : Meets d ⟨ts, ops, e, false⟩ .refuses
  | stops {s : PhraseState σ} : Meets d s .stops

/-- **Nothing else is met.** -/
theorem meets_spec (d : Dialect σ) (s : PhraseState σ) : Meets d s (s.meets d) := by
  obtain ⟨ts, ops, e, expectsValue⟩ := s
  match ts, expectsValue with
  | [], _ => exact .stops
  | t :: ts, true =>
    dsimp only [meets]
    split
    · exact .operand
    · exact .unary
    · split
      · exact .opens
      · split
        · split
          · exact .calls
          · exact .operand
        · exact .stops
  | t :: ts, false =>
    dsimp only [meets]
    split
    · exact .stops
    · split
      · exact .refuses ‹_›
      · exact .binary ‹_›

theorem meets_of_eq {s : PhraseState σ} {m : Meeting σ} (h : s.meets d = m) : Meets d s m :=
  h ▸ meets_spec d s

/-- What is met takes a token. -/
theorem length_lt_of_meets {s : PhraseState σ} {m : Meeting σ} {us : List Token}
    (h : s.meets d = m) (hleft : m.left? = some us) : us.length < s.tokens.length := by
  cases meets_of_eq h with
  | refuses | stops => cases hleft
  | _ =>
    cases hleft
    exact Nat.lt_succ_self _

end PhraseState

/-! ## Iterations -/

/-- What an iteration of the loop ends in. -/
inductive Iteration (σ : Type) where
  /-- Another iteration follows, from the state given. -/
  | goesOn (next : PhraseState σ)
  /-- The loop is left. -/
  | stops
  /-- A binary operator is refused, since one that goes before it lacks an
  operand. -/
  | refuses
  /-- The phrase or the call that starts at the token fails. -/
  | fails (r : Rejection)

namespace Iteration

variable {s next : PhraseState σ} {r : Except Rejection (List (Node σ) × List Token)}

/-- After an operand that was read by a parser of its own. -/
def ofOperand (s : PhraseState σ) :
    Except Rejection (List (Node σ) × List Token) → Iteration σ
  | .ok (nodes, rest) => .goesOn (s.afterOperand nodes rest)
  | .error r => .fails r

theorem ofOperand_eq_goesOn (h : ofOperand s r = .goesOn next) :
    ∃ nodes rest, r = .ok (nodes, rest) ∧ next = s.afterOperand nodes rest := by
  cases r with
  | error rejection => cases h
  | ok p =>
    cases h
    exact ⟨p.1, p.2, rfl, rfl⟩

theorem ofOperand_ne_refuses : ofOperand s r ≠ .refuses := by
  cases r <;> simp [ofOperand]

end Iteration

namespace PhraseState

variable {s next : PhraseState σ}

/-- One iteration of the loop. -/
def iterate (d : Dialect σ) (s : PhraseState σ) : Iteration σ :=
  match s.meets d with
  | .token next => .goesOn next
  | .opens inside =>
    .ofOperand s <| (reading (phrase d inside s.emitted.nodes)).bind fun inner =>
      (skip (.symbol .rightParen) .closeAfterPhrase inner.2).map (inner.1, ·)
  | .calls t f after => .ofOperand s (reading (call d t f after s.emitted.nodes))
  | .stops => .stops
  | .refuses => .refuses

/-- **The parser iterates.** -/
theorem outcome_iterate (d : Dialect σ) (s : PhraseState σ) :
    s.outcome d = match s.iterate d with
      | .goesOn next => next.outcome d
      | .stops => ending s.tokens s.waiting s.emitted
      | .refuses => .error ⟨.invalidPhrase, s.tokens, []⟩
      | .fails r => .error r := by
  rw [outcome_eq, iterate]
  cases s.meets d with
  | token next => rfl
  | opens inside =>
    dsimp only
    cases reading (phrase d inside s.emitted.nodes) with
    | error r => rfl
    | ok inner =>
      simp only [Except.bind]
      cases skip (.symbol .rightParen) .closeAfterPhrase inner.2 <;> rfl
  | calls t f after =>
    dsimp only
    cases reading (call d t f after s.emitted.nodes) <;> rfl
  | stops => rfl
  | refuses => rfl

/-- Another iteration follows after a token by itself, or after an operand
that was read where a value is expected. -/
theorem goesOn_cases (h : s.iterate d = .goesOn next) :
    s.meets d = .token next ∨
      ∃ nodes rest, next = s.afterOperand nodes rest ∧ s.expectsValue = true ∧
        rest.length < s.tokens.length := by
  rw [iterate] at h
  split at h
  · rename_i hmeets
    cases h
    exact .inl hmeets
  · rename_i inside hmeets
    obtain ⟨nodes, rest, hread, hnext⟩ := Iteration.ofOperand_eq_goesOn h
    obtain ⟨inner, hinner, hskip⟩ := bind_eq_ok hread
    obtain ⟨after, hafter, heq⟩ := map_eq_ok hskip
    cases heq
    have hinside := length_lt_of_meets hmeets rfl
    have hinner : inner.2.length ≤ inside.length := length_le_of_reading hinner
    have hafter := length_of_skip hafter
    cases meets_of_eq hmeets with
    | opens => exact .inr ⟨_, _, hnext, rfl, by omega⟩
  · rename_i t f after hmeets
    obtain ⟨nodes, rest, hread, hnext⟩ := Iteration.ofOperand_eq_goesOn h
    have hafter := length_lt_of_meets hmeets rfl
    have hrest : rest.length ≤ after.length := length_le_of_reading hread
    cases meets_of_eq hmeets with
    | calls => exact .inr ⟨_, _, hnext, rfl, by omega⟩
  · cases h
  · cases h

/-- Where another iteration follows, fewer tokens are left. -/
theorem length_lt_of_iterate (h : s.iterate d = .goesOn next) :
    next.tokens.length < s.tokens.length := by
  rcases goesOn_cases h with hmeets | ⟨nodes, rest, rfl, -, hlt⟩
  · exact length_lt_of_meets hmeets rfl
  · exact hlt

/-- An iteration refuses what is met to be refused. -/
theorem meets_refuses (h : s.iterate d = .refuses) : s.meets d = .refuses := by
  rw [iterate] at h
  split at h
  · cases h
  · exact absurd h Iteration.ofOperand_ne_refuses
  · exact absurd h Iteration.ofOperand_ne_refuses
  · cases h
  · assumption

end PhraseState

/-! ## Counting values -/

section

variable {ops : List PendingOp} {e : Emitted σ}

/-- An operator that waits innermost finds its operands, and there is one
value where they were. -/
theorem exists_operator?_of_pending {w : PendingOp}
    (h : e.pending = (w :: ops).countP isBinary + 1) :
    ∃ e', e.operator? w = some e' ∧ e'.pending = ops.countP isBinary + 1 := by
  have henough : ¬ e.pending < w.arity := by
    cases w <;> simp [PendingOp.arity, isBinary, h]
  refine ⟨_, by rw [Emitted.operator?, if_neg henough], ?_⟩
  cases w <;> simp [PendingOp.arity, isBinary, List.countP_cons, h]

/-- **After an operand a reduction finds all operands**, and counts as
before. -/
theorem exists_reduce?_of_pending (op : BinaryOp) (h : e.pending = ops.countP isBinary + 1) :
    ∃ ops' e', Emitted.reduce? d op ops e = some (ops', e') ∧
      e'.pending = ops'.countP isBinary + 1 := by
  induction ops generalizing e with
  | nil => exact ⟨[], e, rfl, h⟩
  | cons w ops ih =>
    rw [Emitted.reduce?]
    split
    · obtain ⟨e', hemit, he'⟩ := exists_operator?_of_pending h
      obtain ⟨ops', e'', hreduce, he''⟩ := ih he'
      exact ⟨ops', e'', by rw [hemit]; exact hreduce, he''⟩
    · exact ⟨w :: ops, e, rfl, h⟩

/-- After an operand the phrase may end: one value is left. -/
theorem exists_finish?_of_pending (h : e.pending = ops.countP isBinary + 1) :
    ∃ nodes, Emitted.finish? ops e = some nodes := by
  induction ops generalizing e with
  | nil => exact ⟨e.nodes, by simpa [Emitted.finish?] using h⟩
  | cons w ops ih =>
    obtain ⟨e', hemit, he'⟩ := exists_operator?_of_pending h
    obtain ⟨nodes, hfinish⟩ := ih he'
    exact ⟨nodes, by rw [Emitted.finish?, hemit]; exact hfinish⟩

end

namespace PhraseState

variable {s next : PhraseState σ}

/-- There are as many values as binary operators wait, and one more where an
operator is expected. -/
def Counted (s : PhraseState σ) : Prop :=
  s.emitted.pending = s.waiting.countP isBinary + if s.expectsValue then 0 else 1

/-- **An iteration keeps the count.** -/
theorem Counted.iterate (hs : s.Counted) (h : s.iterate d = .goesOn next) : next.Counted := by
  rcases goesOn_cases h with hmeets | ⟨nodes, rest, rfl, hexpects, -⟩
  · cases meets_of_eq hmeets with
    | operand => simpa [Counted, Emitted.operand] using hs
    | unary => simpa [Counted, isBinary] using hs
    | binary hreduce =>
      obtain ⟨ops', e', hreduce', he'⟩ := exists_reduce?_of_pending (d := d) _ hs
      rw [hreduce] at hreduce'
      cases hreduce'
      simpa [Counted, isBinary, List.countP_cons] using he'
  · simpa [Counted, afterOperand, hexpects] using hs

/-- **No operator lacks an operand** where the values are counted. -/
theorem Counted.iterate_ne_refuses (hs : s.Counted) : s.iterate d ≠ .refuses := by
  intro h
  cases meets_of_eq (meets_refuses h) with
  | refuses hnone =>
    obtain ⟨ops', e', hreduce, -⟩ := exists_reduce?_of_pending (d := d) _ hs
    rw [hreduce] at hnone
    cases hnone

/-- Where an operator is expected the phrase may end. -/
theorem Counted.exists_finish? (hs : s.Counted) (h : s.expectsValue = false) :
    ∃ nodes, Emitted.finish? s.waiting s.emitted = some nodes := by
  have hpending : s.emitted.pending = s.waiting.countP isBinary + 1 := by
    simpa [Counted, h] using hs
  exact exists_finish?_of_pending hpending

/-- **And nowhere else.** -/
theorem Counted.finish?_eq_none_iff (hs : s.Counted) :
    Emitted.finish? s.waiting s.emitted = none ↔ s.expectsValue = true := by
  cases hexpects : s.expectsValue with
  | true =>
    have hpending : s.emitted.pending = s.waiting.countP isBinary := by
      simpa [Counted, hexpects] using hs
    simpa using finish?_eq_none_of_pending_le (Nat.le_of_eq hpending)
  | false =>
    obtain ⟨nodes, hfinish⟩ := hs.exists_finish? hexpects
    simp [hfinish]

end PhraseState

/-! ## The states of a phrase -/

/-- The states that the loop of a phrase comes to. -/
inductive Reached (d : Dialect σ) (ts : List Token) (out : List (Node σ)) :
    PhraseState σ → Prop
  | start : Reached d ts out (.start ts out)
  | next {s next : PhraseState σ} (hs : Reached d ts out s) (h : s.iterate d = .goesOn next) :
    Reached d ts out next

section

variable {ts : List Token} {out : List (Node σ)} {s : PhraseState σ}

/-- **In every state the values are counted.** -/
theorem Reached.counted (hs : Reached d ts out s) : s.Counted := by
  induction hs with
  | start => rfl
  | next _ h ih => exact ih.iterate h

/-- In every state the phrase comes to what it comes to from there on. -/
theorem Reached.reading_phrase_eq (hs : Reached d ts out s) :
    reading (phrase d ts out) = s.outcome d := by
  induction hs with
  | start => exact PhraseState.reading_phrase_eq_outcome ts out
  | next _ h ih => rw [ih, PhraseState.outcome_iterate, h]

/-- From every state the loop comes to one that no other follows. -/
theorem Reached.exists_last {s : PhraseState σ} (hs : Reached d ts out s) :
    ∃ last, Reached d ts out last ∧ ∀ next, last.iterate d ≠ .goesOn next := by
  by_cases h : ∃ next, s.iterate d = .goesOn next
  · obtain ⟨next, hnext⟩ := h
    have hlt := PhraseState.length_lt_of_iterate hnext
    exact (hs.next hnext).exists_last
  · exact ⟨s, hs, fun next hnext => h ⟨next, hnext⟩⟩
termination_by s.tokens.length

end

/-- The phrase itself is refused in the state: in an iteration, or at the
end, where the waiting operators are emitted. -/
def PhraseState.Refused (d : Dialect σ) (s : PhraseState σ) : Prop :=
  s.iterate d = .refuses ∨
    s.iterate d = .stops ∧ Emitted.finish? s.waiting s.emitted = none

/-- What the count of values comes to for a phrase. -/
structure CountsValues (d : Dialect σ) (ts : List Token) (out : List (Node σ)) : Prop where
  /-- In every iteration the values are counted. -/
  counted : ∀ s, Reached d ts out s → s.Counted
  /-- No binary operator is refused. -/
  reduces : ∀ s, Reached d ts out s → s.iterate d ≠ .refuses
  /-- The loop comes to an end. -/
  ends : ∃ s, Reached d ts out s ∧ ∀ next, s.iterate d ≠ .goesOn next
  /-- The phrase itself is refused exactly where the loop stops while a
  value is expected. -/
  refused_iff : ∀ s, Reached d ts out s →
    (s.Refused d ↔ s.iterate d = .stops ∧ s.expectsValue = true)
  /-- It is refused as an invalid phrase, at the token where the loop stops. -/
  refused : ∀ s, Reached d ts out s → s.Refused d →
    reading (phrase d ts out) = .error ⟨.invalidPhrase, s.tokens, []⟩
  /-- Where the loop stops while an operator is expected, the phrase is
  accepted. -/
  accepted : ∀ s, Reached d ts out s → s.iterate d = .stops → s.expectsValue = false →
    ∃ nodes, reading (phrase d ts out) = .ok (nodes, s.tokens)
  /-- Otherwise it fails as a phrase or a call within it does. -/
  fails : ∀ s, Reached d ts out s → ∀ r, s.iterate d = .fails r →
    reading (phrase d ts out) = .error r
  /-- No operator that is accepted lacks an operand, and none is the last
  token. -/
  complete : ∀ nodes us, reading (phrase d ts out) = .ok (nodes, us) →
    ∃ used t p, ts = used ++ t :: us ∧ t.NoOperator ∧ PhraseOf d 0 (used ++ [t]) p ∧
      nodes = out ++ p.nodes

/-- **A phrase counts its values.** -/
theorem phrase_countsValues (r : Resolver σ) (ts : List Token) (out : List (Node σ)) :
    CountsValues ⟨r, BinaryOp.isRightAssoc⟩ ts out where
  counted s hs := hs.counted
  reduces s hs := hs.counted.iterate_ne_refuses
  ends := Reached.start.exists_last
  refused_iff s hs := by
    rw [PhraseState.Refused, hs.counted.finish?_eq_none_iff]
    exact or_iff_right hs.counted.iterate_ne_refuses
  refused s hs h := by
    rw [hs.reading_phrase_eq, PhraseState.outcome_iterate]
    rcases h with h | ⟨h, hfinish⟩
    · rw [h]
    · simp only [h, ending, hfinish]
  accepted s hs h hexpects := by
    obtain ⟨nodes, hfinish⟩ := hs.counted.exists_finish? hexpects
    refine ⟨nodes, ?_⟩
    rw [hs.reading_phrase_eq, PhraseState.outcome_iterate]
    simp only [h, ending, hfinish]
  fails s hs r h := by
    rw [hs.reading_phrase_eq, PhraseState.outcome_iterate, h]
  complete nodes us h := by
    obtain ⟨used, p, rfl, hp, rfl⟩ := phrase_sound (BinaryOp.uniform_isRightAssoc _) h
    obtain ⟨front, t, rfl, ht⟩ := hp.endsWithOperand
    exact ⟨front, t, p, by simp, ht, hp, rfl⟩

/-- The phrase `1 + 2 * -`. Two operators and two values wait when the tokens
end, and the value that is expected then is missing. -/
theorem phrase_countsValues_dangling :
    let number (n : Int64) : Token := ⟨.number (.integer n), toString n.toInt, .start⟩
    let sign (s : Symbol) : Token := ⟨.symbol s, s.spelling, .start⟩
    let ts := [number 1, sign .plus, number 2, sign .star, sign .minus]
    let last : PhraseState Unit := ⟨[], [.unary .negate, .binary .multiply, .binary .add],
      ⟨[.directive (.push (.integer 1)), .directive (.push (.integer 2))], 2⟩, true⟩
    let d : Dialect Unit := ⟨.math, BinaryOp.isRightAssoc⟩
    Reached d ts [] last ∧ last.Counted ∧
      reading (phrase d ts []) = .error ⟨.invalidPhrase, [], []⟩ := by
  intro number sign ts last d
  have hlast : Reached d ts [] last :=
    .next (.next (.next (.next (.next .start rfl) rfl) rfl) rfl) rfl
  have h : CountsValues d ts [] := phrase_countsValues .math ts []
  exact ⟨hlast, h.counted last hlast,
    h.refused last hlast ((h.refused_iff last hlast).mpr ⟨rfl, rfl⟩)⟩

end Parser

end ScalarLang
