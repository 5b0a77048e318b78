import ScalarLang.Grammar.Derivation
/-!
# What the phrase parser reads

The parser carries in its results the bound by which it ends. Here that
bound is dropped (`reading`), and every function of the parser gets one
equation for each thing it can meet: the end of the tokens, a token with
which an operand starts, an operator, or a token that does neither. What
is proved of the parser afterwards is proved from these equations, and
the parser is not unfolded again.
-/

namespace ScalarLang

namespace Parser

variable {σ : Type} {d : Dialect σ}

/-- The nodes and the tokens left, without the bound on the latter. -/
def reading {n : Nat} (r : Except Rejection (Parsed σ n)) :
    Except Rejection (List (Node σ) × List Token) :=
  r.map fun p => (p.nodes, p.rest)

@[simp] theorem reading_ok {n : Nat} (p : Parsed σ n) :
    reading (.ok p) = .ok (p.nodes, p.rest) := rfl

@[simp] theorem reading_error {n : Nat} (r : Rejection) :
    reading (.error r : Except Rejection (Parsed σ n)) = .error r := rfl

/-- The bound says nothing of what is read. -/
@[simp] theorem reading_weaken {m n : Nat} (h : m ≤ n) (r : Except Rejection (Parsed σ m)) :
    reading (r.map (.weaken h)) = reading r := by
  cases r <;> rfl

/-! ## Results that are read on from -/

section

variable {ε ε' α β : Type}

theorem bind_eq_ok {x : Except ε α} {f : α → Except ε β} {b : β} (h : x.bind f = .ok b) :
    ∃ a, x = .ok a ∧ f a = .ok b := by
  cases x with
  | error e => cases h
  | ok a => exact ⟨a, rfl, h⟩

theorem map_eq_ok {x : Except ε α} {f : α → β} {b : β} (h : x.map f = .ok b) :
    ∃ a, x = .ok a ∧ f a = b := by
  cases x with
  | error e => cases h
  | ok a => exact ⟨a, rfl, by injection h⟩

theorem bind_eq_error {x : Except ε α} {f : α → Except ε β} {e : ε} (h : x.bind f = .error e) :
    x = .error e ∨ ∃ a, x = .ok a ∧ f a = .error e := by
  cases x with
  | error e' => exact .inl (by injection h with h; rw [h])
  | ok a => exact .inr ⟨a, rfl, h⟩

theorem map_eq_error {x : Except ε α} {f : α → β} {e : ε} (h : x.map f = .error e) :
    x = .error e := by
  cases x with
  | error e' => injection h with h; rw [h]
  | ok a => cases h

theorem mapError_eq_error {x : Except ε α} {f : ε → ε'} {e : ε'} (h : x.mapError f = .error e) :
    ∃ e', x = .error e' ∧ f e' = e := by
  cases x with
  | error e' => exact ⟨e', rfl, by injection h⟩
  | ok a => cases h

/-- What a computation fails with, if it does. -/
def failure? : Except ε α → Option ε
  | .ok _ => none
  | .error e => some e

theorem eq_error_of_failure? {x : Except ε α} {e : ε} (h : failure? x = some e) :
    x = .error e := by
  cases x with
  | error e' => injection h with h; rw [h]
  | ok a => cases h

theorem mapError_ok (a : α) (f : ε → ε') : (.ok a : Except ε α).mapError f = .ok a := rfl

theorem mapError_eq_ok {x : Except ε α} {f : ε → ε'} {a : α} (h : x.mapError f = .ok a) :
    x = .ok a := by
  cases x with
  | error e => cases h
  | ok a' => injection h with h; rw [h]

end

/-! ## Expected tokens -/

/-- The tokens after an expected one, without the proof that they are
fewer. -/
def skip (kind : TokenKind) (what : Expectation) : List Token → Except Rejection (List Token)
  | [] => .error ⟨.expected what, [], []⟩
  | t :: ts => if t.kind = kind then .ok ts else .error ⟨.expected what, t :: ts, []⟩

theorem expect_map_val (kind : TokenKind) (what : Expectation) (ts : List Token) :
    (expect kind what ts).map Subtype.val = skip kind what ts := by
  cases ts with
  | nil => rfl
  | cons t ts =>
    simp only [expect, skip]
    split <;> rfl

theorem skip_cons {kind : TokenKind} {what : Expectation} {t : Token} {ts : List Token}
    (h : t.kind = kind) : skip kind what (t :: ts) = .ok ts := by
  simp [skip, h]

/-- What is skipped is a token of the expected kind. -/
theorem skip_eq_ok {kind : TokenKind} {what : Expectation} {ts rest : List Token}
    (h : skip kind what ts = .ok rest) : ∃ t, t.kind = kind ∧ ts = t :: rest := by
  cases ts with
  | nil => simp [skip] at h
  | cons t ts =>
    rw [skip] at h
    split at h
    · rename_i ht
      exact ⟨t, ht, by injection h with h; rw [h]⟩
    · simp at h

/-- One token is skipped. -/
theorem length_of_skip {kind : TokenKind} {what : Expectation} {ts rest : List Token}
    (h : skip kind what ts = .ok rest) : ts.length = rest.length + 1 := by
  obtain ⟨t, -, rfl⟩ := skip_eq_ok h
  rfl

/-- Where another token is found, or none, it is left, and no call has been
met. -/
theorem skip_eq_error {kind : TokenKind} {what : Expectation} {ts : List Token} {r : Rejection}
    (h : skip kind what ts = .error r) : r = ⟨.expected what, ts, []⟩ := by
  cases ts with
  | nil =>
    cases h
    rfl
  | cons t ts =>
    rw [skip] at h
    split at h
    · cases h
    · cases h
      rfl

theorem rest_of_skip_eq_error {kind : TokenKind} {what : Expectation} {ts : List Token}
    {r : Rejection} (h : skip kind what ts = .error r) : r.rest = ts := by
  rw [skip_eq_error h]

/-! ## The rest of a phrase -/

/-- What a phrase that ends before the given tokens comes to. -/
def ending (ts : List Token) (ops : List PendingOp) (e : Emitted σ) :
    Except Rejection (List (Node σ) × List Token) :=
  match Emitted.finish? ops e with
  | some nodes => .ok (nodes, ts)
  | none => .error ⟨.invalidPhrase, ts, []⟩

theorem reading_endPhrase (ts : List Token) (ops : List PendingOp) (e : Emitted σ) :
    reading (endPhrase ts ops e) = ending ts ops e := by
  unfold endPhrase ending
  cases Emitted.finish? ops e <;> rfl

theorem ending_eq_ok {ts us : List Token} {ops : List PendingOp} {e : Emitted σ}
    {nodes : List (Node σ)} (h : ending ts ops e = .ok (nodes, us)) :
    Emitted.finish? ops e = some nodes ∧ ts = us := by
  unfold ending at h
  cases hf : Emitted.finish? ops e <;> simp_all

theorem ending_eq_error {ts : List Token} {ops : List PendingOp} {e : Emitted σ} {r : Rejection}
    (h : ending ts ops e = .error r) :
    Emitted.finish? ops e = none ∧ r = ⟨.invalidPhrase, ts, []⟩ := by
  unfold ending at h
  cases hf : Emitted.finish? ops e with
  | some nodes => simp [hf] at h
  | none =>
    rw [hf] at h
    cases h
    exact ⟨rfl, rfl⟩

theorem rest_of_ending_eq_error {ts : List Token} {ops : List PendingOp} {e : Emitted σ}
    {r : Rejection} (h : ending ts ops e = .error r) :
    Emitted.finish? ops e = none ∧ r.rest = ts := by
  obtain ⟨hfinish, rfl⟩ := ending_eq_error h
  exact ⟨hfinish, rfl⟩

/-- A token with which no operand starts. -/
structure StartsNoOperand (t : Token) : Prop where
  literal : t.kind.literal? = none
  unary : t.kind.unaryOp? = none
  parenthesis : ¬ t.IsSymbol .leftParen
  identifier : t.kind ≠ .identifier

section

variable {t : Token} {ts : List Token} {ops : List PendingOp} {e : Emitted σ}

theorem reading_phraseRest_nil (b : Bool) :
    reading (phraseRest d [] ops e b) = ending [] ops e := by
  rw [phraseRest, reading_endPhrase]

theorem reading_phraseRest_literal {v : Value} (ht : t.kind.literal? = some v) :
    reading (phraseRest d (t :: ts) ops e true)
      = reading (phraseRest d ts ops (e.operand (.push v)) false) := by
  rw [phraseRest]
  obtain ⟨kind, text, position⟩ := t
  cases kind with
  | symbol s => cases ht
  | identifier => cases ht
  | keyword k => simp only at ht; simp [ht]
  | number n => simp only at ht; simp [ht]

theorem reading_phraseRest_unary {op : UnaryOp} (ht : t.kind.unaryOp? = some op) :
    reading (phraseRest d (t :: ts) ops e true)
      = reading (phraseRest d ts (.unary op :: ops) e true) := by
  rw [phraseRest]
  obtain ⟨kind, text, position⟩ := t
  cases kind with
  | symbol s =>
    have hliteral : (TokenKind.symbol s).literal? = none := rfl
    -- the parenthesis has a case of its own in the parser, and it writes no operator
    cases s <;> simp_all
    cases ht
  | _ => simp [TokenKind.unaryOp?] at ht

theorem reading_phraseRest_parenthesis (ht : t.IsSymbol .leftParen) :
    reading (phraseRest d (t :: ts) ops e true)
      = (reading (phrase d ts e.nodes)).bind fun inner =>
          (skip (.symbol .rightParen) .closeAfterPhrase inner.2).bind fun after =>
            reading (phraseRest d after ops ⟨inner.1, e.pending + 1⟩ false) := by
  obtain ⟨kind, text, position⟩ := t
  obtain rfl : kind = .symbol .leftParen := ht
  rw [phraseRest]
  cases phrase d ts e.nodes with
  | error r => rfl
  | ok inner =>
    simp only [reading_ok, Except.bind, ← expect_map_val]
    cases expect (.symbol .rightParen) .closeAfterPhrase inner.rest with
    | error r => rfl
    | ok after => exact reading_weaken _ _

theorem reading_phraseRest_call {f : NativeFunction σ} (ht : t.kind = .identifier)
    (hf : d.resolver.resolve? t.text = some f) :
    reading (phraseRest d (t :: ts) ops e true)
      = (reading (call d t f ts e.nodes)).bind fun inner =>
          reading (phraseRest d inner.2 ops ⟨inner.1, e.pending + 1⟩ false) := by
  obtain ⟨kind, text, position⟩ := t
  obtain rfl : kind = .identifier := ht
  rw [phraseRest]
  simp only [if_true] at hf ⊢
  simp only [hf]
  cases call d ⟨.identifier, text, position⟩ f ts e.nodes with
  | error r => rfl
  | ok inner => exact reading_weaken _ _

theorem reading_phraseRest_variable (ht : t.kind = .identifier)
    (hname : d.resolver.resolve? t.text = none) :
    reading (phraseRest d (t :: ts) ops e true)
      = reading (phraseRest d ts ops (e.operand (.load t.text)) false) := by
  obtain ⟨kind, text, position⟩ := t
  obtain rfl : kind = .identifier := ht
  rw [phraseRest]
  simp only [if_true] at hname ⊢
  simp only [hname, reading_weaken]

theorem reading_phraseRest_noOperand (ht : StartsNoOperand t) :
    reading (phraseRest d (t :: ts) ops e true) = ending (t :: ts) ops e := by
  obtain ⟨hliteral, hunary, hparenthesis, hidentifier⟩ := ht
  obtain ⟨kind, text, position⟩ := t
  simp only [Token.IsSymbol] at hliteral hunary hparenthesis hidentifier
  rw [phraseRest]
  simp only [hliteral, hunary]
  exact reading_endPhrase _ _ _

theorem reading_phraseRest_binary {op : BinaryOp} (ht : t.kind.binaryOp? = some op) :
    reading (phraseRest d (t :: ts) ops e false)
      = match Emitted.reduce? d op ops e with
        | none => .error ⟨.invalidPhrase, t :: ts, []⟩
        | some (ops, e) => reading (phraseRest d ts (.binary op :: ops) e true) := by
  rw [phraseRest]
  simp only [ht]
  cases Emitted.reduce? d op ops e <;> simp

theorem reading_phraseRest_noBinary (ht : t.kind.binaryOp? = none) :
    reading (phraseRest d (t :: ts) ops e false) = ending (t :: ts) ops e := by
  rw [phraseRest]
  simp [ht, reading_endPhrase]

/-- **Everything a token can be where an operand is expected.** -/
theorem operand_cases (d : Dialect σ) (t : Token) :
    (∃ v, t.kind.literal? = some v) ∨ (∃ op, t.kind.unaryOp? = some op) ∨
      t.IsSymbol .leftParen ∨
      (t.kind = .identifier ∧ ∃ f, d.resolver.resolve? t.text = some f) ∨
      (t.kind = .identifier ∧ d.resolver.resolve? t.text = none) ∨ StartsNoOperand t := by
  by_cases hidentifier : t.kind = .identifier
  · cases hf : d.resolver.resolve? t.text with
    | none => simp [hidentifier]
    | some f => simp [hidentifier]
  by_cases hparenthesis : t.IsSymbol .leftParen
  · simp [hparenthesis]
  cases hliteral : t.kind.literal? with
  | some v => simp
  | none =>
    cases hunary : t.kind.unaryOp? with
    | some op => simp
    | none => exact .inr (.inr (.inr (.inr (.inr
        ⟨hliteral, hunary, hparenthesis, hidentifier⟩))))

end

/-! ## Phrases, arguments and calls -/

theorem reading_phrase (ts : List Token) (out : List (Node σ)) :
    reading (phrase d ts out) = reading (phraseRest d ts [] ⟨out, 0⟩ true) := by
  rw [phrase]

/-- What is read after the parenthesis that opens the arguments of a
function with `n` parameters. -/
def argumentList (d : Dialect σ) : Nat → List Token → List (Node σ) →
    Except Rejection (List (Node σ) × List Token)
  | 0, ts, out => (skip (.symbol .rightParen) .closeAfterArguments ts).map (out, ·)
  | 1, ts, out =>
    (reading (phrase d ts out)).bind fun argument =>
      (skip (.symbol .rightParen) .closeAfterArguments argument.2).map (argument.1, ·)
  | n + 2, ts, out =>
    (reading (phrase d ts out)).bind fun argument =>
      (skip (.symbol .comma) .commaAfterArgument argument.2).bind fun after =>
        argumentList d (n + 1) after argument.1

theorem argumentList_one (ts : List Token) (out : List (Node σ)) :
    argumentList d 1 ts out
      = (reading (phrase d ts out)).bind fun argument =>
          (skip (.symbol .rightParen) .closeAfterArguments argument.2).map (argument.1, ·) := by
  rw [argumentList]

theorem argumentList_more (n : Nat) (ts : List Token) (out : List (Node σ)) :
    argumentList d (n + 2) ts out
      = (reading (phrase d ts out)).bind fun argument =>
          (skip (.symbol .comma) .commaAfterArgument argument.2).bind fun after =>
            argumentList d (n + 1) after argument.1 := by
  rw [argumentList]

/-- Wherever arguments fail, this is noted with the call, and once. -/
theorem reading_arguments (noted : OpenCall) (n : Nat) (ts : List Token) (out : List (Node σ)) :
    reading (arguments d noted n ts out)
      = (argumentList d (n + 1) ts out).mapError (·.within noted) := by
  induction n generalizing ts out with
  | zero =>
    rw [arguments, argumentList_one]
    cases phrase d ts out with
    | error r => rfl
    | ok argument =>
      simp only [reading_ok, Except.bind, ← expect_map_val]
      cases expect (.symbol .rightParen) .closeAfterArguments argument.rest <;> rfl
  | succ n ih =>
    rw [arguments, argumentList_more]
    cases phrase d ts out with
    | error r => rfl
    | ok argument =>
      simp only [reading_ok, Except.bind, ← expect_map_val]
      cases expect (.symbol .comma) .commaAfterArgument argument.rest with
      | error r => rfl
      | ok after => exact (reading_weaken _ _).trans (ih _ _)

theorem reading_call (t : Token) (f : NativeFunction σ) (ts : List Token)
    (out : List (Node σ)) :
    reading (call d t f ts out)
      = (((skip (.symbol .leftParen) .openAfterFunction ts).bind fun inside =>
          argumentList d f.arity inside out).mapError (·.within ⟨f.name, t⟩)).map
            fun inner => (inner.1 ++ [.call f], inner.2) := by
  rw [call]
  simp only [← expect_map_val]
  cases expect (.symbol .leftParen) .openAfterFunction ts with
  | error r => rfl
  | ok inside =>
    simp only [Except.bind, Except.map]
    cases f.arity with
    | zero =>
      simp only [argumentList, ← expect_map_val]
      cases expect (.symbol .rightParen) .closeAfterArguments inside.1 <;> rfl
    | succ n =>
      rw [← reading_arguments]
      dsimp only
      cases arguments d ⟨f.name, t⟩ n inside.1 out <;> rfl

end Parser

end ScalarLang
