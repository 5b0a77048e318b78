import ScalarLang.Proofs.Parsing.PhraseLoop
/-!
# The parser ends and advances

The parser is defined by recursion on the tokens left, so that it ends is
part of its definition. Here it is written a second time without a measure
(`Metered`): each function may only nest so many calls, and gives up when
it would need more. From a number of calls that is linear in the number of
tokens on, whatever arities the functions of a resolver have, it does not
give up, and comes to what the parser comes to.

What is read successfully takes at least one token (`Parsed.Advances`), by
which the loops of the parser come to an end.
-/

namespace ScalarLang

namespace Parser

variable {σ : Type} {d : Dialect σ}

/-! ## The parser with its calls metered -/

/-- What a parser comes to with the calls that it may nest, if it needs no
more. -/
abbrev Metered (α : Type) := Option (Except Rejection α)

namespace Metered

/-- Goes on from what was read. -/
def andThen {α β : Type} (x : Metered α) (f : α → Metered β) : Metered β :=
  match x with
  | none => none
  | some (.error r) => some (.error r)
  | some (.ok a) => f a

/-- What was read needs no calls, and where it was read nothing after it
needs more than there are. -/
theorem andThen_some {α β : Type} {x : Except Rejection α} {f : α → Metered β}
    {g : α → Except Rejection β} (h : ∀ a, x = .ok a → f a = some (g a)) :
    andThen (some x) f = some (x.bind g) := by
  cases x with
  | error r => rfl
  | ok a => exact h a rfl

mutual

/-- The loop of a phrase from a state on. -/
def phraseRest (d : Dialect σ) : Nat → PhraseState σ → Metered (List (Node σ) × List Token)
  | 0, _ => none
  | n + 1, s =>
    match s.meets d with
    | .token next => phraseRest d n next
    | .opens inside =>
      (phrase d n inside s.emitted.nodes).andThen fun inner =>
        andThen (some (skip (.symbol .rightParen) .closeAfterPhrase inner.2)) fun after =>
          phraseRest d n (s.afterOperand inner.1 after)
    | .calls t f after =>
      (call d n t f after s.emitted.nodes).andThen fun inner =>
        phraseRest d n (s.afterOperand inner.1 inner.2)
    | .stops => some (ending s.tokens s.waiting s.emitted)
    | .refuses => some (.error ⟨.invalidPhrase, s.tokens, []⟩)

/-- A phrase. -/
def phrase (d : Dialect σ) :
    Nat → List Token → List (Node σ) → Metered (List (Node σ) × List Token)
  | 0, _, _ => none
  | n + 1, ts, out => phraseRest d n (.start ts out)

/-- The arguments of a function with the given number of parameters. -/
def argumentList (d : Dialect σ) :
    Nat → Nat → List Token → List (Node σ) → Metered (List (Node σ) × List Token)
  | 0, _, _, _ => none
  | _ + 1, 0, ts, out =>
    some ((skip (.symbol .rightParen) .closeAfterArguments ts).map (out, ·))
  | n + 1, 1, ts, out =>
    (phrase d n ts out).andThen fun argument =>
      some ((skip (.symbol .rightParen) .closeAfterArguments argument.2).map (argument.1, ·))
  | n + 1, arity + 2, ts, out =>
    (phrase d n ts out).andThen fun argument =>
      andThen (some (skip (.symbol .comma) .commaAfterArgument argument.2)) fun after =>
        argumentList d n (arity + 1) after argument.1

/-- A call after the name of the function. -/
def call (d : Dialect σ) : Nat → Token → NativeFunction σ → List Token → List (Node σ) →
    Metered (List (Node σ) × List Token)
  | 0, _, _, _, _ => none
  | n + 1, t, f, ts, out =>
    (andThen (some (skip (.symbol .leftParen) .openAfterFunction ts)) fun inside =>
        argumentList d n f.arity inside out).map fun read =>
      (read.mapError (·.within ⟨f.name, t⟩)).map fun inner =>
        (inner.1 ++ [.call f], inner.2)

end

/-- A phrase and the semicolon after it. -/
def phraseStatement (d : Dialect σ) (n : Nat) (ts : List Token) (out : List (Node σ))
    (taker : Directive) : Metered (List (Node σ) × List Token) :=
  (phrase d n ts out).andThen fun p =>
    some ((skip (.symbol .semicolon) .semicolon p.2).map (p.1 ++ [.directive taker], ·))

/-- The condition of a conditional. -/
def condition (d : Dialect σ) (n : Nat) (ts : List Token) :
    Metered (List (Node σ) × List Token) :=
  andThen (some (skip (.symbol .leftParen) .openAfterIf ts)) fun inside =>
    (phrase d n inside []).andThen fun p =>
      some ((skip (.symbol .rightParen) .closeAfterCondition p.2).map (p.1, ·))

/-- What follows the first block of a conditional. -/
def alternative (block : List Token → Metered (List (Node σ) × List Token)) :
    List Token → Metered (Option (List (Node σ)) × List Token)
  | [] => some (.ok (none, []))
  | t :: ts =>
    if t.kind = .keyword .else then
      (block ts).map fun read => read.map fun failure => (some failure.1, failure.2)
    else some (.ok (none, t :: ts))

mutual

/-- A statement. -/
def statement (d : Dialect σ) :
    Nat → List Token → List (Node σ) → Metered (List (Node σ) × List Token)
  | 0, _, _ => none
  | _ + 1, [], _ => some (.error ⟨.expected .statement, [], []⟩)
  | n + 1, t :: ts, out =>
    if t.kind = .keyword .if then
      (condition d n ts).andThen fun condition =>
        (block d n condition.2).andThen fun success =>
          (alternative (block d n) success.2).map fun read => read.map fun failure =>
            (out ++ [.branch condition.1 success.1 failure.1], failure.2)
    else if t.kind = .keyword .return then phraseStatement d n ts out .return
    else if t.kind = .identifier then
      if d.resolver.contains t.text then
        some (.error ⟨.functionAssignment t.text, t :: ts, []⟩)
      else
        andThen (some (skip (.symbol .assign) .assignSign ts)) fun after =>
          phraseStatement d n after out (.store t.text)
    else some (.error ⟨.expected .statement, t :: ts, []⟩)

/-- A block. -/
def block (d : Dialect σ) : Nat → List Token → Metered (List (Node σ) × List Token)
  | 0, _ => none
  | n + 1, [] => statement d n [] []
  | n + 1, t :: ts =>
    if t.kind = .symbol .leftBrace then statements d n ts []
    else statement d n (t :: ts) []

/-- Statements and the brace that closes them. -/
def statements (d : Dialect σ) :
    Nat → List Token → List (Node σ) → Metered (List (Node σ) × List Token)
  | 0, _, _ => none
  | _ + 1, [], _ => some (.error ⟨.expected .closeBrace, [], []⟩)
  | n + 1, t :: ts, out =>
    if t.kind = .symbol .rightBrace then some (.ok (out, ts))
    else (statement d n (t :: ts) out).andThen fun s => statements d n s.2 s.1

end

/-- Statements as long as there are tokens. -/
def allStatements (d : Dialect σ) :
    Nat → List Token → List (Node σ) → Metered (List (Node σ))
  | 0, _, _ => none
  | _ + 1, [], out => some (.ok out)
  | n + 1, t :: ts, out =>
    (statement d n (t :: ts) out).andThen fun s => allStatements d n s.2 s.1

/-- Requires that no tokens are left. -/
def atEnd : List (Node σ) × List Token → Metered (List (Node σ))
  | (nodes, []) => some (.ok nodes)
  | (_, t :: rest) => some (.error ⟨.expected .endOfInput, t :: rest, []⟩)

/-- A phrase that takes up all tokens. -/
def topPhrase (d : Dialect σ) (n : Nat) (ts : List Token) : Metered (List (Node σ)) :=
  (phrase d n ts []).andThen atEnd

/-- A program that takes up all tokens. -/
def topBlock (d : Dialect σ) (n : Nat) : List Token → Metered (List (Node σ))
  | [] => allStatements d n [] []
  | t :: ts =>
    if t.kind = .symbol .leftBrace then (statements d n ts []).andThen atEnd
    else allStatements d n (t :: ts) []

/-! ## Enough calls -/

mutual

/-- The loop of a phrase ends. -/
theorem phraseRest_eq {n : Nat} {s : PhraseState σ} (h : 4 * s.tokens.length + 1 ≤ n) :
    phraseRest d n s = some (s.outcome d) := by
  match n with
  | n + 1 =>
    rw [phraseRest, PhraseState.outcome_eq]
    cases hmeets : s.meets d with
    | token next =>
      have hlt := PhraseState.length_lt_of_meets hmeets rfl
      exact phraseRest_eq (by omega)
    | opens inside =>
      have hlt := PhraseState.length_lt_of_meets hmeets rfl
      dsimp only
      rw [phrase_eq (by omega)]
      refine andThen_some fun inner hinner => andThen_some fun after hafter => ?_
      have hinner := length_le_of_reading hinner
      have hafter := length_of_skip hafter
      exact phraseRest_eq (by simp only [PhraseState.afterOperand]; omega)
    | calls t f after =>
      have hlt := PhraseState.length_lt_of_meets hmeets rfl
      dsimp only
      rw [call_eq (by omega)]
      refine andThen_some fun inner hinner => ?_
      have hinner := length_le_of_reading hinner
      exact phraseRest_eq (by simp only [PhraseState.afterOperand]; omega)
    | stops => rfl
    | refuses => rfl
termination_by n

/-- A phrase ends. -/
theorem phrase_eq {n : Nat} {ts : List Token} {out : List (Node σ)}
    (h : 4 * ts.length + 2 ≤ n) : phrase d n ts out = some (reading (Parser.phrase d ts out)) := by
  match n with
  | n + 1 =>
    rw [phrase, PhraseState.reading_phrase_eq_outcome]
    exact phraseRest_eq (by simp only [PhraseState.start]; omega)
termination_by n

/-- Arguments end, however many there are. -/
theorem argumentList_eq {n arity : Nat} {ts : List Token} {out : List (Node σ)}
    (h : 4 * ts.length + 3 ≤ n) :
    argumentList d n arity ts out = some (Parser.argumentList d arity ts out) := by
  match n, arity with
  | n + 1, 0 => rfl
  | n + 1, 1 =>
    rw [argumentList, argumentList_one, phrase_eq (by omega)]
    exact andThen_some fun argument _ => rfl
  | n + 1, arity + 2 =>
    rw [argumentList, argumentList_more, phrase_eq (by omega)]
    refine andThen_some fun argument hargument => andThen_some fun after hafter => ?_
    have hargument := length_le_of_reading hargument
    have hafter := length_of_skip hafter
    exact argumentList_eq (by omega)
termination_by n

/-- A call ends. -/
theorem call_eq {n : Nat} {t : Token} {f : NativeFunction σ} {ts : List Token}
    {out : List (Node σ)} (h : 4 * ts.length + 4 ≤ n) :
    call d n t f ts out = some (reading (Parser.call d t f ts out)) := by
  match n with
  | n + 1 =>
    have hread : andThen (some (skip (.symbol .leftParen) .openAfterFunction ts)) (fun inside =>
        argumentList d n f.arity inside out) = some
          ((skip (.symbol .leftParen) .openAfterFunction ts).bind fun inside =>
            Parser.argumentList d f.arity inside out) := by
      refine andThen_some fun inside hinside => ?_
      have hinside := length_of_skip hinside
      exact argumentList_eq (by omega)
    rw [call, hread, reading_call]
    rfl
termination_by n

end

/-- A statement that is a phrase and a semicolon ends. -/
theorem phraseStatement_eq {n : Nat} {ts : List Token} {out : List (Node σ)} {taker : Directive}
    (h : 4 * ts.length + 2 ≤ n) :
    phraseStatement d n ts out taker
      = some (reading (Parser.phraseStatement d ts out taker)) := by
  rw [phraseStatement, reading_phraseStatement, phrase_eq h]
  exact andThen_some fun p _ => rfl

/-- A condition ends. -/
theorem condition_eq {n : Nat} {ts : List Token} (h : 4 * ts.length + 2 ≤ n) :
    condition d n ts = some (reading (Parser.condition d ts)) := by
  rw [condition, reading_condition]
  refine andThen_some fun inside hinside => ?_
  have hinside := length_of_skip hinside
  rw [phrase_eq (by omega)]
  exact andThen_some fun p _ => rfl

/-- What follows the first block of a conditional ends if blocks do. -/
theorem alternative_eq {block : List Token → Metered (List (Node σ) × List Token)}
    {ts : List Token}
    (h : ∀ t us, ts = t :: us → block us = some (reading (Parser.block d us))) :
    alternative block ts = some (Parser.alternative d ts) := by
  match ts with
  | [] => rfl
  | t :: ts =>
    rw [alternative, Parser.alternative, h t ts rfl]
    split <;> rfl

mutual

/-- A statement ends. -/
theorem statement_eq {n : Nat} {ts : List Token} {out : List (Node σ)}
    (h : 4 * ts.length + 1 ≤ n) :
    statement d n ts out = some (reading (Parser.statement d ts out)) := by
  match n, ts with
  | n + 1, [] =>
    rw [reading_statement_nil]
    rfl
  | n + 1, t :: ts =>
    rw [List.length_cons] at h
    rw [statement]
    rcases statement_cases d t with ht | ht | ⟨ht, hname⟩ | ⟨ht, hname⟩ | ht
    · have hkind : t.kind = .keyword .if := ht
      rw [reading_statement_if ht, if_pos hkind, condition_eq (by omega)]
      refine andThen_some fun condition hcondition => ?_
      have hcondition := length_le_of_reading hcondition
      rw [block_eq (by omega)]
      refine andThen_some fun success hsuccess => ?_
      have hsuccess := length_le_of_reading hsuccess
      rw [alternative_eq (d := d) fun e us hrest => block_eq (by
        rw [hrest, List.length_cons] at hsuccess
        omega)]
      rfl
    · have hkind : t.kind = .keyword .return := ht
      rw [reading_statement_return ht, if_neg (by simp [hkind]), if_pos hkind]
      exact phraseStatement_eq (by omega)
    · rw [reading_statement_assign ht hname, reading_assignment, if_neg (by simp [ht]),
        if_neg (by simp [ht]), if_pos ht, if_neg (by simp [hname])]
      refine andThen_some fun after hafter => ?_
      have hafter := length_of_skip hafter
      exact phraseStatement_eq (by omega)
    · rw [reading_statement_function ht hname, if_neg (by simp [ht]), if_neg (by simp [ht]),
        if_pos ht, if_pos hname]
    · rw [reading_statement_noStatement ht]
      simp only [Token.StartsStatement, Token.IsKeyword, not_or] at ht
      rw [if_neg ht.1, if_neg ht.2.1, if_neg ht.2.2]
termination_by n

/-- A block ends. -/
theorem block_eq {n : Nat} {ts : List Token} (h : 4 * ts.length + 2 ≤ n) :
    block d n ts = some (reading (Parser.block d ts)) := by
  match n, ts with
  | n + 1, [] =>
    rw [block, reading_block_statement (by simp)]
    exact statement_eq (by omega)
  | n + 1, t :: ts =>
    rw [block]
    split
    · rename_i ht
      rw [reading_block_brace ht]
      exact statements_eq (by rw [List.length_cons] at h; omega)
    · rename_i ht
      rw [reading_block_statement (by simpa [Token.IsSymbol] using ht)]
      exact statement_eq (by omega)
termination_by n

/-- Statements up to a brace end. -/
theorem statements_eq {n : Nat} {ts : List Token} {out : List (Node σ)}
    (h : 4 * ts.length + 2 ≤ n) :
    statements d n ts out = some (reading (Parser.statements d ts out)) := by
  match n, ts with
  | n + 1, [] =>
    rw [reading_statements_nil]
    rfl
  | n + 1, t :: ts =>
    rw [statements]
    split
    · rename_i ht
      rw [reading_statements_brace ht]
    · rename_i ht
      rw [reading_statements_statement ht, statement_eq (by omega)]
      refine andThen_some fun s hs => ?_
      have hs := length_le_of_reading hs
      rw [List.length_cons] at h hs
      exact statements_eq (by omega)
termination_by n

end

/-- Statements up to the end of the tokens end. -/
theorem allStatements_eq {n : Nat} {ts : List Token} {out : List (Node σ)}
    (h : 4 * ts.length + 2 ≤ n) :
    allStatements d n ts out = some (Parser.allStatements d ts out) := by
  match n, ts with
  | n + 1, [] =>
    rw [allStatements, Parser.allStatements]
  | n + 1, t :: ts =>
    rw [allStatements, allStatements_cons, statement_eq (by omega)]
    refine andThen_some fun s hs => ?_
    have hs := length_le_of_reading hs
    rw [List.length_cons] at h hs
    exact allStatements_eq (by omega)
termination_by n

/-- That no tokens are left is required of what was read. -/
theorem andThen_atEnd {n : Nat} (r : Except Rejection (Parsed σ n)) :
    andThen (some (reading r)) atEnd = some (r.bind Parser.atEnd) := by
  cases r with
  | error r => rfl
  | ok p =>
    obtain ⟨nodes, rest, hle⟩ := p
    cases rest <;> rfl

/-- **A phrase that takes up all tokens is read with enough calls.** -/
theorem topPhrase_eq {n : Nat} {ts : List Token} (h : 4 * ts.length + 2 ≤ n) :
    topPhrase d n ts = some (Parser.topPhrase d ts) := by
  rw [topPhrase, phrase_eq h]
  exact andThen_atEnd _

/-- **So is a program.** -/
theorem topBlock_eq {n : Nat} {ts : List Token} (h : 4 * ts.length + 2 ≤ n) :
    topBlock d n ts = some (Parser.topBlock d ts) := by
  match ts with
  | [] =>
    rw [topBlock, topBlock_statements (by simp)]
    exact allStatements_eq h
  | t :: ts =>
    rw [topBlock]
    split
    · rename_i ht
      rw [topBlock_brace ht, statements_eq (by rw [List.length_cons] at h; omega)]
      exact andThen_atEnd _
    · rename_i ht
      rw [topBlock_statements (by simpa [Token.IsSymbol] using ht)]
      exact allStatements_eq h

end Metered

end Parser

/-! ## Progress -/

/-- Reading from a position on has moved the position by one token at least
and not past the last, and has emitted nodes after those given. -/
def Parsed.Advances {σ : Type} (ts : List Token) (position : Nat) (out : List (Node σ)) {n : Nat}
    (p : Parsed σ n) : Prop :=
  ∃ position', position < position' ∧ position' ≤ ts.length ∧ p.rest = ts.drop position' ∧
    out <+: p.nodes

/-- What is read is taken from the tokens at the position. -/
theorem Parsed.Advances.of_used {σ : Type} {ts used : List Token} {position : Nat}
    {out more : List (Node σ)} {n : Nat} {p : Parsed σ n}
    (hread : ts.drop position = used ++ p.rest) (hused : used ≠ [])
    (hnodes : p.nodes = out ++ more) : p.Advances ts position out := by
  have hpos := List.length_pos_iff.mpr hused
  have hlength := congrArg List.length hread
  rw [List.length_drop, List.length_append] at hlength
  refine ⟨position + used.length, by omega, by omega, ?_, more, hnodes.symm⟩
  rw [← List.drop_drop, hread, List.drop_left]

namespace Parser

variable {σ : Type} {d : Dialect σ}

section

variable {ts : List Token} {position : Nat} {out : List (Node σ)} (hd : d.Uniform)

include hd

/-- A phrase takes a token. -/
theorem phrase_advances {p : Parsed σ (ts.drop position).length}
    (h : phrase d (ts.drop position) out = .ok p) : p.Advances ts position out := by
  obtain ⟨used, q, hread, hq, hnodes⟩ := phrase_sound hd (congrArg reading h)
  exact .of_used hread hq.ne_nil hnodes

/-- A call takes a token after the name of the function. -/
theorem call_advances {t : Token} {f : NativeFunction σ}
    {p : Parsed σ (ts.drop position).length} (h : call d t f (ts.drop position) out = .ok p) :
    p.Advances ts position out := by
  have hread := congrArg reading h
  rw [reading_call] at hread
  obtain ⟨⟨inner, rest⟩, hinner, heq⟩ := map_eq_ok hread
  obtain ⟨inside, hskip, harguments⟩ := bind_eq_ok (mapError_eq_ok hinner)
  obtain ⟨l, -, hts⟩ := skip_eq_ok hskip
  obtain ⟨used, r, ps, rfl, -, -, rfl⟩ := argumentList_sound hd harguments
  obtain ⟨hnodes, hrest⟩ := Prod.mk.inj heq
  have hused : ts.drop position = (l :: used ++ [r]) ++ p.rest :=
    hts.trans (by rw [← hrest]; simp)
  exact .of_used hused (by simp) (hnodes.symm.trans (List.append_assoc _ _ _))

/-- A statement takes a token. -/
theorem statement_advances {p : Parsed σ ((ts.drop position).length - 1)}
    (h : statement d (ts.drop position) out = .ok p) : p.Advances ts position out := by
  obtain ⟨used, s, _, hread, hs, hnodes, -⟩ := statement_sound hd (congrArg reading h)
  exact .of_used hread hs.ne_nil hnodes

/-- A block takes a token. -/
theorem block_advances {p : Parsed σ ((ts.drop position).length - 1)}
    (h : block d (ts.drop position) = .ok p) : p.Advances ts position [] := by
  obtain ⟨used, ss, _, hread, hss, hnodes, -⟩ := block_sound hd (congrArg reading h)
  exact .of_used hread hss.ne_nil hnodes

end

/-- **The parser ends and advances.** With `4 * ts.length + 2` nested calls
or more, all tokens are read to the end, whatever the arities of the
functions are; and whatever is read from a position on moves the position. -/
theorem ends_and_advances (r : Resolver σ) (ts : List Token) :
    let d : Dialect σ := ⟨r, BinaryOp.isRightAssoc⟩
    (∀ n, 4 * ts.length + 2 ≤ n →
      Metered.topPhrase d n ts = some (topPhrase d ts) ∧
        Metered.topBlock d n ts = some (topBlock d ts)) ∧
    ∀ position out,
      (∀ p, phrase d (ts.drop position) out = .ok p → p.Advances ts position out) ∧
      (∀ t f p, call d t f (ts.drop position) out = .ok p → p.Advances ts position out) ∧
      (∀ p, statement d (ts.drop position) out = .ok p → p.Advances ts position out) ∧
      ∀ p, block d (ts.drop position) = .ok p → p.Advances ts position [] := by
  intro d
  have hd : d.Uniform := BinaryOp.uniform_isRightAssoc r
  exact ⟨fun n hn => ⟨Metered.topPhrase_eq hn, Metered.topBlock_eq hn⟩,
    fun position out => ⟨fun p => phrase_advances hd, fun t f p => call_advances hd,
      fun p => statement_advances hd, fun p => block_advances hd⟩⟩

/-- The program `x = max(1, 2);`, for which three nested calls are too few,
and whose phrase is read from the third token on. -/
theorem ends_and_advances_max :
    let word (text : String) : Token := ⟨.identifier, text, .start⟩
    let number (n : Int64) : Token := ⟨.number (.integer n), toString n.toInt, .start⟩
    let sign (s : Symbol) : Token := ⟨.symbol s, s.spelling, .start⟩
    let ts := [word "x", sign .assign, word "max", sign .leftParen, number 1, sign .comma,
      number 2, sign .rightParen, sign .semicolon]
    let d : Dialect Unit := ⟨.math, BinaryOp.isRightAssoc⟩
    Metered.topBlock d 3 ts = none ∧ Metered.topBlock d 38 ts = some (topBlock d ts) ∧
      ∃ p, phrase d (ts.drop 2) [] = .ok p ∧ p.Advances ts 2 [] := by
  intro word number sign ts d
  have h := ends_and_advances (.math : Resolver Unit) ts
  refine ⟨by decide +kernel, (h.1 38 (by decide)).2, ?_⟩
  have hread : (phrase d (ts.drop 2) []).toOption.isSome = true := by decide +kernel
  cases hphrase : phrase d (ts.drop 2) [] with
  | error r =>
    rw [hphrase] at hread
    cases hread
  | ok p => exact ⟨p, rfl, (h.2 2 []).1 p hphrase⟩

end Parser

end ScalarLang
