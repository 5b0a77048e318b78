import ScalarLang.Function.Resolver
import ScalarLang.Parser.Diagnostic
import ScalarLang.Program.Node
/-!
# Phrases

A phrase is read from left to right into postfix order. Operands are
emitted as they come; operators wait on a stack until one that binds no
tighter follows, or the phrase ends. `pending` counts the values that the
nodes emitted for the phrase leave behind, and an operator that would
find too few is an error.

Every function here returns the tokens it leaves with a proof that they
are no more than it was given, by which the recursion ends.
-/

namespace ScalarLang

/-- What a parser has to know besides the tokens: which names are
functions, and which operators group to the right. -/
structure Dialect (σ : Type) where
  resolver : Resolver σ
  rightAssoc : BinaryOp → Bool := BinaryOp.isRightAssoc

/-- Nodes, and the tokens left after those that the nodes were read from,
at most `bound` of them. -/
structure Parsed (σ : Type) (bound : Nat) where
  nodes : List (Node σ)
  rest : List Token
  length_le : rest.length ≤ bound

/-- The same result, seen from a longer list of tokens. -/
def Parsed.weaken {σ : Type} {m n : Nat} (h : m ≤ n) (p : Parsed σ m) : Parsed σ n :=
  ⟨p.nodes, p.rest, Nat.le_trans p.length_le h⟩

/-! ## Tokens in a phrase -/

namespace TokenKind

/-- The value a token writes out. -/
def literal? : TokenKind → Option Value
  | .number (.integer n) => some (.integer n)
  | .number (.float x) => some (.float x)
  | .keyword .true => some (.boolean true)
  | .keyword .false => some (.boolean false)
  | .keyword .infinity => some (.float .infinity)
  | .keyword .nan => some (.float .nan)
  | _ => none

/-- The operator a token writes before an operand. -/
def unaryOp? : TokenKind → Option UnaryOp
  | .symbol s => UnaryOp.ofSymbol? s
  | _ => none

/-- The operator a token writes between operands. -/
def binaryOp? : TokenKind → Option BinaryOp
  | .symbol s => BinaryOp.ofSymbol? s
  | _ => none

end TokenKind

/-- Tokens that are left of a list after at least one of it. -/
abbrev Shorter (ts : List Token) := { rest : List Token // rest.length < ts.length }

/-- A result for the tokens left of a list, seen from the whole list. -/
def Parsed.behind {σ : Type} {ts : List Token} (rest : Shorter ts)
    (p : Parsed σ rest.1.length) : Parsed σ ts.length :=
  p.weaken (Nat.le_of_lt rest.2)

/-- The same result with more tokens read after it. -/
def Parsed.skipTo {σ : Type} {n : Nat} (p : Parsed σ n) (rest : Shorter p.rest) : Parsed σ n :=
  ⟨p.nodes, rest, Nat.le_trans (Nat.le_of_lt rest.2) p.length_le⟩

/-- The same result with more nodes emitted after its own. -/
def Parsed.emit {σ : Type} {n : Nat} (p : Parsed σ n) (node : Node σ) : Parsed σ n :=
  { p with nodes := p.nodes ++ [node] }

/-- The tokens after an expected one. -/
def expect (kind : TokenKind) (what : Expectation) (ts : List Token) :
    Except Rejection (Shorter ts) :=
  match ts with
  | t :: rest =>
    if t.kind = kind then .ok ⟨rest, Nat.lt_succ_self _⟩
    else .error ⟨.expected what, t :: rest, []⟩
  | [] => .error ⟨.expected what, [], []⟩

/-! ## Waiting operators -/

/-- An operator that waits for its last operand. -/
inductive PendingOp where
  | unary (op : UnaryOp)
  | binary (op : BinaryOp)
  deriving DecidableEq

namespace PendingOp

/-- Operators before their operand bind tightest. -/
def priority : PendingOp → Priority
  | unary _ => .unary
  | binary op => op.priority

/-- How many operands an operator takes. -/
def arity : PendingOp → Nat
  | unary _ => 1
  | binary _ => 2

/-- The directive an operator is emitted as. -/
def directive : PendingOp → Directive
  | unary op => .unary op
  | binary op => .binary op

/-- Whether a waiting operator takes its operand before `op` does. -/
def goesBefore {σ : Type} (d : Dialect σ) (waiting : PendingOp) (op : BinaryOp) : Bool :=
  op.priority.level < waiting.priority.level
    || (waiting.priority = op.priority && !d.rightAssoc op)

end PendingOp

/-- The nodes emitted so far, and how many values those of the current
phrase leave behind. -/
structure Emitted (σ : Type) where
  nodes : List (Node σ)
  pending : Nat

namespace Emitted

variable {σ : Type}

/-- Emits the push of an operand. -/
def operand (e : Emitted σ) (d : Directive) : Emitted σ :=
  ⟨e.nodes ++ [.directive d], e.pending + 1⟩

/-- Emits an operator, if there are operands for it. -/
def operator? (e : Emitted σ) (op : PendingOp) : Option (Emitted σ) :=
  if e.pending < op.arity then none
  else some ⟨e.nodes ++ [.directive op.directive], e.pending - (op.arity - 1)⟩

/-- Emits the waiting operators that go before `op`; the others keep
waiting. -/
def reduce? (d : Dialect σ) (op : BinaryOp) :
    List PendingOp → Emitted σ → Option (List PendingOp × Emitted σ)
  | [], e => some ([], e)
  | waiting :: ops, e =>
    if waiting.goesBefore d op then (e.operator? waiting).bind (reduce? d op ops)
    else some (waiting :: ops, e)

/-- Emits all waiting operators, which has to leave one value. -/
def finish? : List PendingOp → Emitted σ → Option (List (Node σ))
  | [], e => if e.pending = 1 then some e.nodes else none
  | waiting :: ops, e => (e.operator? waiting).bind (finish? ops)

end Emitted

/-! ## The parser -/

namespace Parser

variable {σ : Type}

/-- Ends a phrase before the given tokens. -/
def endPhrase (ts : List Token) (ops : List PendingOp) (e : Emitted σ) :
    Except Rejection (Parsed σ ts.length) :=
  match Emitted.finish? ops e with
  | some nodes => .ok ⟨nodes, ts, Nat.le_refl _⟩
  | none => .error ⟨.invalidPhrase, ts, []⟩

mutual

/-- Reads the rest of a phrase, from an operand or from an operator on.
The waiting operators are given innermost first. -/
def phraseRest (d : Dialect σ) (ts : List Token) (ops : List PendingOp) (e : Emitted σ)
    (expectsValue : Bool) : Except Rejection (Parsed σ ts.length) :=
  match ts with
  | [] => endPhrase [] ops e
  | t :: rest =>
    have hle := Nat.le_succ rest.length
    if expectsValue then
      match t.kind with
      | .symbol .leftParen =>
        match phrase d rest e.nodes with
        | .error r => .error r
        | .ok inner =>
          match expect (.symbol .rightParen) .closeAfterPhrase inner.rest with
          | .error r => .error r
          | .ok ⟨after, hlt⟩ =>
            have hafter : after.length < rest.length + 1 :=
              Nat.lt_succ_of_lt (Nat.lt_of_lt_of_le hlt inner.length_le)
            (phraseRest d after ops ⟨inner.nodes, e.pending + 1⟩ false).map
              (.weaken (Nat.le_of_lt hafter))
      | .identifier =>
        match d.resolver.resolve? t.text with
        | some f =>
          match call d t f rest e.nodes with
          | .error r => .error r
          | .ok inner =>
            have hafter : inner.rest.length < rest.length + 1 :=
              Nat.lt_succ_of_le inner.length_le
            (phraseRest d inner.rest ops ⟨inner.nodes, e.pending + 1⟩ false).map
              (.weaken (Nat.le_of_lt hafter))
        | none =>
          (phraseRest d rest ops (e.operand (.load t.text)) false).map (.weaken hle)
      | kind =>
        match kind.literal?, kind.unaryOp? with
        | some v, _ => (phraseRest d rest ops (e.operand (.push v)) false).map (.weaken hle)
        | none, some op => (phraseRest d rest (.unary op :: ops) e true).map (.weaken hle)
        | none, none => endPhrase (t :: rest) ops e
    else
      match t.kind.binaryOp? with
      | none => endPhrase (t :: rest) ops e
      | some op =>
        match Emitted.reduce? d op ops e with
        | none => .error ⟨.invalidPhrase, t :: rest, []⟩
        | some (ops, e) => (phraseRest d rest (.binary op :: ops) e true).map (.weaken hle)
termination_by 4 * ts.length

/-- Reads a phrase and emits its nodes after the given ones. -/
def phrase (d : Dialect σ) (ts : List Token) (out : List (Node σ)) :
    Except Rejection (Parsed σ ts.length) :=
  phraseRest d ts [] ⟨out, 0⟩ true
termination_by 4 * ts.length + 1

/-- Reads `n + 1` arguments and the parenthesis that closes them. A failure
is noted with the call. -/
def arguments (d : Dialect σ) (noted : OpenCall) (n : Nat) (ts : List Token)
    (out : List (Node σ)) : Except Rejection (Parsed σ ts.length) :=
  match phrase d ts out with
  | .error r => .error (r.within noted)
  | .ok argument =>
    match n with
    | 0 =>
      match expect (.symbol .rightParen) .closeAfterArguments argument.rest with
      | .error r => .error (r.within noted)
      | .ok after => .ok (argument.skipTo after)
    | n + 1 =>
      match expect (.symbol .comma) .commaAfterArgument argument.rest with
      | .error r => .error (r.within noted)
      | .ok ⟨after, hlt⟩ =>
        have hafter : after.length < ts.length := Nat.lt_of_lt_of_le hlt argument.length_le
        (arguments d noted n after argument.nodes).map (.weaken (Nat.le_of_lt hafter))
termination_by 4 * ts.length + 2

/-- Reads the arguments of a call after the name of the function and emits
them and the call. A failure after the name is noted with the call. -/
def call (d : Dialect σ) (name : Token) (f : NativeFunction σ) (ts : List Token)
    (out : List (Node σ)) : Except Rejection (Parsed σ ts.length) :=
  let noted : OpenCall := ⟨f.name, name⟩
  let read : Except Rejection (Parsed σ ts.length) :=
    match expect (.symbol .leftParen) .openAfterFunction ts with
    | .error r => .error (r.within noted)
    | .ok inside =>
      have := inside.2
      match f.arity with
      | 0 =>
        match expect (.symbol .rightParen) .closeAfterArguments inside.1 with
        | .error r => .error (r.within noted)
        | .ok after => .ok (.behind inside (.behind after ⟨out, after, Nat.le_refl _⟩))
      | n + 1 => (arguments d noted n inside.1 out).map (.behind inside)
  match read with
  | .error r => .error r
  | .ok p => .ok (p.emit (.call f))
termination_by 4 * ts.length + 3

end

/-- Requires that no tokens are left. -/
def atEnd {n : Nat} (p : Parsed σ n) : Except Rejection (List (Node σ)) :=
  match p.rest with
  | [] => .ok p.nodes
  | t :: rest => .error ⟨.expected .endOfInput, t :: rest, []⟩

/-- The nodes of a phrase that takes up all tokens. -/
def topPhrase (d : Dialect σ) (ts : List Token) : Except Rejection (List (Node σ)) :=
  (phrase d ts []).bind atEnd

end Parser

end ScalarLang
