import ScalarLang.Parser.Phrase
/-!
# Statements

Statements are conditionals, `return` statements and assignments. A block
is one statement or a list of them between braces; a program is a list of
statements, with or without braces around it. An `else` belongs to the
nearest `if` before it, since a conditional takes the `else` that follows
its block.
-/

namespace ScalarLang

namespace Parser

variable {σ : Type}

/-- Reads a phrase and the semicolon after it, and emits both its nodes and
the directive that takes its value. -/
def phraseStatement (d : Dialect σ) (ts : List Token) (out : List (Node σ))
    (taker : Directive) : Except Rejection (Parsed σ ts.length) :=
  match phrase d ts out with
  | .error r => .error r
  | .ok p =>
    match expect (.symbol .semicolon) .semicolon p.rest with
    | .error r => .error r
    | .ok after => .ok ((p.skipTo after).emit (.directive taker))

/-- Reads the condition of a conditional with its parentheses. -/
def condition (d : Dialect σ) (ts : List Token) : Except Rejection (Parsed σ ts.length) :=
  match expect (.symbol .leftParen) .openAfterIf ts with
  | .error r => .error r
  | .ok inside =>
    match phrase d inside.1 [] with
    | .error r => .error r
    | .ok p =>
      match expect (.symbol .rightParen) .closeAfterCondition p.rest with
      | .error r => .error r
      | .ok after => .ok (.behind inside (p.skipTo after))

/-- Reads an assignment after the name of the variable. -/
def assignment (d : Dialect σ) (name : String) (ts : List Token) (out : List (Node σ)) :
    Except Rejection (Parsed σ ts.length) :=
  match expect (.symbol .assign) .assignSign ts with
  | .error r => .error r
  | .ok after => (phraseStatement d after.1 out (.store name)).map (.behind after)

mutual

/-- Reads a statement and emits its nodes after the given ones. It takes at
least one token. -/
def statement (d : Dialect σ) (ts : List Token) (out : List (Node σ)) :
    Except Rejection (Parsed σ (ts.length - 1)) :=
  match ts with
  | [] => .error ⟨.expected .statement, [], []⟩
  | t :: rest =>
    match t.kind with
    | .keyword .if =>
      match condition d rest with
      | .error r => .error r
      | .ok cond =>
        have hcond := cond.length_le
        match block d cond.rest with
        | .error r => .error r
        | .ok success =>
          have hsuccess := success.length_le
          match success.rest, hsuccess with
          | ⟨.keyword .else, _, _⟩ :: more, hmore =>
            have hlt : more.length < rest.length := by
              simp only [List.length_cons] at hmore
              omega
            match block d more with
            | .error r => .error r
            | .ok failure =>
              .ok ⟨out ++ [.branch cond.nodes success.nodes (some failure.nodes)], failure.rest,
                by have := failure.length_le; simp only [List.length_cons]; omega⟩
          | after, hafter =>
            .ok ⟨out ++ [.branch cond.nodes success.nodes none], after,
              by simp only [List.length_cons]; omega⟩
    | .keyword .return => phraseStatement d rest out .return
    | .identifier =>
      if d.resolver.contains t.text then
        .error ⟨.functionAssignment t.text, t :: rest, []⟩
      else assignment d t.text rest out
    | _ => .error ⟨.expected .statement, t :: rest, []⟩
termination_by 2 * ts.length

/-- Reads a block, which takes at least one token. -/
def block (d : Dialect σ) (ts : List Token) : Except Rejection (Parsed σ (ts.length - 1)) :=
  match ts with
  | ⟨.symbol .leftBrace, _, _⟩ :: rest => statements d rest []
  | ts => statement d ts []
termination_by 2 * ts.length + 1

/-- Reads statements and the brace that closes them. -/
def statements (d : Dialect σ) (ts : List Token) (out : List (Node σ)) :
    Except Rejection (Parsed σ ts.length) :=
  match ts with
  | [] => .error ⟨.expected .closeBrace, [], []⟩
  | ⟨.symbol .rightBrace, _, _⟩ :: rest => .ok ⟨out, rest, Nat.le_succ _⟩
  | t :: rest =>
    match statement d (t :: rest) out with
    | .error r => .error r
    | .ok p =>
      have hle : p.rest.length ≤ rest.length := p.length_le
      (statements d p.rest p.nodes).map (.weaken (Nat.le_succ_of_le hle))
termination_by 2 * ts.length + 1

end

/-- Reads statements as long as there are tokens. -/
def allStatements (d : Dialect σ) (ts : List Token) (out : List (Node σ)) :
    Except Rejection (List (Node σ)) :=
  match ts with
  | [] => .ok out
  | t :: rest =>
    match statement d (t :: rest) out with
    | .error r => .error r
    | .ok p =>
      have : p.rest.length ≤ rest.length := p.length_le
      allStatements d p.rest p.nodes
termination_by ts.length

/-- The nodes of a program that takes up all tokens: statements, or one
list of them between braces. -/
def topBlock (d : Dialect σ) (ts : List Token) : Except Rejection (List (Node σ)) :=
  match ts with
  | ⟨.symbol .leftBrace, _, _⟩ :: rest => (statements d rest []).bind atEnd
  | ts => allStatements d ts []

end Parser

end ScalarLang
