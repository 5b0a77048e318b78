import ScalarLang.Token.Lexeme
/-!
# The lexer

A lexer walks over source text and gives out one token at a time
(`Lexer.next`). It stops for good at the end of the text or at the first
error. `tokenize` runs it to its end.
-/

namespace ScalarLang

/-- A failure to split source text into tokens: why, the text it concerns
and where that starts. -/
structure LexError where
  cause : LexCause
  text : String
  position : Position
  deriving DecidableEq

namespace LexError

/-- The line and column of the text an error concerns. -/
def location (e : LexError) : Location := e.position.location

/-- The message of an error after its location. -/
def message (e : LexError) : String := e.location.text ++ ": " ++ e.cause.message

end LexError

/-- A fault met at a position. -/
def LexFault.at (f : LexFault) (p : Position) : LexError :=
  ⟨f.cause, String.ofList f.text, p.advance f.before⟩

/-- A lexeme read at a position. -/
def Lexeme.at (l : Lexeme) (p : Position) : Token := ⟨l.kind, String.ofList l.text, p⟩

/-- The state of a lexer: the text that is left, where it starts, and
whether the lexer has stopped. -/
structure Lexer where
  position : Position
  rest : List Char
  finished : Bool
  deriving DecidableEq

namespace Lexer

/-- A lexer at the start of a source text. -/
def ofSource (source : String) : Lexer := ⟨.start, source.toList, false⟩

/-- The next token or error, and the lexer after it. -/
def next (l : Lexer) : Option (Except LexError Token) × Lexer :=
  if l.finished then (none, l)
  else
    match Trivia.scan l.rest with
    | .error fault => (some (.error (fault.at l.position)), { l with finished := true })
    | .ok skipped =>
      let p := l.position.advance skipped
      match l.rest.drop skipped.length with
      | [] => (none, ⟨p, [], true⟩)
      | c :: cs =>
        match Lexeme.scan c cs with
        | .error fault => (some (.error (fault.at p)), ⟨p, c :: cs, true⟩)
        | .ok lexeme =>
          let rest := cs.drop (lexeme.text.length - 1)
          (some (.ok (lexeme.at p)), ⟨p.advance lexeme.text, rest, false⟩)

/-- A token takes at least one character. -/
theorem length_rest_of_next {l l' : Lexer} {t : Token} (h : l.next = (some (.ok t), l')) :
    l'.rest.length < l.rest.length := by
  unfold next at h
  split at h
  · simp at h
  · split at h
    · simp at h
    · split at h
      · simp at h
      · rename_i c cs hdrop
        have hlen := congrArg List.length hdrop
        split at h
        · simp at h
        · simp only [Prod.mk.injEq] at h
          rw [← h.2]
          simp only [List.length_drop, List.length_cons] at hlen ⊢
          omega

/-- All tokens up to the end or the first error, that error, and the
lexer when it has stopped. -/
def run (l : Lexer) : List Token × Option LexError × Lexer :=
  match h : l.next with
  | (some (.ok token), l') =>
    have := length_rest_of_next h
    let (tokens, error, final) := run l'
    (token :: tokens, error, final)
  | (some (.error e), l') => ([], some e, l')
  | (none, l') => ([], none, l')
termination_by l.rest.length

theorem run_token {l l' : Lexer} {t : Token} (h : l.next = (some (.ok t), l')) :
    l.run = (t :: l'.run.1, l'.run.2.1, l'.run.2.2) := by
  rw [run]
  split <;> simp_all

theorem run_error {l l' : Lexer} {e : LexError} (h : l.next = (some (.error e), l')) :
    l.run = ([], some e, l') := by
  rw [run]
  split <;> simp_all

theorem run_none {l l' : Lexer} (h : l.next = (none, l')) : l.run = ([], none, l') := by
  rw [run]
  split <;> simp_all

end Lexer

/-- The tokens of a source text. -/
def tokenize (source : String) : Except LexError (List Token) :=
  match (Lexer.ofSource source).run with
  | (tokens, none, _) => .ok tokens
  | (_, some e, _) => .error e

end ScalarLang
