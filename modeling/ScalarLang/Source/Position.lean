/-!
# Positions in source text

A position counts what stands before it: bytes of the UTF-8 encoding,
lines and, within the line, characters. `Position.advance` moves over
text, so the position of anything is that of the start advanced over
what precedes it.
-/

namespace ScalarLang

/-- A line and a column, both counted from one. -/
structure Location where
  line : Nat
  column : Nat
  deriving DecidableEq

/-- The text of a location, line first. -/
def Location.text (l : Location) : String := s!"{l.line}:{l.column}"

/-- A place in source text: the number of bytes before it, and its line
and column. -/
structure Position where
  offset : Nat
  line : Nat
  column : Nat
  deriving DecidableEq

namespace Position

/-- Where every source text begins. -/
def start : Position := ⟨0, 1, 1⟩

/-- The position after one character. -/
def step (p : Position) (c : Char) : Position :=
  if c = '\n' then ⟨p.offset + c.utf8Size, p.line + 1, 1⟩
  else ⟨p.offset + c.utf8Size, p.line, p.column + 1⟩

/-- The position after a run of characters. -/
def advance (p : Position) (cs : List Char) : Position := cs.foldl step p

/-- The line and column of a position. -/
def location (p : Position) : Location := ⟨p.line, p.column⟩

@[simp] theorem advance_nil (p : Position) : p.advance [] = p := rfl

@[simp] theorem advance_cons (p : Position) (c : Char) (cs : List Char) :
    p.advance (c :: cs) = (p.step c).advance cs := rfl

/-- The position after a text that starts a source: as many bytes as the text
has, one line more than it has line feeds, and one column more than there
are characters after the last of them. -/
def after (before : List Char) : Position where
  offset := (String.ofList before).utf8ByteSize
  line := before.count '\n' + 1
  column := (before.reverse.takeWhile (· ≠ '\n')).length + 1

@[simp] theorem after_nil : after [] = start := rfl

theorem step_after (before : List Char) (c : Char) :
    (after before).step c = after (before ++ [c]) := by
  unfold step after
  split
  · rename_i h
    subst h
    simp [String.ofList_append, List.count_append]
    rfl
  · rename_i h
    simp [h, String.ofList_append, List.count_append]

/-- **Advancing keeps count** of bytes, lines and columns. -/
theorem advance_after (before cs : List Char) :
    (after before).advance cs = after (before ++ cs) := by
  induction cs generalizing before with
  | nil => simp
  | cons c cs ih => rw [advance_cons, step_after, ih, List.append_assoc, List.singleton_append]

end Position

end ScalarLang
