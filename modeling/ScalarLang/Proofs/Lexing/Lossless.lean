import ScalarLang.Proofs.Lexing.Lexemes
/-!
# Nothing is lost

A source text is its tokens with blanks and comments before, between and
behind them, up to the end or to the first error. Where a token stands is
told by what stands before it, and so is where an error does. After the
end or an error nothing more is given out.
-/

namespace ScalarLang

/-- **How tokens lie in a text** of which `before` stands before it: each one
after a gap, at the position that comes of what is before it, and behind the
last one only what may follow it or the text that an error concerns. -/
inductive LaidOut : List Char → List Char → List Token → Option LexError → Prop
  | token {before gap rest : List Char} {t : Token} {ts : List Token} {error : Option LexError}
    (hgap : IsTrivia gap) (htext : t.text ≠ "") (hposition : t.position = .after (before ++ gap))
    (hrest : LaidOut (before ++ gap ++ t.text.toList) rest ts error) :
    LaidOut before (gap ++ t.text.toList ++ rest) (t :: ts) error
  | finish {before tail : List Char} (htail : IsTail tail) : LaidOut before tail [] none
  | failed {before skipped rest : List Char} {e : LexError}
    (hposition : e.position = .after (before ++ skipped)) :
    LaidOut before (skipped ++ e.text.toList ++ rest) [] (some e)

namespace LaidOut

variable {before cs : List Char} {ts : List Token} {error : Option LexError}

/-- Each token stands in the text at its position. -/
theorem exists_append (h : LaidOut before cs ts error) : ∀ t ∈ ts, t.text ≠ "" ∧
    ∃ xs ys, cs = xs ++ t.text.toList ++ ys ∧ t.position = .after (before ++ xs) := by
  induction h with
  | @token before gap rest t ts error hgap htext hposition _ ih =>
    intro u hu
    rcases List.mem_cons.mp hu with rfl | hu
    · exact ⟨htext, gap, rest, rfl, hposition⟩
    · obtain ⟨hne, xs, ys, rfl, hu⟩ := ih u hu
      exact ⟨hne, gap ++ t.text.toList ++ xs, ys, by simp, by simpa using hu⟩
  | finish => simp
  | failed => simp

/-- So does the error. -/
theorem exists_append_error (h : LaidOut before cs ts error) : ∀ e ∈ error,
    ∃ xs ys, cs = xs ++ e.text.toList ++ ys ∧ e.position = .after (before ++ xs) := by
  induction h with
  | @token before gap rest t ts error _ _ _ _ ih =>
    intro e he
    obtain ⟨xs, ys, rfl, he⟩ := ih e he
    exact ⟨gap ++ t.text.toList ++ xs, ys, by simp, by simpa using he⟩
  | finish => simp
  | @failed before skipped rest e hposition =>
    intro e' he'
    obtain rfl : e = e' := Option.some.inj he'
    exact ⟨skipped, rest, rfl, hposition⟩

/-- A text that is not empty has bytes. -/
theorem utf8ByteSize_pos {text : String} (h : text ≠ "") : 0 < text.utf8ByteSize :=
  Nat.pos_of_ne_zero fun hzero => h (String.utf8ByteSize_eq_zero_iff.mp hzero)

/-- A position counts the bytes before it. -/
theorem offset_after_append (xs : List Char) (s : String) :
    (Position.after (xs ++ s.toList)).offset = (Position.after xs).offset + s.utf8ByteSize := by
  simp [Position.after, String.ofList_append]

/-- Tokens start after what is before them. -/
theorem le_offset (h : LaidOut before cs ts error) :
    ∀ t ∈ ts, (Position.after before).offset ≤ t.position.offset := by
  intro t ht
  obtain ⟨-, xs, ys, -, hposition⟩ := h.exists_append t ht
  have hoffset := offset_after_append before (String.ofList xs)
  rw [String.toList_ofList] at hoffset
  rw [hposition, hoffset]
  exact Nat.le_add_right _ _

/-- Each token starts at or after the end of those before it. -/
theorem pairwise (h : LaidOut before cs ts error) :
    ts.Pairwise fun t u => t.position.offset + t.text.utf8ByteSize ≤ u.position.offset := by
  induction h with
  | @token before gap rest t ts error _ _ hposition hrest ih =>
    refine List.pairwise_cons.mpr ⟨fun u hu => ?_, ih⟩
    have hle := hrest.le_offset u hu
    rwa [offset_after_append, ← hposition] at hle
  | finish => exact .nil
  | failed => exact .nil

/-- There are at most as many tokens as there are bytes. -/
theorem length_le (h : LaidOut before cs ts error) :
    ts.length ≤ (String.ofList cs).utf8ByteSize := by
  induction h with
  | @token before gap rest t ts error _ htext _ _ ih =>
    have hpos := utf8ByteSize_pos htext
    simp only [String.ofList_append, String.utf8ByteSize_append, String.ofList_toList,
      List.length_cons]
    omega
  | finish => simp
  | failed => simp

end LaidOut

namespace Lexer

/-! ## Tokens in their place -/

/-- **Tokens are laid out in the text** as the lexer gives them out. -/
theorem laidOut_run (l : Lexer) {before : List Char} (hl : l.finished = false)
    (hposition : l.position = .after before) : LaidOut before l.rest l.run.1 l.run.2.1 := by
  induction l using Lexer.run.induct generalizing before with
  | case1 l t l' hnext _ _ _ _ _ ih =>
    obtain ⟨gap, rest, hrest, hstep⟩ := l.exists_step hl
    rw [hnext] at hstep
    rw [run_token hnext, hrest]
    cases hstep with
    | @token rest lexeme hgap _ hread =>
      obtain ⟨hne, -⟩ := hread.exists_append
      have htoken : (lexeme.at (l.position.advance gap)).text.toList = lexeme.text := by
        simp [Lexeme.at]
      have hplace : (l.position.advance gap) = .after (before ++ gap) := by
        rw [hposition, Position.advance_after]
      have hlaid : LaidOut (before ++ gap ++ lexeme.text) rest _ _ :=
        ih rfl (by rw [hplace, Position.advance_after])
      rw [← List.append_assoc, ← htoken]
      refine .token (hgap.isTrivia (by simp [hne])) ?_ hplace ?_
      · simpa [Lexeme.at] using hne
      · rw [htoken]
        exact hlaid
  | case2 l e l' hnext =>
    obtain ⟨gap, rest, hrest, hstep⟩ := l.exists_step hl
    rw [hnext] at hstep
    rw [run_error hnext, hrest]
    cases hstep with
    | @comment body _ _ =>
      have hlaid := @LaidOut.failed before (gap ++ ['/', '*']) (body.drop 1)
        (LexFault.at ⟨.unfinishedComment, gap ++ ['/', '*'], body.take 1⟩ l.position)
        (by rw [hposition]; exact Position.advance_after _ _)
      simpa [LexFault.at, -List.drop_one] using hlaid
    | @fault _ f hgap hcomment hread =>
      obtain ⟨more, rfl⟩ := hread.exists_append_of_error
      have hlaid := @LaidOut.failed before (gap ++ f.before) more (f.at (l.position.advance gap))
        (by simp [LexFault.at, hposition, Position.advance_after])
      simpa [LexFault.at] using hlaid
  | case3 l l' hnext =>
    obtain ⟨gap, rest, hrest, hstep⟩ := l.exists_step hl
    rw [hnext] at hstep
    rw [run_none hnext, hrest]
    cases hstep with
    | finish hgap => exact .finish (by simpa using hgap.isTail)

/-! ## Nothing more -/

/-- What a lexer gives out when it is asked for the `n`-th time, counted from
zero. -/
def item (l : Lexer) : Nat → Option (Except LexError Token)
  | 0 => l.next.1
  | n + 1 => l.next.2.item n

/-- A lexer that has stopped gives out nothing. -/
theorem item_of_finished {l : Lexer} (hl : l.finished = true) (n : Nat) : l.item n = none := by
  have hnext : l.next = (none, l) := by simp [next, hl]
  induction n with
  | zero => rw [item, hnext]
  | succ n ih => rw [item, hnext, ih]

/-- A lexer stops unless it gives out a token. -/
theorem finished_of_next {l l' : Lexer} {result : Option (Except LexError Token)}
    (h : l.next = (result, l')) (hresult : ∀ t, result ≠ some (.ok t)) : l'.finished = true := by
  cases hl : l.finished with
  | true =>
    simp only [next, hl, if_true] at h
    cases h
    exact hl
  | false =>
    obtain ⟨gap, rest, -, hstep⟩ := l.exists_step hl
    rw [h] at hstep
    cases hstep with
    | finish => rfl
    | comment => rfl
    | fault => rfl
    | token => exact absurd rfl (hresult _)

/-- **The lexer gives out its tokens and then its error**, and nothing after. -/
theorem item_eq (l : Lexer) (n : Nat) :
    l.item n = (l.run.1.map .ok ++ l.run.2.1.toList.map .error)[n]? := by
  induction l using Lexer.run.induct generalizing n with
  | case1 l t l' hnext _ _ _ _ _ ih =>
    rw [run_token hnext]
    cases n with
    | zero => simp [item, hnext]
    | succ n => simp [item, hnext, ih]
  | case2 l e l' hnext =>
    rw [run_error hnext]
    cases n with
    | zero => simp [item, hnext]
    | succ n => simp [item, hnext, item_of_finished (finished_of_next hnext (by simp))]
  | case3 l l' hnext =>
    rw [run_none hnext]
    cases n with
    | zero => simp [item, hnext]
    | succ n => simp [item, hnext, item_of_finished (finished_of_next hnext (by simp))]

/-! ## Source texts -/

/-- **The lexer is lossless and positions are right.** Each token is not empty
and stands in the source text at its position, an error does too, tokens come
one after the other without overlapping, and only blanks and comments stand
between them. There are at most as many as the text has bytes, and nothing is
given out after them and the error. -/
theorem lossless (source : String) :
    (ofSource source).run.1.length ≤ source.utf8ByteSize ∧
      (∀ t ∈ (ofSource source).run.1, t.text ≠ "" ∧ ∃ before behind : String,
        source = before ++ t.text ++ behind ∧ t.position = .after before.toList) ∧
      (ofSource source).run.1.Pairwise (fun t u => t.position.offset < u.position.offset ∧
        t.position.offset + t.text.utf8ByteSize ≤ u.position.offset) ∧
      LaidOut [] source.toList (ofSource source).run.1 (ofSource source).run.2.1 ∧
      (∀ e ∈ (ofSource source).run.2.1, ∃ before behind : String,
        source = before ++ e.text ++ behind ∧ e.position = .after before.toList) ∧
      ∀ n, (ofSource source).item n = ((ofSource source).run.1.map .ok ++
        (ofSource source).run.2.1.toList.map .error)[n]? := by
  have hlaid : LaidOut [] source.toList (ofSource source).run.1 (ofSource source).run.2.1 :=
    laidOut_run (ofSource source) rfl Position.after_nil.symm
  have hsplit {text : String} {xs ys : List Char} (h : source.toList = xs ++ text.toList ++ ys) :
      source = String.ofList xs ++ text ++ String.ofList ys := by
    rw [← String.ofList_toList (s := source), h]
    simp [String.ofList_append, String.append_assoc]
  refine ⟨?_, fun t ht => ?_, ?_, hlaid, fun e he => ?_, item_eq _⟩
  · simpa using hlaid.length_le
  · obtain ⟨hne, xs, ys, hsource, hposition⟩ := hlaid.exists_append t ht
    exact ⟨hne, .ofList xs, .ofList ys, hsplit hsource, by simpa using hposition⟩
  · refine hlaid.pairwise.imp_of_mem fun {t u} ht _ hle => ⟨?_, hle⟩
    have hpos := LaidOut.utf8ByteSize_pos (hlaid.exists_append t ht).1
    omega
  · obtain ⟨xs, ys, hsource, hposition⟩ := hlaid.exists_append_error e he
    exact ⟨.ofList xs, .ofList ys, hsplit hsource, by simpa using hposition⟩

end Lexer

end ScalarLang
