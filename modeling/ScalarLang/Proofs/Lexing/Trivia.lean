import ScalarLang.Grammar.Lexical
/-!
# What is skipped

Skipping takes exactly the blanks and the complete comments at the front
of a text: every text has a place up to which it can be skipped
(`exists_skipsTo`), and that is where skipping ends (`scan_of_skipsTo`),
with an error if a block comment without its end is left there.
-/

namespace ScalarLang

/-! ## Runs of characters -/

/-- A run ends where the first other character stands. -/
theorem takeWhile_run {p : Char → Bool} {run rest : List Char} (hrun : ∀ c ∈ run, p c = true)
    (hrest : ∀ c ∈ rest.head?, p c = false) : (run ++ rest).takeWhile p = run := by
  rw [List.takeWhile_append_of_pos hrun]
  cases rest with
  | nil => simp
  | cons c cs => simp [hrest c rfl]

/-- Every text starts with a run, which may be empty. -/
theorem exists_run (p : Char → Bool) (cs : List Char) :
    ∃ run rest, cs = run ++ rest ∧ cs.takeWhile p = run ∧ (∀ c ∈ run, p c = true) ∧
      ∀ c ∈ rest.head?, p c = false := by
  refine ⟨cs.takeWhile p, cs.dropWhile p, List.takeWhile_append_dropWhile.symm, rfl,
    List.all_eq_true.mp List.all_takeWhile, fun c hc => ?_⟩
  have hhead := List.head?_dropWhile_not p cs
  rw [hc] at hhead
  exact hhead

/-! ## Trivia -/

/-- Trivia and more of it are trivia. -/
theorem IsTrivia.append {xs ys : List Char} (hxs : IsTrivia xs) (hys : IsTrivia ys) :
    IsTrivia (xs ++ ys) := by
  induction hxs with
  | nil => exact hys
  | blank hc _ ih => exact .blank hc ih
  | line hline _ ih => simpa using IsTrivia.line hline ih
  | block hbody _ ih => simpa using IsTrivia.block hbody ih

/-- What can be skipped of a text can be skipped after more trivia. -/
theorem SkipsTo.prepend {xs gap rest : List Char} (hxs : IsTrivia xs) (h : SkipsTo gap rest) :
    SkipsTo (xs ++ gap) rest := by
  cases h with
  | place hgap hrest => exact .place (hxs.append hgap) hrest
  | tail hgap =>
    cases hgap with
    | trivia hgap => exact .tail (.trivia (hxs.append hgap))
    | openLine hgap hline =>
      rw [← List.append_assoc]
      exact .tail (.openLine (hxs.append hgap) hline)

theorem SkipsTo.isTail {gap : List Char} (h : SkipsTo gap []) : IsTail gap := by
  cases h with
  | place hgap _ => exact .trivia hgap
  | tail hgap => exact hgap

/-- Before more text only trivia is skipped. -/
theorem SkipsTo.isTrivia {gap rest : List Char} (h : SkipsTo gap rest) (hne : rest ≠ []) :
    IsTrivia gap := by
  cases h with
  | place hgap _ => exact hgap
  | tail _ => exact absurd rfl hne

namespace Trivia

/-! ## Block comments -/

/-- A comment goes on to its first end mark. -/
theorem commentRest?_append {body : List Char} (hbody : ¬ ['*', '/'] <:+: body)
    (rest : List Char) :
    commentRest? (body ++ '*' :: '/' :: rest) = some (body ++ ['*', '/']) := by
  induction body with
  | nil => rfl
  | cons c body ih =>
    rw [List.infix_cons_iff, not_or] at hbody
    obtain ⟨hfront, hbody⟩ := hbody
    have hnot : ∀ cs, c = '*' → body ++ '*' :: '/' :: rest = '/' :: cs → False := by
      rintro cs rfl hcs
      cases body with
      | nil => simp at hcs
      | cons d body =>
        obtain ⟨rfl, -⟩ := List.cons.inj hcs
        exact hfront (by simp)
    rw [List.cons_append, commentRest?.eq_2 _ _ hnot, ih hbody]
    rfl

/-- Where there is an end mark, there is a first one. -/
theorem exists_append_of_infix {cs : List Char} (h : ['*', '/'] <:+: cs) :
    ∃ body rest, cs = body ++ '*' :: '/' :: rest ∧ ¬ ['*', '/'] <:+: body := by
  induction cs with
  | nil => simp at h
  | cons c cs ih =>
    by_cases hfront : ['*', '/'] <+: c :: cs
    · obtain ⟨rest, hrest⟩ := hfront
      exact ⟨[], rest, hrest.symm, by simp⟩
    · obtain ⟨body, rest, rfl, hbody⟩ := ih ((List.infix_cons_iff.mp h).resolve_left hfront)
      refine ⟨c :: body, rest, rfl, ?_⟩
      rw [List.infix_cons_iff, not_or]
      exact ⟨fun hmark => hfront (hmark.trans (List.prefix_append _ _)), hbody⟩

/-- A comment without an end mark has no end. -/
theorem commentRest?_eq_none {cs : List Char} (h : ¬ ['*', '/'] <:+: cs) :
    commentRest? cs = none := by
  induction cs with
  | nil => rfl
  | cons c cs ih =>
    rw [List.infix_cons_iff, not_or] at h
    have hnot : ∀ ds, c = '*' → cs = '/' :: ds → False := by
      rintro ds rfl rfl
      exact h.1 ⟨ds, rfl⟩
    rw [commentRest?.eq_2 _ _ hnot, ih h.2]
    rfl

/-! ## Skipping -/

@[simp] theorem after_ok (skipped more : List Char) :
    after skipped (.ok more) = .ok (skipped ++ more) := rfl

@[simp] theorem after_nil (result : Except LexFault (List Char)) : after [] result = result := by
  cases result <;> rfl

theorem after_after (xs ys : List Char) (result : Except LexFault (List Char)) :
    after xs (after ys result) = after (xs ++ ys) result := by
  cases result <;> simp [after]

theorem scan_blank {c : Char} (hc : isBlank c = true) (cs : List Char) :
    scan (c :: cs) = after [c] (scan cs) := by
  have hslash : c ≠ '/' := by
    rintro rfl
    revert hc
    decide
  rw [scan.eq_3 _ _ (fun _ h _ => hslash h) (fun _ h _ => hslash h), if_pos hc]

theorem scan_line {line : List Char} (hline : '\n' ∉ line) (cs : List Char)
    (hcs : ∀ c ∈ cs.head?, c = '\n') :
    scan ('/' :: '/' :: line ++ cs) = after ('/' :: '/' :: line) (scan cs) := by
  have htake : (line ++ cs).takeWhile (· ≠ '\n') = line :=
    takeWhile_run (fun c hc => by simpa using fun heq : c = '\n' => hline (heq ▸ hc))
      fun c hc => by simp [hcs c hc]
  rw [List.cons_append, List.cons_append, scan.eq_1]
  simp only [htake, List.drop_left]

theorem scan_block {body : List Char} (hbody : ¬ ['*', '/'] <:+: body) (cs : List Char) :
    scan ('/' :: '*' :: body ++ '*' :: '/' :: cs)
      = after ('/' :: '*' :: body ++ ['*', '/']) (scan cs) := by
  have hdrop : (body ++ '*' :: '/' :: cs).drop (body ++ ['*', '/']).length = cs := by
    rw [show body ++ '*' :: '/' :: cs = (body ++ ['*', '/']) ++ cs by simp]
    exact List.drop_left
  rw [List.cons_append, List.cons_append, scan.eq_2, commentRest?_append hbody]
  simp only [hdrop, List.cons_append]

/-- **Trivia is skipped**, whatever follows. -/
theorem scan_append {gap : List Char} (h : IsTrivia gap) (rest : List Char) :
    scan (gap ++ rest) = after gap (scan rest) := by
  induction h with
  | nil => simp
  | blank hc _ ih => rw [List.cons_append, scan_blank hc, ih, after_after]; rfl
  | @line line cs hline _ ih =>
    have hblank : isBlank '\n' = true := by decide
    rw [List.append_assoc, scan_line hline ('\n' :: cs ++ rest) (by simp), List.cons_append,
      scan_blank hblank, ih, after_after, after_after]
    simp
  | @block body cs hbody _ ih =>
    have hrest : '*' :: '/' :: cs ++ rest = '*' :: '/' :: (cs ++ rest) := rfl
    rw [List.append_assoc, hrest, scan_block hbody, ih, after_after]
    simp

/-- The tail of a text is skipped as a whole. -/
theorem scan_tail {cs : List Char} (h : IsTail cs) : scan cs = .ok cs := by
  cases h with
  | trivia hcs =>
    rw [← List.append_nil cs, scan_append hcs, scan]
    simp
  | @openLine cs line hcs hline =>
    rw [scan_append hcs]
    have hopen := scan_line hline [] (by simp)
    rw [List.append_nil] at hopen
    rw [hopen, scan]
    simp

/-- Where no trivia starts nothing is skipped, unless a block comment without
its end starts there. -/
theorem scan_place {rest : List Char} (h : StartsNoTrivia rest)
    (hcomment : ¬ ['/', '*'] <+: rest) : scan rest = .ok [] := by
  cases rest with
  | nil => rw [scan]
  | cons c cs =>
    have hline : ∀ ds, c = '/' → cs = '/' :: ds → False := by
      rintro ds rfl rfl
      exact h.line ⟨ds, rfl⟩
    have hblock : ∀ ds, c = '/' → cs = '*' :: ds → False := by
      rintro ds rfl rfl
      exact hcomment ⟨ds, rfl⟩
    rw [scan.eq_3 _ _ hline hblock, h.blank c rfl]
    simp

theorem scan_unfinished {body : List Char} (hbody : ¬ ['*', '/'] <:+: body) :
    scan ('/' :: '*' :: body) = .error ⟨.unfinishedComment, ['/', '*'], body.take 1⟩ := by
  rw [scan.eq_2, commentRest?_eq_none hbody]

/-! ## Where skipping ends -/

/-- A block comment at a place where no trivia starts has no end. -/
theorem not_infix_of_startsNoTrivia {body : List Char}
    (h : StartsNoTrivia ('/' :: '*' :: body)) : ¬ ['*', '/'] <:+: body := by
  intro hend
  obtain ⟨inner, rest, rfl, -⟩ := exists_append_of_infix hend
  exact h.block inner (by simp)

/-- Where trivia starts something can be skipped. -/
theorem exists_trivia {cs : List Char} (h : ¬ StartsNoTrivia cs) :
    IsTail cs ∨ ∃ xs more, cs = xs ++ more ∧ xs ≠ [] ∧ IsTrivia xs := by
  by_cases hline : ['/', '/'] <+: cs
  · obtain ⟨cs, rfl⟩ := hline
    obtain ⟨line, rest, rfl, -, hrun, hrest⟩ := exists_run (· ≠ '\n') cs
    have hnot : '\n' ∉ line := fun hmem => by simpa using hrun _ hmem
    cases rest with
    | nil =>
      refine .inl ?_
      simpa using IsTail.openLine .nil hnot
    | cons c rest =>
      obtain rfl : c = '\n' := by simpa using hrest c rfl
      exact .inr ⟨'/' :: '/' :: line ++ ['\n'], rest, by simp, by simp, .line hnot .nil⟩
  by_cases hblock : ∃ body, '/' :: '*' :: body ++ ['*', '/'] <+: cs
  · obtain ⟨body, rest, rfl⟩ := hblock
    have hend : ['*', '/'] <:+: body ++ ['*', '/'] := (List.suffix_append _ _).isInfix
    obtain ⟨inner, more, hbody, hinner⟩ := exists_append_of_infix hend
    refine .inr ⟨'/' :: '*' :: inner ++ ['*', '/'], more ++ rest, ?_, by simp, .block hinner .nil⟩
    calc '/' :: '*' :: body ++ ['*', '/'] ++ rest
        = '/' :: '*' :: ((body ++ ['*', '/']) ++ rest) := by simp
      _ = '/' :: '*' :: ((inner ++ '*' :: '/' :: more) ++ rest) := by rw [hbody]
      _ = '/' :: '*' :: inner ++ ['*', '/'] ++ (more ++ rest) := by simp
  · refine .inr ?_
    have hblank : ∃ c ∈ cs.head?, isBlank c = true := by
      refine Decidable.byContradiction fun hnone => h ⟨fun c hc => ?_, hline, ?_⟩
      · simpa using fun hblank => hnone ⟨c, hc, hblank⟩
      · exact fun body hbody => hblock ⟨body, hbody⟩
    obtain ⟨c, hc, hblank⟩ := hblank
    obtain ⟨rest, rfl⟩ := List.head?_eq_some_iff.mp hc
    exact ⟨[c], rest, rfl, by simp, .blank hblank .nil⟩

/-- **Every text can be skipped** up to some place. -/
theorem exists_skipsTo (cs : List Char) : ∃ gap rest, cs = gap ++ rest ∧ SkipsTo gap rest := by
  induction hn : cs.length using Nat.strongRecOn generalizing cs with
  | ind n ih =>
    by_cases hplace : StartsNoTrivia cs
    · exact ⟨[], cs, rfl, .place .nil hplace⟩
    rcases exists_trivia hplace with htail | ⟨xs, more, rfl, hne, hxs⟩
    · exact ⟨cs, [], by simp, .tail htail⟩
    · have hlt : more.length < n := by
        have := List.length_pos_iff.mpr hne
        simp only [List.length_append] at hn
        omega
      obtain ⟨gap, rest, rfl, hskips⟩ := ih _ hlt more rfl
      exact ⟨xs ++ gap, rest, by simp, hskips.prepend hxs⟩

/-- **Skipping ends where it can**, unless a block comment without its end is
left there. -/
theorem scan_of_skipsTo {gap rest : List Char} (h : SkipsTo gap rest)
    (hcomment : ¬ ['/', '*'] <+: rest) : scan (gap ++ rest) = .ok gap := by
  cases h with
  | place hgap hrest => simp [scan_append hgap, scan_place hrest hcomment]
  | tail hgap => rw [List.append_nil, scan_tail hgap]

/-- A block comment that is left has no end, and is an error. -/
theorem scan_of_skipsTo_comment {gap body : List Char} (h : SkipsTo gap ('/' :: '*' :: body)) :
    ¬ ['*', '/'] <:+: body ∧ scan (gap ++ '/' :: '*' :: body)
      = .error ⟨.unfinishedComment, gap ++ ['/', '*'], body.take 1⟩ := by
  cases h with
  | place hgap hrest =>
    have hbody := not_infix_of_startsNoTrivia hrest
    exact ⟨hbody, by rw [scan_append hgap, scan_unfinished hbody]; rfl⟩

end Trivia

end ScalarLang
