import ScalarLang.Proofs.Lexing.Trivia
/-!
# How numbers are read

A decimal number is read in three runs: digits, the digits of a fraction,
and the digits of an exponent. Each run takes all the digits there are, so
where a number ends is known from the character after it. What can come
of it is said once (`DecimalRead`, `HexadecimalRead`).
-/

namespace ScalarLang

/-- Characters of a class at the front of a text are part of the first run. -/
theorem prefix_run {p : Char → Bool} {xs run rest : List Char} (h : xs <+: run ++ rest)
    (hxs : ∀ c ∈ xs, p c = true) (hrun : ∀ c ∈ run, p c = true)
    (hrest : ∀ c ∈ rest.head?, p c = false) : xs <+: run := by
  obtain ⟨more, hmore⟩ := h
  have htake : xs ++ more.takeWhile p = run := by
    rw [← List.takeWhile_append_of_pos hxs, hmore, takeWhile_run hrun hrest]
  exact ⟨_, htake⟩

theorem IsDigits.exists_cons {digits : List Char} (h : IsDigits digits) :
    ∃ c cs, digits = c :: cs ∧ c.isDigit = true := by
  obtain ⟨c, cs, rfl⟩ := List.exists_cons_of_ne_nil h.1
  exact ⟨c, cs, rfl, h.2 c (by simp)⟩

/-- A mantissa does not go on with the mark of an exponent. -/
theorem IsExponentMark.ends_mantissa {c : Char} (h : IsExponentMark c) :
    c.isDigit = false ∧ c ≠ '.' ∧ ¬ (c = 'x' ∨ c = 'X') := by
  rcases h with rfl | rfl <;> decide

namespace Lexeme

/-! ## Mantissas -/

/-- Digits and a fraction, if there is one, in front of a text with which
neither can go on. -/
inductive MantissaSplit : List Char → List Char → List Char → Prop
  | whole {digits rest : List Char} (hdigits : IsDigits digits)
    (hrest : ∀ c ∈ rest.head?, c.isDigit = false ∧ c ≠ '.') : MantissaSplit digits [] rest
  | fraction {digits places rest : List Char} (hdigits : IsDigits digits)
    (hplaces : ∀ c ∈ places, c.isDigit = true) (hrest : ∀ c ∈ rest.head?, c.isDigit = false) :
    MantissaSplit digits ('.' :: places) rest

/-- A text that starts with a digit starts with a mantissa. -/
theorem exists_mantissaSplit {c : Char} (cs : List Char) (hc : c.isDigit = true) :
    ∃ whole fraction rest, c :: cs = whole ++ fraction ++ rest ∧
      MantissaSplit whole fraction rest := by
  obtain ⟨digits, more, rfl, -, hdigits, hmore⟩ := exists_run Char.isDigit cs
  have hwhole : IsDigits (c :: digits) := ⟨by simp, by simpa [hc] using hdigits⟩
  by_cases hpoint : ∃ after, more = '.' :: after
  · obtain ⟨after, rfl⟩ := hpoint
    obtain ⟨places, rest, rfl, -, hplaces, hrest⟩ := exists_run Char.isDigit after
    exact ⟨c :: digits, '.' :: places, rest, by simp, .fraction hwhole hplaces hrest⟩
  · refine ⟨c :: digits, [], more, by simp, .whole hwhole fun d hd => ⟨hmore d hd, ?_⟩⟩
    rintro rfl
    obtain ⟨after, rfl⟩ := List.head?_eq_some_iff.mp hd
    exact hpoint ⟨after, rfl⟩

/-- The parts of a mantissa are read as they are. -/
theorem MantissaSplit.read {whole fraction rest : List Char}
    (h : MantissaSplit whole fraction rest) :
    (whole ++ fraction ++ rest).takeWhile Char.isDigit = whole ∧
      fractionText (fraction ++ rest) = fraction := by
  cases h with
  | whole hdigits hrest =>
    refine ⟨?_, ?_⟩
    · rw [List.append_nil]
      exact takeWhile_run hdigits.2 fun c hc => (hrest c hc).1
    · cases rest with
      | nil => rfl
      | cons c cs =>
        have hc : c ≠ '.' := (hrest c rfl).2
        simp [fractionText, hc]
  | fraction hdigits hplaces hrest =>
    refine ⟨?_, ?_⟩
    · rw [List.append_assoc]
      exact takeWhile_run hdigits.2 (by simp)
    · simp only [List.cons_append, fractionText, takeWhile_run hplaces hrest]

/-- A mantissa before a character that cannot be part of it. -/
theorem mantissaSplit_of_isMantissa {mantissa rest : List Char} (h : IsMantissa mantissa)
    (hrest : ∀ c ∈ rest.head?, c.isDigit = false ∧ c ≠ '.') :
    ∃ whole fraction, mantissa = whole ++ fraction ∧ MantissaSplit whole fraction rest := by
  cases h with
  | whole hdigits => exact ⟨mantissa, [], by simp, .whole hdigits hrest⟩
  | fraction hdigits hplaces =>
    exact ⟨_, _, rfl, .fraction hdigits hplaces fun c hc => (hrest c hc).1⟩

/-- A text has one mantissa at its front. -/
theorem MantissaSplit.unique {whole fraction rest whole' fraction' rest' : List Char}
    (h : MantissaSplit whole fraction rest) (h' : MantissaSplit whole' fraction' rest')
    (heq : whole ++ fraction ++ rest = whole' ++ fraction' ++ rest') :
    whole = whole' ∧ fraction = fraction' ∧ rest = rest' := by
  obtain ⟨hwhole, hfraction⟩ := h.read
  obtain ⟨hwhole', hfraction'⟩ := h'.read
  obtain rfl : whole = whole' := by rw [← hwhole, ← hwhole', heq]
  rw [List.append_assoc, List.append_assoc, List.append_cancel_left_eq] at heq
  obtain rfl : fraction = fraction' := by rw [← hfraction, ← hfraction', heq]
  exact ⟨rfl, rfl, List.append_cancel_left heq⟩

theorem MantissaSplit.isDigits {whole fraction rest : List Char}
    (h : MantissaSplit whole fraction rest) : IsDigits whole := by
  cases h with
  | whole hdigits _ => exact hdigits
  | fraction hdigits _ _ => exact hdigits

/-- Before an `x` a zero is a mantissa of its own. -/
theorem mantissaSplit_zero {x : Char} (hx : x = 'x' ∨ x = 'X') (ds : List Char) :
    MantissaSplit ['0'] [] (x :: ds) := by
  refine .whole ⟨by simp, by simp⟩ fun c hc => ?_
  obtain rfl : x = c := Option.some.inj hc
  rcases hx with rfl | rfl <;> decide

/-- After a mantissa a text is not read as a hexadecimal number, unless it goes
on with an `x`. -/
theorem MantissaSplit.not_hexadecimal {whole fraction rest : List Char}
    (h : MantissaSplit whole fraction rest) (hrest : ∀ c ∈ rest.head?, ¬ (c = 'x' ∨ c = 'X')) :
    ∀ x ds, whole ++ fraction ++ rest = '0' :: x :: ds → ¬ (x = 'x' ∨ x = 'X') := by
  intro x ds heq hx
  obtain ⟨rfl, rfl, rfl⟩ := h.unique (mantissaSplit_zero hx ds) heq
  exact hrest x rfl hx

/-! ## Exponents -/

/-- A sign, if there is one, and digits in front of a text with which they
cannot go on. There may be no digits. -/
inductive ExponentSplit : List Char → List Char → List Char → Prop
  | unsigned {digits rest : List Char} (hdigits : ∀ c ∈ digits, c.isDigit = true)
    (hrest : ∀ c ∈ rest.head?, c.isDigit = false)
    (hsign : digits = [] → ∀ c ∈ rest.head?, c ≠ '+' ∧ c ≠ '-') : ExponentSplit [] digits rest
  | signed {sign : Char} {digits rest : List Char} (hsign : sign = '+' ∨ sign = '-')
    (hdigits : ∀ c ∈ digits, c.isDigit = true) (hrest : ∀ c ∈ rest.head?, c.isDigit = false) :
    ExponentSplit [sign] digits rest

/-- Every text starts with a sign and digits, if perhaps with none. -/
theorem exists_exponentSplit (cs : List Char) :
    ∃ sign digits rest, cs = sign ++ digits ++ rest ∧ ExponentSplit sign digits rest := by
  by_cases hsign : ∃ sign ∈ cs.head?, sign = '+' ∨ sign = '-'
  · obtain ⟨sign, hhead, hsign⟩ := hsign
    obtain ⟨after, rfl⟩ := List.head?_eq_some_iff.mp hhead
    obtain ⟨digits, rest, rfl, -, hdigits, hrest⟩ := exists_run Char.isDigit after
    exact ⟨[sign], digits, rest, by simp, .signed hsign hdigits hrest⟩
  · obtain ⟨digits, rest, rfl, -, hdigits, hrest⟩ := exists_run Char.isDigit cs
    refine ⟨[], digits, rest, by simp, .unsigned hdigits hrest ?_⟩
    rintro rfl c hc
    exact not_or.mp fun h => hsign ⟨c, hc, h⟩

/-- The parts of an exponent are read as they are. -/
theorem ExponentSplit.read {sign digits rest : List Char} (h : ExponentSplit sign digits rest)
    {mark : Char} (hmark : IsExponentMark mark) :
    Exponent.scan? (mark :: sign ++ digits ++ rest) = some ⟨mark, sign, digits⟩ := by
  have hmark' : mark = 'e' ∨ mark = 'E' := hmark
  cases h with
  | unsigned hdigits hrest hsign =>
    have hnone : ((digits ++ rest).take 1).filter (fun c => c = '+' || c = '-') = [] := by
      cases digits with
      | nil =>
        cases rest with
        | nil => rfl
        | cons c cs =>
          obtain ⟨hplus, hminus⟩ := hsign rfl c rfl
          simp [hplus, hminus]
      | cons d ds =>
        have hd := hdigits d (by simp)
        have hplus : d ≠ '+' := by rintro rfl; revert hd; decide
        have hminus : d ≠ '-' := by rintro rfl; revert hd; decide
        simp [hplus, hminus]
    simp only [List.cons_append, List.nil_append, Exponent.scan?, hmark', if_true, hnone,
      List.length_nil, List.drop_zero, takeWhile_run hdigits hrest]
  | @signed sign digits rest hsign hdigits hrest =>
    have hone : ((sign :: (digits ++ rest)).take 1).filter (fun c => c = '+' || c = '-')
        = [sign] := by
      rcases hsign with rfl | rfl <;> rfl
    simp only [List.cons_append, List.nil_append, Exponent.scan?, hmark', if_true, hone,
      List.length_singleton, List.drop_succ_cons, List.drop_zero, takeWhile_run hdigits hrest]

/-- Without a mark there is no exponent. -/
theorem Exponent.scan?_eq_none {cs : List Char} (h : ∀ c ∈ cs.head?, ¬ IsExponentMark c) :
    Exponent.scan? cs = none := by
  cases cs with
  | nil => rfl
  | cons c cs =>
    have hc : ¬ (c = 'e' ∨ c = 'E') := h c rfl
    simp [Exponent.scan?, hc]

/-- An exponent at the front of a text has the sign that is there, and digits
that are among those there. -/
theorem ExponentSplit.of_isExponent {sign digits rest e : List Char} {mark : Char}
    (h : ExponentSplit sign digits rest) (he : IsExponent e)
    (hfront : e <+: mark :: sign ++ digits ++ rest) :
    digits ≠ [] ∧ e.length ≤ (mark :: sign ++ digits).length := by
  obtain ⟨more, hmore⟩ := hfront
  obtain @⟨mark', sign', digits', hmark, hsign, hne, hdigits⟩ := he
  obtain ⟨hfirst, htext⟩ : mark' = mark ∧ sign' ++ digits' ++ more = sign ++ digits ++ rest := by
    simpa using hmore
  subst hfirst
  -- the digits of `e` may go on in the text; with all of them the text is split in one way
  obtain ⟨ds, after, rfl, -, hds, hafter⟩ := exists_run Char.isDigit more
  have hall : ∀ c ∈ digits' ++ ds, c.isDigit = true := by
    intro c hc
    exact (List.mem_append.mp hc).elim (hdigits c) (hds c)
  have hsplit : ExponentSplit sign' (digits' ++ ds) after := by
    rcases hsign with rfl | rfl | rfl
    · exact .unsigned hall hafter fun hnil => absurd (List.append_eq_nil_iff.mp hnil).1 hne
    · exact .signed (.inl rfl) hall hafter
    · exact .signed (.inr rfl) hall hafter
  have hread := hsplit.read hmark
  have htext' : mark' :: sign' ++ (digits' ++ ds) ++ after = mark' :: sign ++ digits ++ rest := by
    simpa using htext
  rw [htext', h.read hmark] at hread
  obtain ⟨-, rfl, rfl⟩ : mark' = mark' ∧ sign = sign' ∧ digits = digits' ++ ds := by
    simpa using hread
  refine ⟨fun hnil => hne (List.append_eq_nil_iff.mp hnil).1, ?_⟩
  simp only [List.cons_append, List.length_cons, List.length_append]
  omega

/-- With digits there is an exponent. -/
theorem ExponentSplit.isExponent {sign digits rest : List Char} {mark : Char}
    (h : ExponentSplit sign digits rest) (hmark : IsExponentMark mark) (hne : digits ≠ []) :
    IsExponent (mark :: sign ++ digits) := by
  cases h with
  | unsigned hdigits _ _ => exact .intro hmark (.inl rfl) ⟨hne, hdigits⟩
  | signed hsign hdigits _ =>
    refine .intro hmark (.inr ?_) ⟨hne, hdigits⟩
    rcases hsign with rfl | rfl <;> simp

/-! ## What reading comes to -/

/-- The float that digits, a fraction and an exponent denote. -/
def floatValue (whole fraction : List Char) (exponent : Int) : Binary64 :=
  let places := fraction.drop 1
  .ofDecimal (Text.digitsValue 10 (whole ++ places)) (exponent - places.length)

/-- **How a decimal number is read**: the mark of an exponent asks for digits,
a fraction or an exponent makes it a float, and a whole number may be too
large. -/
inductive DecimalRead : List Char → Except LexFault Lexeme → Prop
  | malformed {whole fraction sign rest : List Char} {mark : Char}
    (hm : MantissaSplit whole fraction (mark :: sign ++ rest)) (hmark : IsExponentMark mark)
    (he : ExponentSplit sign [] rest) :
    DecimalRead (whole ++ fraction ++ (mark :: sign ++ rest))
      (.error ⟨.malformedNumber, whole ++ fraction ++ mark :: sign, rest.take 1⟩)
  | exponent {whole fraction sign digits rest : List Char} {mark : Char}
    (hm : MantissaSplit whole fraction (mark :: sign ++ digits ++ rest))
    (hmark : IsExponentMark mark) (he : ExponentSplit sign digits rest) (hne : digits ≠ []) :
    DecimalRead (whole ++ fraction ++ (mark :: sign ++ digits ++ rest))
      (.ok ⟨.number (.float (floatValue whole fraction (Exponent.value ⟨mark, sign, digits⟩))),
        whole ++ fraction ++ (mark :: sign ++ digits)⟩)
  | fraction {whole places rest : List Char} (hm : MantissaSplit whole ('.' :: places) rest)
    (hrest : ∀ c ∈ rest.head?, ¬ IsExponentMark c) :
    DecimalRead (whole ++ '.' :: places ++ rest)
      (.ok ⟨.number (.float (floatValue whole ('.' :: places) 0)), whole ++ '.' :: places⟩)
  | integer {whole rest : List Char} (hm : MantissaSplit whole [] rest)
    (hrest : ∀ c ∈ rest.head?, ¬ IsExponentMark c)
    (hvalue : Text.digitsValue 10 whole ≤ 0x7fffffffffffffff) :
    DecimalRead (whole ++ rest)
      (.ok ⟨.number (.integer (Int64.ofNat (Text.digitsValue 10 whole))), whole⟩)
  | tooLarge {whole rest : List Char} (hm : MantissaSplit whole [] rest)
    (hrest : ∀ c ∈ rest.head?, ¬ IsExponentMark c)
    (hvalue : ¬ Text.digitsValue 10 whole ≤ 0x7fffffffffffffff) :
    DecimalRead (whole ++ rest) (.error ⟨.literalTooLarge, [], whole⟩)

/-- Every text that starts with a digit can be read so. -/
theorem exists_decimalRead {c : Char} (cs : List Char) (hc : c.isDigit = true) :
    ∃ result, DecimalRead (c :: cs) result := by
  obtain ⟨whole, fraction, rest, hcs, hm⟩ := exists_mantissaSplit cs hc
  rw [hcs]
  by_cases hmark : ∃ mark ∈ rest.head?, IsExponentMark mark
  · obtain ⟨mark, hhead, hmark⟩ := hmark
    obtain ⟨after, rfl⟩ := List.head?_eq_some_iff.mp hhead
    obtain ⟨sign, digits, rest, rfl, he⟩ := exists_exponentSplit after
    cases digits with
    | nil =>
      rw [List.append_nil] at hm ⊢
      exact ⟨_, .malformed hm hmark he⟩
    | cons d ds => exact ⟨_, .exponent hm hmark he (by simp)⟩
  · have hrest : ∀ c ∈ rest.head?, ¬ IsExponentMark c := fun c hc h => hmark ⟨c, hc, h⟩
    cases fraction with
    | nil =>
      rw [List.append_nil]
      by_cases hvalue : Text.digitsValue 10 whole ≤ 0x7fffffffffffffff
      · exact ⟨_, .integer hm hrest hvalue⟩
      · exact ⟨_, .tooLarge hm hrest hvalue⟩
    | cons p places =>
      cases hm with
      | fraction hdigits hplaces hstop =>
        exact ⟨_, .fraction (.fraction hdigits hplaces hstop) hrest⟩

/-- A decimal number after its mantissa is known. -/
theorem MantissaSplit.scanDecimal {whole fraction rest : List Char}
    (h : MantissaSplit whole fraction rest) :
    scanDecimal (whole ++ fraction ++ rest)
      = match Exponent.scan? rest with
        | some e =>
          if e.digits.isEmpty then
            .error ⟨.malformedNumber, whole ++ fraction ++ e.text,
              ((whole ++ fraction ++ rest).drop (whole ++ fraction ++ e.text).length).take 1⟩
          else
            .ok ⟨.number (.float (floatValue whole fraction e.value)), whole ++ fraction ++ e.text⟩
        | none =>
          if fraction.isEmpty then
            if Text.digitsValue 10 whole ≤ 0x7fffffffffffffff then
              .ok ⟨.number (.integer (Int64.ofNat (Text.digitsValue 10 whole))), whole⟩
            else .error ⟨.literalTooLarge, [], whole⟩
          else .ok ⟨.number (.float (floatValue whole fraction 0)), whole ++ fraction⟩ := by
  obtain ⟨hwhole, hfraction⟩ := h.read
  have hafter : (whole ++ fraction ++ rest).drop whole.length = fraction ++ rest := by
    rw [List.append_assoc, List.drop_left]
  cases hexponent : Exponent.scan? rest <;>
    simp only [Lexeme.scanDecimal, hwhole, hafter, hfraction, List.drop_left, floatValue, hexponent]

/-- **Decimal numbers are read so.** -/
theorem DecimalRead.scanDecimal {cs : List Char} {result : Except LexFault Lexeme}
    (h : DecimalRead cs result) : scanDecimal cs = result := by
  cases h with
  | malformed hm hmark he =>
    have hread := he.read hmark
    rw [List.append_nil] at hread
    rw [hm.scanDecimal, hread]
    simp [Exponent.text]
  | exponent hm hmark he hne =>
    rw [hm.scanDecimal, he.read hmark]
    simp [hne, Exponent.text]
  | fraction hm hrest =>
    rw [hm.scanDecimal, Exponent.scan?_eq_none hrest]
    rfl
  | @integer whole rest hm hrest hvalue =>
    have hscan := hm.scanDecimal
    rw [List.append_nil, Exponent.scan?_eq_none hrest] at hscan
    simpa [hvalue] using hscan
  | @tooLarge whole rest hm hrest hvalue =>
    have hscan := hm.scanDecimal
    rw [List.append_nil, Exponent.scan?_eq_none hrest] at hscan
    simpa [hvalue] using hscan

/-- **How a hexadecimal number is read** after its `0x`: there has to be a digit,
and the digits may be too many. -/
inductive HexadecimalRead (x : Char) : List Char → Except LexFault Lexeme → Prop
  | malformed {rest : List Char} (hrest : ∀ c ∈ rest.head?, Text.isHexDigit c = false) :
    HexadecimalRead x rest (.error ⟨.malformedNumber, ['0', x], rest.take 1⟩)
  | integer {digits rest : List Char} (hne : digits ≠ [])
    (hdigits : ∀ c ∈ digits, Text.isHexDigit c = true)
    (hrest : ∀ c ∈ rest.head?, Text.isHexDigit c = false)
    (hvalue : Text.digitsValue 16 digits ≤ 0xffffffffffffffff) :
    HexadecimalRead x (digits ++ rest)
      (.ok ⟨.number (.integer (UInt64.ofNat (Text.digitsValue 16 digits)).toInt64),
        '0' :: x :: digits⟩)
  | tooLarge {digits rest : List Char} (hne : digits ≠ [])
    (hdigits : ∀ c ∈ digits, Text.isHexDigit c = true)
    (hrest : ∀ c ∈ rest.head?, Text.isHexDigit c = false)
    (hvalue : ¬ Text.digitsValue 16 digits ≤ 0xffffffffffffffff) :
    HexadecimalRead x (digits ++ rest) (.error ⟨.literalTooLarge, ['0', x], digits⟩)

/-- Every text can be read so. -/
theorem exists_hexadecimalRead (x : Char) (cs : List Char) :
    ∃ result, HexadecimalRead x cs result := by
  obtain ⟨digits, rest, rfl, -, hdigits, hrest⟩ := exists_run Text.isHexDigit cs
  by_cases hne : digits = []
  · subst hne
    exact ⟨_, .malformed hrest⟩
  by_cases hvalue : Text.digitsValue 16 digits ≤ 0xffffffffffffffff
  · exact ⟨_, .integer hne hdigits hrest hvalue⟩
  · exact ⟨_, .tooLarge hne hdigits hrest hvalue⟩

/-- **Hexadecimal numbers are read so.** -/
theorem HexadecimalRead.scanHexadecimal {x : Char} {cs : List Char}
    {result : Except LexFault Lexeme} (h : HexadecimalRead x cs result) :
    scanHexadecimal x cs = result := by
  cases h with
  | malformed hrest =>
    have hnone : cs.takeWhile Text.isHexDigit = [] := @takeWhile_run _ [] cs (by simp) hrest
    simp [Lexeme.scanHexadecimal, hnone]
  | integer hne hdigits hrest hvalue =>
    simp [Lexeme.scanHexadecimal, takeWhile_run hdigits hrest, hne, hvalue]
  | tooLarge hne hdigits hrest hvalue =>
    simp [Lexeme.scanHexadecimal, takeWhile_run hdigits hrest, hne, hvalue]

/-- **How a number is read**: after `0x` the digits are hexadecimal. -/
inductive NumberRead : List Char → Except LexFault Lexeme → Prop
  | hexadecimal {x : Char} {cs : List Char} {result : Except LexFault Lexeme}
    (hx : x = 'x' ∨ x = 'X') (h : HexadecimalRead x cs result) : NumberRead ('0' :: x :: cs) result
  | decimal {cs : List Char} {result : Except LexFault Lexeme} (h : DecimalRead cs result)
    (hx : ∀ x ds, cs = '0' :: x :: ds → ¬ (x = 'x' ∨ x = 'X')) : NumberRead cs result

/-- Every text that starts with a digit can be read so. -/
theorem exists_numberRead {c : Char} (cs : List Char) (hc : c.isDigit = true) :
    ∃ result, NumberRead (c :: cs) result := by
  by_cases hx : ∃ x ds, c :: cs = '0' :: x :: ds ∧ (x = 'x' ∨ x = 'X')
  · obtain ⟨x, ds, heq, hx⟩ := hx
    obtain ⟨result, hread⟩ := exists_hexadecimalRead x ds
    exact ⟨result, heq ▸ .hexadecimal hx hread⟩
  · obtain ⟨result, hread⟩ := exists_decimalRead cs hc
    exact ⟨result, .decimal hread fun x ds heq h => hx ⟨x, ds, heq, h⟩⟩

theorem DecimalRead.exists_cons {cs : List Char} {result : Except LexFault Lexeme}
    (h : DecimalRead cs result) : ∃ c ds, cs = c :: ds ∧ c.isDigit = true := by
  obtain ⟨whole, rest, rfl, hdigits⟩ : ∃ whole rest, cs = whole ++ rest ∧ IsDigits whole := by
    cases h with
    | malformed hm => exact ⟨_, _, List.append_assoc _ _ _, hm.isDigits⟩
    | exponent hm => exact ⟨_, _, List.append_assoc _ _ _, hm.isDigits⟩
    | fraction hm => exact ⟨_, _, List.append_assoc _ _ _, hm.isDigits⟩
    | integer hm => exact ⟨_, _, rfl, hm.isDigits⟩
    | tooLarge hm => exact ⟨_, _, rfl, hm.isDigits⟩
  obtain ⟨c, ds, rfl, hc⟩ := hdigits.exists_cons
  exact ⟨c, ds ++ rest, rfl, hc⟩

/-- A number starts with a digit. -/
theorem NumberRead.exists_cons {cs : List Char} {result : Except LexFault Lexeme}
    (h : NumberRead cs result) : ∃ c ds, cs = c :: ds ∧ c.isDigit = true := by
  cases h with
  | hexadecimal hx h => exact ⟨'0', _, rfl, by decide⟩
  | decimal h hx => exact h.exists_cons

/-- **Numbers are read so.** -/
theorem NumberRead.scanNumber {cs : List Char} {result : Except LexFault Lexeme}
    (h : NumberRead cs result) : scanNumber cs = result := by
  cases h with
  | hexadecimal hx h => rw [Lexeme.scanNumber, if_pos hx, h.scanHexadecimal]
  | decimal h hx =>
    unfold Lexeme.scanNumber
    split
    · rename_i x ds
      rw [if_neg (hx x ds rfl), h.scanDecimal]
    · exact h.scanDecimal

end Lexeme

end ScalarLang
