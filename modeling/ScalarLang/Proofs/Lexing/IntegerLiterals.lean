import ScalarLang.Grammar.Numeral
import ScalarLang.Proofs.Lexing.Respelling
/-!
# What integer literals denote

The running total over digits is the number that they denote by their
places (`Denotes.eq_digitsValue`), however many there are. An integer literal
gives that number, or the integer with its bits, up to the bound of its radix,
and from the bound on an error at its digits (`Lexer.next_integerLiteral`).
-/

namespace ScalarLang

/-! ## Digits -/

/-- What a digit stands for is its value. -/
theorem IsDigitOf.digitValue_eq {d : Nat} {c : Char} (h : IsDigitOf d c) :
    Text.digitValue c = d := by
  have hall : ∀ d < 16, Text.digitValue (Nat.digitChar d) = d ∧
      Text.digitValue (Nat.digitChar d).toUpper = d := by
    decide +kernel
  rcases h with ⟨hd, rfl | rfl⟩
  · exact (hall d hd).1
  · exact (hall d hd).2

theorem Text.isHexDigit_iff {c : Char} : isHexDigit c = true ↔
    (48 ≤ c.toNat ∧ c.toNat ≤ 57) ∨ (97 ≤ c.toNat ∧ c.toNat ≤ 102) ∨
      (65 ≤ c.toNat ∧ c.toNat ≤ 70) := by
  have hle (a b : Char) : a ≤ b ↔ a.toNat ≤ b.toNat := Iff.rfl
  simp only [isHexDigit, Bool.or_eq_true, Bool.and_eq_true, decide_eq_true_iff, isDigit_iff, hle,
    or_assoc]
  exact Iff.rfl

/-- Every hexadecimal digit stands for its value, which is less than ten for a
decimal digit. -/
theorem isDigitOf_digitValue {c : Char} (h : Text.isHexDigit c = true) :
    IsDigitOf (Text.digitValue c) c ∧ (c.isDigit = true → Text.digitValue c < 10) := by
  have hascii : c.toNat < 128 := by
    rw [Text.isHexDigit_iff] at h
    omega
  have hall : ∀ n < 128, Text.isHexDigit (Char.ofNat n) = true →
      (Text.digitValue (Char.ofNat n) < 16 ∧
        (Char.ofNat n = Nat.digitChar (Text.digitValue (Char.ofNat n)) ∨
          Char.ofNat n = (Nat.digitChar (Text.digitValue (Char.ofNat n))).toUpper)) ∧
      ((Char.ofNat n).isDigit = true → Text.digitValue (Char.ofNat n) < 10) := by
    decide +kernel
  have hc := hall c.toNat hascii
  rw [Char.ofNat_toNat] at hc
  exact hc h

/-! ## Runs of digits -/

/-- The running total, started from any number. -/
theorem Text.foldl_digitValue (base n : Nat) (cs : List Char) :
    cs.foldl (fun n c => base * n + digitValue c) n
      = n * base ^ cs.length + digitsValue base cs := by
  unfold digitsValue
  induction cs generalizing n with
  | nil => simp
  | cons c cs ih =>
    rw [List.foldl_cons, List.foldl_cons, ih, ih (base * 0 + _), List.length_cons, Nat.pow_succ]
    grind

theorem Text.digitsValue_cons (base : Nat) (c : Char) (cs : List Char) :
    digitsValue base (c :: cs) = digitValue c * base ^ cs.length + digitsValue base cs := by
  rw [digitsValue, List.foldl_cons, foldl_digitValue, Nat.mul_zero, Nat.zero_add]

/-- The running total is what digits denote. -/
theorem Denotes.eq_digitsValue {base n : Nat} {cs : List Char} (h : Denotes base cs n) :
    n = Text.digitsValue base cs := by
  induction h with
  | nil => rfl
  | cons _ hc _ ih => rw [Text.digitsValue_cons, hc.digitValue_eq, ih]

/-- Digits below the base denote a number. -/
theorem denotes_digitsValue {base : Nat} {cs : List Char}
    (h : ∀ c ∈ cs, Text.digitValue c < base ∧ IsDigitOf (Text.digitValue c) c) :
    Denotes base cs (Text.digitsValue base cs) := by
  induction cs with
  | nil => exact .nil
  | cons c cs ih =>
    obtain ⟨hc, hcs⟩ := List.forall_mem_cons.mp h
    rw [Text.digitsValue_cons]
    exact .cons hc.1 hc.2 (ih hcs)

/-- The digits of a literal denote one number. -/
theorem IntegerLiteral.denotes_iff {r : Radix} {mark digits rest : List Char}
    (h : IntegerLiteral r mark digits rest) (n : Nat) :
    Denotes r.base digits n ↔ n = Text.digitsValue r.base digits := by
  refine ⟨Denotes.eq_digitsValue, ?_⟩
  rintro rfl
  cases h with
  | decimal hdigits _ _ =>
    refine denotes_digitsValue fun c hc => ?_
    have hdigit := hdigits.2 c hc
    have hvalue := isDigitOf_digitValue (c := c) (by simp [Text.isHexDigit, hdigit])
    exact ⟨hvalue.2 hdigit, hvalue.1⟩
  | hexadecimal _ _ hdigits _ =>
    refine denotes_digitsValue fun c hc => ?_
    have hvalue := (isDigitOf_digitValue (hdigits c hc)).1
    exact ⟨hvalue.1, hvalue⟩

/-! ## Reading -/

/-- A decimal literal is a mantissa without a fraction. -/
theorem IntegerLiteral.mantissaSplit {mark digits rest : List Char}
    (h : IntegerLiteral .decimal mark digits rest) : Lexeme.MantissaSplit digits [] rest := by
  cases h with
  | decimal hdigits hrest _ =>
    exact .whole hdigits fun c hc => ⟨(hrest c hc).1, (hrest c hc).2.1⟩

/-- A decimal literal is not read as a hexadecimal number. -/
theorem IntegerLiteral.not_hexadecimal {mark digits rest : List Char}
    (h : IntegerLiteral .decimal mark digits rest) :
    ∀ x ds, digits ++ rest = '0' :: x :: ds → ¬ (x = 'x' ∨ x = 'X') := by
  intro x ds heq hx
  -- before an `x` a zero is all there is of the digits
  obtain ⟨rfl, -, rfl⟩ :=
    h.mantissaSplit.unique (Lexeme.mantissaSplit_zero hx ds) (by simpa using heq)
  cases h with
  | decimal _ _ hzero => exact hzero rfl x rfl hx

/-- **Integer literals are read so**: as an integer below the bound, and as an
error at the digits from there on. -/
theorem IntegerLiteral.lexemeRead {r : Radix} {mark digits rest : List Char} {n : Nat}
    (h : IntegerLiteral r mark digits rest) (hn : Denotes r.base digits n) :
    (n < r.bound → ∃ m, r.IsInteger n m ∧ Lexeme.LexemeRead (mark ++ digits ++ rest)
        (.ok ⟨.number (.integer m), mark ++ digits⟩)) ∧
      (r.bound ≤ n → Lexeme.LexemeRead (mark ++ digits ++ rest)
        (.error ⟨.literalTooLarge, mark, digits⟩)) := by
  obtain rfl : n = Text.digitsValue r.base digits := hn.eq_digitsValue
  cases h with
  | decimal hdigits hrest hzero =>
    have hliteral : IntegerLiteral .decimal [] digits rest := .decimal hdigits hrest hzero
    have hm := hliteral.mantissaSplit
    have hplain := hliteral.not_hexadecimal
    have hmark := fun c hc => (hrest c hc).2.2
    constructor
    · intro hlt
      have hvalue : Text.digitsValue 10 digits ≤ 0x7fffffffffffffff := Nat.le_of_lt_succ hlt
      exact ⟨_, Int64.toInt_ofNat_of_lt hlt, .number (.decimal (.integer hm hmark hvalue) hplain)⟩
    · intro hge
      have hvalue : ¬ Text.digitsValue 10 digits ≤ 0x7fffffffffffffff := Nat.not_le.mpr hge
      exact .number (.decimal (.tooLarge hm hmark hvalue) hplain)
  | hexadecimal hx hne hdigits hrest =>
    constructor
    · intro hlt
      have hvalue : Text.digitsValue 16 digits ≤ 0xffffffffffffffff := Nat.le_of_lt_succ hlt
      exact ⟨_, UInt64.toNat_ofNat_of_lt' hlt,
        .number (.hexadecimal hx (.integer hne hdigits hrest hvalue))⟩
    · intro hge
      have hvalue : ¬ Text.digitsValue 16 digits ≤ 0xffffffffffffffff := Nat.not_le.mpr hge
      exact .number (.hexadecimal hx (.tooLarge hne hdigits hrest hvalue))

/-- A literal starts with a digit. -/
theorem IntegerLiteral.exists_cons {r : Radix} {mark digits rest : List Char}
    (h : IntegerLiteral r mark digits rest) :
    ∃ c cs, mark ++ digits ++ rest = c :: cs ∧ c.isDigit = true := by
  cases h with
  | decimal hdigits _ _ =>
    obtain ⟨c, cs, rfl, hc⟩ := hdigits.exists_cons
    exact ⟨c, cs ++ rest, rfl, hc⟩
  | hexadecimal => exact ⟨'0', _, rfl, by decide⟩

/-- Nothing is skipped where a digit stands. -/
theorem skipsTo_digit {gap cs : List Char} {c : Char} (hgap : IsTrivia gap)
    (hc : c.isDigit = true) : SkipsTo gap (c :: cs) ∧ ¬ ['/', '*'] <+: c :: cs := by
  have hslash (ds more : List Char) : ¬ '/' :: ds ++ more <+: c :: cs := by
    rintro ⟨tail, htail⟩
    obtain rfl : '/' = c := (List.cons.inj htail).1
    revert hc
    decide
  have hblank : Trivia.isBlank c = false := by
    rw [← Bool.not_eq_true]
    intro hblank
    rw [(not_continues (.inl hblank)).1] at hc
    cases hc
  refine ⟨.place hgap ⟨?_, hslash ['/'] [], fun body => hslash ('*' :: body) _⟩, hslash ['*'] []⟩
  rintro d hd
  obtain rfl : c = d := Option.some.inj hd
  exact hblank

namespace Lexer

/-- **Integer literals denote their number.** A lexer that stands before one
gives out the integer of the number that the digits denote if that is below
the bound of the radix, and is after the literal then; otherwise it gives out
an error at all the digits, and stops before the literal. -/
theorem next_integerLiteral {l : Lexer} {r : Radix} {gap mark digits rest : List Char}
    (hl : l.finished = false) (hgap : IsTrivia gap)
    (hrest : l.rest = gap ++ (mark ++ digits ++ rest)) (h : IntegerLiteral r mark digits rest) :
    (∃ n, Denotes r.base digits n) ∧ ∀ n, Denotes r.base digits n →
      (n < r.bound → ∃ m, r.IsInteger n m ∧
        l.next = (some (.ok ⟨.number (.integer m), String.ofList (mark ++ digits),
            l.position.advance gap⟩),
          ⟨(l.position.advance gap).advance (mark ++ digits), rest, false⟩)) ∧
      (r.bound ≤ n →
        l.next = (some (.error ⟨.literalTooLarge, String.ofList digits,
            (l.position.advance gap).advance mark⟩),
          ⟨l.position.advance gap, mark ++ digits ++ rest, true⟩)) := by
  obtain ⟨c, cs, htext, hc⟩ := h.exists_cons
  obtain ⟨hskips, hcomment⟩ := htext ▸ skipsTo_digit hgap hc
  refine ⟨⟨_, (h.denotes_iff _).mpr rfl⟩, fun n hn => ?_⟩
  obtain ⟨hinteger, htooLarge⟩ := h.lexemeRead hn
  constructor
  · intro hlt
    obtain ⟨m, hm, hread⟩ := hinteger hlt
    exact ⟨m, hm, (StepRead.token (l := ⟨_, _⟩) hskips hcomment hread).next hrest hl⟩
  · intro hge
    exact (StepRead.fault hskips hcomment (htooLarge hge)).next hrest hl

theorem next_integerLiteral_upperHalf :
    IsTrivia [' '] ∧
      IntegerLiteral .hexadecimal ['0', 'X'] "ffFFFFFFffffffFE".toList ['+', '1'] ∧
      ∃ l', (ofSource " 0XffFFFFFFffffffFE+1").next
        = (some (.ok ⟨.number (.integer (-2)), "0XffFFFFFFffffffFE", ⟨1, 1, 2⟩⟩), l') := by
  have hgap : IsTrivia [' '] := .blank (by decide) .nil
  have hdigits := List.all_eq_true.mp
    (show "ffFFFFFFffffffFE".toList.all Text.isHexDigit = true by decide +kernel)
  have hliteral : IntegerLiteral .hexadecimal ['0', 'X'] "ffFFFFFFffffffFE".toList ['+', '1'] := by
    refine .hexadecimal (.inr rfl) (by decide) hdigits fun c hc => ?_
    obtain rfl : '+' = c := Option.some.inj hc
    decide
  obtain ⟨⟨n, hn⟩, hread⟩ := next_integerLiteral
    (l := ofSource " 0XffFFFFFFffffffFE+1") rfl hgap (by decide +kernel) hliteral
  obtain rfl : n = 2 ^ 64 - 2 := hn.eq_digitsValue.trans (by decide +kernel)
  obtain ⟨m, hm, hnext⟩ := (hread _ hn).1 (by decide)
  obtain rfl : m = -2 := Int64.toBitVec_inj.mp (BitVec.eq_of_toNat_eq hm)
  exact ⟨hgap, hliteral, _, hnext⟩

end Lexer

end ScalarLang
