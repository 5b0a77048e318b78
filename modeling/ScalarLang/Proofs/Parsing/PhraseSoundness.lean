import ScalarLang.Proofs.Parsing.Waiting
/-!
# What the phrase parser accepts is a phrase

The recursion follows the parser's own: each step keeps the state of the
parser in agreement with the tokens read (`InPhrase`), and where the
parser ends the state has become one phrase.
-/

namespace ScalarLang

namespace Parser

variable {σ : Type} {d : Dialect σ}

/-- A state of the parser within a phrase, before an operand or, after one,
before an operator. -/
inductive InPhrase (d : Dialect σ) (out : List (Node σ)) :
    List Token → List PendingOp → Emitted σ → Bool → Prop
  | operand {read : List Token} {ops : List PendingOp} {e : Emitted σ}
    (hw : Waiting d out read ops e) : InPhrase d out read ops e true
  | operator {read ts : List Token} {ops : List PendingOp} {e : Emitted σ} {p : Phrase σ}
    (hw : Waiting d out read ops e) (hp : PhraseOf d Priority.operandLevel ts p) :
    InPhrase d out (read ++ ts) ops (e.whole p) false

section

variable {out nodes : List (Node σ)} {read ts us : List Token} {ops : List PendingOp}
variable {e : Emitted σ} {b : Bool}

/-- A phrase that ends has all of its operands. -/
theorem InPhrase.finish? (hs : InPhrase d out read ops e b)
    (h : Emitted.finish? ops e = some nodes) :
    ∃ p, PhraseOf d 0 read p ∧ nodes = out ++ p.nodes := by
  cases hs with
  | operand hw =>
    -- the operators that wait need one value more than there are
    simp [hw.finish?_eq_none] at h
  | operator hw hp =>
    have hle := awaited_le_unary d ops
    obtain ⟨q, hfinish, hq⟩ := hw.finish? hp (Nat.le_succ_of_le hle)
    rw [h] at hfinish
    exact ⟨q, hq, by injection hfinish⟩

/-- What ends a phrase accepts the phrase read so far. -/
theorem InPhrase.ending (hs : InPhrase d out read ops e b)
    (h : ending ts ops e = .ok (nodes, us)) :
    ∃ used p, ts = used ++ us ∧ PhraseOf d 0 (read ++ used) p ∧ nodes = out ++ p.nodes := by
  obtain ⟨hfinish, rfl⟩ := ending_eq_ok h
  obtain ⟨p, hp, hnodes⟩ := hs.finish? hfinish
  exact ⟨[], p, rfl, by simpa using hp, hnodes⟩

end

mutual

/-- What is read from a state on completes it to a phrase. -/
theorem phraseRest_sound (hd : d.Uniform) {out : List (Node σ)} {read ts us : List Token}
    {ops : List PendingOp} {e : Emitted σ} {b : Bool} {nodes : List (Node σ)}
    (hs : InPhrase d out read ops e b)
    (h : reading (phraseRest d ts ops e b) = .ok (nodes, us)) :
    ∃ used p, ts = used ++ us ∧ PhraseOf d 0 (read ++ used) p ∧ nodes = out ++ p.nodes := by
  match ts, hs with
  | [], hs =>
    rw [reading_phraseRest_nil] at h
    exact hs.ending h
  | t :: ts, .operand hw =>
    -- an operand leads to the state before an operator
    have operand {q : Phrase σ} (qs rest : List Token) (hts : t :: ts = qs ++ rest)
        (hlt : rest.length < ts.length + 1) (hq : PhraseOf d Priority.operandLevel qs q)
        (h : reading (phraseRest d rest ops (e.whole q) false) = .ok (nodes, us)) :
        ∃ used p, t :: ts = used ++ us ∧ PhraseOf d 0 (read ++ used) p ∧
          nodes = out ++ p.nodes := by
      obtain ⟨used, p, hrest, hp, hnodes⟩ := phraseRest_sound hd (.operator hw hq) h
      exact ⟨qs ++ used, p, by rw [hts, hrest, List.append_assoc],
        by rwa [← List.append_assoc], hnodes⟩
    rcases operand_cases d t with
      ⟨v, ht⟩ | ⟨op, ht⟩ | ht | ⟨ht, f, hf⟩ | ⟨ht, hname⟩ | ht
    · rw [reading_phraseRest_literal ht] at h
      exact operand [t] ts rfl (Nat.lt_succ_self _) (.literal ht) h
    · rw [reading_phraseRest_unary ht] at h
      obtain ⟨used, p, rfl, hp, hnodes⟩ := phraseRest_sound hd (.operand (hw.unary ht)) h
      exact ⟨t :: used, p, rfl, by simpa using hp, hnodes⟩
    · rw [reading_phraseRest_parenthesis ht] at h
      obtain ⟨⟨inner, mid⟩, hinner, hmid⟩ := bind_eq_ok h
      obtain ⟨rest, hskip, hrest⟩ := bind_eq_ok hmid
      obtain ⟨used, q, rfl, hq, rfl⟩ := phrase_sound hd hinner
      obtain ⟨r, hr, rfl⟩ := skip_eq_ok hskip
      exact operand (t :: used ++ [r]) rest (by simp)
        (by simp only [List.length_append, List.length_cons]; omega)
        (.parenthesised ht hq hr) hrest
    · rw [reading_phraseRest_call ht hf] at h
      obtain ⟨⟨inner, rest⟩, hinner, hrest⟩ := bind_eq_ok h
      obtain ⟨used, q, rfl, hq, rfl⟩ := call_sound hd ht hf hinner
      exact operand (t :: used) rest rfl
        (by simp only [List.length_append]; omega) hq hrest
    · rw [reading_phraseRest_variable ht hname] at h
      exact operand [t] ts rfl (Nat.lt_succ_self _) (.variable ht hname) h
    · rw [reading_phraseRest_noOperand ht] at h
      exact (InPhrase.operand hw).ending h
  | t :: ts, .operator hw hp =>
    cases ht : t.kind.binaryOp? with
    | none =>
      rw [reading_phraseRest_noBinary ht] at h
      exact (InPhrase.operator hw hp).ending h
    | some op =>
      have hop := op.level_lt_unary
      -- an operand is of a level that any operator takes on its left
      obtain ⟨ops', e', hreduce, hw'⟩ := hw.reduce? hd ht hp
        (Nat.le_succ_of_le (awaited_le_unary d ops))
        (by simp only [BinaryOp.leftLevel, Priority.operandLevel]; split <;> omega)
      rw [reading_phraseRest_binary ht, hreduce] at h
      obtain ⟨used, p, rfl, hp', hnodes⟩ := phraseRest_sound hd (.operand hw') h
      exact ⟨t :: used, p, rfl, by simpa using hp', hnodes⟩
termination_by 4 * ts.length

/-- **What is read as a phrase is a phrase**, and its postfix form is
emitted. -/
theorem phrase_sound (hd : d.Uniform) {out : List (Node σ)} {ts us : List Token}
    {nodes : List (Node σ)} (h : reading (phrase d ts out) = .ok (nodes, us)) :
    ∃ used p, ts = used ++ us ∧ PhraseOf d 0 used p ∧ nodes = out ++ p.nodes := by
  rw [reading_phrase] at h
  exact phraseRest_sound hd (.operand .nil) h
termination_by 4 * ts.length + 1

/-- What is read as arguments are as many phrases as there are parameters,
and the parenthesis after them. -/
theorem argumentList_sound (hd : d.Uniform) {n : Nat} {out : List (Node σ)}
    {ts us : List Token} {nodes : List (Node σ)}
    (h : argumentList d n ts out = .ok (nodes, us)) :
    ∃ used r ps, ts = used ++ r :: us ∧ r.IsSymbol .rightParen ∧ ArgumentsOf d n used ps ∧
      nodes = out ++ Phrase.allNodes ps := by
  match n with
  | 0 =>
    obtain ⟨rest, hskip, hrest⟩ := map_eq_ok h
    obtain ⟨r, hr, hts⟩ := skip_eq_ok hskip
    cases hrest
    exact ⟨[], r, [], hts, hr, .none, by simp [Phrase.allNodes]⟩
  | 1 =>
    rw [argumentList_one] at h
    obtain ⟨⟨inner, mid⟩, hinner, hmid⟩ := bind_eq_ok h
    obtain ⟨rest, hskip, hrest⟩ := map_eq_ok hmid
    obtain ⟨used, p, rfl, hp, rfl⟩ := phrase_sound hd hinner
    obtain ⟨r, hr, rfl⟩ := skip_eq_ok hskip
    cases hrest
    exact ⟨used, r, [p], rfl, hr, .one hp, by simp [Phrase.allNodes]⟩
  | n + 2 =>
    rw [argumentList_more] at h
    obtain ⟨⟨inner, mid⟩, hinner, hmid⟩ := bind_eq_ok h
    obtain ⟨rest, hskip, hrest⟩ := bind_eq_ok hmid
    obtain ⟨used, p, rfl, hp, rfl⟩ := phrase_sound hd hinner
    obtain ⟨c, hc, rfl⟩ := skip_eq_ok hskip
    obtain ⟨more, r, ps, rfl, hr, hps, hnodes⟩ := argumentList_sound hd hrest
    exact ⟨used ++ c :: more, r, p :: ps, by simp, hr, .more hp hc hps,
      by simp [hnodes, Phrase.allNodes]⟩
termination_by 4 * ts.length + 2

/-- What is read after the name of a function is, with the name, a call. -/
theorem call_sound (hd : d.Uniform) {t : Token} {f : NativeFunction σ} {out : List (Node σ)}
    {ts us : List Token} {nodes : List (Node σ)} (ht : t.kind = .identifier)
    (hf : d.resolver.resolve? t.text = some f)
    (h : reading (call d t f ts out) = .ok (nodes, us)) :
    ∃ used p, ts = used ++ us ∧ PhraseOf d Priority.operandLevel (t :: used) p ∧
      nodes = out ++ p.nodes := by
  rw [reading_call] at h
  obtain ⟨⟨inner, rest⟩, hread, hrest⟩ := map_eq_ok h
  obtain ⟨inside, hskip, hinside⟩ := bind_eq_ok (mapError_eq_ok hread)
  obtain ⟨l, hl, rfl⟩ := skip_eq_ok hskip
  obtain ⟨used, r, ps, rfl, hr, hps, hnodes⟩ := argumentList_sound hd hinside
  cases hrest
  exact ⟨l :: used ++ [r], .call f ps, by simp, .call ht hf hl hps hr,
    by simp [hnodes, Phrase.nodes]⟩
termination_by 4 * ts.length + 3

end

end Parser

end ScalarLang
