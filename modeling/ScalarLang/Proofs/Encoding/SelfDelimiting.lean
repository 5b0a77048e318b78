import ScalarLang.Program.Encoding
/-!
# Encodings that end by themselves

An encoding ends by itself if it can be read off the front of any bytes:
what was encoded and the bytes after it are both determined by the whole
(`SelfDelimiting`). No such encoding begins another one.

Numbers end with the first byte whose high bit is clear, words after
eight bytes, and texts after as many bytes as are announced. A directive
is told from others by its code, which also tells whether an operand
follows and of which sort.
-/

namespace ScalarLang

/-- **An encoding ends by itself**, and keeps what it encodes up to `same`. -/
def SelfDelimiting {α : Type} (encode : α → List UInt8) (same : α → α → Prop) : Prop :=
  ∀ ⦃a b : α⦄ ⦃xs ys : List UInt8⦄, encode a ++ xs = encode b ++ ys → same a b ∧ xs = ys

section

variable {α : Type} {encode : α → List UInt8}

/-- What can be read back from the front of any bytes ends by itself. -/
theorem SelfDelimiting.of_read {read : List UInt8 → Option (α × List UInt8)}
    (hread : ∀ a xs, read (encode a ++ xs) = some (a, xs)) : SelfDelimiting encode Eq := by
  intro a b xs ys h
  have hsome : some (a, xs) = some (b, ys) := by rw [← hread a xs, h, hread b ys]
  simpa using hsome

/-- Different encodings of one length end by themselves. -/
theorem SelfDelimiting.of_length {n : Nat} (hlength : ∀ a, (encode a).length = n)
    (hinjective : Function.Injective encode) : SelfDelimiting encode Eq := by
  intro a b xs ys h
  obtain ⟨hencode, hrest⟩ := List.append_inj h (by rw [hlength, hlength])
  exact ⟨hinjective hencode, hrest⟩

variable {same : α → α → Prop}

/-- **What ends by itself is known by its encoding.** -/
theorem SelfDelimiting.same_of_eq (h : SelfDelimiting encode same) {a b : α}
    (hab : encode a = encode b) : same a b := by
  have happend : encode a ++ [] = encode b ++ [] := by rw [hab]
  exact (h happend).1

/-- **No encoding that ends by itself begins another one.** -/
theorem SelfDelimiting.eq_of_isPrefix (h : SelfDelimiting encode same) {a b : α}
    (hab : encode a <+: encode b) : encode a = encode b := by
  obtain ⟨rest, hrest⟩ := hab
  have happend : encode a ++ rest = encode b ++ [] := by rw [hrest, List.append_nil]
  obtain ⟨-, rfl⟩ := h happend
  simpa using hrest

end

/-! ## Numbers -/

/-- **A number is read back** from the front of any bytes. -/
theorem Varint.decode?_encode (n : Nat) (rest : List UInt8) :
    decode? (encode n ++ rest) = some (n, rest) := by
  induction n using Nat.strongRecOn with
  | ind n ih =>
    rw [encode]
    split
    · rename_i hlast
      have hbyte : (UInt8.ofNat n).toNat = n := by
        rw [UInt8.toNat_ofNat']
        omega
      simp [decode?, hbyte, hlast]
    · rename_i hmore
      have hbyte : (UInt8.ofNat (n % 128 + 128)).toNat = n % 128 + 128 := by
        rw [UInt8.toNat_ofNat']
        omega
      have hhigh : ¬ n % 128 + 128 < 128 := by omega
      have hsum : n % 128 + 128 * (n / 128) = n := Nat.mod_add_div n 128
      rw [List.cons_append, decode?, hbyte, if_neg hhigh, ih (n / 128) (by omega)]
      simp [hsum]

theorem Varint.selfDelimiting_encode : SelfDelimiting encode Eq :=
  .of_read decode?_encode

/-! ## Codes -/

/-- What is found by its code is known by it. -/
theorem eq_of_find?_code {α : Type} {code : α → Nat} (all : List α)
    (hfind : ∀ a, all.find? (fun b => code b = code a) = some a) {a b : α} (h : code a = code b) :
    a = b := by
  have hsome : some a = some b := by rw [← hfind a, h, hfind b]
  simpa using hsome

theorem Kind.eq_of_ordinal_eq {k l : Kind} (h : k.ordinal = l.ordinal) : k = l :=
  eq_of_find?_code [.boolean, .integer, .float] (fun k => by cases k <;> rfl) h

theorem UnaryOp.eq_of_code_eq {op op' : UnaryOp} (h : op.code = op'.code) : op = op' :=
  eq_of_find?_code all (fun op => by cases op <;> rfl) h

theorem BinaryOp.eq_of_code_eq {op op' : BinaryOp} (h : op.code = op'.code) : op = op' :=
  eq_of_find?_code all (fun op => by cases op <;> rfl) h

/-- The codes of unary operators come after those of the other directives
and before those of binary operators. -/
theorem UnaryOp.code_bounds (op : UnaryOp) : 4 ≤ op.code ∧ op.code < 8 := by
  cases op <;> decide

theorem BinaryOp.le_code (op : BinaryOp) : 8 ≤ op.code := by
  cases op <;> decide

/-- **Directives of one code** differ in their operand alone. -/
theorem Directive.of_code_eq {d e : Directive} (h : d.code = e.code) :
    d = e ∨ (∃ v w, d = .push v ∧ e = .push w) ∨
      ∃ name name', d = .load name ∧ e = .load name' ∨ d = .store name ∧ e = .store name' := by
  have hunary := UnaryOp.code_bounds
  have hbinary := BinaryOp.le_code
  cases d <;> cases e <;> grind [code, UnaryOp.eq_of_code_eq, BinaryOp.eq_of_code_eq]

namespace Encoding

/-! ## Values, texts and directives -/

/-- A word is known by its bytes. -/
theorem word_injective : Function.Injective word := by
  intro n m h
  have hbytes : ∀ i < 8, n.toNat >>> (8 * i) % 2 ^ 8 = m.toNat >>> (8 * i) % 2 ^ 8 := by
    intro i hi
    have hbyte := List.map_inj_left.mp h i (List.mem_range.mpr hi)
    simpa only [UInt8.toNat_ofNat'] using congrArg UInt8.toNat hbyte
  -- each of the 64 bits is one of a byte
  refine UInt64.toNat_inj.mp (Nat.eq_of_testBit_eq fun j => ?_)
  by_cases hj : j < 64
  · have hbit := congrArg (·.testBit (j % 8)) (hbytes (j / 8) (by omega))
    have hlow : j % 8 < 8 := by omega
    have hplace : 8 * (j / 8) + j % 8 = j := Nat.div_add_mod j 8
    simpa only [Nat.testBit_mod_two_pow, Nat.testBit_shiftRight, hlow, hplace, decide_true,
      Bool.true_and] using hbit
  · have hout (k : UInt64) : k.toNat.testBit j = false := by
      have hle : 2 ^ 64 ≤ 2 ^ j := Nat.pow_le_pow_right (by omega) (by omega)
      exact Nat.testBit_lt_two_pow (Nat.lt_of_lt_of_le k.toNat_lt hle)
    rw [hout, hout]

theorem selfDelimiting_word : SelfDelimiting word Eq :=
  .of_length (n := 8) (fun n => by simp [word]) word_injective

/-- A value is known by its kind and its payload. -/
theorem selfDelimiting_value : SelfDelimiting value Eq := by
  intro v w xs ys h
  simp only [value, List.append_assoc] at h
  obtain ⟨hkind, h⟩ := Varint.selfDelimiting_encode h
  obtain ⟨hraw, hrest⟩ := selfDelimiting_word h
  refine ⟨?_, hrest⟩
  rw [← v.ofRaw_raw, ← w.ofRaw_raw, Kind.eq_of_ordinal_eq hkind, hraw]

/-- A text is known by its length and its bytes. -/
theorem selfDelimiting_text : SelfDelimiting text Eq := by
  intro s t xs ys h
  simp only [text, List.append_assoc] at h
  obtain ⟨hsize, h⟩ := Varint.selfDelimiting_encode h
  obtain ⟨hbytes, hrest⟩ := List.append_inj h (by simpa using hsize)
  refine ⟨String.toByteArray_inj.mp (ByteArray.ext (Array.toList_inj.mp hbytes)), hrest⟩

/-- A directive is known by its code and its operand. -/
theorem selfDelimiting_directive : SelfDelimiting directive Eq := by
  intro d e xs ys h
  simp only [directive, List.append_assoc] at h
  obtain ⟨hcode, h⟩ := Varint.selfDelimiting_encode h
  rcases Directive.of_code_eq hcode with
    rfl | ⟨v, w, rfl, rfl⟩ | ⟨name, name', ⟨rfl, rfl⟩ | ⟨rfl, rfl⟩⟩
  · exact ⟨rfl, List.append_cancel_left h⟩
  · have hvalue : value v ++ xs = value w ++ ys := by simpa [flag] using h
    obtain ⟨rfl, hrest⟩ := selfDelimiting_value hvalue
    exact ⟨rfl, hrest⟩
  · have hname : text name ++ xs = text name' ++ ys := by simpa [flag] using h
    obtain ⟨rfl, hrest⟩ := selfDelimiting_text hname
    exact ⟨rfl, hrest⟩
  · have hname : text name ++ xs = text name' ++ ys := by simpa [flag] using h
    obtain ⟨rfl, hrest⟩ := selfDelimiting_text hname
    exact ⟨rfl, hrest⟩

end Encoding

end ScalarLang
