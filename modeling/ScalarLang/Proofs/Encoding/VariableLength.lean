import Mathlib.Data.Nat.Bitwise
import Mathlib.Data.Nat.Log
import ScalarLang.Proofs.Encoding.SelfDelimiting
/-!
# Numbers in as few bytes as they need

The bytes of a number are its places to the base 128, the lowest first,
with the high bit set in all but the highest (`encode_eq_places`). So a
number of 64 bits has at most ten of them, and the last one is zero for
the number zero alone.

On the other side stands a reader of 64 bits, which puts in seven after
seven and refuses what does not fit (`readWord?`). It reads a word exactly
if the bytes are read as that number, so what is known of numbers of any
size carries over: they are read back with nothing of what follows lost,
no number begins another, and no fewer bytes are read as it.
-/

namespace ScalarLang

namespace Varint

/-! ## The places of a number -/

/-- **A number is written by its places**: as many bytes as it has places
to the base 128, of which all but the highest have the high bit set. -/
theorem encode_eq_places (n : Nat) :
    encode n = (List.range (Nat.log 128 n)).map (fun i => UInt8.ofNat (n / 128 ^ i % 128 + 128))
      ++ [UInt8.ofNat (n / 128 ^ Nat.log 128 n)] := by
  fun_induction encode n with
  | case1 n hlast =>
    rw [Nat.log_of_lt hlast]
    simp
  | case2 n hmore ih =>
    have hlog : Nat.log 128 n = Nat.log 128 (n / 128) + 1 :=
      Nat.log_of_one_lt_of_le (by omega) (by omega)
    have hplace (i : Nat) : n / 128 / 128 ^ i = n / 128 ^ (i + 1) := by
      rw [Nat.div_div_eq_div_mul, Nat.pow_succ']
    -- the lowest place is the first byte, and the others are those of `n / 128`
    rw [ih, hlog, List.range_succ_eq_map, List.map_cons, List.map_map, List.cons_append]
    simp only [hplace, Function.comp_def, Nat.pow_zero, Nat.div_one]

/-- The highest place is a digit, which is zero for the number zero alone. -/
theorem highest_place (n : Nat) :
    n / 128 ^ Nat.log 128 n < 128 ∧ (n / 128 ^ Nat.log 128 n = 0 ↔ n = 0) := by
  have hpos : 0 < 128 ^ Nat.log 128 n := Nat.pow_pos (by omega)
  have hlt : n < 128 ^ (Nat.log 128 n + 1) := Nat.lt_pow_succ_log_self (by omega) n
  refine ⟨Nat.div_lt_of_lt_mul (by rwa [← Nat.pow_succ]), ?_⟩
  rw [Nat.div_eq_zero_iff_lt hpos]
  constructor
  · intro hbelow
    by_contra hn
    have hle := Nat.pow_log_le_self 128 hn
    omega
  · rintro rfl
    exact hpos

theorem length_encode (n : Nat) : (encode n).length = Nat.log 128 n + 1 := by
  simp [encode_eq_places]

/-! ## Where a number ends -/

/-- The high bit of a byte tells whether it is a number below 128. -/
theorem and_highBit_eq_zero_iff (b : UInt8) : b &&& 0x80 = 0 ↔ b.toNat < 128 := by
  have hand : (b &&& 0x80).toNat = b.toNat / 128 % 2 * 128 := by
    have hbit := Nat.and_two_pow b.toNat 7
    rw [Nat.toNat_testBit] at hbit
    rw [UInt8.toNat_and]
    exact hbit
  have hlt := b.toNat_lt
  rw [← UInt8.toNat_inj, hand]
  change _ = 0 ↔ _
  omega

/-- The other bits are what is left of it. -/
theorem toNat_and_lowBits (b : UInt8) : (b &&& 0x7f).toNat = b.toNat % 128 := by
  rw [UInt8.toNat_and]
  exact Nat.and_two_pow_sub_one_eq_mod b.toNat 7

/-- Where the bytes of a number end: all but the last have the high bit
set, and the last is zero for the number zero alone. -/
theorem exists_encode_eq (n : Nat) : ∃ front last, encode n = front ++ [last] ∧
    (∀ b ∈ front, b &&& 0x80 ≠ 0) ∧ last &&& 0x80 = 0 ∧ (last = 0 ↔ n = 0) := by
  obtain ⟨hbelow, hzero⟩ := highest_place n
  have hlast : (UInt8.ofNat (n / 128 ^ Nat.log 128 n)).toNat = n / 128 ^ Nat.log 128 n := by
    rw [UInt8.toNat_ofNat']
    exact Nat.mod_eq_of_lt (by omega)
  refine ⟨_, _, encode_eq_places n, ?_, ?_, ?_⟩
  · intro b hb
    obtain ⟨i, -, rfl⟩ := List.mem_map.mp hb
    rw [Ne, and_highBit_eq_zero_iff, UInt8.toNat_ofNat']
    omega
  · rwa [and_highBit_eq_zero_iff, hlast]
  · rw [← UInt8.toNat_inj, hlast, ← hzero]
    rfl

/-! ## No fewer bytes -/

/-- **No fewer bytes are read as a number** than it is written in. -/
theorem length_encode_le_of_decode? {n : Nat} {bytes rest : List UInt8}
    (h : decode? bytes = some (n, rest)) :
    (encode n).length + rest.length ≤ bytes.length := by
  induction bytes generalizing n with
  | nil => simp [decode?] at h
  | cons b bytes ih =>
    have hbyte := b.toNat_lt
    rw [decode?] at h
    split at h
    · rename_i hlast
      obtain ⟨rfl, rfl⟩ : b.toNat = n ∧ bytes = rest := by simpa using h
      rw [encode, if_pos hlast, List.length_singleton, List.length_cons, Nat.add_comm]
    · rename_i hmore
      obtain ⟨⟨m, rest'⟩, hread, heq⟩ := Option.map_eq_some_iff.mp h
      obtain ⟨rfl, rfl⟩ : b.toNat - 128 + 128 * m = n ∧ rest' = rest := by simpa using heq
      have hrest := ih hread
      have hhigh : (b.toNat - 128 + 128 * m) / 128 = m := by omega
      rw [encode, hhigh]
      -- a number below 128 takes one byte, also if more bytes are read as it
      split
      · rw [List.length_singleton, List.length_cons]
        omega
      · rw [List.length_cons, List.length_cons]
        omega

/-! ## Reading words -/

/-- The word at the front of some bytes, and the bytes after it. The low
seven bits of a byte are put in at `shift`, up to the first byte without
the high bit. Nothing is read if the bytes end before that, or if a bit
falls outside of the word. -/
def readWord? (word : UInt64) (shift : Nat) : List UInt8 → Option (UInt64 × List UInt8)
  | [] => none
  | b :: bytes =>
    let bits := (b &&& 0x7f).toNat <<< shift
    if bits < 2 ^ 64 then
      if b &&& 0x80 = 0 then some (word ||| .ofNat bits, bytes)
      else readWord? (word ||| .ofNat bits) (shift + 7) bytes
    else none

/-- Seven bits and those above them, put in together. -/
theorem shiftLeft_lowBits (low high shift : Nat) (hlow : low < 128) :
    (low + 128 * high) <<< shift = low <<< shift ||| high <<< (shift + 7) := by
  have hor : low + 128 * high = low ||| high <<< 7 := by
    rw [Nat.or_comm, ← Nat.shiftLeft_add_eq_or_of_lt hlow, Nat.shiftLeft_eq]
    omega
  rw [hor, Nat.shiftLeft_or_distrib, ← Nat.shiftLeft_add, Nat.add_comm 7]

/-- **Reading words is reading numbers** that fit, whatever was read before. -/
theorem readWord?_eq (word : UInt64) (shift : Nat) (bytes : List UInt8) :
    readWord? word shift bytes = (decode? bytes).bind fun (n, rest) =>
      if n <<< shift < 2 ^ 64 then some (word ||| .ofNat (n <<< shift), rest) else none := by
  induction bytes generalizing word shift with
  | nil => rfl
  | cons b bytes ih =>
    have hbyte := b.toNat_lt
    simp only [readWord?, decode?, toNat_and_lowBits, and_highBit_eq_zero_iff, ih]
    by_cases hlast : b.toNat < 128
    · simp only [if_pos hlast, Nat.mod_eq_of_lt hlast, Option.bind_some]
    · rw [if_neg hlast, if_neg hlast]
      cases decode? bytes with
      | none => simp
      | some read =>
        obtain ⟨n, rest⟩ := read
        have hlow : b.toNat % 128 = b.toNat - 128 := by omega
        have hbits := shiftLeft_lowBits (b.toNat - 128) n shift (by omega)
        have hfits : (b.toNat - 128) <<< shift ||| n <<< (shift + 7) < 2 ^ 64 ↔
            (b.toNat - 128) <<< shift < 2 ^ 64 ∧ n <<< (shift + 7) < 2 ^ 64 :=
          ⟨fun h => ⟨Nat.lt_of_le_of_lt Nat.left_le_or h, Nat.lt_of_le_of_lt Nat.right_le_or h⟩,
            fun h => Nat.or_lt_two_pow h.1 h.2⟩
        simp only [hlow, Option.bind_some, Option.map_some, hbits, hfits, UInt64.ofNat_or,
          UInt64.or_assoc, ite_and]

/-- A word is read exactly if its number is. -/
theorem readWord?_eq_some_iff {v : UInt64} {bytes rest : List UInt8} :
    readWord? 0 0 bytes = some (v, rest) ↔ decode? bytes = some (v.toNat, rest) := by
  rw [readWord?_eq]
  cases decode? bytes with
  | none => simp
  | some read =>
    obtain ⟨n, rest'⟩ := read
    simp only [Option.bind_some, Nat.shiftLeft_zero, UInt64.zero_or]
    by_cases hfits : n < 2 ^ 64
    · have hn : UInt64.ofNat n = v ↔ n = v.toNat := by
        rw [← UInt64.toNat_inj, UInt64.toNat_ofNat_of_lt' hfits]
      rw [if_pos hfits, Option.some_inj, Option.some_inj, Prod.mk_inj, Prod.mk_inj, hn]
    · have hn : n ≠ v.toNat := fun h => hfits (h ▸ v.toNat_lt)
      rw [if_neg hfits]
      simp [hn]

/-! ## Words of 64 bits -/

/-- **A word is written as a number that ends by itself, in as few bytes as
it needs.** It takes one to ten bytes, from which a reader of words takes
it back and leaves what follows. All bytes but the last have the high bit
set, and the last is zero for zero alone; no fewer bytes are read as the
same word. The bytes of one word begin those of another only if the words
are equal. -/
theorem encode_word_exact (v : UInt64) (rest : List UInt8) :
    (1 ≤ (encode v.toNat).length ∧ (encode v.toNat).length ≤ 10) ∧
    readWord? 0 0 (encode v.toNat ++ rest) = some (v, rest) ∧
    (∃ front last, encode v.toNat = front ++ [last] ∧
      (∀ b ∈ front, b &&& 0x80 ≠ 0) ∧ last &&& 0x80 = 0 ∧ (last = 0 ↔ v = 0)) ∧
    (∀ bytes, readWord? 0 0 bytes = some (v, rest) →
      (encode v.toNat).length + rest.length ≤ bytes.length) ∧
    ∀ w : UInt64, encode v.toNat <+: encode w.toNat ↔ v = w := by
  refine ⟨⟨?_, ?_⟩, ?_, ?_, ?_, ?_⟩
  · rw [length_encode]
    omega
  · have hlog : Nat.log 128 v.toNat < 10 :=
      Nat.log_lt_of_lt_pow' (by omega) (Nat.lt_trans v.toNat_lt (by decide))
    rw [length_encode]
    omega
  · exact readWord?_eq_some_iff.mpr (decode?_encode v.toNat rest)
  · have hzero : v = 0 ↔ v.toNat = 0 := UInt64.toNat_inj.symm
    rw [hzero]
    exact exists_encode_eq v.toNat
  · intro bytes hread
    exact length_encode_le_of_decode? (readWord?_eq_some_iff.mp hread)
  · intro w
    constructor
    · intro hbegins
      have hbytes := selfDelimiting_encode.eq_of_isPrefix hbegins
      exact UInt64.toNat_inj.mp (selfDelimiting_encode.same_of_eq hbytes)
    · rintro rfl
      exact List.prefix_rfl

/-- Three bytes are read as 300, which is written in two. -/
theorem encode_word_exact_padded :
    encode (300 : UInt64).toNat = [0xac, 0x02] ∧ (0xac : UInt8) &&& 0x80 ≠ 0 ∧
      readWord? 0 0 [0xac, 0x82, 0x00, 0x07] = some (300, [0x07]) ∧
      (encode (300 : UInt64).toNat).length + 1 ≤ 4 := by
  have hbytes : encode (300 : UInt64).toNat = [0xac, 0x02] := by
    simp [encode]
  have hpadded : readWord? 0 0 [0xac, 0x82, 0x00, 0x07] = some (300, [0x07]) := by decide
  obtain ⟨-, -, ⟨front, last, heq, hhigh, -⟩, hleast, -⟩ := encode_word_exact 300 [0x07]
  have hfront : front = [0xac] := by
    have hends : front ++ [last] = [0xac] ++ [0x02] := heq.symm.trans hbytes
    exact (List.append_inj' hends rfl).1
  exact ⟨hbytes, hhigh 0xac (by simp [hfront]), hpadded, hleast _ hpadded⟩

end Varint

end ScalarLang
