import ScalarLang.Variables
/-!
# The order of names

Names are compared by their code points. The order is that of their UTF-8
bytes as well: an encoded character has as many high bits set in its first
byte as it has bytes, and the bits of the code point follow in order, so
that encoded characters compare as their code points do, whatever comes
after them.
-/

namespace ScalarLang

namespace Variables

/-- The bytes of a name. -/
def nameBytes (name : String) : List UInt8 := name.toUTF8.data.toList

theorem nameBytes_eq (name : String) :
    nameBytes name = name.toList.flatMap String.utf8EncodeChar := by
  have hbytes : name.toByteArray = (name.toList.flatMap String.utf8EncodeChar).toByteArray :=
    String.utf8Encode_toList.symm
  rw [nameBytes, String.toUTF8, hbytes, List.data_toByteArray]

/-- Numbers compare as their digits to the base 64 do. -/
theorem digits_of_lt {m n : Nat} (h : m < n) :
    m / 262144 < n / 262144 ∨ m / 262144 = n / 262144 ∧
      (m / 4096 % 64 < n / 4096 % 64 ∨ m / 4096 % 64 = n / 4096 % 64 ∧
        (m / 64 % 64 < n / 64 % 64 ∨ m / 64 % 64 = n / 64 % 64 ∧ m % 64 < n % 64)) := by
  omega

/-- **Encoded characters compare as the characters do**, whatever comes after
them. -/
theorem utf8EncodeChar_append_lt {c d : Char} (h : c < d) (xs ys : List UInt8) :
    String.utf8EncodeChar c ++ xs < String.utf8EncodeChar d ++ ys := by
  have hlt : c.val.toNat < d.val.toNat := h
  have hd : d.val.toNat < 1114112 := by
    have hvalid : d.val.toNat.isValidChar := d.valid
    unfold Nat.isValidChar at hvalid
    omega
  unfold String.utf8EncodeChar
  generalize c.val.toNat = m at hlt
  generalize d.val.toNat = n at hlt hd
  have hdigits := digits_of_lt hlt
  dsimp only
  -- one case for each pair of lengths; the shorter of two different ones starts with less
  repeat' split
  all_goals
    simp (disch := omega) only [List.cons_append, List.nil_append, List.cons_lt_cons_iff,
      UInt8.lt_iff_toNat_lt, ← UInt8.toNat_inj, UInt8.toNat_ofNat', Nat.mod_eq_of_lt]
    omega

/-- **Names are ordered by their bytes.** -/
theorem nameBytes_lt_of_lt {name other : String} (h : name < other) :
    nameBytes name < nameBytes other := by
  rw [nameBytes_eq, nameBytes_eq]
  have hchars : name.toList < other.toList := String.lt_iff.mp h
  generalize name.toList = xs at hchars
  generalize other.toList = ys at hchars
  induction hchars with
  | @nil c ys =>
    obtain ⟨b, bs, hbytes⟩ := List.exists_cons_of_ne_nil (String.utf8EncodeChar_ne_nil (c := c))
    rw [List.flatMap_cons, hbytes]
    exact List.nil_lt_cons b _
  | rel hlt => exact utf8EncodeChar_append_lt hlt _ _
  | cons _ ih => exact List.append_left_lt ih

theorem nameBytes_lt_iff {name other : String} :
    nameBytes name < nameBytes other ↔ name < other := by
  refine ⟨fun h => ?_, nameBytes_lt_of_lt⟩
  rcases (by grind : name < other ∨ name = other ∨ other < name) with hlt | rfl | hgt
  · exact hlt
  · exact absurd h (List.lt_irrefl _)
  · exact absurd h (List.lt_asymm (nameBytes_lt_of_lt hgt))

end Variables

end ScalarLang
