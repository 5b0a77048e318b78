/-!
# ASCII case folding

Keywords and function names are compared without regard to the case of
the letters `A` to `Z`. Only those letters fold: a character outside
ASCII is equal to itself and to nothing else.
-/

namespace ScalarLang

namespace Text

/-- The string with the letters `A` to `Z` in lower case and all else as
it is. -/
def foldCase (s : String) : String := String.ofList (s.toList.map Char.toLower)

/-- Equality up to the case of ASCII letters. -/
def sameFolded (s t : String) : Bool := foldCase s == foldCase t

/-! ## Letters and digits by their numbers -/

theorem isUpper_iff {c : Char} : c.isUpper = true ↔ 65 ≤ c.toNat ∧ c.toNat ≤ 90 :=
  decide_eq_true_iff

theorem isLower_iff {c : Char} : c.isLower = true ↔ 97 ≤ c.toNat ∧ c.toNat ≤ 122 := by
  have h : c.isLower = (decide ('a'.val ≤ c.val) && decide (c.val ≤ 'z'.val)) := rfl
  rw [h, Bool.and_eq_true, decide_eq_true_iff, decide_eq_true_iff]
  exact Iff.rfl

theorem isDigit_iff {c : Char} : c.isDigit = true ↔ 48 ≤ c.toNat ∧ c.toNat ≤ 57 := by
  have h : c.isDigit = (decide ('0'.val ≤ c.val) && decide (c.val ≤ '9'.val)) := rfl
  rw [h, Bool.and_eq_true, decide_eq_true_iff, decide_eq_true_iff]
  exact Iff.rfl

theorem isAlpha_iff {c : Char} : c.isAlpha = true ↔
    (65 ≤ c.toNat ∧ c.toNat ≤ 90) ∨ (97 ≤ c.toNat ∧ c.toNat ≤ 122) := by
  have h : c.isAlpha = (c.isUpper || c.isLower) := rfl
  rw [h, Bool.or_eq_true, isUpper_iff, isLower_iff]

/-! ## Folding -/

theorem toNat_toLower (c : Char) :
    c.toLower.toNat = if 65 ≤ c.toNat ∧ c.toNat ≤ 90 then c.toNat + 32 else c.toNat := by
  by_cases h : c.val ≥ 'A'.val ∧ c.val ≤ 'Z'.val
  · have h' : 65 ≤ c.toNat ∧ c.toNat ≤ 90 := h
    have hlower : c.toLower.toNat = (c.val + ('a'.val - 'A'.val)).toNat :=
      congrArg Char.toNat (dif_pos h)
    have hsum : (c.val + ('a'.val - 'A'.val)).toNat = (c.toNat + 32) % 4294967296 :=
      UInt32.toNat_add _ _
    rw [if_pos h', hlower, hsum]
    omega
  · have h' : ¬ (65 ≤ c.toNat ∧ c.toNat ≤ 90) := h
    have hlower : c.toLower = c := dif_neg h
    rw [if_neg h', hlower]

/-- Characters that fold to one are one, or a letter in its two cases. -/
theorem toNat_of_toLower_eq {c d : Char} (h : c.toLower = d.toLower) :
    c.toNat = d.toNat ∨ (65 ≤ c.toNat ∧ c.toNat ≤ 90 ∧ d.toNat = c.toNat + 32) ∨
      (65 ≤ d.toNat ∧ d.toNat ≤ 90 ∧ c.toNat = d.toNat + 32) := by
  have hnat := congrArg Char.toNat h
  rw [toNat_toLower, toNat_toLower] at hnat
  split at hnat <;> split at hnat <;> omega

theorem isAlpha_congr {c d : Char} (h : c.toLower = d.toLower) : c.isAlpha = d.isAlpha := by
  have hnat := toNat_of_toLower_eq h
  rw [Bool.eq_iff_iff, isAlpha_iff, isAlpha_iff]
  omega

/-- Only letters fold. -/
theorem eq_of_toLower_eq {c d : Char} (h : c.toLower = d.toLower) (hc : c.isAlpha = false) :
    c = d := by
  have hnat := toNat_of_toLower_eq h
  rw [← Bool.not_eq_true, isAlpha_iff] at hc
  exact Char.toNat_inj.mp (by omega)

theorem sameFolded_iff {s t : String} : sameFolded s t = true ↔ foldCase s = foldCase t := by
  simp [sameFolded]

/-- Names that are one up to case are compared alike. -/
theorem sameFolded_congr {s t : String} (h : foldCase s = foldCase t) (u : String) :
    sameFolded u s = sameFolded u t := by
  rw [sameFolded, sameFolded, h]

theorem toList_foldCase (s : String) : (foldCase s).toList = s.toList.map Char.toLower := by
  simp [foldCase]

end Text

end ScalarLang
