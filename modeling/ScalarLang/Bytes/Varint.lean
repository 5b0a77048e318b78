/-!
# Variable-length numbers

A natural number as bytes of seven bits each, the lowest first. Every
byte but the last has its high bit set, so a reader sees where a number
ends.
-/

namespace ScalarLang

namespace Varint

/-- The bytes of a number. -/
def encode (n : Nat) : List UInt8 :=
  if n < 128 then [UInt8.ofNat n]
  else UInt8.ofNat (n % 128 + 128) :: encode (n / 128)
termination_by n

/-- **Of a word, the bytes are taken by masks and shifts.** -/
theorem encode_toNat (v : UInt64) :
    encode v.toNat = if v >>> 7 = 0 then [(v &&& 0x7f).toUInt8]
      else ((v &&& 0x7f).toUInt8 ||| 0x80) :: encode (v >>> 7).toNat := by
  have hrest : (v >>> 7).toNat = v.toNat / 128 := by
    rw [UInt64.toNat_shiftRight]
    exact Nat.shiftRight_eq_div_pow v.toNat 7
  have hlast : v >>> 7 = 0 ↔ v.toNat < 128 := by
    rw [← UInt64.toNat_inj, hrest]
    change _ = 0 ↔ _
    omega
  have hlow : (v &&& 0x7f).toUInt8.toNat = v.toNat % 128 := by
    have hand : (v &&& 0x7f).toNat = v.toNat % 128 := by
      rw [UInt64.toNat_and]
      exact Nat.and_two_pow_sub_one_eq_mod v.toNat 7
    rw [UInt64.toNat_toUInt8, hand]
    omega
  have hhigh : ((v &&& 0x7f).toUInt8 ||| 0x80).toNat = v.toNat % 128 + 128 := by
    have hor := Nat.two_pow_add_eq_or_of_lt (Nat.mod_lt v.toNat (by decide : 0 < 2 ^ 7)) 1
    rw [UInt8.toNat_or, hlow, Nat.or_comm, Nat.add_comm]
    exact hor.symm
  rw [encode, ← hhigh, UInt8.ofNat_toNat, ← hrest]
  by_cases hv : v.toNat < 128
  · rw [if_pos hv, if_pos (hlast.mpr hv), ← Nat.mod_eq_of_lt hv, ← hlow, UInt8.ofNat_toNat]
  · rw [if_neg hv, if_neg (mt hlast.mp hv)]

/-- The number at the front of some bytes, and the bytes after it;
nothing if they end inside it. -/
def decode? : List UInt8 → Option (Nat × List UInt8)
  | [] => none
  | b :: bytes =>
    if b.toNat < 128 then some (b.toNat, bytes)
    else (decode? bytes).map fun (n, rest) => (b.toNat - 128 + 128 * n, rest)

end Varint

end ScalarLang
