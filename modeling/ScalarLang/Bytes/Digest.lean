import ScalarLang.Text.Digits
/-!
# Digests

The SHA-256 digest of a sequence of bytes. The bytes are padded to whole
blocks of sixteen words; each block is stretched to sixty-four words,
which are mixed one by one into a state of eight.
-/

namespace ScalarLang

/-- A digest, and the state it is computed in: eight words. -/
structure Digest where
  a : UInt32
  b : UInt32
  c : UInt32
  d : UInt32
  e : UInt32
  f : UInt32
  g : UInt32
  h : UInt32
  deriving DecidableEq

namespace Digest

/-! ## Constants -/

/-- The state before the first block: the fractional parts of the square
roots of the first eight primes. -/
def initial : Digest :=
  ⟨0x6a09e667, 0xbb67ae85, 0x3c6ef372, 0xa54ff53a, 0x510e527f, 0x9b05688c, 0x1f83d9ab, 0x5be0cd19⟩

/-- The constants of the rounds: the fractional parts of the cube roots of
the first sixty-four primes. -/
def roundConstants : List UInt32 :=
  [0x428a2f98, 0x71374491, 0xb5c0fbcf, 0xe9b5dba5, 0x3956c25b, 0x59f111f1, 0x923f82a4, 0xab1c5ed5,
   0xd807aa98, 0x12835b01, 0x243185be, 0x550c7dc3, 0x72be5d74, 0x80deb1fe, 0x9bdc06a7, 0xc19bf174,
   0xe49b69c1, 0xefbe4786, 0x0fc19dc6, 0x240ca1cc, 0x2de92c6f, 0x4a7484aa, 0x5cb0a9dc, 0x76f988da,
   0x983e5152, 0xa831c66d, 0xb00327c8, 0xbf597fc7, 0xc6e00bf3, 0xd5a79147, 0x06ca6351, 0x14292967,
   0x27b70a85, 0x2e1b2138, 0x4d2c6dfc, 0x53380d13, 0x650a7354, 0x766a0abb, 0x81c2c92e, 0x92722c85,
   0xa2bfe8a1, 0xa81a664b, 0xc24b8b70, 0xc76c51a3, 0xd192e819, 0xd6990624, 0xf40e3585, 0x106aa070,
   0x19a4c116, 0x1e376c08, 0x2748774c, 0x34b0bcb5, 0x391c0cb3, 0x4ed8aa4a, 0x5b9cca4f, 0x682e6ff3,
   0x748f82ee, 0x78a5636f, 0x84c87814, 0x8cc70208, 0x90befffa, 0xa4506ceb, 0xbef9a3f7, 0xc67178f2]

/-! ## Padding -/

/-- The bytes with a one bit, zeros and their length in bits appended, to
a multiple of sixty-four bytes. -/
def pad (bytes : List UInt8) : List UInt8 :=
  let zeros := (119 - bytes.length % 64) % 64
  let bits := 8 * bytes.length
  let length := (List.range 8).reverse.map fun i => UInt8.ofNat (bits >>> (8 * i))
  bytes ++ 0x80 :: List.replicate zeros 0 ++ length

/-- The bytes as words, most significant byte first; fewer than four
bytes at the end are left out. -/
def words : List UInt8 → List UInt32
  | p :: q :: r :: s :: bytes =>
    (p.toUInt32 <<< 24 ||| q.toUInt32 <<< 16 ||| r.toUInt32 <<< 8 ||| s.toUInt32) :: words bytes
  | _ => []

/-! ## Mixing -/

/-- Rotation of a word to the right. -/
def rotate (x : UInt32) (n : UInt32) : UInt32 := x >>> n ||| x <<< (32 - n)

/-- Sixteen words stretched by `n` more, each made of four before it. -/
def stretch (block : Array UInt32) : (n : Nat) → Array UInt32
  | 0 => block
  | n + 1 =>
    let w := stretch block n
    let x := w.getD (w.size - 15) 0
    let y := w.getD (w.size - 2) 0
    let s₀ := rotate x 7 ^^^ rotate x 18 ^^^ x >>> 3
    let s₁ := rotate y 17 ^^^ rotate y 19 ^^^ y >>> 10
    w.push (w.getD (w.size - 16) 0 + s₀ + w.getD (w.size - 7) 0 + s₁)

/-- Mixes one word with its constant into the state. -/
def round (s : Digest) (constant word : UInt32) : Digest :=
  let sum₁ := rotate s.e 6 ^^^ rotate s.e 11 ^^^ rotate s.e 25
  let choice := (s.e &&& s.f) ^^^ (~~~s.e &&& s.g)
  let t₁ := s.h + sum₁ + choice + constant + word
  let sum₀ := rotate s.a 2 ^^^ rotate s.a 13 ^^^ rotate s.a 22
  let majority := (s.a &&& s.b) ^^^ (s.a &&& s.c) ^^^ (s.b &&& s.c)
  ⟨t₁ + sum₀ + majority, s.a, s.b, s.c, s.d + t₁, s.e, s.f, s.g⟩

/-- Mixes a block into the state and adds the state before it. -/
def absorb (s : Digest) (block : List UInt32) : Digest :=
  let w := stretch block.toArray 48
  let t := (roundConstants.zip w.toList).foldl (fun t (k, x) => t.round k x) s
  ⟨s.a + t.a, s.b + t.b, s.c + t.c, s.d + t.d, s.e + t.e, s.f + t.f, s.g + t.g, s.h + t.h⟩

/-- Absorbs words block by block. -/
def absorbAll (s : Digest) (ws : List UInt32) : Digest :=
  match ws with
  | [] => s
  | w :: ws => absorbAll (s.absorb (w :: ws.take 15)) (ws.drop 15)
termination_by ws.length
decreasing_by simp only [List.length_drop, List.length_cons]; omega

/-- The digest of some bytes. -/
def ofBytes (bytes : List UInt8) : Digest := initial.absorbAll (words (pad bytes))

/-! ## Text -/

/-- Sixty-four hexadecimal digits. -/
def text (s : Digest) : String :=
  String.join ([s.a, s.b, s.c, s.d, s.e, s.f, s.g, s.h].map fun w => Text.hex 8 w.toNat)

/-- The digest as text, with what it is in front. -/
def describe (s : Digest) : String := "Digest(\"" ++ s.text ++ "\")"

end Digest

end ScalarLang
