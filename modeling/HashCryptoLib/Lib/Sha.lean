import HashCryptoLib.Lib.BigEndian

/-!
The secure hash algorithms with 160, 256 and 512 bits, on lists of octets.
SHA-256 and SHA-512 are one definition, over the word arithmetic and the
constants of each.
-/

namespace Sha

open BigEndian

/-- The message with a 0x80 octet, zeros and its bit length: whole blocks. -/
def pad (blockOctets lengthOctets : ℕ) (message : List UInt8) : List UInt8 :=
  message ++ 0x80 :: (List.replicate
    ((blockOctets - (message.length + 1 + lengthOctets) % blockOctets) % blockOctets) 0 ++
      toOctets lengthOctets (8 * message.length))

/-- The first `n` pieces of `size` elements. -/
def pieces (size : ℕ) : ℕ → List UInt8 → List (List UInt8)
  | 0, _ => []
  | n + 1, octets => octets.take size :: pieces size n (octets.drop size)

def words (size n : ℕ) (octets : List UInt8) : List ℕ :=
  (pieces size n octets).map ofOctets

/-! ### SHA-1 -/

def rotl32 (x n : UInt32) : UInt32 := (x <<< n) ||| (x >>> (32 - n))

structure State1 where
  a : UInt32
  b : UInt32
  c : UInt32
  d : UInt32
  e : UInt32

/-- The message schedule extended by `n` words, newest first. -/
def schedule1 : ℕ → List UInt32 → List UInt32
  | 0, w => w
  | n + 1, w =>
    schedule1 n (rotl32 (w.getD 2 0 ^^^ w.getD 7 0 ^^^ w.getD 13 0 ^^^ w.getD 15 0) 1 :: w)

/-- The round function and the round constant. -/
def round1Function (t : ℕ) (s : State1) : UInt32 × UInt32 :=
  if t < 20 then ((s.b &&& s.c) ||| (~~~s.b &&& s.d), 0x5A827999)
  else if t < 40 then (s.b ^^^ s.c ^^^ s.d, 0x6ED9EBA1)
  else if t < 60 then ((s.b &&& s.c) ||| (s.b &&& s.d) ||| (s.c &&& s.d), 0x8F1BBCDC)
  else (s.b ^^^ s.c ^^^ s.d, 0xCA62C1D6)

def rounds1 (t : ℕ) (s : State1) : List UInt32 → State1
  | [] => s
  | w :: ws =>
    let (f, k) := round1Function t s
    rounds1 (t + 1) ⟨rotl32 s.a 5 + f + s.e + w + k, s.a, rotl32 s.b 30, s.c, s.d⟩ ws

def compress1 (h : State1) (block : List UInt8) : State1 :=
  let w := (schedule1 64 ((words 4 16 block).map UInt32.ofNat).reverse).reverse
  let s := rounds1 0 h w
  ⟨h.a + s.a, h.b + s.b, h.c + s.c, h.d + s.d, h.e + s.e⟩

def sha1 (message : List UInt8) : List UInt8 :=
  let padded := pad 64 8 message
  let h := (pieces 64 (padded.length / 64) padded).foldl compress1
    ⟨0x67452301, 0xEFCDAB89, 0x98BADCFE, 0x10325476, 0xC3D2E1F0⟩
  [h.a, h.b, h.c, h.d, h.e].flatMap fun word => toOctets 4 word.toNat

theorem length_flatMap_toOctets {α : Type} (n : ℕ) (f : α → ℕ) (words : List α) :
    (words.flatMap fun word => toOctets n (f word)).length = words.length * n := by
  induction words with
  | nil => simp
  | cons word words ih =>
      rw [List.flatMap_cons, List.length_append, ih, length_toOctets, List.length_cons]
      ring

@[simp] theorem length_sha1 (message : List UInt8) : (sha1 message).length = 20 := by
  rw [sha1, length_flatMap_toOctets]
  rfl

example : sha1 [0x61, 0x62, 0x63] =
    [0xa9, 0x99, 0x3e, 0x36, 0x47, 0x06, 0x81, 0x6a, 0xba, 0x3e, 0x25, 0x71, 0x78, 0x50, 0xc2,
      0x6c, 0x9c, 0xd0, 0xd8, 0x9d] := by
  decide +kernel

/-! ### SHA-2 -/

/-- The word size, the rotation amounts and the constants of one member of the
family. -/
structure Variant where
  wordOctets : ℕ
  bigSigma0 : ℕ × ℕ × ℕ
  bigSigma1 : ℕ × ℕ × ℕ
  smallSigma0 : ℕ × ℕ × ℕ
  smallSigma1 : ℕ × ℕ × ℕ
  constants : List ℕ
  initial : List ℕ

namespace Variant

variable (v : Variant)

def modulus : ℕ := 256 ^ v.wordOctets

def rotr (x n : ℕ) : ℕ := (x / 2 ^ n) ||| (x * 2 ^ (8 * v.wordOctets - n) % v.modulus)

def bigSigma (r : ℕ × ℕ × ℕ) (x : ℕ) : ℕ := v.rotr x r.1 ^^^ v.rotr x r.2.1 ^^^ v.rotr x r.2.2

def smallSigma (r : ℕ × ℕ × ℕ) (x : ℕ) : ℕ := v.rotr x r.1 ^^^ v.rotr x r.2.1 ^^^ (x / 2 ^ r.2.2)

/-- The message schedule extended by `n` words, newest first. -/
def schedule : ℕ → List ℕ → List ℕ
  | 0, w => w
  | n + 1, w =>
    schedule n ((v.smallSigma v.smallSigma1 (w.getD 1 0) + w.getD 6 0 +
      v.smallSigma v.smallSigma0 (w.getD 14 0) + w.getD 15 0) % v.modulus :: w)

/-- The rounds, on the eight working variables. -/
def rounds (s : List ℕ) : List (ℕ × ℕ) → List ℕ
  | [] => s
  | (k, w) :: kws =>
    match s with
    | [a, b, c, d, e, f, g, h] =>
      let ch := (e &&& f) ^^^ ((v.modulus - 1 - e) &&& g)
      let maj := (a &&& b) ^^^ (a &&& c) ^^^ (b &&& c)
      let t1 := h + v.bigSigma v.bigSigma1 e + ch + k + w
      let t2 := v.bigSigma v.bigSigma0 a + maj
      rounds [(t1 + t2) % v.modulus, a, b, c, (d + t1) % v.modulus, e, f, g] kws
    | _ => s

def compress (h : List ℕ) (block : List UInt8) : List ℕ :=
  let w := (v.schedule (v.constants.length - 16) (words v.wordOctets 16 block).reverse).reverse
  List.zipWith (fun x y => (x + y) % v.modulus) h (v.rounds h (v.constants.zip w))

/-- The final hash value, its missing words zero. -/
def hash (message : List UInt8) : List UInt8 :=
  let blockOctets := 16 * v.wordOctets
  let padded := pad blockOctets (2 * v.wordOctets) message
  let h := (pieces blockOctets (padded.length / blockOctets) padded).foldl v.compress v.initial
  (List.range 8).flatMap fun i => toOctets v.wordOctets (h.getD i 0)

@[simp] theorem length_hash (message : List UInt8) :
    (v.hash message).length = 8 * v.wordOctets := by
  rw [hash, length_flatMap_toOctets, List.length_range]

end Variant

def constants256 : List ℕ := [
  0x428a2f98, 0x71374491, 0xb5c0fbcf, 0xe9b5dba5, 0x3956c25b, 0x59f111f1, 0x923f82a4, 0xab1c5ed5,
  0xd807aa98, 0x12835b01, 0x243185be, 0x550c7dc3, 0x72be5d74, 0x80deb1fe, 0x9bdc06a7, 0xc19bf174,
  0xe49b69c1, 0xefbe4786, 0x0fc19dc6, 0x240ca1cc, 0x2de92c6f, 0x4a7484aa, 0x5cb0a9dc, 0x76f988da,
  0x983e5152, 0xa831c66d, 0xb00327c8, 0xbf597fc7, 0xc6e00bf3, 0xd5a79147, 0x06ca6351, 0x14292967,
  0x27b70a85, 0x2e1b2138, 0x4d2c6dfc, 0x53380d13, 0x650a7354, 0x766a0abb, 0x81c2c92e, 0x92722c85,
  0xa2bfe8a1, 0xa81a664b, 0xc24b8b70, 0xc76c51a3, 0xd192e819, 0xd6990624, 0xf40e3585, 0x106aa070,
  0x19a4c116, 0x1e376c08, 0x2748774c, 0x34b0bcb5, 0x391c0cb3, 0x4ed8aa4a, 0x5b9cca4f, 0x682e6ff3,
  0x748f82ee, 0x78a5636f, 0x84c87814, 0x8cc70208, 0x90befffa, 0xa4506ceb, 0xbef9a3f7, 0xc67178f2
]

def constants512 : List ℕ := [
  0x428a2f98d728ae22, 0x7137449123ef65cd, 0xb5c0fbcfec4d3b2f, 0xe9b5dba58189dbbc,
  0x3956c25bf348b538, 0x59f111f1b605d019, 0x923f82a4af194f9b, 0xab1c5ed5da6d8118,
  0xd807aa98a3030242, 0x12835b0145706fbe, 0x243185be4ee4b28c, 0x550c7dc3d5ffb4e2,
  0x72be5d74f27b896f, 0x80deb1fe3b1696b1, 0x9bdc06a725c71235, 0xc19bf174cf692694,
  0xe49b69c19ef14ad2, 0xefbe4786384f25e3, 0x0fc19dc68b8cd5b5, 0x240ca1cc77ac9c65,
  0x2de92c6f592b0275, 0x4a7484aa6ea6e483, 0x5cb0a9dcbd41fbd4, 0x76f988da831153b5,
  0x983e5152ee66dfab, 0xa831c66d2db43210, 0xb00327c898fb213f, 0xbf597fc7beef0ee4,
  0xc6e00bf33da88fc2, 0xd5a79147930aa725, 0x06ca6351e003826f, 0x142929670a0e6e70,
  0x27b70a8546d22ffc, 0x2e1b21385c26c926, 0x4d2c6dfc5ac42aed, 0x53380d139d95b3df,
  0x650a73548baf63de, 0x766a0abb3c77b2a8, 0x81c2c92e47edaee6, 0x92722c851482353b,
  0xa2bfe8a14cf10364, 0xa81a664bbc423001, 0xc24b8b70d0f89791, 0xc76c51a30654be30,
  0xd192e819d6ef5218, 0xd69906245565a910, 0xf40e35855771202a, 0x106aa07032bbd1b8,
  0x19a4c116b8d2d0c8, 0x1e376c085141ab53, 0x2748774cdf8eeb99, 0x34b0bcb5e19b48a8,
  0x391c0cb3c5c95a63, 0x4ed8aa4ae3418acb, 0x5b9cca4f7763e373, 0x682e6ff3d6b2b8a3,
  0x748f82ee5defb2fc, 0x78a5636f43172f60, 0x84c87814a1f0ab72, 0x8cc702081a6439ec,
  0x90befffa23631e28, 0xa4506cebde82bde9, 0xbef9a3f7b2c67915, 0xc67178f2e372532b,
  0xca273eceea26619c, 0xd186b8c721c0c207, 0xeada7dd6cde0eb1e, 0xf57d4f7fee6ed178,
  0x06f067aa72176fba, 0x0a637dc5a2c898a6, 0x113f9804bef90dae, 0x1b710b35131c471b,
  0x28db77f523047d84, 0x32caab7b40c72493, 0x3c9ebe0a15c9bebc, 0x431d67c49c100d4c,
  0x4cc5d4becb3e42b6, 0x597f299cfc657e2a, 0x5fcb6fab3ad6faec, 0x6c44198c4a475817
]

def sha256 : Variant where
  wordOctets := 4
  bigSigma0 := (2, 13, 22)
  bigSigma1 := (6, 11, 25)
  smallSigma0 := (7, 18, 3)
  smallSigma1 := (17, 19, 10)
  constants := constants256
  initial := [
    0x6a09e667, 0xbb67ae85, 0x3c6ef372, 0xa54ff53a,
    0x510e527f, 0x9b05688c, 0x1f83d9ab, 0x5be0cd19
  ]

def sha512 : Variant where
  wordOctets := 8
  bigSigma0 := (28, 34, 39)
  bigSigma1 := (14, 18, 41)
  smallSigma0 := (1, 8, 7)
  smallSigma1 := (19, 61, 6)
  constants := constants512
  initial := [
    0x6a09e667f3bcc908, 0xbb67ae8584caa73b, 0x3c6ef372fe94f82b, 0xa54ff53a5f1d36f1,
    0x510e527fade682d1, 0x9b05688c2b3e6c1f, 0x1f83d9abfb41bd6b, 0x5be0cd19137e2179
  ]

example : (sha256.hash [0x61, 0x62, 0x63]).take 8 =
    [0xba, 0x78, 0x16, 0xbf, 0x8f, 0x01, 0xcf, 0xea] := by
  decide

example : (sha512.hash [0x61, 0x62, 0x63]).take 8 =
    [0xdd, 0xaf, 0x35, 0xa1, 0x93, 0x61, 0x7a, 0xba] := by
  decide +kernel

end Sha
