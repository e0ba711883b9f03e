import Mathlib.Data.Vector.Basic

/-!
# SHA-256

The hash function of FIPS 180-4 on lists of bytes, computable, for the instances of the classes in
which a hash function is a parameter.  A word of 32 bits is a natural number.

Results:
* `length_digest`: a digest has 32 bytes.
-/

namespace Astria.Lib.Sha256

/-! ## Words -/

def wordSize : ℕ := 2 ^ 32

def add (a b : ℕ) : ℕ := (a + b) % wordSize

def rotr (n x : ℕ) : ℕ := (x >>> n) ||| ((x <<< (32 - n)) % wordSize)

def complement (x : ℕ) : ℕ := wordSize - 1 - x

/-- The first 32 bits of the fractional parts of the cube roots of the first 64 primes. -/
def roundConstants : List ℕ :=
  [0x428a2f98, 0x71374491, 0xb5c0fbcf, 0xe9b5dba5, 0x3956c25b, 0x59f111f1, 0x923f82a4, 0xab1c5ed5,
    0xd807aa98, 0x12835b01, 0x243185be, 0x550c7dc3, 0x72be5d74, 0x80deb1fe, 0x9bdc06a7, 0xc19bf174,
    0xe49b69c1, 0xefbe4786, 0x0fc19dc6, 0x240ca1cc, 0x2de92c6f, 0x4a7484aa, 0x5cb0a9dc, 0x76f988da,
    0x983e5152, 0xa831c66d, 0xb00327c8, 0xbf597fc7, 0xc6e00bf3, 0xd5a79147, 0x06ca6351, 0x14292967,
    0x27b70a85, 0x2e1b2138, 0x4d2c6dfc, 0x53380d13, 0x650a7354, 0x766a0abb, 0x81c2c92e, 0x92722c85,
    0xa2bfe8a1, 0xa81a664b, 0xc24b8b70, 0xc76c51a3, 0xd192e819, 0xd6990624, 0xf40e3585, 0x106aa070,
    0x19a4c116, 0x1e376c08, 0x2748774c, 0x34b0bcb5, 0x391c0cb3, 0x4ed8aa4a, 0x5b9cca4f, 0x682e6ff3,
    0x748f82ee, 0x78a5636f, 0x84c87814, 0x8cc70208, 0x90befffa, 0xa4506ceb, 0xbef9a3f7, 0xc67178f2]

/-! ## Compression -/

/-- The eight working variables. -/
structure Working where
  a : ℕ
  b : ℕ
  c : ℕ
  d : ℕ
  e : ℕ
  f : ℕ
  g : ℕ
  h : ℕ

/-- The first 32 bits of the fractional parts of the square roots of the first 8 primes. -/
def initial : Working :=
  { a := 0x6a09e667, b := 0xbb67ae85, c := 0x3c6ef372, d := 0xa54ff53a
    e := 0x510e527f, f := 0x9b05688c, g := 0x1f83d9ab, h := 0x5be0cd19 }

/-- One round, on the sum of its constant and its word. -/
def round (s : Working) (kw : ℕ) : Working :=
  let sum1 := rotr 6 s.e ^^^ rotr 11 s.e ^^^ rotr 25 s.e
  let choice := (s.e &&& s.f) ^^^ (complement s.e &&& s.g)
  let t1 := (s.h + sum1 + choice + kw) % wordSize
  let sum0 := rotr 2 s.a ^^^ rotr 13 s.a ^^^ rotr 22 s.a
  let majority := (s.a &&& s.b) ^^^ (s.a &&& s.c) ^^^ (s.b &&& s.c)
  { a := add t1 ((sum0 + majority) % wordSize), b := s.a, c := s.b, d := s.c
    e := add s.d t1, f := s.e, g := s.f, h := s.g }

/-- The rounds.  `window` holds the next 16 words of the message schedule; every round takes the
first of them and appends the word that follows. -/
def rounds : List ℕ → List ℕ → Working → Working
  | k :: constants, w :: window, s =>
    let w1 := window.getD 0 0
    let w9 := window.getD 8 0
    let w14 := window.getD 13 0
    let sigma0 := rotr 7 w1 ^^^ rotr 18 w1 ^^^ (w1 >>> 3)
    let sigma1 := rotr 17 w14 ^^^ rotr 19 w14 ^^^ (w14 >>> 10)
    rounds constants (window ++ [(w + sigma0 + w9 + sigma1) % wordSize]) (round s (k + w))
  | _, _, s => s

def compress (s : Working) (words : List ℕ) : Working :=
  let r := rounds roundConstants words s
  { a := add s.a r.a, b := add s.b r.b, c := add s.c r.c, d := add s.d r.d
    e := add s.e r.e, f := add s.f r.f, g := add s.g r.g, h := add s.h r.h }

/-! ## Messages -/

/-- The big-endian words of a list of bytes. -/
def toWords : List ℕ → List ℕ
  | a :: b :: c :: d :: rest => (((a * 256 + b) * 256 + c) * 256 + d) :: toWords rest
  | _ => []

/-- The lowest `n` bytes of a number, big-endian. -/
def bigEndian : ℕ → ℕ → List UInt8
  | 0, _ => []
  | n + 1, x => bigEndian n (x / 256) ++ [UInt8.ofNat (x % 256)]

/-- The padding of a message to a multiple of 64 bytes. -/
def pad (message : List UInt8) : List ℕ :=
  message.map UInt8.toNat ++ [128] ++ List.replicate ((119 - message.length % 64) % 64) 0 ++
    (bigEndian 8 (8 * message.length)).map UInt8.toNat

/-- The compression of every block of 16 words. -/
def compressAll : ℕ → List ℕ → Working → Working
  | 0, _, s => s
  | fuel + 1, words, s =>
    match words with
    | [] => s
    | _ => compressAll fuel (words.drop 16) (compress s (words.take 16))

/-- The digest of a message. -/
def digest (message : List UInt8) : List UInt8 :=
  let words := toWords (pad message)
  let s := compressAll words.length words initial
  [s.a, s.b, s.c, s.d, s.e, s.f, s.g, s.h].flatMap (bigEndian 4)

theorem length_bigEndian (n x : ℕ) : (bigEndian n x).length = n := by
  induction n generalizing x with
  | zero => rfl
  | succ n ih => simp [bigEndian, ih]

/-- Numbers that fit are told apart by their bytes. -/
theorem bigEndian_inj {n x y : ℕ} (hx : x < 256 ^ n) (hy : y < 256 ^ n)
    (h : bigEndian n x = bigEndian n y) : x = y := by
  induction n generalizing x y with
  | zero =>
    rw [pow_zero] at hx hy
    omega
  | succ n ih =>
    obtain ⟨hhigh, hlow⟩ := List.append_inj' h rfl
    have hdiv : x / 256 = y / 256 := by
      rw [pow_succ] at hx hy
      exact ih (by omega) (by omega) hhigh
    have hmod : x % 256 = y % 256 := by
      have := congrArg UInt8.toNat (List.cons.inj hlow).1
      simpa [UInt8.toNat_ofNat'] using this
    omega

/-- A digest has 32 bytes. -/
theorem length_digest (message : List UInt8) : (digest message).length = 32 := by
  simp [digest, length_bigEndian]

set_option maxRecDepth 10000 in
/-- The digest of `abc`. -/
example : digest [97, 98, 99] =
    [0xba, 0x78, 0x16, 0xbf, 0x8f, 0x01, 0xcf, 0xea, 0x41, 0x41, 0x40, 0xde, 0x5d, 0xae, 0x22, 0x23,
      0xb0, 0x03, 0x61, 0xa3, 0x96, 0x17, 0x7a, 0x9c, 0xb4, 0x10, 0xff, 0x61, 0xf2, 0x00, 0x15,
      0xad] := by
  decide +kernel

end Astria.Lib.Sha256
