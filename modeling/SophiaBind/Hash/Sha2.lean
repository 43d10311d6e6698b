/-
**SHA-256 and SHA-512**, the two widths of one hash function.

The variants differ in the width of a word, the rotations, the round constants and the initial state;
`Sha2` holds these, and one compression function over words of any width serves both.

Main definitions:

* `Sha2` — the parameters of a variant,
* `Sha2.hash` — the digest of a byte string,
* `sha256`, `sha512`.
-/

import SophiaBind.Bytes

namespace SophiaBind

/-- The parameters of a variant: rotations of the two round sums, rotations and shift of the two schedule
sums, constants of the rounds, and the initial state. -/
structure Sha2 (w : Nat) where
  sumA : Nat × Nat × Nat
  sumE : Nat × Nat × Nat
  early : Nat × Nat × Nat
  late : Nat × Nat × Nat
  constants : List (BitVec w)
  start : List (BitVec w)

namespace Sha2

variable {w : Nat}

/-- Three rotations of a word, combined. -/
def rotations (r : Nat × Nat × Nat) (x : BitVec w) : BitVec w :=
  x.rotateRight r.1 ^^^ x.rotateRight r.2.1 ^^^ x.rotateRight r.2.2

/-- Two rotations and a shift of a word, combined. -/
def mixed (r : Nat × Nat × Nat) (x : BitVec w) : BitVec w :=
  x.rotateRight r.1 ^^^ x.rotateRight r.2.1 ^^^ (x >>> r.2.2)

/-- One round on the eight words of the state. -/
def round (p : Sha2 w) (state : List (BitVec w)) (constant word : BitVec w) : List (BitVec w) :=
  match state with
  | [a, b, c, d, e, f, g, h] =>
    let t := h + rotations p.sumE e + ((e &&& f) ^^^ (~~~e &&& g)) + constant + word
    let u := rotations p.sumA a + ((a &&& b) ^^^ (a &&& c) ^^^ (b &&& c))
    [t + u, a, b, c, d + t, e, f, g]
  | other => other

/-- The word that follows a window of sixteen words of the schedule. -/
def nextWord (p : Sha2 w) (window : List (BitVec w)) : BitVec w :=
  mixed p.late (window.getD 14 0) + window.getD 9 0 + mixed p.early (window.getD 1 0) + window.getD 0 0

/-- All rounds, on a window of the schedule that moves on by one word a round. -/
def rounds (p : Sha2 w) : List (BitVec w) → List (BitVec w) → List (BitVec w) → List (BitVec w)
  | [], _, state => state
  | k :: ks, window, state =>
    rounds p ks (window.drop 1 ++ [nextWord p window]) (round p state k (window.getD 0 0))

/-- The state behind one block of sixteen words. -/
def compress (p : Sha2 w) (state block : List (BitVec w)) : List (BitVec w) :=
  List.zipWith (· + ·) state (rounds p p.constants block state)

/-- The words of a byte string, `w / 8` bytes each, at most `count` of them. -/
def words (w : Nat) : Nat → Bytes → List (BitVec w)
  | 0, _ => []
  | count + 1, bs => BitVec.ofNat w (Bytes.toNat (bs.take (w / 8))) :: words w count (bs.drop (w / 8))

/-- Reads `count` blocks of sixteen words. -/
def absorb (p : Sha2 w) : Nat → List (BitVec w) → Bytes → List (BitVec w)
  | 0, state, _ => state
  | count + 1, state, bs => absorb p count (compress p state (words w 16 bs)) (bs.drop (2 * w))

/-- What fills a message of `length` bytes up to whole blocks: a one bit, zeros, and the length in bits. -/
def filling (w length : Nat) : Bytes :=
  let block := 2 * w
  let tail := w / 4
  let zeros := (2 * block - 1 - tail - length % block) % block
  0x80 :: List.replicate zeros 0 ++ (Bytes.littleEndian tail (8 * length)).reverse

/-- The digest of a byte string. -/
def hash (p : Sha2 w) (bs : Bytes) : Bytes :=
  let padded := bs ++ filling w bs.length
  let state := absorb p (padded.length / (2 * w)) p.start padded
  state.flatMap fun x => (Bytes.littleEndian (w / 8) x.toNat).reverse

end Sha2

/-! ### The two variants -/

/-- The parameters for words of 32 bits. -/
def Sha2.narrow : Sha2 32 where
  sumA := (2, 13, 22)
  sumE := (6, 11, 25)
  early := (7, 18, 3)
  late := (17, 19, 10)
  constants := [
    0x428a2f98, 0x71374491, 0xb5c0fbcf, 0xe9b5dba5, 0x3956c25b, 0x59f111f1, 0x923f82a4, 0xab1c5ed5,
    0xd807aa98, 0x12835b01, 0x243185be, 0x550c7dc3, 0x72be5d74, 0x80deb1fe, 0x9bdc06a7, 0xc19bf174,
    0xe49b69c1, 0xefbe4786, 0x0fc19dc6, 0x240ca1cc, 0x2de92c6f, 0x4a7484aa, 0x5cb0a9dc, 0x76f988da,
    0x983e5152, 0xa831c66d, 0xb00327c8, 0xbf597fc7, 0xc6e00bf3, 0xd5a79147, 0x06ca6351, 0x14292967,
    0x27b70a85, 0x2e1b2138, 0x4d2c6dfc, 0x53380d13, 0x650a7354, 0x766a0abb, 0x81c2c92e, 0x92722c85,
    0xa2bfe8a1, 0xa81a664b, 0xc24b8b70, 0xc76c51a3, 0xd192e819, 0xd6990624, 0xf40e3585, 0x106aa070,
    0x19a4c116, 0x1e376c08, 0x2748774c, 0x34b0bcb5, 0x391c0cb3, 0x4ed8aa4a, 0x5b9cca4f, 0x682e6ff3,
    0x748f82ee, 0x78a5636f, 0x84c87814, 0x8cc70208, 0x90befffa, 0xa4506ceb, 0xbef9a3f7, 0xc67178f2]
  start := [
    0x6a09e667, 0xbb67ae85, 0x3c6ef372, 0xa54ff53a, 0x510e527f, 0x9b05688c, 0x1f83d9ab, 0x5be0cd19]

/-- The parameters for words of 64 bits. -/
def Sha2.wide : Sha2 64 where
  sumA := (28, 34, 39)
  sumE := (14, 18, 41)
  early := (1, 8, 7)
  late := (19, 61, 6)
  constants := [
    0x428a2f98d728ae22, 0x7137449123ef65cd, 0xb5c0fbcfec4d3b2f, 0xe9b5dba58189dbbc,
    0x3956c25bf348b538, 0x59f111f1b605d019, 0x923f82a4af194f9b, 0xab1c5ed5da6d8118,
    0xd807aa98a3030242, 0x12835b0145706fbe, 0x243185be4ee4b28c, 0x550c7dc3d5ffb4e2,
    0x72be5d74f27b896f, 0x80deb1fe3b1696b1, 0x9bdc06a725c71235, 0xc19bf174cf692694,
    0xe49b69c19ef14ad2, 0xefbe4786384f25e3, 0x0fc19dc68b8cd5b5, 0x240ca1cc77ac9c65,
    0x2de92c6f592b0275, 0x4a7484aa6ea6e483, 0x5cb0a9dcbd41fbd4, 0x76f988da831153b5,
    0x983e5152ee66dfab, 0xa831c66d2db43210, 0xb00327c898fb213f, 0xbf597fc7beef0ee4,
    0xc6e00bf33da88fc2, 0xd5a79147930aa725, 0x06ca6351e003826f, 0x142929670a0e6e70,
    0x27b70a8546d22ffc, 0x2e1b21385c26c926, 0x4d2c6dfc5ac42aed, 0x53380d139d95b3df,
    0x650a73548baf63de, 0x766a0abb3c77b2a8, 0x81c2c92e47edaee6, 0x92722c851482353b,
    0xa2bfe8a14cf10364, 0xa81a664bbc423001, 0xc24b8b70d0f89791, 0xc76c51a30654be30,
    0xd192e819d6ef5218, 0xd69906245565a910, 0xf40e35855771202a, 0x106aa07032bbd1b8,
    0x19a4c116b8d2d0c8, 0x1e376c085141ab53, 0x2748774cdf8eeb99, 0x34b0bcb5e19b48a8,
    0x391c0cb3c5c95a63, 0x4ed8aa4ae3418acb, 0x5b9cca4f7763e373, 0x682e6ff3d6b2b8a3,
    0x748f82ee5defb2fc, 0x78a5636f43172f60, 0x84c87814a1f0ab72, 0x8cc702081a6439ec,
    0x90befffa23631e28, 0xa4506cebde82bde9, 0xbef9a3f7b2c67915, 0xc67178f2e372532b,
    0xca273eceea26619c, 0xd186b8c721c0c207, 0xeada7dd6cde0eb1e, 0xf57d4f7fee6ed178,
    0x06f067aa72176fba, 0x0a637dc5a2c898a6, 0x113f9804bef90dae, 0x1b710b35131c471b,
    0x28db77f523047d84, 0x32caab7b40c72493, 0x3c9ebe0a15c9bebc, 0x431d67c49c100d4c,
    0x4cc5d4becb3e42b6, 0x597f299cfc657e2a, 0x5fcb6fab3ad6faec, 0x6c44198c4a475817]
  start := [
    0x6a09e667f3bcc908, 0xbb67ae8584caa73b, 0x3c6ef372fe94f82b, 0xa54ff53a5f1d36f1,
    0x510e527fade682d1, 0x9b05688c2b3e6c1f, 0x1f83d9abfb41bd6b, 0x5be0cd19137e2179]

/-- The digest of 32 bytes. -/
def sha256 (bs : Bytes) : Bytes :=
  Sha2.narrow.hash bs

/-- The digest of 64 bytes. -/
def sha512 (bs : Bytes) : Bytes :=
  Sha2.wide.hash bs

end SophiaBind
