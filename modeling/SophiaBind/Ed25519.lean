/-
**Ed25519** signatures.

The curve is `-x² + y² = 1 + d x² y²` over the integers modulo `2 ^ 255 - 19`. A point is kept as
`(X : Y : Z : T)` with `x = X / Z`, `y = Y / Z` and `x y = T / Z`, so that adding needs no division.

Main definitions:

* `Ed25519.publicKey` — the 32 bytes of the public key of a seed,
* `Ed25519.sign` — the 64 bytes of the signature of a message.
-/

import SophiaBind.Hash.Sha2

namespace SophiaBind.Ed25519

/-! ### The field -/

/-- The order of the field. -/
def fieldOrder : Nat := Nat.pow 2 255 - 19

/-- The order of the base point. -/
def groupOrder : Nat := Nat.pow 2 252 + 27742317777372353535851937790883648493

/-- A power modulo the order of the field, over the bits of the exponent, lowest first. -/
def power (base : Nat) (exponent bits : Nat) : Nat :=
  ((List.range bits).foldl (fun (acc, square) i =>
    (if exponent.testBit i then acc * square % fieldOrder else acc, square * square % fieldOrder))
    (1, base)).1

/-- The inverse of a nonzero element. -/
def inverse (x : Nat) : Nat :=
  power x (fieldOrder - 2) 255

/-- The parameter of the curve. -/
def curve : Nat :=
  37095705934669439343138083508754565189542113879843219016388785533085940283555

/-- The difference of two reduced elements. -/
def sub (x y : Nat) : Nat :=
  (x + fieldOrder - y) % fieldOrder

/-! ### The group -/

/-- A point in extended coordinates. -/
structure Point where
  x : Nat
  y : Nat
  z : Nat
  t : Nat

/-- The neutral point. -/
def Point.zero : Point := ⟨0, 1, 1, 0⟩

/-- The sum of two points. -/
def Point.add (p q : Point) : Point :=
  let a := sub p.y p.x * sub q.y q.x % fieldOrder
  let b := (p.y + p.x) * (q.y + q.x) % fieldOrder
  let c := 2 * p.t * q.t % fieldOrder * curve % fieldOrder
  let d := 2 * p.z * q.z % fieldOrder
  let e := sub b a
  let f := sub d c
  let g := (d + c) % fieldOrder
  let h := (b + a) % fieldOrder
  ⟨e * f % fieldOrder, g * h % fieldOrder, f * g % fieldOrder, e * h % fieldOrder⟩

/-- A multiple of a point, over the low 256 bits of the factor, lowest first. -/
def Point.multiple (p : Point) (factor : Nat) : Point :=
  ((List.range 256).foldl (fun (acc, double) i =>
    (if factor.testBit i then Point.add acc double else acc, Point.add double double))
    (Point.zero, p)).1

/-- The base point. -/
def base : Point :=
  let x := 15112221349535400772501151409588531511454012693041857206046113283949847762202
  let y := 46316835694926478169428394003475163141307993866256225615783033603165251855960
  ⟨x, y, 1, x * y % fieldOrder⟩

/-- The 32 bytes of a point: its second coordinate, and the parity of the first in the top bit. -/
def Point.encode (p : Point) : Bytes :=
  let z := inverse p.z
  let x := p.x * z % fieldOrder
  let y := p.y * z % fieldOrder
  Bytes.littleEndian 32 (y + x % 2 * Nat.pow 2 255)

/-! ### Keys and signatures -/

/-- The secret factor of a seed: of the first half of its digest, three low bits and the top bit are
cleared and the next to the top is set. -/
def secretFactor (seed : Bytes) : Nat :=
  let n := Bytes.toNatLittle ((sha512 seed).take 32)
  n % Nat.pow 2 254 / 8 * 8 + Nat.pow 2 254

/-- The public key of a seed of 32 bytes. -/
def publicKey (seed : Bytes) : Bytes :=
  (base.multiple (secretFactor seed)).encode

theorem length_publicKey (seed : Bytes) : (publicKey seed).length = 32 := by
  unfold publicKey Point.encode
  exact Bytes.length_littleEndian 32 _

/-- The signature of a message under a seed of 32 bytes. -/
def sign (seed message : Bytes) : Bytes :=
  let r := Bytes.toNatLittle (sha512 ((sha512 seed).drop 32 ++ message)) % groupOrder
  let commitment := (base.multiple r).encode
  let k := Bytes.toNatLittle (sha512 (commitment ++ publicKey seed ++ message)) % groupOrder
  commitment ++ Bytes.littleEndian 32 ((r + k * secretFactor seed) % groupOrder)

end SophiaBind.Ed25519
