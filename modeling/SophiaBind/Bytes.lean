/-
**Byte strings** and the numbers they write.

Main definitions:

* `Bytes` — a byte string, first byte first,
* `Bytes.toNat` — the number that a byte string writes in base 256, most significant byte first,
* `Bytes.ofNat` — the shortest byte string that writes a number; zero is the empty one,
* `Bytes.ofNatPadded?` — the same with zeros in front up to a width, if the number fits,
* `Bytes.littleEndian` — a number's low bytes, least significant first.
-/

namespace SophiaBind

/-- A byte string, first byte first. -/
abbrev Bytes := List UInt8

namespace Bytes

/-- The number written in base 256, most significant byte first. -/
def toNat (bs : Bytes) : Nat :=
  bs.foldl (fun n b => n * 256 + b.toNat) 0

/-- The shortest byte string that writes a number; zero is written by no byte. -/
def ofNat (n : Nat) : Bytes :=
  if n = 0 then [] else ofNat (n / 256) ++ [UInt8.ofNat (n % 256)]
termination_by n

/-- A number in exactly `width` bytes, if it fits. -/
def ofNatPadded? (width n : Nat) : Option Bytes :=
  let bs := ofNat n
  if bs.length ≤ width then some (List.replicate (width - bs.length) 0 ++ bs) else none

/-- The `width` low bytes of a number, least significant first. -/
def littleEndian : Nat → Nat → Bytes
  | 0, _ => []
  | width + 1, n => UInt8.ofNat (n % 256) :: littleEndian width (n / 256)

/-- The number written least significant byte first. -/
def toNatLittle : Bytes → Nat
  | [] => 0
  | b :: r => b.toNat + 256 * toNatLittle r

/-! ### Small facts -/

theorem length_littleEndian (width n : Nat) : (littleEndian width n).length = width := by
  induction width generalizing n with
  | zero => rfl
  | succ width ih => rw [littleEndian, List.length_cons, ih]

end Bytes

end SophiaBind
