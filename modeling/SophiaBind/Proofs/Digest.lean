/-
**The length of a digest.**

Every round and every block gives back as many words as it was given, so that a digest has as many bytes
as the words of the initial state.

Main results:

* `Sha2.length_hash` — **the length of a digest does not depend on what is digested**,
* `length_sha256`.
-/

import SophiaBind.Hash.Sha2

namespace SophiaBind

namespace Sha2

variable {w : Nat} (p : Sha2 w)

theorem length_round (state : List (BitVec w)) (constant word : BitVec w) :
    (p.round state constant word).length = state.length := by
  unfold round
  split <;> rfl

theorem length_rounds (constants window state : List (BitVec w)) :
    (p.rounds constants window state).length = state.length := by
  induction constants generalizing window state with
  | nil => rfl
  | cons k ks ih => rw [rounds, ih, length_round]

theorem length_compress (state block : List (BitVec w)) : (p.compress state block).length = state.length := by
  rw [compress, List.length_zipWith, length_rounds, Nat.min_self]

theorem length_absorb (count : Nat) (state : List (BitVec w)) (bs : Bytes) :
    (p.absorb count state bs).length = state.length := by
  induction count generalizing state bs with
  | zero => rfl
  | succ count ih => rw [absorb, ih, length_compress]

/-- **The length of a digest does not depend on what is digested.** -/
theorem length_hash (bs : Bytes) : (p.hash bs).length = p.start.length * (w / 8) := by
  simp [hash, List.length_flatMap, Bytes.length_littleEndian, length_absorb, List.map_const']

end Sha2

theorem length_sha256 (bs : Bytes) : (sha256 bs).length = 32 :=
  Sha2.narrow.length_hash bs

end SophiaBind
