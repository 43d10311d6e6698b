/-
**Numbers as byte strings**: what the shortest byte string of a number determines.

`Bytes.ofNat` drops leading zeros, so a number has exactly one byte string, and its length is bounded by
the power of `256` that the number stays below.

Main results:

* `Bytes.toNat_ofNat` — **the byte string of a number writes that number**,
* `Bytes.length_ofNat_le`, `Bytes.length_ofNat_pos` — its length,
* `Bytes.zeros_append_ofNat` — **a byte string is its leading zeros and its number**.
-/

import SophiaBind.Bytes
import Mathlib.Data.List.Induction
import Mathlib.Data.List.TakeWhile

namespace SophiaBind.Bytes

@[simp] theorem ofNat_zero : ofNat 0 = [] := by
  rw [ofNat]
  rfl

/-- A positive number is written by its quotient's bytes and one more. -/
theorem ofNat_of_ne_zero {n : Nat} (h : n ≠ 0) :
    ofNat n = ofNat (n / 256) ++ [UInt8.ofNat (n % 256)] := by
  rw [ofNat, if_neg h]

@[simp] theorem toNat_nil : toNat [] = 0 := rfl

theorem toNat_concat (bs : Bytes) (b : UInt8) : toNat (bs ++ [b]) = toNat bs * 256 + b.toNat := by
  simp only [toNat, List.foldl_append, List.foldl_cons, List.foldl_nil]

/-- **The byte string of a number writes that number.** -/
@[simp] theorem toNat_ofNat (n : Nat) : toNat (ofNat n) = n := by
  induction n using Nat.strongRecOn with
  | _ n ih =>
      by_cases h : n = 0
      · rw [h, ofNat_zero, toNat_nil]
      · have hb : (UInt8.ofNat (n % 256)).toNat = n % 256 := by simp
        rw [ofNat_of_ne_zero h, toNat_concat, ih (n / 256) (by omega), hb]
        omega

/-- A number below `256 ^ k` is written in at most `k` bytes. -/
theorem length_ofNat_le {n k : Nat} (h : n < Nat.pow 256 k) : (ofNat n).length ≤ k := by
  induction k generalizing n with
  | zero =>
      obtain rfl : n = 0 := by simpa using h
      simp
  | succ k ih =>
      by_cases hn : n = 0
      · simp [hn]
      · have hq : n / 256 < Nat.pow 256 k := by
          refine Nat.div_lt_of_lt_mul ?_
          rwa [Nat.mul_comm]
        rw [ofNat_of_ne_zero hn, List.length_append, List.length_singleton]
        exact Nat.succ_le_succ (ih hq)

/-- A positive number is written in at least one byte. -/
theorem length_ofNat_pos {n : Nat} (h : n ≠ 0) : 0 < (ofNat n).length := by
  rw [ofNat_of_ne_zero h]
  simp

/-! ### Leading zeros -/

/-- A byte string without its leading zeros is the shortest one of its number. -/
theorem ofNat_toNat (bs : Bytes) : ofNat (toNat bs) = bs.dropWhile (· == 0) := by
  induction bs using List.reverseRecOn with
  | nil => simp
  | append_singleton bs b ih =>
      have hb : b.toNat < 256 := b.toNat_lt
      rw [toNat_concat, List.dropWhile_append, ← ih]
      by_cases hn : toNat bs = 0
      · -- all bytes in front are zeros, and the last one may be another
        rw [hn, ofNat_zero]
        by_cases hzero : b = 0
        · simp [hzero]
        · have hpos : b.toNat ≠ 0 := fun h => hzero (UInt8.toNat_inj.1 h)
          rw [ofNat_of_ne_zero (by omega), show (0 * 256 + b.toNat) / 256 = 0 by omega,
            show (0 * 256 + b.toNat) % 256 = b.toNat by omega]
          simp [hzero]
      · have hlong : (ofNat (toNat bs)).isEmpty = false :=
          List.isEmpty_eq_false_iff.2 (List.ne_nil_of_length_pos (length_ofNat_pos hn))
        rw [ofNat_of_ne_zero (by omega), show (toNat bs * 256 + b.toNat) / 256 = toNat bs by omega,
          show (toNat bs * 256 + b.toNat) % 256 = b.toNat by omega, hlong]
        simp

/-- **A byte string is its leading zeros and its number.** -/
theorem zeros_append_ofNat (bs : Bytes) :
    List.replicate (bs.takeWhile (· == 0)).length 0 ++ ofNat (toNat bs) = bs := by
  have hzeros : bs.takeWhile (· == 0) = List.replicate (bs.takeWhile (· == 0)).length 0 := by
    refine List.eq_replicate_of_mem fun b hb => ?_
    simpa using List.mem_takeWhile_imp hb
  rw [ofNat_toNat, ← hzeros, List.takeWhile_append_dropWhile]

/-- The number of a byte string fills as many bytes again. -/
theorem ofNatPadded?_toNat (bs : Bytes) : ofNatPadded? bs.length (toNat bs) = some bs := by
  have hwhole := zeros_append_ofNat bs
  have hlength := congrArg List.length hwhole
  rw [List.length_append, List.length_replicate] at hlength
  have hzeros : bs.length - (ofNat (toNat bs)).length = (bs.takeWhile (· == 0)).length := by omega
  unfold ofNatPadded?
  dsimp only
  rw [if_pos (by omega), hzeros, hwhole]

end SophiaBind.Bytes
