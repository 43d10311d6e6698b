/-
**UTF-8 is read back.**

A character is written as one to four bytes. The first byte tells how many, each of the others carries six
bits of the character's number, and the reader checks no more of them than the writer keeps: a number of
fewer bits is never written longer, and a character is neither a half of a pair nor beyond the last one.

Main results:

* `Utf8.decodeFrom_two`, `Utf8.decodeFrom_three`, `Utf8.decodeFrom_four` — one step of the reader,
* `Utf8.decodeFrom_char` — a character is read from its bytes,
* `Utf8.decode_encode` — **every text is read back from its bytes**.
-/

import SophiaBind.Text.Utf8
import Mathlib.Tactic.SplitIfs

namespace SophiaBind.Utf8

theorem encode_append (cs ds : List Char) : encode (cs ++ ds) = encode cs ++ encode ds :=
  List.flatMap_append

/-! ### Bytes by their numbers -/

theorem toNat_byte {n : Nat} (h : n < 256) : (UInt8.ofNat n).toNat = n := by
  rw [UInt8.toNat_ofNat']
  exact Nat.mod_eq_of_lt h

theorem continues_iff {b : UInt8} : continues b = true ↔ 128 ≤ b.toNat ∧ b.toNat < 192 := by
  rw [continues, Bool.and_eq_true, decide_eq_true_eq, decide_eq_true_eq, UInt8.le_iff_toNat_le,
    UInt8.lt_iff_toNat_lt]
  rfl

/-- The byte behind the first one narrows down what is too short, a half of a pair, or too large. -/
theorem follows_iff {a b : UInt8} : follows a b = true ↔
    continues b = true ∧ (a.toNat = 224 → 160 ≤ b.toNat) ∧ (a.toNat = 237 → b.toNat < 160) ∧
      (a.toNat = 240 → 144 ≤ b.toNat) ∧ (a.toNat = 244 → b.toNat < 144) := by
  simp only [follows, Bool.and_eq_true, Bool.not_eq_true', Bool.and_eq_false_iff, beq_eq_false_iff_ne,
    decide_eq_false_iff_not, ne_eq, UInt8.lt_iff_toNat_lt, UInt8.le_iff_toNat_le, ← UInt8.toNat_inj, and_assoc,
    UInt8.reduceToNat]
  refine and_congr_right fun _ => ?_
  omega

theorem continues_byte (n : Nat) : continues (UInt8.ofNat (n % 64 + 128)) = true := by
  rw [continues_iff, toNat_byte (by omega)]
  omega

theorem payload_byte (n : Nat) : payload (UInt8.ofNat (n % 64 + 128)) = n % 64 := by
  rw [payload, toNat_byte (by omega)]
  omega

/-! ### The reader's steps -/

variable {a b c d : UInt8} (pos : Nat) (r : Bytes)

/-- One byte is a character of ASCII. -/
theorem decodeFrom_one (ha : a.toNat < 128) :
    decodeFrom pos (a :: r) = (decodeFrom (pos + 1) r).map (Char.ofNat a.toNat :: ·) := by
  have hone : a < 0x80 := UInt8.lt_iff_toNat_lt.2 ha
  rw [decodeFrom.eq_def]
  dsimp only
  rw [if_pos hone]

/-- A first byte of several is none of ASCII, and none that starts no character. -/
theorem not_single (hlow : 194 ≤ a.toNat) (hhigh : a.toNat < 245) :
    ¬a < 0x80 ∧ ¬(decide (a < 0xC2) || decide (0xF5 ≤ a)) = true := by
  simp only [Bool.or_eq_true, decide_eq_true_eq, UInt8.lt_iff_toNat_lt, UInt8.le_iff_toNat_le, UInt8.reduceToNat]
  omega

theorem decodeFrom_two (hlow : 194 ≤ a.toNat) (hhigh : a.toNat < 224) (hb : continues b = true) :
    decodeFrom pos (a :: b :: r) =
      (decodeFrom (pos + 2) r).map (Char.ofNat (a.toNat % 32 * 64 + payload b) :: ·) := by
  obtain ⟨hone, hstart⟩ := not_single hlow (by omega)
  have htwo : a < 0xE0 := UInt8.lt_iff_toNat_lt.2 hhigh
  rw [decodeFrom.eq_def]
  dsimp only
  rw [if_neg hone, if_neg hstart, if_pos htwo, if_pos hb]

theorem decodeFrom_three (hlow : 224 ≤ a.toNat) (hhigh : a.toNat < 240) (hb : follows a b = true)
    (hc : continues c = true) :
    decodeFrom pos (a :: b :: c :: r) =
      (decodeFrom (pos + 3) r).map (Char.ofNat (a.toNat % 16 * 4096 + payload b * 64 + payload c) :: ·) := by
  obtain ⟨hone, hstart⟩ := not_single (by omega : 194 ≤ a.toNat) (by omega)
  have htwo : ¬a < 0xE0 := fun h => absurd (UInt8.lt_iff_toNat_lt.1 h) (Nat.not_lt.2 hlow)
  have hthree : a < 0xF0 := UInt8.lt_iff_toNat_lt.2 hhigh
  rw [decodeFrom.eq_def]
  dsimp only
  rw [if_neg hone, if_neg hstart, if_neg htwo, if_pos hthree, hb, hc]
  rfl

theorem decodeFrom_four (hlow : 240 ≤ a.toNat) (hhigh : a.toNat < 245) (hb : follows a b = true)
    (hc : continues c = true) (hd : continues d = true) :
    decodeFrom pos (a :: b :: c :: d :: r) =
      (decodeFrom (pos + 4) r).map
        (Char.ofNat (a.toNat % 8 * 262144 + payload b * 4096 + payload c * 64 + payload d) :: ·) := by
  obtain ⟨hone, hstart⟩ := not_single (by omega : 194 ≤ a.toNat) hhigh
  have htwo : ¬a < 0xE0 := fun h => absurd (UInt8.lt_iff_toNat_lt.1 h) (by simp; omega)
  have hthree : ¬a < 0xF0 := fun h => absurd (UInt8.lt_iff_toNat_lt.1 h) (Nat.not_lt.2 hlow)
  rw [decodeFrom.eq_def]
  dsimp only
  rw [if_neg hone, if_neg hstart, if_neg htwo, if_neg hthree, hb, hc, hd]
  rfl

/-! ### Texts -/

/-- A character is read from its bytes, whatever follows. The cases are those of the writer; the bounds of a
character's number are what the reader asks of the first two bytes. -/
theorem decodeFrom_char (x : Char) :
    decodeFrom pos (String.utf8EncodeChar x ++ r) =
      (decodeFrom (pos + (String.utf8EncodeChar x).length) r).map (x :: ·) := by
  obtain ⟨n, hn⟩ : ∃ n, n = x.val.toNat := ⟨_, rfl⟩
  have hx : Char.ofNat n = x := by
    rw [hn]
    exact Char.ofNat_toNat x
  have hvalid : n < 55296 ∨ 57343 < n ∧ n < 1114112 := by
    rw [hn]
    exact x.valid
  simp only [String.utf8EncodeChar, ← hn]
  split_ifs with hone htwo hthree
  · have hfirst : (UInt8.ofNat n).toNat = n := toNat_byte (by omega)
    rw [List.singleton_append, decodeFrom_one pos r (by omega), hfirst, hx]
    rfl
  · have hfirst : (UInt8.ofNat (n / 64 % 32 + 192)).toNat = n / 64 + 192 := by
      rw [toNat_byte (by omega)]
      omega
    have hnumber : (n / 64 + 192) % 32 * 64 + n % 64 = n := by omega
    rw [List.cons_append, List.singleton_append,
      decodeFrom_two pos r (by omega) (by omega) (continues_byte n), hfirst, payload_byte, hnumber, hx]
    rfl
  · have hfirst : (UInt8.ofNat (n / 4096 % 16 + 224)).toNat = n / 4096 + 224 := by
      rw [toNat_byte (by omega)]
      omega
    have hsecond : (UInt8.ofNat (n / 64 % 64 + 128)).toNat = n / 64 % 64 + 128 := toNat_byte (by omega)
    have hnumber : (n / 4096 + 224) % 16 * 4096 + n / 64 % 64 * 64 + n % 64 = n := by omega
    have hfollows : follows (UInt8.ofNat (n / 4096 % 16 + 224)) (UInt8.ofNat (n / 64 % 64 + 128)) = true := by
      rw [follows_iff, hfirst, hsecond]
      exact ⟨continues_byte _, by omega⟩
    rw [List.cons_append, List.cons_append, List.singleton_append,
      decodeFrom_three pos r (by omega) (by omega) hfollows (continues_byte n), hfirst, payload_byte, payload_byte,
      hnumber, hx]
    rfl
  · have hfirst : (UInt8.ofNat (n / 262144 % 8 + 240)).toNat = n / 262144 + 240 := by
      rw [toNat_byte (by omega)]
      omega
    have hsecond : (UInt8.ofNat (n / 4096 % 64 + 128)).toNat = n / 4096 % 64 + 128 := toNat_byte (by omega)
    have hnumber : (n / 262144 + 240) % 8 * 262144 + n / 4096 % 64 * 4096 + n / 64 % 64 * 64 + n % 64 = n := by
      omega
    have hfollows : follows (UInt8.ofNat (n / 262144 % 8 + 240)) (UInt8.ofNat (n / 4096 % 64 + 128)) = true := by
      rw [follows_iff, hfirst, hsecond]
      exact ⟨continues_byte _, by omega⟩
    rw [List.cons_append, List.cons_append, List.cons_append, List.singleton_append,
      decodeFrom_four pos r (by omega) (by omega) hfollows (continues_byte _) (continues_byte n), hfirst,
      payload_byte, payload_byte, payload_byte, hnumber, hx]
    rfl

theorem decodeFrom_encode (cs : List Char) : decodeFrom pos (encode cs) = .ok cs := by
  induction cs generalizing pos with
  | nil => rfl
  | cons c cs ih =>
      rw [encode, List.flatMap_cons, decodeFrom_char]
      rw [encode] at ih
      rw [ih]
      rfl

/-- **Every text is read back from its bytes.** -/
theorem decode_encode (cs : List Char) : decode (encode cs) = .ok cs := by
  rw [decode, decodeFrom_encode]

end SophiaBind.Utf8
