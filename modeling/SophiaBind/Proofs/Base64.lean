/-
**Base 64 is read back.**

The characters of a group carry the bits of its bytes one after the other, and what is pending between two
characters are the bits that belong to no whole byte yet. So the reader gives back a byte behind the
second, the third and the fourth character of a group, and the filling ends it.

Main results:

* `Base64.decodeFrom_digit` — one step of the reader,
* `Base64.decode_encode` — **what is written is read back**.
-/

import SophiaBind.Bytes.Base64

namespace SophiaBind.Base64

/-! ### Digits -/

/-- A digit has its value, is no filling, and is in ASCII. -/
theorem digit_spec : ∀ n < 64, digitValue? (digit n) = some n ∧ digit n ≠ '=' ∧ (digit n).toNat < 128 := by
  decide +kernel

/-- One step of the reader: what a digit pushes. -/
theorem decodeFrom_digit (pending : Pending) (pads written : Nat) {n : Nat} (h : n < 64) (r : List Char) :
    decodeFrom pending pads written (digit n :: r) =
      match pending.push n with
      | (some b, next) => (decodeFrom next 0 (written + 1) r).map (b :: ·)
      | (none, next) => decodeFrom next 0 written r := by
  obtain ⟨hvalue, hpad, -⟩ := digit_spec n h
  rewrite [decodeFrom, if_neg hpad, hvalue]
  rfl

/-! ### Groups -/

/-- Two digits give the byte whose bits they carry. -/
theorem decodeFrom_two (written : Nat) (a : UInt8) (low : Nat) (hlow : low < 16) (r : List Char) :
    decodeFrom .none 0 written (digit (a.toNat / 4) :: digit (a.toNat % 4 * 16 + low) :: r) =
      (decodeFrom (.four low) 0 (written + 1) r).map (a :: ·) := by
  have ha : a.toNat < 256 := a.toNat_lt
  rw [decodeFrom_digit _ _ _ (by omega)]
  dsimp only [Pending.push]
  rw [decodeFrom_digit _ _ _ (by omega)]
  dsimp only [Pending.push]
  rw [show a.toNat / 4 * 4 + (a.toNat % 4 * 16 + low) / 16 = a.toNat by omega, UInt8.ofNat_toNat,
    show (a.toNat % 4 * 16 + low) % 16 = low by omega]

/-- A third digit gives the second byte. -/
theorem decodeFrom_third (written : Nat) (b : UInt8) (low : Nat) (hlow : low < 4) (r : List Char) :
    decodeFrom (.four (b.toNat / 16)) 0 written (digit (b.toNat % 16 * 4 + low) :: r) =
      (decodeFrom (.two low) 0 (written + 1) r).map (b :: ·) := by
  have hb : b.toNat < 256 := b.toNat_lt
  rw [decodeFrom_digit _ _ _ (by omega)]
  dsimp only [Pending.push]
  rw [show b.toNat / 16 * 16 + (b.toNat % 16 * 4 + low) / 4 = b.toNat by omega, UInt8.ofNat_toNat,
    show (b.toNat % 16 * 4 + low) % 4 = low by omega]

/-- A fourth digit gives the third byte. -/
theorem decodeFrom_fourth (written : Nat) (c : UInt8) (r : List Char) :
    decodeFrom (.two (c.toNat / 64)) 0 written (digit (c.toNat % 64) :: r) =
      (decodeFrom .none 0 (written + 1) r).map (c :: ·) := by
  rw [decodeFrom_digit _ _ _ (by omega)]
  dsimp only [Pending.push]
  rw [show c.toNat / 64 * 64 + c.toNat % 64 = c.toNat by omega, UInt8.ofNat_toNat]

/-- **A whole text is read back** from the beginning of a group on. -/
theorem decodeFrom_encode (bs : Bytes) (written : Nat) : decodeFrom .none 0 written (encode bs) = .ok bs := by
  induction bs using encode.induct generalizing written with
  | case1 => rfl
  | case2 a =>
      -- two fillings behind one byte
      have h : decodeFrom .none 0 written [digit (a.toNat / 4), digit (a.toNat % 4 * 16), '=', '='] =
          (decodeFrom (.four 0) 0 (written + 1) ['=', '=']).map (a :: ·) :=
        decodeFrom_two written a 0 (by omega) ['=', '=']
      rw [encode, h]
      rfl
  | case3 a b =>
      have hb : b.toNat < 256 := b.toNat_lt
      have h : decodeFrom (.four (b.toNat / 16)) 0 (written + 1) [digit (b.toNat % 16 * 4), '='] =
          (decodeFrom (.two 0) 0 (written + 2) ['=']).map (b :: ·) :=
        decodeFrom_third (written + 1) b 0 (by omega) ['=']
      rw [encode, decodeFrom_two written a _ (by omega), h]
      rfl
  | case4 a b c r ih =>
      have hb : b.toNat < 256 := b.toNat_lt
      have hc : c.toNat < 256 := c.toNat_lt
      rw [encode, decodeFrom_two written a _ (by omega), decodeFrom_third _ b _ (by omega), decodeFrom_fourth, ih]
      rfl

/-! ### Texts -/

theorem toNat_digit_lt (n : Nat) : (digit n).toNat < 128 := by
  by_cases h : n < 64
  · exact (digit_spec n h).2.2
  · have hnone : alphabet[n]? = none := List.getElem?_eq_none (Nat.le_of_not_lt h)
    rw [digit, List.getD_eq_getElem?_getD, hnone]
    decide

/-- What is written is in ASCII. -/
theorem toNat_lt_of_mem_encode (bs : Bytes) : ∀ c ∈ encode bs, c.toNat < 128 := by
  have hdigit := toNat_digit_lt
  induction bs using encode.induct with
  | case1 => simp [encode]
  | case2 a => simp [encode, hdigit]
  | case3 a b => simp [encode, hdigit]
  | case4 a b c r ih =>
      simp only [encode, List.forall_mem_cons]
      exact ⟨hdigit _, hdigit _, hdigit _, hdigit _, ih⟩

/-- **What is written is read back.** -/
theorem decode_encode (bs : Bytes) : decode (encode bs) = .ok bs := by
  have hascii : (encode bs).all (fun c => c.toNat < 128) = true :=
    List.all_eq_true.2 fun c hc => decide_eq_true (toNat_lt_of_mem_encode bs c hc)
  rw [decode, if_pos hascii, decodeFrom_encode]

end SophiaBind.Base64
