/-
**Base 58 is read back.**

The digits of a number do not begin with the digit of zero, so that the leading ones of a text are exactly
those that stand for the zero bytes in front; what is behind them gives back the number, and number and
zeros together give back the byte string.

Main results:

* `Base58.number_digitsOf` — **the digits of a number are read as that number**,
* `Base58.head?_digitsOf` — and do not begin with a zero digit,
* `Base58.decode_encode` — **what is written is read back**.
-/

import SophiaBind.Bytes.Base58
import SophiaBind.Proofs.BigEndian
import SophiaBind.Proofs.Spans

namespace SophiaBind.Base58

/-! ### Digits -/

/-- A digit has its value, is in ASCII and no blank. -/
theorem digit_spec : ∀ n < 58, digitValue? (digit n) = some n ∧ (digit n).toNat < 128 ∧
    Text.isBlank (digit n) = false := by
  decide +kernel

/-- Only zero has the digit of zero. -/
theorem digit_ne_one {n : Nat} (hn : n < 58) (hpos : n ≠ 0) : digit n ≠ '1' := by
  intro h
  have hone : digit 0 = '1' := rfl
  have hzero := (digit_spec 0 (by omega)).1
  rw [hone, ← h, (digit_spec n hn).1] at hzero
  exact hpos (Option.some.inj hzero)

@[simp] theorem digitsOf_zero : digitsOf 0 = [] := by
  rw [digitsOf]
  rfl

theorem digitsOf_of_ne_zero {n : Nat} (h : n ≠ 0) : digitsOf n = digitsOf (n / 58) ++ [digit (n % 58)] := by
  rw [digitsOf, if_neg h]

/-- The digits of a number do not begin with a zero. -/
theorem head?_digitsOf (n : Nat) : ∀ c ∈ (digitsOf n).head?, c ≠ '1' := by
  induction n using Nat.strongRecOn with
  | _ n ih =>
      by_cases h : n = 0
      · simp [h]
      · rw [digitsOf_of_ne_zero h]
        by_cases hq : n / 58 = 0
        · -- one digit alone, which is not zero
          intro c hc
          rw [hq, digitsOf_zero] at hc
          obtain rfl : digit (n % 58) = c := by simpa using hc
          exact digit_ne_one (by omega) (by omega)
        · have hne : digitsOf (n / 58) ≠ [] := by
            rw [digitsOf_of_ne_zero hq]
            simp
          obtain ⟨c, r, hc⟩ := List.exists_cons_of_ne_nil hne
          have hhead := ih (n / 58) (by omega)
          rw [hc] at hhead ⊢
          exact hhead

/-- What was read in front counts for what is behind. -/
theorem number_append {n m : Nat} {ds : List Char} (h : number n ds = .ok m) (es : List Char) :
    number n (ds ++ es) = number m es := by
  induction ds generalizing n with
  | nil =>
      cases h
      rfl
  | cons c ds ih =>
      rw [number] at h
      rw [List.cons_append, number]
      split at h
      · exact ih h
      · cases h

/-- **The digits of a number are read as that number.** -/
theorem number_digitsOf (n : Nat) : number 0 (digitsOf n) = .ok n := by
  induction n using Nat.strongRecOn with
  | _ n ih =>
      by_cases h : n = 0
      · rw [h, digitsOf_zero, number]
      · have hvalue := (digit_spec (n % 58) (by omega)).1
        rw [digitsOf_of_ne_zero h, number_append (ih (n / 58) (by omega))]
        simp only [number, hvalue]
        rw [Nat.div_add_mod']

/-! ### Texts -/

/-- What is written is in ASCII and has no blanks. -/
theorem spec_of_mem_digitsOf (n : Nat) : ∀ c ∈ digitsOf n, c.toNat < 128 ∧ Text.isBlank c = false := by
  induction n using Nat.strongRecOn with
  | _ n ih =>
      by_cases h : n = 0
      · simp [h]
      · rw [digitsOf_of_ne_zero h]
        intro c hc
        rcases List.mem_append.1 hc with hc | hc
        · exact ih (n / 58) (by omega) c hc
        · rw [List.mem_singleton.1 hc]
          exact (digit_spec (n % 58) (by omega)).2

theorem spec_of_mem_encode (bs : Bytes) : ∀ c ∈ encode bs, c.toNat < 128 ∧ Text.isBlank c = false := by
  intro c hc
  rcases List.mem_append.1 hc with hc | hc
  · rw [List.eq_of_mem_replicate hc]
    decide
  · exact spec_of_mem_digitsOf _ c hc

theorem nonAscii?_eq_none {cs : List Char} (h : ∀ c ∈ cs, c.toNat < 128) (position : Nat) :
    nonAscii? position cs = none := by
  induction cs generalizing position with
  | nil => rfl
  | cons c r ih =>
      rw [List.forall_mem_cons] at h
      rw [nonAscii?, if_pos h.1, ih h.2]

/-- The leading ones are those of the zero bytes in front. -/
theorem span_encode (z n : Nat) :
    (List.replicate z '1' ++ digitsOf n).takeWhile (· == '1') = List.replicate z '1' ∧
      (List.replicate z '1' ++ digitsOf n).dropWhile (· == '1') = digitsOf n := by
  refine Text.span_append (fun c hc => ?_) fun c hc => ?_
  · rw [List.eq_of_mem_replicate hc]
    rfl
  · simpa using head?_digitsOf n c hc

/-- **What is written is read back.** -/
theorem decode_encode (bs : Bytes) : decode (encode bs) = .ok bs := by
  have hspec := spec_of_mem_encode bs
  have htrim : Text.trimEnd (encode bs) = encode bs := Text.trimEnd_eq_self fun c hc => (hspec c hc).2
  have hascii : nonAscii? 0 (encode bs) = none := nonAscii?_eq_none (fun c hc => (hspec c hc).1) 0
  obtain ⟨hones, hdigits⟩ := span_encode (bs.takeWhile (· == 0)).length (Bytes.toNat bs)
  rw [decode]
  dsimp only
  rw [htrim, hascii, encode, hones, hdigits, number_digitsOf, List.length_replicate]
  dsimp only [Except.map]
  rw [Bytes.zeros_append_ofNat]

theorem encode_ne_nil {bs : Bytes} (h : bs ≠ []) : encode bs ≠ [] := by
  intro he
  have hempty : decode [] = .ok (List.replicate 0 0 ++ Bytes.ofNat 0) := rfl
  have hread := decode_encode bs
  rw [he, hempty, Bytes.ofNat_zero] at hread
  cases hread
  exact h rfl

end SophiaBind.Base58
