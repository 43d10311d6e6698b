/-
**Addresses that are given as numbers.**

A decoded address comes as a number or as the hexadecimal literal of that number, and a key has 32 bytes. A number of
at most 32 bytes has at most 64 digits, and filled up to 64 they are the digits of these bytes; so both forms give the
same address. A greater number is no address, but its digits are only read in pairs: an odd count of them is refused,
and an even count gives an encoded value that is longer than a key.

Main definitions:

* `Hex.literal` — the hexadecimal literal of a number,
* `Encoded.FormsAgree` — the two forms of a number give the same key, or are refused.

Main results:

* `Bytes.exists_ofNatPadded?`, `Bytes.ofNatPadded?_eq_none` — **which numbers fill how many bytes**,
* `Hex.exists_encode_eq` — **the digits of a number are those of its bytes**,
* `Encoded.formsAgree_iff` — **when the forms of a number agree**, and what becomes of each.
-/

import SophiaBind.Proofs.Addresses
import SophiaBind.Proofs.BigEndian

namespace SophiaBind

/-! ### Bytes -/

namespace Bytes

theorem toNat_lt_pow (bs : Bytes) : toNat bs < Nat.pow 256 bs.length := by
  induction bs using List.reverseRecOn with
  | nil => decide
  | append_singleton bs b ih =>
      have hb : b.toNat < 256 := b.toNat_lt
      have hpow : Nat.pow 256 (bs ++ [b]).length = Nat.pow 256 bs.length * 256 := by
        rw [List.length_append]
        rfl
      rw [toNat_concat, hpow]
      omega

theorem toNat_replicate_zero_append (k : Nat) (bs : Bytes) : toNat (List.replicate k 0 ++ bs) = toNat bs := by
  induction k with
  | zero => rfl
  | succ k ih => rwa [List.replicate_succ, List.cons_append, toNat, List.foldl_cons]

/-- **A number that is small enough fills a width.** -/
theorem exists_ofNatPadded? {width n : Nat} (h : n < Nat.pow 256 width) :
    ∃ bs, ofNatPadded? width n = some bs ∧ bs.length = width ∧ toNat bs = n := by
  have hlength := length_ofNat_le h
  refine ⟨List.replicate (width - (ofNat n).length) 0 ++ ofNat n, if_pos hlength, ?_, ?_⟩
  · rw [List.length_append, List.length_replicate]
    omega
  · rw [toNat_replicate_zero_append, toNat_ofNat]

/-- **A greater one does not fit.** -/
theorem ofNatPadded?_eq_none {width n : Nat} (h : Nat.pow 256 width ≤ n) : ofNatPadded? width n = none := by
  refine if_neg fun hlength => ?_
  have hlt : n < Nat.pow 256 (ofNat n).length := by
    have := toNat_lt_pow (ofNat n)
    rwa [toNat_ofNat] at this
  have hmono : Nat.pow 256 (ofNat n).length ≤ Nat.pow 256 width := Nat.pow_le_pow_right (by decide) hlength
  exact absurd (Nat.lt_of_lt_of_le hlt hmono) (Nat.not_lt.2 h)

end Bytes

/-! ### Digits -/

namespace Hex

/-- The hexadecimal literal of a number, without zeros in front. -/
def literal (n : Nat) : String :=
  "0x" ++ String.ofList (Nat.toDigits 16 n)

theorem digit_eq {k : Nat} (h : k < 16) : digit k = k.digitChar := by
  have htable : ∀ k < 16, digit k = k.digitChar := by decide
  exact htable k h

theorem toDigits_of_lt {n : Nat} (h : n < 16) : Nat.toDigits 16 n = [digit n] := by
  rw [Nat.toDigits_of_lt_base h, digit_eq h]

/-- The digits of a number are those of its quotient and one more. -/
theorem toDigits_of_le {n : Nat} (h : 16 ≤ n) :
    Nat.toDigits 16 n = Nat.toDigits 16 (n / 16) ++ [digit (n % 16)] := by
  have hlast : n % 16 < 16 := Nat.mod_lt n (by decide)
  have happend := @Nat.toDigits_append_toDigits 16 (n / 16) (n % 16) (by decide) (by omega) hlast
  rw [Nat.div_add_mod, toDigits_of_lt hlast] at happend
  exact happend.symm

theorem isDigit_of_mem_toDigits {n : Nat} {c : Char} (h : c ∈ Nat.toDigits 16 n) : IsDigit c := by
  have hdigit : ∀ k < 16, IsDigit (digit k) := fun k hk => by
    rw [IsDigit, digitValue?_digit hk]
    rfl
  induction n using Nat.strongRecOn with
  | _ n ih =>
      by_cases hn : n < 16
      · rw [toDigits_of_lt hn] at h
        exact List.mem_singleton.1 h ▸ hdigit n hn
      · rw [toDigits_of_le (by omega)] at h
        rcases List.mem_append.1 h with hfront | hlast
        · exact ih (n / 16) (by omega) hfront
        · exact List.mem_singleton.1 hlast ▸ hdigit (n % 16) (Nat.mod_lt n (by decide))

/-- The digits of a byte string are the last ones of its number. -/
theorem digits_toNat (bs : Bytes) : digits (2 * bs.length) (Bytes.toNat bs) = encode bs := by
  induction bs using List.reverseRecOn with
  | nil => rfl
  | append_singleton bs b ih =>
      have hb : b.toNat < 256 := b.toNat_lt
      have hwidth : 2 * (bs ++ [b]).length = 2 * bs.length + 1 + 1 := by
        rw [List.length_append, List.length_singleton]
        omega
      rw [hwidth, Bytes.toNat_concat, digits, digits, encode_append, ← ih, List.append_assoc,
        show (Bytes.toNat bs * 256 + b.toNat) / 16 / 16 = Bytes.toNat bs by omega,
        show (Bytes.toNat bs * 256 + b.toNat) / 16 % 16 = b.toNat / 16 by omega,
        show (Bytes.toNat bs * 256 + b.toNat) % 16 = b.toNat % 16 by omega]
      rfl

theorem digits_zero (width : Nat) : digits width 0 = List.replicate width '0' := by
  induction width with
  | zero => rfl
  | succ width ih =>
      rw [digits, ih, List.replicate_succ']
      rfl

/-- **Zeros in front of a number's digits** make them its last digits. -/
theorem padZeros_toDigits {width n : Nat} (h : (Nat.toDigits 16 n).length ≤ width) :
    Encoded.padZeros width (Nat.toDigits 16 n) = digits width n := by
  induction width generalizing n with
  | zero => exact absurd (List.length_eq_zero_iff.1 (Nat.le_zero.1 h)) Nat.toDigits_ne_nil
  | succ width ih =>
      rw [digits]
      by_cases hn : n < 16
      · rw [toDigits_of_lt hn, show n / 16 = 0 by omega, digits_zero, Nat.mod_eq_of_lt hn]
        rfl
      · rw [toDigits_of_le (by omega), List.length_append, List.length_singleton] at h
        have hfront := ih (Nat.le_of_succ_le_succ h)
        rw [toDigits_of_le (by omega), ← hfront, Encoded.padZeros, Encoded.padZeros, List.length_append,
          List.length_singleton, Nat.add_sub_add_right, List.append_assoc]

/-- **The digits of a number are those of its bytes**, if there are enough of these. -/
theorem exists_encode_eq {k n : Nat} (hk : 0 < k) (h : (Nat.toDigits 16 n).length ≤ 2 * k) :
    ∃ p, Bytes.ofNatPadded? k n = some p ∧ p.length = k ∧ Bytes.toNat p = n ∧
      Encoded.padZeros (2 * k) (Nat.toDigits 16 n) = encode p := by
  have hlt : n < Nat.pow 16 (2 * k) := (Nat.length_toDigits_le_iff (by decide) (by omega)).1 h
  have hpow : Nat.pow 16 (2 * k) = Nat.pow 256 k := Nat.pow_mul 16 2 k
  obtain ⟨p, hpadded, hlength, hvalue⟩ := Bytes.exists_ofNatPadded? (hpow ▸ hlt)
  refine ⟨p, hpadded, hlength, hvalue, ?_⟩
  rw [padZeros_toDigits h, ← digits_toNat, hlength, hvalue]

/-- **An odd count of digits is refused**, at the place where one is missing. -/
theorem decodeFrom_odd {k : Nat} {cs : List Char} (h : ∀ c ∈ cs, IsDigit c) (hlength : cs.length = 2 * k + 1)
    (position : Nat) : decodeFrom position cs = .error (position + cs.length) := by
  induction k generalizing cs position with
  | zero =>
      obtain ⟨c, rfl⟩ := List.length_eq_one_iff.1 hlength
      have hc := h c List.mem_cons_self
      obtain ⟨hi, hhi⟩ := Option.isSome_iff_exists.1 hc
      rw [decodeFrom.eq_def]
      simp only [hc.not_isGap, hhi, Bool.false_eq_true, if_false, List.length_singleton]
  | succ k ih =>
      have hpair : cs.length = 2 * k + 1 + 1 + 1 := hlength
      obtain ⟨c, ds, rfl⟩ := List.exists_cons_of_length_eq_add_one hpair
      obtain ⟨d, r, rfl⟩ := List.exists_cons_of_length_eq_add_one (Nat.succ.inj hpair)
      obtain ⟨hc, hdigits⟩ := List.forall_mem_cons.1 h
      obtain ⟨hd, hdigits⟩ := List.forall_mem_cons.1 hdigits
      obtain ⟨hi, hhi⟩ := Option.isSome_iff_exists.1 hc
      obtain ⟨lo, hlo⟩ := Option.isSome_iff_exists.1 hd
      have hrest := ih hdigits (Nat.succ.inj (Nat.succ.inj hpair)) (position + 2)
      have hend : position + 2 + r.length = position + (r.length + 1 + 1) := by omega
      rw [decodeFrom_pair position hhi hlo, hrest, List.length_cons, List.length_cons, hend]
      rfl

end Hex

/-! ### Addresses -/

namespace Encoded

variable {tag : String} {n : Nat}

/-- The forms of a number agree: both give the same key of 32 bytes, or both are refused. -/
def FormsAgree (tag : String) (n : Nat) : Prop :=
  (∃ address payload, addressOf (.int n) tag = .ok address ∧ addressOf (.text (Hex.literal n)) tag = .ok address ∧
    decode address = .ok payload ∧ payload.length = 32) ∨
  ((∃ f, addressOf (.int n) tag = .error f) ∧ ∃ f, addressOf (.text (Hex.literal n)) tag = .error f)

/-- A number is taken for the bytes that it fills. -/
theorem addressOf_int (tag : String) (n : Nat) :
    addressOf (.int n) tag =
      match Bytes.ofNatPadded? 32 n with
      | some bs => .ok (encode tag bs)
      | none => .error .tooManyBytes := by
  have hint : Value.toInt (.int n) = .ok (n : Int) := rfl
  rw [addressOf]
  dsimp only [Value.characters?]
  rw [hint]
  simp only [bind, Except.bind]
  unfold bytesOfInt
  rw [if_neg (by omega), Int.toNat_natCast]
  cases Bytes.ofNatPadded? 32 n with
  | some bs => rfl
  | none => rfl

/-- A literal is taken for the bytes that its digits are, filled up. It has no underscore, so that it does not begin
like an encoded value. -/
theorem addressOf_literal (tag : String) (n : Nat) :
    addressOf (.text (Hex.literal n)) tag =
      match Hex.decode (padZeros 64 (Nat.toDigits 16 n)) with
      | .ok bs => .ok (encode tag bs)
      | .error position => .error (.notHex position) := by
  have hdigits : ∀ c ∈ Nat.toDigits 16 n, Hex.IsDigit c := fun c hc => Hex.isDigit_of_mem_toDigits hc
  have hzero : "0x" ∈ hexMarks := by decide
  have htext : (Hex.literal n).toList = "0x".toList ++ Nat.toDigits 16 n := by
    rw [Hex.literal, String.toList_append, @String.toList_ofList (Nat.toDigits 16 n)]
  have hmark : (tag ++ "_").toList.isPrefixOf ("0x".toList ++ Nat.toDigits 16 n) = false := by
    rw [Bool.eq_false_iff]
    intro hbegins
    have hunder : '_' ∈ "0x".toList ++ Nat.toDigits 16 n :=
      (List.isPrefixOf_iff_prefix.1 hbegins).subset (by simp [String.toList_append])
    rcases List.mem_append.1 hunder with hfront | hbehind
    · exact absurd hfront (by decide)
    · exact absurd (hdigits '_' hbehind).range (by decide)
  rw [addressOf]
  dsimp only [Value.characters?]
  have hdrop := dropHexMark_append hzero hdigits
  rw [htext, (spelling_plain hzero hdigits).1, hmark, if_neg (by decide)]
  cases hread : Hex.decode (padZeros 64 (Nat.toDigits 16 n)) with
  | ok bs => simp only [hdrop, hread]
  | error position => simp only [hdrop, hread]

/-- A number below the bound gives the same key in both forms. -/
theorem addressOf_of_lt (h : n < Nat.pow 2 256) (tag : String) :
    ∃ p : Bytes, p.length = 32 ∧ Bytes.toNat p = n ∧ addressOf (.int n) tag = .ok (encode tag p) ∧
      addressOf (.text (Hex.literal n)) tag = .ok (encode tag p) := by
  have hlength : (Nat.toDigits 16 n).length ≤ 2 * 32 := (Nat.length_toDigits_le_iff (by decide) (by decide)).2 h
  obtain ⟨p, hpadded, hp, hvalue, hdigits⟩ := Hex.exists_encode_eq (by decide) hlength
  refine ⟨p, hp, hvalue, ?_, ?_⟩
  · rw [addressOf_int, hpadded]
  · rw [addressOf_literal, hdigits, Hex.decode_of_alike (.refl _)]

/-- A number from the bound on is refused. -/
theorem addressOf_int_of_le (h : Nat.pow 2 256 ≤ n) (tag : String) :
    addressOf (.int n) tag = .error .tooManyBytes := by
  rw [addressOf_int, Bytes.ofNatPadded?_eq_none h]

/-- Its literal has more digits than a key. -/
theorem lt_length_toDigits (h : Nat.pow 2 256 ≤ n) : 64 < (Nat.toDigits 16 n).length := by
  refine Nat.lt_of_not_le fun hle => ?_
  exact absurd ((Nat.length_toDigits_le_iff (by decide) (by decide)).1 hle) (Nat.not_lt.2 h)

theorem padZeros_of_le {width : Nat} {cs : List Char} (h : width ≤ cs.length) : padZeros width cs = cs := by
  rw [padZeros, Nat.sub_eq_zero_of_le h]
  rfl

/-- An odd count of digits is refused as well. -/
theorem addressOf_literal_of_odd {k : Nat} (h : Nat.pow 2 256 ≤ n) (hodd : (Nat.toDigits 16 n).length = 2 * k + 1)
    (tag : String) :
    addressOf (.text (Hex.literal n)) tag = .error (.notHex (Nat.toDigits 16 n).length) := by
  have hread := Hex.decodeFrom_odd (fun c hc => Hex.isDigit_of_mem_toDigits hc) hodd 0
  rw [Nat.zero_add] at hread
  rw [addressOf_literal, padZeros_of_le (Nat.le_of_lt (lt_length_toDigits h)), Hex.decode, hread]

/-- An even count gives a value that is longer than a key. -/
theorem addressOf_literal_of_even {k : Nat} (h : Nat.pow 2 256 ≤ n) (heven : (Nat.toDigits 16 n).length = 2 * k)
    (tag : String) :
    ∃ p : Bytes, p.length = k ∧ 32 < k ∧ Bytes.toNat p = n ∧
      addressOf (.text (Hex.literal n)) tag = .ok (encode tag p) := by
  have hlong := lt_length_toDigits h
  obtain ⟨p, -, hp, hvalue, hdigits⟩ := Hex.exists_encode_eq (k := k) (by omega) (Nat.le_of_eq heven)
  rw [padZeros_of_le (Nat.le_of_eq heven.symm)] at hdigits
  refine ⟨p, hp, by omega, hvalue, ?_⟩
  rw [addressOf_literal, padZeros_of_le (Nat.le_of_lt hlong), hdigits, Hex.decode_of_alike (.refl _)]

/-- **When the forms of a number agree.** Below `2 ^ 256` both give the key of 32 bytes that writes the number. From
there on the number is refused; its literal is refused as well if the count of its digits is odd, and otherwise gives
an encoded value of more than 32 bytes, and then the forms do not agree. -/
theorem formsAgree_iff (tag : String) (htag : '_' ∉ tag.toList) (n : Nat) :
    (FormsAgree tag n ↔ n < Nat.pow 2 256 ∨ (Nat.toDigits 16 n).length % 2 = 1) ∧
    (n < Nat.pow 2 256 → ∃ p : Bytes, p.length = 32 ∧ Bytes.toNat p = n ∧ decode (encode tag p) = .ok p ∧
      addressOf (.int n) tag = .ok (encode tag p) ∧ addressOf (.text (Hex.literal n)) tag = .ok (encode tag p)) ∧
    (Nat.pow 2 256 ≤ n → addressOf (.int n) tag = .error .tooManyBytes ∧
      ((Nat.toDigits 16 n).length % 2 = 1 →
        addressOf (.text (Hex.literal n)) tag = .error (.notHex (Nat.toDigits 16 n).length)) ∧
      ((Nat.toDigits 16 n).length % 2 = 0 → ∃ p : Bytes, 32 < p.length ∧ Bytes.toNat p = n ∧
        decode (encode tag p) = .ok p ∧ addressOf (.text (Hex.literal n)) tag = .ok (encode tag p))) := by
  have hread : ∀ p, decode (encode tag p) = .ok p := fun p => decode_encode htag p
  have hodd : Nat.pow 2 256 ≤ n → (Nat.toDigits 16 n).length % 2 = 1 →
      addressOf (.text (Hex.literal n)) tag = .error (.notHex (Nat.toDigits 16 n).length) := fun hle hcount =>
    addressOf_literal_of_odd (k := (Nat.toDigits 16 n).length / 2) hle (by omega) tag
  refine ⟨⟨fun hagree => ?_, fun hwhen => ?_⟩, fun hlt => ?_, fun hle => ⟨addressOf_int_of_le hle tag, hodd hle, ?_⟩⟩
  · -- from the bound on, both are refused, so that the count of digits cannot be even
    by_contra hnot
    obtain ⟨hle, heven⟩ := not_or.1 hnot
    have hle' := Nat.not_lt.1 hle
    have hint := addressOf_int_of_le hle' tag
    obtain ⟨p, -, -, -, hliteral⟩ :=
      addressOf_literal_of_even (k := (Nat.toDigits 16 n).length / 2) hle' (by omega) tag
    rcases hagree with ⟨address, payload, hnumber, -⟩ | ⟨-, f, hrefused⟩
    · cases hint.symm.trans hnumber
    · cases hliteral.symm.trans hrefused
  · by_cases hlt : n < Nat.pow 2 256
    · obtain ⟨p, hp, -, hint, hliteral⟩ := addressOf_of_lt hlt tag
      exact .inl ⟨encode tag p, p, hint, hliteral, hread p, hp⟩
    · have hle := Nat.not_lt.1 hlt
      exact .inr ⟨⟨_, addressOf_int_of_le hle tag⟩, _, hodd hle (hwhen.resolve_left hlt)⟩
  · obtain ⟨p, hp, hvalue, hint, hliteral⟩ := addressOf_of_lt hlt tag
    exact ⟨p, hp, hvalue, hread p, hint, hliteral⟩
  · intro heven
    obtain ⟨p, hp, hlong, hvalue, hliteral⟩ :=
      addressOf_literal_of_even (k := (Nat.toDigits 16 n).length / 2) hle (by omega) tag
    exact ⟨p, hp ▸ hlong, hvalue, hread p, hliteral⟩

/-- A contract's number of one digit has the key of 31 zeros and that digit in both forms. -/
theorem formsAgree_iff_seven : '_' ∉ "ct".toList ∧ FormsAgree "ct" 7 ∧
    ∃ p : Bytes, p.length = 32 ∧ Bytes.toNat p = 7 ∧ addressOf (.text "0x7") "ct" = .ok (encode "ct" p) := by
  have htag : '_' ∉ "ct".toList := by decide
  have hliteral : Hex.literal 7 = "0x7" := by decide
  obtain ⟨hiff, hsmall, -⟩ := formsAgree_iff "ct" htag 7
  obtain ⟨p, hp, hvalue, -, -, htext⟩ := hsmall (by decide)
  exact ⟨htag, hiff.2 (.inl (by decide)), p, hp, hvalue, hliteral ▸ htext⟩

/-- The least number with 66 digits. -/
def firstBeyond : Nat :=
  Nat.pow 16 65

/-- **The literal of a number that is too great is taken**, while the number is refused. -/
theorem forms_apart : addressOf (.int firstBeyond) "ak" = .error .tooManyBytes ∧
    addressOf (.text (Hex.literal firstBeyond)) "ak" = .ok (encode "ak" (16 :: List.replicate 32 0)) ∧
    ¬FormsAgree "ak" firstBeyond := by
  have hint : addressOf (.int firstBeyond) "ak" = .error .tooManyBytes :=
    addressOf_int_of_le (by decide) "ak"
  have hliteral : addressOf (.text (Hex.literal firstBeyond)) "ak" =
      .ok (encode "ak" (16 :: List.replicate 32 0)) := by
    have hdigits : padZeros 64 (Nat.toDigits 16 firstBeyond) = Hex.encode (16 :: List.replicate 32 0) := by
      decide +kernel
    rw [addressOf_literal, hdigits, Hex.decode_of_alike (.refl _)]
  refine ⟨hint, hliteral, ?_⟩
  rintro (⟨address, payload, hnumber, -⟩ | ⟨-, f, hrefused⟩)
  · cases hint.symm.trans hnumber
  · cases hliteral.symm.trans hrefused

end Encoded

end SophiaBind
