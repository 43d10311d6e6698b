/-
**Hexadecimal text is read back**, whatever the case of its letters.

A byte is two digits, and a digit has the same value in either case. So a text is read by the values of its
digits alone, and every text whose digits have the values of those of a byte string is read as that byte
string.

Main definitions:

* `Hex.IsDigit` — a hexadecimal digit of either case,
* `Hex.Alike` — texts whose digits have the same values.

Main results:

* `Hex.length_encode`, `Hex.isDigit_of_mem_encode` — **two digits a byte**,
* `Hex.decode_of_alike` — **what is alike is read alike**,
* `Hex.exists_decode_iff` — **what is read are pairs of digits**,
* `Hex.Paired.decode_take` — the bytes of the first digits.
-/

import SophiaBind.Bytes.Hex
import SophiaBind.Text.Blank
import SophiaBind.Proofs.Results

namespace SophiaBind.Hex

/-! ### Digits -/

/-- A hexadecimal digit of either case. -/
def IsDigit (c : Char) : Prop :=
  (digitValue? c).isSome = true

theorem digitValue?_digit {n : Nat} (h : n < 16) : digitValue? (digit n) = some n := by
  have htable : ∀ k < 16, digitValue? (digit k) = some k := by decide
  exact htable n h

/-- A digit is a number, a small letter or a capital letter. -/
theorem IsDigit.range {c : Char} (h : IsDigit c) :
    (48 ≤ c.toNat ∧ c.toNat ≤ 57) ∨ (97 ≤ c.toNat ∧ c.toNat ≤ 102) ∨ (65 ≤ c.toNat ∧ c.toNat ≤ 70) := by
  unfold IsDigit digitValue? at h
  dsimp only at h
  split at h
  · next hnumber => exact .inl (by simpa using hnumber)
  · split at h
    · next hsmall => exact .inr (.inl (by simpa using hsmall))
    · split at h
      · next hcapital => exact .inr (.inr (by simpa using hcapital))
      · simp at h

/-- No digit stands between pairs of digits. -/
theorem IsDigit.not_isGap {c : Char} (h : IsDigit c) : isGap c = false := by
  have hrange := h.range
  have hspace : c ≠ ' ' := by
    rintro rfl
    simp at hrange
  unfold isGap
  simp only [Bool.or_eq_false_iff, Bool.and_eq_false_iff, decide_eq_false_iff_not, beq_eq_false_iff_ne]
  exact ⟨by omega, hspace⟩

theorem IsDigit.not_isBlank {c : Char} (h : IsDigit c) : Text.isBlank c = false := by
  have hrange := h.range
  unfold Text.isBlank
  simp only [Bool.or_eq_false_iff, Bool.and_eq_false_iff, decide_eq_false_iff_not, beq_eq_false_iff_ne]
  omega

/-! ### Texts -/

/-- Two digits a byte. -/
@[simp] theorem length_encode (bs : Bytes) : (encode bs).length = 2 * bs.length := by
  induction bs with
  | nil => rfl
  | cons b bs ih =>
      rw [encode, List.length_cons, List.length_cons, ih, List.length_cons]
      omega

theorem encode_append (bs cs : Bytes) : encode (bs ++ cs) = encode bs ++ encode cs := by
  induction bs with
  | nil => rfl
  | cons b bs ih => rw [List.cons_append, encode, ih, encode, List.cons_append, List.cons_append]

/-- Texts whose digits have the same values: the case of letters makes no difference. -/
def Alike (cs ds : List Char) : Prop :=
  cs.map digitValue? = ds.map digitValue?

theorem Alike.refl (cs : List Char) : Alike cs cs := rfl

theorem Alike.length_eq {cs ds : List Char} (h : Alike cs ds) : cs.length = ds.length := by
  have hlength := congrArg List.length h
  simpa using hlength

/-- A text that begins with other digits of the same values. -/
theorem Alike.of_cons {cs ds : List Char} {d : Char} (h : Alike cs (d :: ds)) :
    ∃ c rest, cs = c :: rest ∧ digitValue? c = digitValue? d ∧ Alike rest ds := by
  cases cs with
  | nil => cases h
  | cons c rest =>
      obtain ⟨hdigit, hrest⟩ := List.cons.inj h
      exact ⟨c, rest, rfl, hdigit, hrest⟩

theorem isDigit_of_mem_encode {bs : Bytes} {c : Char} (h : c ∈ encode bs) : IsDigit c := by
  induction bs with
  | nil => cases h
  | cons b bs ih =>
      have hb : b.toNat < 256 := b.toNat_lt
      rw [encode, List.mem_cons, List.mem_cons] at h
      rcases h with rfl | rfl | h
      · rw [IsDigit, digitValue?_digit (by omega)]
        rfl
      · rw [IsDigit, digitValue?_digit (by omega)]
        rfl
      · exact ih h

/-- What is alike to digits is digits. -/
theorem Alike.isDigit {cs ds : List Char} (h : Alike cs ds) (hds : ∀ d ∈ ds, IsDigit d) :
    ∀ c ∈ cs, IsDigit c := by
  intro c hc
  have hmem : digitValue? c ∈ ds.map digitValue? := by
    rw [← h]
    exact List.mem_map_of_mem hc
  obtain ⟨d, hd, hvalue⟩ := List.mem_map.1 hmem
  rw [IsDigit, ← hvalue]
  exact hds d hd

/-! ### Reading -/

/-- A pair of digits is read as a byte. -/
theorem decodeFrom_pair (position : Nat) {c d : Char} {hi lo : Nat} (hc : digitValue? c = some hi)
    (hd : digitValue? d = some lo) (r : List Char) :
    decodeFrom position (c :: d :: r) =
      (decodeFrom (position + 2) r).map (UInt8.ofNat (hi * 16 + lo) :: ·) := by
  have hgap : isGap c = false := IsDigit.not_isGap (by rw [IsDigit, hc]; rfl)
  rw [decodeFrom.eq_def]
  simp only [hgap, hc, hd, Bool.false_eq_true, if_false]

/-- **What is alike is read alike**: as the byte string whose digits have these values. -/
theorem decodeFrom_of_alike {bs : Bytes} {cs : List Char} (h : Alike cs (encode bs)) (position : Nat) :
    decodeFrom position cs = .ok bs := by
  induction bs generalizing cs position with
  | nil =>
      obtain rfl : cs = [] := List.map_eq_nil_iff.1 h
      rw [decodeFrom]
  | cons b bs ih =>
      have hb : b.toNat < 256 := b.toNat_lt
      obtain ⟨c, r, rfl, hc, hr⟩ := h.of_cons
      obtain ⟨d, r, rfl, hd, hr⟩ := hr.of_cons
      rw [digitValue?_digit (by omega)] at hc hd
      rw [decodeFrom_pair position hc hd, ih hr]
      have hbyte : b.toNat / 16 * 16 + b.toNat % 16 = b.toNat := by omega
      rw [hbyte, UInt8.ofNat_toNat]
      rfl

theorem decode_of_alike {bs : Bytes} {cs : List Char} (h : Alike cs (encode bs)) : decode cs = .ok bs :=
  decodeFrom_of_alike h 0

/-! ### Blanks between pairs -/

/-- Pairs of digits, with blanks in front of them, between them and behind them. -/
inductive Paired : List Char → Prop where
  | nil : Paired []
  | gap {c : Char} {r : List Char} (hc : isGap c = true) (hr : Paired r) : Paired (c :: r)
  | pair {c d : Char} {r : List Char} (hc : IsDigit c) (hd : IsDigit d) (hr : Paired r) : Paired (c :: d :: r)

/-- What is no blank of a text. -/
def withoutGaps (cs : List Char) : List Char :=
  cs.filter fun c => !isGap c

theorem digitValue?_lt {c : Char} {n : Nat} (h : digitValue? c = some n) : n < 16 := by
  unfold digitValue? at h
  grind

/-- Two digits are alike to those of the byte that they are read as. -/
theorem Alike.pair {c d : Char} {hi lo : Nat} (hc : digitValue? c = some hi) (hd : digitValue? d = some lo)
    {cs : List Char} {bs : Bytes} (h : Alike cs (encode bs)) :
    Alike (c :: d :: cs) (encode (UInt8.ofNat (hi * 16 + lo) :: bs)) := by
  have hhi := digitValue?_lt hc
  have hlo := digitValue?_lt hd
  have hbyte : (UInt8.ofNat (hi * 16 + lo)).toNat = hi * 16 + lo := by
    rw [UInt8.toNat_ofNat']
    omega
  unfold Alike at h ⊢
  rw [encode, hbyte, List.map_cons, List.map_cons, List.map_cons, List.map_cons, hc, hd, h,
    show (hi * 16 + lo) / 16 = hi by omega, show (hi * 16 + lo) % 16 = lo by omega,
    digitValue?_digit hhi, digitValue?_digit hlo]

theorem decodeFrom_gap (position : Nat) {c : Char} (h : isGap c = true) (r : List Char) :
    decodeFrom position (c :: r) = decodeFrom (position + 1) r := by
  rw [decodeFrom.eq_def]
  simp only [h, if_true]

/-- **Pairs of digits are read** as the bytes whose digits they are; blanks between them do not count. -/
theorem Paired.exists_bytes {cs : List Char} (h : Paired cs) :
    ∃ bs, (∀ position, decodeFrom position cs = .ok bs) ∧ Alike (withoutGaps cs) (encode bs) := by
  induction h with
  | nil => exact ⟨[], fun position => by rw [decodeFrom], .refl _⟩
  | @gap c r hc hr ih =>
      obtain ⟨bs, hread, halike⟩ := ih
      refine ⟨bs, fun position => ?_, ?_⟩
      · rw [decodeFrom_gap position hc, hread]
      · simpa [withoutGaps, hc] using halike
  | @pair c d r hc hd hr ih =>
      obtain ⟨bs, hread, halike⟩ := ih
      obtain ⟨hi, hhi⟩ := Option.isSome_iff_exists.1 hc
      obtain ⟨lo, hlo⟩ := Option.isSome_iff_exists.1 hd
      refine ⟨UInt8.ofNat (hi * 16 + lo) :: bs, fun position => ?_, ?_⟩
      · rw [decodeFrom_pair position hhi hlo, hread]
        rfl
      · have hdigits : withoutGaps (c :: d :: r) = c :: d :: withoutGaps r := by
          simp [withoutGaps, hc.not_isGap, hd.not_isGap]
        rw [hdigits]
        exact halike.pair hhi hlo

/-- **Nothing but pairs of digits is read.** -/
theorem paired_of_decodeFrom {position : Nat} {cs : List Char} {bs : Bytes}
    (h : decodeFrom position cs = .ok bs) : Paired cs := by
  fun_induction decodeFrom position cs generalizing bs with
  | case1 => exact .nil
  | case2 position c r hgap ih => exact .gap hgap (ih h)
  | case3 => cases h
  | case4 => cases h
  | case5 => cases h
  | case6 position c hgap hi d r hhi lo hlo ih =>
      obtain ⟨bs, hread, -⟩ := Except.map_eq_ok.1 h
      exact .pair (Option.isSome_of_eq_some hhi) (Option.isSome_of_eq_some hlo) (ih hread)

theorem exists_decode_iff {cs : List Char} : (∃ bs, decode cs = .ok bs) ↔ Paired cs := by
  constructor
  · rintro ⟨bs, hread⟩
    exact paired_of_decodeFrom hread
  · intro h
    obtain ⟨bs, hread, -⟩ := h.exists_bytes
    exact ⟨bs, hread 0⟩

/-! ### Parts -/

theorem take_encode (n : Nat) (bs : Bytes) : (encode bs).take (2 * n) = encode (bs.take n) := by
  induction n generalizing bs with
  | zero => simp [encode]
  | succ n ih =>
      cases bs with
      | nil => rfl
      | cons b bs => rw [Nat.mul_succ, encode, List.take_succ_cons, List.take_succ_cons, ih, List.take_succ_cons, encode]

theorem Alike.take {cs ds : List Char} (h : Alike cs ds) (n : Nat) : Alike (cs.take n) (ds.take n) := by
  unfold Alike at h ⊢
  rw [List.map_take, List.map_take, h]

/-- The first digits of a text are those of the first bytes. -/
theorem Paired.decode_take {cs : List Char} (h : Paired cs) :
    ∃ bs, decode cs = .ok bs ∧ (withoutGaps cs).length = 2 * bs.length ∧
      ∀ n, decode ((withoutGaps cs).take (2 * n)) = .ok (bs.take n) := by
  obtain ⟨bs, hread, halike⟩ := h.exists_bytes
  refine ⟨bs, hread 0, ?_, fun n => decode_of_alike ?_⟩
  · rw [halike.length_eq, length_encode]
  · rw [← take_encode]
    exact halike.take (2 * n)

/-- Between digits there are no blanks. -/
theorem withoutGaps_eq_self {cs : List Char} (h : ∀ c ∈ cs, IsDigit c) : withoutGaps cs = cs := by
  refine List.filter_eq_self.2 fun c hc => ?_
  rw [(h c hc).not_isGap]
  rfl

/-- Digits of an even number are pairs. -/
theorem paired_of_isDigit {n : Nat} {cs : List Char} (h : ∀ c ∈ cs, IsDigit c) (hlength : cs.length = 2 * n) :
    Paired cs := by
  induction n generalizing cs with
  | zero =>
      rw [List.length_eq_zero_iff.1 hlength]
      exact .nil
  | succ n ih =>
      match cs with
      | c :: d :: r =>
          refine .pair (h c (by simp)) (h d (by simp)) (ih (fun x hx => h x (by simp [hx])) ?_)
          simpa [Nat.mul_succ] using hlength
      | [_] => simp at hlength; omega

/-- What is no blank of a text of pairs is a digit. -/
theorem Paired.isDigit {cs : List Char} (h : Paired cs) {c : Char} (hc : c ∈ cs) (hgap : isGap c = false) :
    IsDigit c := by
  obtain ⟨bs, -, halike⟩ := h.exists_bytes
  have hmem : c ∈ withoutGaps cs := List.mem_filter.2 ⟨hc, by rw [hgap]; rfl⟩
  exact halike.isDigit (fun d hd => isDigit_of_mem_encode hd) c hmem

end SophiaBind.Hex
