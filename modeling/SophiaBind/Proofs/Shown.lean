/-
**Texts of values.**

The text of a value says little about the value: a text of digits may stand for a number or for a text. The
word that marks a successful call is different, since numbers are written without its letters, and the texts of
all other values begin in another way or have a replacement character.

Main definition:

* `Decimal.isNumeric` — the characters of numbers.

Main results:

* `Integer.isNumeric_of_mem`, `Decimal.isNumeric_of_mem` — **numbers are written in these**,
* `Json.eq_text_of_shown` — **only a text is shown as `ok`**.
-/

import SophiaBind.Value.Written

namespace SophiaBind

/-! ### Numbers -/

/-- The characters of numbers: digits, signs, the point, the exponent's letter and those of the names of values
that are not finite. -/
def Decimal.isNumeric (c : Char) : Bool :=
  c.isDigit || ['-', '+', '.', 'e', 'i', 'n', 'f', 'a'].contains c

theorem Integer.isNumeric_of_mem_toDigits {c : Char} {n : Nat} (h : c ∈ Nat.toDigits 10 n) :
    Decimal.isNumeric c = true := by
  rw [Decimal.isNumeric, Nat.isDigit_of_mem_toDigits (by decide) (by decide) h, Bool.true_or]

theorem Integer.isNumeric_of_mem {c : Char} {i : Int} (h : c ∈ Integer.toText i) : Decimal.isNumeric c = true := by
  cases i with
  | ofNat n => exact isNumeric_of_mem_toDigits h
  | negSucc n =>
      rcases List.mem_cons.1 h with rfl | h
      · decide
      · exact isNumeric_of_mem_toDigits h

theorem Integer.toText_ne_nil (i : Int) : Integer.toText i ≠ [] := by
  cases i with
  | ofNat n => exact Nat.toDigits_ne_nil
  | negSucc n => exact List.cons_ne_nil _ _

namespace Decimal

theorem isNumeric_of_mem_zeros {c : Char} {n : Nat} (h : c ∈ List.replicate n '0') : isNumeric c = true := by
  rw [List.eq_of_mem_replicate h]
  decide

/-- Laying digits out adds zeros, points, signs and exponents. -/
theorem isNumeric_of_mem_layout {digits : List Char} (h : ∀ c ∈ digits, isNumeric c = true) {point : Int}
    {c : Char} (hc : c ∈ layout digits point) : isNumeric c = true := by
  have htake : ∀ {n}, c ∈ digits.take n → isNumeric c = true := fun hn => h c (List.mem_of_mem_take hn)
  have hdrop : ∀ {n}, c ∈ digits.drop n → isNumeric c = true := fun hn => h c (List.mem_of_mem_drop hn)
  have hmark : ∀ {d}, isNumeric d = true → c = d → isNumeric c = true := fun hd he => he ▸ hd
  unfold layout at hc
  dsimp only at hc
  split at hc
  · split at hc
    · simp only [List.cons_append, List.mem_cons, List.mem_append] at hc
      rcases hc with hc | hc | hc | hc
      · exact hmark (by decide) hc
      · exact hmark (by decide) hc
      · exact isNumeric_of_mem_zeros hc
      · exact h c hc
    · split at hc
      · simp only [List.mem_append, List.mem_cons, List.not_mem_nil, or_false] at hc
        rcases hc with (hc | hc) | hc | hc
        · exact h c hc
        · exact isNumeric_of_mem_zeros hc
        · exact hmark (by decide) hc
        · exact hmark (by decide) hc
      · simp only [List.mem_append, List.mem_cons] at hc
        rcases hc with hc | hc | hc
        · exact htake hc
        · exact hmark (by decide) hc
        · exact hdrop hc
  · simp only [List.mem_append, List.mem_cons] at hc
    rcases hc with (hc | hc) | hc | hc | hc
    · exact htake hc
    · split at hc
      · cases hc
      · rcases List.mem_cons.1 hc with hc | hc
        · exact hmark (by decide) hc
        · exact hdrop hc
    · exact hmark (by decide) hc
    · split at hc
      · exact hmark (by decide) hc
      · exact hmark (by decide) hc
    · split at hc
      · rcases List.mem_cons.1 hc with hc | hc
        · exact hmark (by decide) hc
        · exact Integer.isNumeric_of_mem_toDigits hc
      · exact Integer.isNumeric_of_mem_toDigits hc

/-- **Numbers are written in digits and marks.** -/
theorem isNumeric_of_mem {x : Binary64} {c : Char} (h : c ∈ toText x) : isNumeric c = true := by
  have hkept : ∀ n, ∀ c ∈ (dropZeros (Nat.toDigits 10 n)).1, isNumeric c = true := fun n c hc =>
    Integer.isNumeric_of_mem_toDigits (List.mem_reverse.1 (List.mem_of_mem_drop (List.mem_reverse.1 hc)))
  have hnames : ∀ c ∈ "nan".toList ++ "-inf".toList ++ "inf".toList ++ "0.0".toList, isNumeric c = true :=
    List.all_eq_true.1 (by decide)
  simp only [List.mem_append] at hnames
  cases x with
  | nan => exact hnames c (.inl (.inl (.inl h)))
  | infinite negative =>
      cases negative with
      | true => exact hnames c (.inl (.inl (.inr h)))
      | false => exact hnames c (.inl (.inr h))
  | finite negative m e =>
      have hbody : ∀ {cs : List Char}, c ∈ (if negative = true then '-' :: cs else cs) → c = '-' ∨ c ∈ cs := by
        intro cs hc
        split at hc
        · exact List.mem_cons.1 hc
        · exact .inr hc
      unfold toText at h
      rcases hbody h with rfl | h
      · decide
      · split at h
        · exact hnames c (.inr h)
        · exact isNumeric_of_mem_layout (hkept _) h

end Decimal

/-! ### Values -/

/-- A text with halves is shown with a replacement character in the place of its first half. -/
theorem BrokenText.mem_shown (t : BrokenText) : '\uFFFD' ∈ t.shown.toList := by
  simp [BrokenText.shown, BrokenText.points, CodePoint.shown]

/-- **Only a text is shown as `ok`.** -/
theorem Json.eq_text_of_shown {j : Json} (h : j.shown = "ok") : j = .text "ok" := by
  have hchars : j.shown.toList = ['o', 'k'] := by rw [h]; rfl
  match j with
  | .text s => exact congrArg Json.text h
  | .null => exact absurd h (by decide)
  | .bool b => cases b <;> exact absurd h (by decide)
  | .int i =>
      rw [show (Json.int i).shown = String.ofList (Integer.toText i) from rfl, String.toList_ofList] at hchars
      exact absurd (@Integer.isNumeric_of_mem 'k' i (by rw [hchars]; decide)) (by decide)
  | .float x =>
      rw [show (Json.float x).shown = String.ofList (Decimal.toText x) from rfl, String.toList_ofList] at hchars
      exact absurd (@Decimal.isNumeric_of_mem x 'k' (by rw [hchars]; decide)) (by decide)
  | .broken t =>
      have hmem := t.mem_shown
      rw [show t.shown = "ok" from h] at hmem
      exact absurd hmem (by decide)
  | .array items =>
      rw [show (Json.array items).shown = "[" ++ Value.commas (Value.writtenItems (Value.ofJsonItems items)) ++ "]"
        from rfl] at hchars
      simp at hchars
  | .object members =>
      rw [show (Json.object members).shown =
        "\x7b" ++ Value.commas (Value.writtenEntries (Value.ofJsonMembers members)) ++ "\x7d" from rfl] at hchars
      simp at hchars

end SophiaBind
