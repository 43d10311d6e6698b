/-
**How the classes of characters lie to each other.**

Main results:

* `Text.isAlphanumeric_of_isBlank` — **no blank is a letter or a number**, in any script,
* `TypeTree.isBlank_of_isNameChar` — so that the names of types have none.
-/

import SophiaBind.TypeTree.Parser

namespace SophiaBind

namespace Text

/-- No blank is a letter or a number. -/
theorem isAlphanumeric_of_isBlank {c : Char} (h : isBlank c = true) : isAlphanumeric c = false := by
  have htable : ∀ n ∈ [0x85, 0xA0, 0x1680] ++ List.range' 0x2000 11 ++ [0x2028, 0x2029, 0x202F, 0x205F, 0x3000],
      inRanges alphanumericRanges n = false := by decide +kernel
  simp only [isBlank, Bool.or_eq_true, Bool.and_eq_true, decide_eq_true_eq, beq_iff_eq] at h
  by_cases hascii : c.toNat < 128
  · rw [isAlphanumeric, if_pos hascii, isAsciiAlphanumeric]
    simp only [Bool.or_eq_false_iff, Bool.and_eq_false_iff, decide_eq_false_iff_not]
    omega
  · rw [isAlphanumeric, if_neg hascii]
    refine htable _ ?_
    simp only [List.mem_append, List.mem_cons, List.mem_range'_1, List.not_mem_nil, or_false]
    omega

end Text

theorem TypeTree.isBlank_of_isNameChar {c : Char} (h : isNameChar c = true) : Text.isBlank c = false := by
  cases hb : Text.isBlank c with
  | false => rfl
  | true =>
      -- letters and numbers are no blanks, and neither are the three marks
      simp only [isNameChar, Text.isAlphanumeric_of_isBlank hb, Bool.false_or, Bool.or_eq_true,
        beq_iff_eq] at h
      rcases h with (rfl | rfl) | rfl <;> revert hb <;> decide

end SophiaBind
