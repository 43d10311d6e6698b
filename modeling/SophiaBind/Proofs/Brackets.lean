/-
**Balanced arguments.**

All brackets count as one kind. A text is taken apart where no bracket is open, so that the parts of a balanced
text are balanced, and only of it. But before that, a pair of parentheses around the text is dropped, which is
told by its first and its last character alone. Where these two belong to different pairs, what is left is not
balanced, and neither are its parts.

Main definitions:

* `Text.Balanced` — the bracket level never goes below zero, and ends there,
* `Text.ClosesEarly` — a text in parentheses of which the first is closed before the last.

Main results:

* `Text.balanced_splitOutside` — **a text is balanced exactly if its parts are**,
* `Arguments.balanced_openTuple` — what is left of a balanced text is balanced unless it closes early,
* `Arguments.balanced_ofValue` — **the arguments in a balanced text are balanced unless it closes early**,
* `Arguments.ofValue_two_tuples` — a text that does.
-/

import SophiaBind.Proofs.ArgumentText

namespace SophiaBind

open TypeTree (joinCommas joinCommas_cons)

namespace Text

variable {cs ds : List Char}

/-! ### Levels -/

theorem levelAfter_eq_add (l : Int) (c : Char) : levelAfter l c = l + levelAfter 0 c := by
  unfold levelAfter
  split
  · rw [Int.zero_add]
  · split <;> omega

theorem foldl_levelAfter (l : Int) (cs : List Char) : cs.foldl levelAfter l = l + level cs := by
  induction cs generalizing l with
  | nil => exact (Int.add_zero l).symm
  | cons c cs ih =>
      rw [level, List.foldl_cons, List.foldl_cons, ih, ih (levelAfter 0 c), levelAfter_eq_add l]
      omega

theorem level_cons (c : Char) (cs : List Char) : level (c :: cs) = levelAfter 0 c + level cs := by
  rw [level, List.foldl_cons, foldl_levelAfter]

theorem level_append (cs ds : List Char) : level (cs ++ ds) = level cs + level ds := by
  rw [level, List.foldl_append, foldl_levelAfter]
  rfl

/-- A text without brackets ends at the level at which it starts. -/
theorem level_eq_zero (h : ∀ c ∈ cs, c ∉ ['(', '{', '[', ')', '}', ']']) : level cs = 0 := by
  induction cs with
  | nil => rfl
  | cons c cs ih =>
      obtain ⟨hc, hcs⟩ := List.forall_mem_cons.1 h
      rw [level_cons, levelAfter_of_not_bracket hc, ih hcs]
      rfl

/-! ### Balanced texts -/

/-- A text in which the bracket level never goes below zero, and ends there. -/
structure Balanced (cs : List Char) : Prop where
  nonneg : ∀ n, 0 ≤ level (cs.take n)
  ends : level cs = 0

instance (cs : List Char) : Decidable (Balanced cs) :=
  decidable_of_iff ((∀ n < cs.length, 0 ≤ level (cs.take n)) ∧ level cs = 0) <| by
    refine ⟨fun h => ⟨fun n => ?_, h.2⟩, fun h => ⟨fun n _ => h.nonneg n, h.ends⟩⟩
    by_cases hn : n < cs.length
    · exact h.1 n hn
    · have hwhole : cs.take n = cs := List.take_of_length_le (Nat.le_of_not_lt hn)
      exact Int.le_of_eq (by rw [hwhole, h.2])

namespace Balanced

theorem append (hcs : Balanced cs) (hds : Balanced ds) : Balanced (cs ++ ds) where
  nonneg n := by
    rw [List.take_append, level_append]
    exact Int.add_nonneg (hcs.nonneg n) (hds.nonneg _)
  ends := by rw [level_append, hcs.ends, hds.ends, Int.add_zero]

/-- The beginning of a balanced text is balanced if it ends at level zero. -/
theorem of_append_left (h : Balanced (cs ++ ds)) (hcs : level cs = 0) : Balanced cs where
  nonneg n := by
    have htake := h.nonneg (min n cs.length)
    rwa [List.take_append_of_le_length (Nat.min_le_right n _), ← List.take_eq_take_min] at htake
  ends := hcs

/-- What stands behind it is balanced as well. -/
theorem of_append_right (h : Balanced (cs ++ ds)) (hcs : level cs = 0) : Balanced ds where
  nonneg n := by
    have htake := h.nonneg (cs.length + n)
    rwa [List.take_length_add_append, level_append, hcs, Int.zero_add] at htake
  ends := by
    have hends := h.ends
    rwa [level_append, hcs, Int.zero_add] at hends

/-- A text without brackets is balanced. -/
theorem of_forall (h : ∀ c ∈ cs, c ∉ ['(', '{', '[', ')', '}', ']']) : Balanced cs where
  nonneg _ := Int.le_of_eq (level_eq_zero fun c hc => h c (List.mem_of_mem_take hc)).symm
  ends := level_eq_zero h

end Balanced

theorem not_bracket_of_isBlank {c : Char} (h : isBlank c = true) : c ∉ ['(', '{', '[', ')', '}', ']'] := by
  intro hc
  rw [not_isBlank_of_mem_splitMarks c (List.mem_cons_of_mem ',' hc)] at h
  cases h

/-- Blanks at the ends do not matter. -/
theorem balanced_trim : Balanced (trim cs) ↔ Balanced cs := by
  obtain ⟨front, behind, heq, hfront, hbehind⟩ := exists_trim cs
  have hfront : Balanced front := .of_forall fun c hc => not_bracket_of_isBlank (hfront c hc)
  have hbehind : Balanced behind := .of_forall fun c hc => not_bracket_of_isBlank (hbehind c hc)
  constructor
  · intro h
    rw [heq]
    exact hfront.append (h.append hbehind)
  · intro h
    rw [heq] at h
    have hrest := h.of_append_right hfront.ends
    have hends := hrest.ends
    rw [level_append, hbehind.ends, Int.add_zero] at hends
    exact hrest.of_append_left hends

/-- **Texts that commas tell apart are balanced exactly if they are together.** -/
theorem Separated.balanced_joinCommas {parts : List (List Char)} (h : Separated parts) :
    Balanced (joinCommas parts) ↔ ∀ part ∈ parts, Balanced part := by
  have hcomma : Balanced [','] := .of_forall (List.all_iff_forall_prop.1 (by decide))
  induction parts with
  | nil => exact iff_of_true (.of_forall (List.forall_mem_nil _)) (List.forall_mem_nil _)
  | cons part parts ih =>
      by_cases hne : parts = []
      · subst hne
        simp [joinCommas]
      · obtain ⟨-, hlevel, hparts⟩ := (separated_cons hne).1 h
        have hrest := ih hparts
        rw [joinCommas_cons part hne, List.forall_mem_cons]
        constructor
        · intro hall
          exact ⟨hall.of_append_left hlevel, hrest.1 ((hall.of_append_right hlevel).of_append_right hcomma.ends)⟩
        · rintro ⟨hpart, hall⟩
          exact hpart.append (hcomma.append (hrest.2 hall))

/-- **A text is balanced exactly if its parts are.** -/
theorem balanced_splitOutside (cs : List Char) :
    (∀ part ∈ splitOutside cs [','], Balanced part) ↔ Balanced cs := by
  rw [← (separated_splitOutside cs).balanced_joinCommas, joinCommas_splitOutside]

/-- Blank parts do not matter either, nor the blanks around the others. -/
theorem balanced_kept {parts : List (List Char)} :
    (∀ part ∈ kept parts, Balanced part) ↔ ∀ part ∈ parts, Balanced part := by
  induction parts with
  | nil => rfl
  | cons part parts ih =>
      by_cases hblank : trim part = []
      · have hpart : Balanced part := balanced_trim.1 (hblank ▸ .of_forall (List.forall_mem_nil _))
        rw [kept_cons_of_blank hblank, ih, List.forall_mem_cons, and_iff_right hpart]
      · rw [kept_cons_of_ne hblank, List.forall_mem_cons, ih, balanced_trim, List.forall_mem_cons]

/-- A text in parentheses of which the first is closed before the last. -/
def ClosesEarly (cs : List Char) : Prop :=
  ∃ inner, cs = '(' :: (inner ++ [')']) ∧ ∃ n, level ('(' :: inner.take n) = 0

/-- **A balanced text is balanced without the parentheses around it** exactly if these belong together. -/
theorem balanced_inner {inner : List Char} (h : Balanced ('(' :: (inner ++ [')']))) :
    Balanced inner ↔ ∀ n, level ('(' :: inner.take n) ≠ 0 := by
  have hopen : ∀ ds, level ('(' :: ds) = 1 + level ds := fun ds => level_cons '(' ds
  have hends : level inner = 0 := by
    have hboth := h.ends
    rw [hopen, level_append, show level [')'] = -1 from rfl] at hboth
    omega
  have hnonneg : ∀ n, 0 ≤ 1 + level (inner.take n) := by
    intro n
    have htake := h.nonneg (min n inner.length + 1)
    rwa [List.take_succ_cons, List.take_append_of_le_length (Nat.min_le_right n _), ← List.take_eq_take_min,
      hopen] at htake
  constructor
  · intro hinner n hzero
    have := hinner.nonneg n
    rw [hopen] at hzero
    omega
  · refine fun hne => ⟨fun n => ?_, hends⟩
    have hlevel := hne n
    rw [hopen] at hlevel
    have := hnonneg n
    omega

end Text

/-! ### Arguments -/

namespace Arguments

open Text (Balanced ClosesEarly)

/-- The arguments in a text are balanced exactly if the text is without the parentheses around it. -/
theorem balanced_parts_iff (s : String) :
    (∀ part ∈ ofText s, Balanced part.toList) ↔ Balanced (openTuple s.toList) := by
  rw [ofText_eq, List.forall_mem_map]
  simp only [String.toList_ofList]
  exact Text.balanced_kept.trans (Text.balanced_splitOutside _)

/-- A text that is not in parentheses is only trimmed. -/
theorem openTuple_of_forall_ne {cs : List Char} (h : ∀ inner, Text.trim cs ≠ '(' :: (inner ++ [')'])) :
    openTuple cs = Text.trim cs := by
  unfold openTuple
  split
  · next r heq =>
      rw [heq]
      refine if_neg fun hlast => ?_
      obtain ⟨inner, rfl⟩ := List.getLast?_eq_some_iff.1 hlast
      exact h inner heq
  · rfl

/-- **What is left of a balanced text is balanced** unless it closes early. -/
theorem balanced_openTuple {cs : List Char} (h : Balanced cs) :
    Balanced (openTuple cs) ↔ ¬ClosesEarly (Text.trim cs) := by
  have htrim := Text.balanced_trim.2 h
  by_cases hparens : ∃ inner, Text.trim cs = '(' :: (inner ++ [')'])
  · obtain ⟨inner, heq⟩ := hparens
    have hopen : openTuple cs = inner := by
      simp [openTuple, heq]
    have hearly : ClosesEarly (Text.trim cs) ↔ ∃ n, Text.level ('(' :: inner.take n) = 0 := by
      simp [ClosesEarly, heq]
    rw [heq] at htrim
    rw [hopen, hearly, not_exists]
    exact Text.balanced_inner htrim
  · have hopen := openTuple_of_forall_ne (not_exists.1 hparens)
    rw [hopen]
    exact iff_of_true htrim fun hearly => hparens (hearly.imp fun _ h => h.1)

/-- **The arguments in a balanced text are balanced** unless the parenthesis at its beginning is closed before the one
at its end. -/
theorem balanced_ofValue {v : Value} {s : String} (hv : v.characters? = some s) (h : Balanced s.toList) :
    ∃ parts, ofValue v = .ok parts ∧
      ((∀ part ∈ parts, Balanced part.toList) ↔ ¬ClosesEarly (Text.trim s.toList)) := by
  refine ⟨ofText s, ?_, (balanced_parts_iff s).trans (balanced_openTuple h)⟩
  cases v with
  | text t =>
      obtain rfl : t = s := Option.some.inj hv
      rfl
  | broken t =>
      obtain rfl : t.shown = s := Option.some.inj hv
      rfl
  | _ => cases hv

/-- Brackets of all kinds in parentheses, with blanks around. -/
theorem balanced_ofValue_nested :
    Balanced " ([1,2], (3), f(4] ) ".toList ∧
      ofValue (.text " ([1,2], (3), f(4] ) ") = .ok ["[1,2]", "(3)", "f(4]"] ∧
      (∀ part ∈ ["[1,2]", "(3)", "f(4]"], Balanced part.toList) ∧
      ¬ClosesEarly (Text.trim " ([1,2], (3), f(4] ) ".toList) := by
  have hbalanced : Balanced " ([1,2], (3), f(4] ) ".toList := by decide +kernel
  have hread : ofValue (.text " ([1,2], (3), f(4] ) ") = .ok ["[1,2]", "(3)", "f(4]"] := by rfl
  obtain ⟨parts, hparts, hiff⟩ :=
    @balanced_ofValue (.text " ([1,2], (3), f(4] ) ") " ([1,2], (3), f(4] ) " rfl hbalanced
  obtain rfl : ["[1,2]", "(3)", "f(4]"] = parts := Except.ok.inj (hread.symm.trans hparts)
  have hall : ∀ part ∈ ["[1,2]", "(3)", "f(4]"], Balanced part.toList := by decide +kernel
  exact ⟨hbalanced, hread, hall, hiff.1 hall⟩

/-- **Two tuples in a row are taken for the inside of one**: the parentheses at their ends are dropped. -/
theorem ofValue_two_tuples :
    Balanced "(1),(2)".toList ∧ ofValue (.text "(1),(2)") = .ok ["1),(2"] ∧ ¬Balanced "1),(2".toList :=
  ⟨by decide +kernel, by rfl, by decide +kernel⟩

end Arguments

end SophiaBind
