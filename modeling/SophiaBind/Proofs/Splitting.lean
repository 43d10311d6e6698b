/-
**Splitting at a separator outside brackets.**

The parts of a text make up the text again, with the separator between, whatever the separator is and however the
brackets of the text stand. The other way round, texts that are joined with a character between are split into just
these texts if the joining makes no more and no fewer places at level zero where that character stands: it stands
nowhere at level zero within the texts, and each text but the last ends at level zero. The level may be negative on
the way.

Main definitions:

* `Text.Clear` — a character stands nowhere at level zero in a text,
* `Text.Parted` — texts that are told apart with a character between.

Main results:

* `Text.intercalate_splitFrom` — the parts of a text make up the text,
* `Text.parted_splitOutside` — **the parts of a text are told apart**,
* `Text.splitOutside_intercalate_iff` — **texts with a separator between are split into just these texts exactly if
  they are told apart**,
* `Text.splitOutside_inverse` — splitting and joining are inverse to each other.
-/

import SophiaBind.Text.Nesting

namespace SophiaBind.Text

/-! ### Levels -/

/-- Only brackets change the level. -/
theorem levelAfter_of_not_bracket {c : Char} (h : c ∉ ['(', '{', '[', ')', '}', ']']) (level : Int) :
    levelAfter level c = level := by
  simp only [List.mem_cons, List.not_mem_nil, or_false, not_or] at h
  simp [levelAfter, h]

/-- The separator stands nowhere at level zero in a text that starts at a level. -/
def Clear (separator : Char) (level : Int) (cs : List Char) : Prop :=
  ∀ front behind, cs = front ++ separator :: behind → front.foldl levelAfter level ≠ 0

theorem clear_nil (separator : Char) (level : Int) : Clear separator level [] :=
  fun _ _ h => absurd h.symm (by simp)

theorem clear_cons {separator c : Char} {level : Int} {cs : List Char} :
    Clear separator level (c :: cs) ↔ (c = separator → level ≠ 0) ∧ Clear separator (levelAfter level c) cs := by
  constructor
  · refine fun h => ⟨fun hc => h [] cs (by rw [hc, List.nil_append]), fun front behind hcs => ?_⟩
    exact h (c :: front) behind (by rw [hcs, List.cons_append])
  · rintro ⟨hfirst, hrest⟩ front behind hcs
    cases front with
    | nil => exact hfirst (List.cons_eq_cons.1 hcs).1
    | cons d front =>
        obtain ⟨rfl, hbehind⟩ := List.cons_eq_cons.1 hcs
        exact hrest front behind hbehind

instance Clear.decidable (separator : Char) : ∀ (level : Int) (cs : List Char), Decidable (Clear separator level cs)
  | level, [] => .isTrue (clear_nil separator level)
  | level, c :: r =>
      have := Clear.decidable separator (levelAfter level c) r
      decidable_of_iff _ clear_cons.symm

/-! ### Parts -/

theorem consPart_ne_nil (c : Char) (parts : List (List Char)) : consPart c parts ≠ [] := by
  cases parts <;> simp [consPart]

theorem splitFrom_ne_nil (separator : List Char) (level : Int) (cs : List Char) :
    splitFrom separator level cs ≠ [] := by
  cases cs with
  | nil => simp [splitFrom]
  | cons c cs =>
      rw [splitFrom]
      split
      · exact List.cons_ne_nil _ _
      · exact consPart_ne_nil _ _

theorem intercalate_consPart (separator : List Char) (c : Char) {parts : List (List Char)} (h : parts ≠ []) :
    separator.intercalate (consPart c parts) = c :: separator.intercalate parts := by
  obtain ⟨part, rest, rfl⟩ := List.exists_cons_of_ne_nil h
  cases rest <;> simp [consPart]

/-- **The parts of a text with the separator between are the text.** -/
theorem intercalate_splitFrom (separator : List Char) (level : Int) (cs : List Char) :
    separator.intercalate (splitFrom separator level cs) = cs := by
  induction cs generalizing level with
  | nil => simp [splitFrom]
  | cons c cs ih =>
      rw [splitFrom]
      split
      · next hsplit =>
          obtain ⟨part, rest, hparts⟩ :=
            List.exists_cons_of_ne_nil (splitFrom_ne_nil separator (levelAfter level c) cs)
          have hrest := ih (levelAfter level c)
          rw [hparts] at hrest ⊢
          rw [List.intercalate_cons_cons, hrest, ← hsplit.1]
          rfl
      · rw [intercalate_consPart separator c (splitFrom_ne_nil _ _ _), ih]

theorem foldr_consPart (cs : List Char) (parts : List (List Char)) :
    cs.foldr consPart ([] :: parts) = cs :: parts := by
  induction cs with
  | nil => rfl
  | cons c cs ih => rw [List.foldr_cons, ih, consPart]

/-- Texts that are told apart with a separator between: it stands nowhere at level zero in them, and each but the
last ends there. -/
structure Parted (separator : Char) (parts : List (List Char)) : Prop where
  clear : ∀ part ∈ parts, Clear separator 0 part
  closed : ∀ part ∈ parts.dropLast, level part = 0

section Parted

variable {separator : Char} {part : List Char} {parts : List (List Char)}

theorem parted_singleton : Parted separator [part] ↔ Clear separator 0 part :=
  ⟨fun h => h.clear part List.mem_cons_self, fun h => ⟨by simpa, List.forall_mem_nil _⟩⟩

theorem parted_cons (hne : parts ≠ []) :
    Parted separator (part :: parts) ↔ Clear separator 0 part ∧ level part = 0 ∧ Parted separator parts := by
  constructor
  · rintro ⟨hclear, hclosed⟩
    rw [List.dropLast_cons_of_ne_nil hne] at hclosed
    obtain ⟨hpart, hparts⟩ := List.forall_mem_cons.1 hclear
    obtain ⟨hlevel, hlevels⟩ := List.forall_mem_cons.1 hclosed
    exact ⟨hpart, hlevel, hparts, hlevels⟩
  · rintro ⟨hpart, hlevel, hparts, hlevels⟩
    refine ⟨List.forall_mem_cons.2 ⟨hpart, hparts⟩, ?_⟩
    rw [List.dropLast_cons_of_ne_nil hne]
    exact List.forall_mem_cons.2 ⟨hlevel, hlevels⟩

/-- A first text, and behind it others that are told apart: it must end at level zero only if there are others. -/
theorem parted_cons_of_imp (hclear : Clear separator 0 part)
    (hrest : parts ≠ [] → level part = 0 ∧ Parted separator parts) : Parted separator (part :: parts) := by
  by_cases hne : parts = []
  · rw [hne]
    exact parted_singleton.2 hclear
  · exact (parted_cons hne).2 ⟨hclear, hrest hne⟩

variable (hseparator : separator ∉ ['(', '{', '[', ')', '}', ']'])

include hseparator

/-- What a text is split into: the first part goes up to a separator at level zero, if there is one. -/
theorem exists_splitFrom (level : Int) (cs : List Char) :
    ∃ first rest, splitFrom [separator] level cs = first :: rest ∧ Clear separator level first ∧
      (rest ≠ [] → first.foldl levelAfter level = 0 ∧ Parted separator rest) := by
  induction cs generalizing level with
  | nil => exact ⟨[], [], rfl, clear_nil _ _, fun h => absurd rfl h⟩
  | cons c cs ih =>
      obtain ⟨first, rest, hsplit, hclear, hrest⟩ := ih (levelAfter level c)
      rw [splitFrom, hsplit]
      split
      · next hhere =>
          obtain ⟨hc, hlevel⟩ := hhere
          obtain rfl : c = separator := List.singleton_inj.1 hc
          rw [hlevel] at hclear hrest
          rw [levelAfter_of_not_bracket hseparator] at hlevel
          exact ⟨[], first :: rest, rfl, clear_nil _ _, fun _ => ⟨hlevel, parted_cons_of_imp hclear hrest⟩⟩
      · next hno =>
          have hfirst : c = separator → level ≠ 0 := by
            rintro rfl hlevel
            exact hno ⟨rfl, by rw [levelAfter_of_not_bracket hseparator, hlevel]⟩
          exact ⟨c :: first, rest, rfl, clear_cons.2 ⟨hfirst, hclear⟩, hrest⟩

/-- **The parts of a text are told apart.** -/
theorem parted_splitOutside (cs : List Char) : Parted separator (splitOutside cs [separator]) := by
  obtain ⟨first, rest, hsplit, hclear, hrest⟩ := exists_splitFrom hseparator 0 cs
  rw [splitOutside, hsplit]
  exact parted_cons_of_imp hclear hrest

/-- Characters before a separator at level zero go into one part. -/
theorem splitFrom_append {level : Int} {cs : List Char} (h : Clear separator level cs) (rest : List Char) :
    splitFrom [separator] level (cs ++ rest) =
      cs.foldr consPart (splitFrom [separator] (cs.foldl levelAfter level) rest) := by
  induction cs generalizing level with
  | nil => rfl
  | cons c cs ih =>
      obtain ⟨hfirst, hrest⟩ := clear_cons.1 h
      have hno : ¬([c] = [separator] ∧ levelAfter level c = 0) := by
        rintro ⟨hc, hlevel⟩
        obtain rfl : c = separator := List.singleton_inj.1 hc
        exact hfirst rfl (levelAfter_of_not_bracket hseparator level ▸ hlevel)
      rw [List.cons_append, splitFrom, if_neg hno, ih hrest, List.foldr_cons, List.foldl_cons]

/-- Texts that are told apart, with the separator between, are split into just these texts. -/
theorem Parted.splitOutside_eq (h : Parted separator parts) (hne : parts ≠ []) :
    splitOutside ([separator].intercalate parts) [separator] = parts := by
  induction parts with
  | nil => exact absurd rfl hne
  | cons part parts ih =>
      cases parts with
      | nil =>
          have hsplit := splitFrom_append hseparator (parted_singleton.1 h) []
          rw [List.append_nil] at hsplit
          rw [List.intercalate_singleton, splitOutside, hsplit]
          exact foldr_consPart part []
      | cons next parts =>
          have hnext := List.cons_ne_nil next parts
          obtain ⟨hclear, hlevel, hparts⟩ := (parted_cons hnext).1 h
          have hbehind : splitFrom [separator] 0 (separator :: [separator].intercalate (next :: parts)) =
              [] :: next :: parts := by
            have hstill := levelAfter_of_not_bracket hseparator 0
            rw [splitFrom, if_pos ⟨rfl, hstill⟩, hstill]
            exact congrArg ([] :: ·) (ih hparts hnext)
          rw [level] at hlevel
          rw [List.intercalate_cons_cons, List.append_assoc, List.singleton_append, splitOutside,
            splitFrom_append hseparator hclear, hlevel, hbehind, foldr_consPart]

/-- **Texts with a separator between are split into just these texts exactly if they are told apart.** -/
theorem splitOutside_intercalate_iff (hne : parts ≠ []) :
    splitOutside ([separator].intercalate parts) [separator] = parts ↔ Parted separator parts :=
  ⟨fun h => h ▸ parted_splitOutside hseparator _, fun h => h.splitOutside_eq hseparator hne⟩

end Parted

/-- **Splitting and joining are inverse**: joining the parts of a text gives the text, for every separator; and for a
character that is no bracket, splitting what was joined gives the parts, if in each of them the level ends at zero and
the character stands nowhere at level zero. -/
theorem splitOutside_inverse :
    (∀ cs separator : List Char, separator.intercalate (splitOutside cs separator) = cs) ∧
    ∀ (separator : Char) (parts : List (List Char)), separator ∉ ['(', '{', '[', ')', '}', ']'] → parts ≠ [] →
      (∀ part ∈ parts, level part = 0 ∧ Clear separator 0 part) →
      splitOutside ([separator].intercalate parts) [separator] = parts := by
  refine ⟨fun cs separator => intercalate_splitFrom separator 0 cs, fun separator parts hseparator hne h => ?_⟩
  have hparted : Parted separator parts :=
    ⟨fun part hpart => (h part hpart).2, fun part hpart => (h part (List.dropLast_subset parts hpart)).1⟩
  exact hparted.splitOutside_eq hseparator hne

/-- Brackets that stand the wrong way round, kinds of brackets that do not match, and parts with nothing in them. -/
theorem splitOutside_inverse_unbalanced :
    splitOutside "f(x;y];;)a;b(".toList [';'] = ["f(x;y]".toList, [], ")a;b(".toList] :=
  splitOutside_inverse.2 ';' ["f(x;y]".toList, [], ")a;b(".toList] (by decide) (by decide) (by decide)

end SophiaBind.Text
