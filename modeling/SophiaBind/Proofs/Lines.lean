/-
**Lines of texts.**

A text is its lines, one behind the other. Where the last line of a text is ended, what stands behind the text are
more lines; and it does not matter whether the ends of lines are read as line feeds first.

Main definition:

* `Text.Whole` — a text whose last line is ended.

Main results:

* `Text.lines_joined` — **lines that are written are told apart again**,
* `Text.lines_append` — behind a whole text there are more lines,
* `Text.lines_normalizeNewlines` — what ends a line still ends it where a file is read.
-/

import SophiaBind.Text.Lines

namespace SophiaBind.Text

theorem lines_cons {c : Char} (h : isLineBreak c = false) (cs : List Char) :
    lines (c :: cs) = consLine c (lines cs) := by
  have hne : c ≠ '\r' := by
    rintro rfl
    cases h
  rw [lines]
  · rw [h]
    rfl
  · rintro r rfl
    exact fun _ => hne rfl

/-- A line ends at its line feed. -/
theorem lines_append_newline {cs : List Char} (h : ∀ c ∈ cs, isLineBreak c = false) (rest : List Char) :
    lines (cs ++ '\n' :: rest) = cs :: lines rest := by
  induction cs with
  | nil => rfl
  | cons c cs ih =>
      obtain ⟨hc, hcs⟩ := List.forall_mem_cons.1 h
      rw [List.cons_append, lines_cons hc, ih hcs]
      rfl

/-- Lines that are written one behind the other are told apart again. -/
theorem lines_joined {texts : List (List Char)} (h : ∀ cs ∈ texts, ∀ c ∈ cs, isLineBreak c = false) :
    lines (texts.flatMap fun cs => cs ++ ['\n']) = texts := by
  induction texts with
  | nil => rfl
  | cons cs texts ih =>
      obtain ⟨hcs, htexts⟩ := List.forall_mem_cons.1 h
      rw [List.flatMap_cons, List.append_assoc, List.singleton_append, lines_append_newline hcs, ih htexts]

theorem lines_cons_break {c : Char} {r : List Char} (h : isLineBreak c = true) (hpair : c = '\r' → r.head? ≠ some '\n') :
    lines (c :: r) = [] :: lines r := by
  rw [lines]
  · rw [if_pos h]
  · rintro s hc rfl
    exact hpair hc rfl

/-- No pair of a carriage return and a line feed stands here. -/
theorem head?_ne_of_not_pair {c : Char} {r : List Char} (h : ∀ s, c = '\r' → r = '\n' :: s → False) :
    c = '\r' → r.head? ≠ some '\n' := by
  intro hc hhead
  obtain ⟨s, hs⟩ := List.head?_eq_some_iff.1 hhead
  exact h s hc hs

/-! ### Whole texts -/

/-- A text whose last line is ended. -/
def Whole (cs : List Char) : Prop :=
  ∀ c, cs.getLast? = some c → c = '\n'

theorem whole_nil : Whole [] :=
  nofun

theorem Whole.of_cons {c : Char} {cs : List Char} (h : Whole (c :: cs)) : Whole cs := by
  intro d hd
  refine h d ?_
  rw [List.getLast?_cons, hd]
  rfl

theorem Whole.append {cs ds : List Char} (h : Whole cs) (h' : Whole ds) : Whole (cs ++ ds) := by
  intro c hc
  rw [List.getLast?_append] at hc
  cases hlast : ds.getLast? with
  | none =>
      rw [hlast] at hc
      exact h c hc
  | some d =>
      rw [hlast] at hc
      cases hc
      exact h' c hlast

theorem whole_joined (texts : List (List Char)) : Whole (texts.flatMap fun cs => cs ++ ['\n']) := by
  induction texts with
  | nil => exact whole_nil
  | cons cs texts ih =>
      have hline : Whole (cs ++ ['\n']) := by
        intro c hc
        rw [List.getLast?_concat] at hc
        exact (Option.some.inj hc).symm
      exact hline.append ih

theorem lines_ne_nil {cs : List Char} (h : cs ≠ []) : lines cs ≠ [] := by
  obtain ⟨c, cs, rfl⟩ := List.exists_cons_of_ne_nil h
  cases hbreak : isLineBreak c with
  | false =>
      rw [lines_cons hbreak]
      cases lines cs <;> exact List.cons_ne_nil _ _
  | true =>
      rw [lines.eq_def]
      split
      · contradiction
      · exact List.cons_ne_nil _ _
      · next c' r hcons =>
          cases hcons
          rw [if_pos hbreak]
          exact List.cons_ne_nil _ _

/-- **Behind a whole text there are more lines.** The pair of a carriage return and a line feed is not torn apart, as
a whole text does not end in the first of them. -/
theorem lines_append {cs : List Char} (h : Whole cs) (ds : List Char) : lines (cs ++ ds) = lines cs ++ lines ds := by
  induction cs using normalizeNewlines.induct with
  | case1 => rfl
  | case2 r ih =>
      rw [List.cons_append, List.cons_append, lines, lines, ih h.of_cons.of_cons]
      rfl
  | case3 c r hpair ih =>
      have hnext : c = '\r' → (r ++ ds).head? ≠ some '\n' := by
        rintro rfl hhead
        cases r with
        | nil => exact absurd (h '\r' rfl) (by decide)
        | cons d r => exact hpair r rfl (by rw [Option.some.inj hhead])
      rw [List.cons_append]
      cases hbreak : isLineBreak c with
      | true =>
          rw [lines_cons_break hbreak hnext, lines_cons_break hbreak (head?_ne_of_not_pair hpair), ih h.of_cons]
          rfl
      | false =>
          have hr : r ≠ [] := by
            rintro rfl
            rw [h c rfl] at hbreak
            cases hbreak
          rw [lines_cons hbreak, lines_cons hbreak, ih h.of_cons]
          obtain ⟨line, rest, hlines⟩ := List.exists_cons_of_ne_nil (lines_ne_nil hr)
          rw [hlines]
          rfl

/-! ### Texts of files -/

theorem normalizeNewlines_eq_self {cs : List Char} (h : '\r' ∉ cs) : normalizeNewlines cs = cs := by
  induction cs with
  | nil => rfl
  | cons c cs ih =>
      obtain ⟨hc, hcs⟩ := not_or.1 (mt List.mem_cons.2 h)
      have hne : c ≠ '\r' := Ne.symm hc
      rw [normalizeNewlines]
      · rw [if_neg hne, ih hcs]
      · rintro r rfl
        exact fun _ => hne rfl

/-- What ends a line in a file still ends it where the text is read. -/
theorem lines_normalizeNewlines (cs : List Char) : lines (normalizeNewlines cs) = lines cs := by
  induction cs using normalizeNewlines.induct with
  | case1 => rfl
  | case2 r ih => rw [normalizeNewlines, lines_cons_break rfl fun h => absurd h (by decide), ih, lines]
  | case3 c r hpair ih =>
      have hnext := head?_ne_of_not_pair hpair
      rw [normalizeNewlines]
      · by_cases hc : c = '\r'
        · subst hc
          rw [if_pos rfl, lines_cons_break rfl fun h => absurd h (by decide), lines_cons_break rfl hnext, ih]
        · rw [if_neg hc]
          cases hbreak : isLineBreak c with
          | true => rw [lines_cons_break hbreak fun h => absurd h hc, lines_cons_break hbreak hnext, ih]
          | false => rw [lines_cons hbreak, lines_cons hbreak, ih]
      · exact hpair

end SophiaBind.Text
