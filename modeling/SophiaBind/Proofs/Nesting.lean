/-
**Splitting at the commas outside brackets.**

A text whose brackets match and whose commas all stand within brackets is one part, whatever follows it.
Blanks are neither, so that it does not matter where they stand.

Main definitions:

* `Text.skeleton` — the brackets and commas of a text,
* `Text.Covered` — no comma of a text stands at level zero,
* `Text.Nested` — from some level on, the commas are covered and the brackets match,
* `Text.Separated` — texts that are told apart with commas between.

Main results:

* `Text.covered_skeleton`, `Text.foldl_skeleton` — nothing else matters, so that neither do blanks,
* `Text.splitOutside_joinCommas_iff` — **texts with commas between are split into just these texts exactly if they
  are separated**,
* `Text.splitOutside_joinCommas` — so are nested texts.
-/

import Mathlib.Data.Bool.AllAny
import SophiaBind.Proofs.TypeNormal
import SophiaBind.Proofs.Splitting
import SophiaBind.Text.Blank

namespace SophiaBind.Text

open TypeTree (joinCommas joinCommas_cons)

/-! ### Covered commas -/

/-- No comma of a text that starts at a level stands at level zero. -/
def Covered (level : Int) : List Char → Prop
  | [] => True
  | c :: r => (c = ',' → level ≠ 0) ∧ Covered (levelAfter level c) r

instance Covered.decidable : ∀ (level : Int) (cs : List Char), Decidable (Covered level cs)
  | _, [] => .isTrue trivial
  | level, c :: r =>
      have := Covered.decidable (levelAfter level c) r
      inferInstanceAs (Decidable ((c = ',' → level ≠ 0) ∧ Covered (levelAfter level c) r))

/-- From level `floor` on, no comma stands at level zero, and the text ends at the level at which it starts. -/
def Nested (floor : Int) (cs : List Char) : Prop :=
  ∀ level, floor ≤ level → Covered level cs ∧ cs.foldl levelAfter level = level

theorem levelAfter_comma (level : Int) : levelAfter level ',' = level := by
  simp [levelAfter]

/-- Commas are separators like others. -/
theorem covered_iff_clear {level : Int} {cs : List Char} : Covered level cs ↔ Clear ',' level cs := by
  induction cs generalizing level with
  | nil => exact iff_of_true trivial (clear_nil _ _)
  | cons c cs ih => rw [Covered, clear_cons, ih]

theorem covered_append {level : Int} {cs ds : List Char} :
    Covered level (cs ++ ds) ↔ Covered level cs ∧ Covered (cs.foldl levelAfter level) ds := by
  induction cs generalizing level with
  | nil => simp [Covered]
  | cons c cs ih => simp [Covered, ih, and_assoc]

/-! ### Brackets and commas -/

/-- The characters that the splitting depends on. -/
def splitMarks : List Char :=
  [',', '(', '{', '[', ')', '}', ']']

/-- The brackets and commas of a text. -/
def skeleton (cs : List Char) : List Char :=
  cs.filter splitMarks.contains

section Skeleton

variable {cs ds : List Char}

theorem skeleton_append (cs ds : List Char) : skeleton (cs ++ ds) = skeleton cs ++ skeleton ds :=
  List.filter_append cs ds

theorem skeleton_eq_nil (h : ∀ c ∈ cs, c ∉ splitMarks) : skeleton cs = [] :=
  List.filter_eq_nil_iff.2 fun c hc hmark => h c hc (List.contains_iff_mem.1 hmark)

theorem not_isBlank_of_mem_splitMarks : ∀ c ∈ splitMarks, isBlank c = false :=
  List.all_iff_forall_prop.1 (by decide)

theorem skeleton_squeeze (cs : List Char) : skeleton (squeeze cs) = skeleton cs := by
  rw [skeleton, squeeze, List.filter_filter]
  refine List.filter_congr fun c _ => ?_
  cases hc : splitMarks.contains c with
  | false => rfl
  | true => simp [not_isBlank_of_mem_splitMarks c (List.contains_iff_mem.1 hc)]

/-- **Only brackets and commas matter.** -/
theorem skeleton_spec (level : Int) (cs : List Char) :
    (Covered level (skeleton cs) ↔ Covered level cs) ∧
      (skeleton cs).foldl levelAfter level = cs.foldl levelAfter level := by
  induction cs generalizing level with
  | nil => exact ⟨Iff.rfl, rfl⟩
  | cons c cs ih =>
      by_cases hc : c ∈ splitMarks
      · have hcons : skeleton (c :: cs) = c :: skeleton cs :=
          List.filter_cons_of_pos (List.contains_iff_mem.2 hc)
        simp only [hcons, Covered, List.foldl_cons, ih, and_self]
      · have hcons : skeleton (c :: cs) = skeleton cs :=
          List.filter_cons_of_neg fun h => hc (List.contains_iff_mem.1 h)
        obtain ⟨hcomma, hbracket⟩ := not_or.1 (mt List.mem_cons.2 hc)
        simp only [hcons, Covered, List.foldl_cons, levelAfter_of_not_bracket hbracket, ih, hcomma, false_imp_iff,
          true_and, and_self]

theorem covered_skeleton {level : Int} : Covered level (skeleton cs) ↔ Covered level cs :=
  (skeleton_spec level cs).1

theorem foldl_skeleton (level : Int) (cs : List Char) :
    (skeleton cs).foldl levelAfter level = cs.foldl levelAfter level :=
  (skeleton_spec level cs).2

end Skeleton

namespace Nested

variable {floor : Int} {cs ds : List Char}

theorem append (hcs : Nested floor cs) (hds : Nested floor ds) : Nested floor (cs ++ ds) := by
  intro level hlevel
  have hc := hcs level hlevel
  have hd := hds level hlevel
  rw [covered_append, List.foldl_append, hc.2]
  exact ⟨⟨hc.1, hd.1⟩, hd.2⟩

theorem mono {higher : Int} (h : Nested floor cs) (hle : floor ≤ higher) : Nested higher cs :=
  fun level hlevel => h level (Int.le_trans hle hlevel)

theorem nil : Nested floor [] :=
  fun _ _ => ⟨trivial, rfl⟩

/-- A comma may stand within brackets. -/
theorem comma : Nested 1 [','] := by
  intro level hlevel
  refine ⟨⟨fun _ => ?_, trivial⟩, levelAfter_comma level⟩
  omega

/-- A pair of brackets covers the commas within. -/
theorem bracketed {opening closing : Char} (hopening : opening ∈ ['(', '{', '['])
    (hclosing : closing ∈ [')', '}', ']']) (h : Nested 1 cs) : Nested 0 (opening :: (cs ++ [closing])) := by
  intro level hlevel
  have hopen : ∀ c ∈ ['(', '{', '['], c ≠ ',' ∧ levelAfter level c = level + 1 := by
    simp [levelAfter]
  have hclose : ∀ c ∈ [')', '}', ']'], c ≠ ',' ∧ levelAfter (level + 1) c = level := by
    simp [levelAfter]
  obtain ⟨hcomma, hup⟩ := hopen opening hopening
  obtain ⟨hcomma', hdown⟩ := hclose closing hclosing
  obtain ⟨hcovered, hlevels⟩ := h (level + 1) (by omega)
  refine ⟨⟨fun he => absurd he hcomma, ?_⟩, ?_⟩
  · rw [hup, covered_append]
    exact ⟨hcovered, fun he => absurd he hcomma', trivial⟩
  · rw [List.foldl_cons, hup, List.foldl_append, hlevels, List.foldl_cons, hdown, List.foldl_nil]

/-- A pair of parentheses covers the commas within. -/
theorem parens (h : Nested 1 cs) : Nested 0 ('(' :: (cs ++ [')'])) :=
  h.bracketed (by decide) (by decide)

/-- Within brackets, commas may stand between nested texts. -/
theorem joinCommas {parts : List (List Char)} (h : ∀ part ∈ parts, Nested 0 part) :
    Nested 1 (TypeTree.joinCommas parts) := by
  induction parts with
  | nil => exact nil
  | cons part parts ih =>
      obtain ⟨hpart, hparts⟩ := List.forall_mem_cons.1 h
      cases parts with
      | nil => exact hpart.mono (by decide)
      | cons next parts =>
          rw [TypeTree.joinCommas_cons part (List.cons_ne_nil next parts)]
          exact (hpart.mono (by decide)).append (comma.append (ih hparts))

theorem of_skeleton (h : Nested floor (skeleton cs)) : Nested floor cs := by
  intro level hlevel
  rw [← covered_skeleton, ← foldl_skeleton]
  exact h level hlevel

/-- Other characters leave the level as it is. -/
theorem of_forall (h : ∀ c ∈ cs, c ∉ splitMarks) : Nested floor cs :=
  of_skeleton (skeleton_eq_nil h ▸ nil)

/-- Blanks do not matter. -/
theorem of_squeeze (h : Nested floor (squeeze cs)) : Nested floor cs := by
  refine of_skeleton ?_
  rw [← skeleton_squeeze]
  intro level hlevel
  rw [covered_skeleton, foldl_skeleton]
  exact h level hlevel

end Nested

/-! ### Parts -/

theorem joinCommas_eq_intercalate (parts : List (List Char)) : joinCommas parts = [','].intercalate parts := by
  induction parts with
  | nil => rfl
  | cons part parts ih =>
      cases parts with
      | nil => simp [joinCommas]
      | cons next parts =>
          rw [joinCommas_cons part (List.cons_ne_nil next parts), ih, List.intercalate_cons_cons, List.append_assoc]
          rfl

theorem joinCommas_splitOutside (cs : List Char) : joinCommas (splitOutside cs [',']) = cs := by
  rw [joinCommas_eq_intercalate, splitOutside, intercalate_splitFrom]

/-- Texts that are told apart with commas between: none has a comma at level zero, and each but the last ends there. -/
structure Separated (parts : List (List Char)) : Prop where
  covered : ∀ part ∈ parts, Covered 0 part
  closed : ∀ part ∈ parts.dropLast, level part = 0

instance (parts : List (List Char)) : Decidable (Separated parts) :=
  decidable_of_iff ((∀ part ∈ parts, Covered 0 part) ∧ ∀ part ∈ parts.dropLast, level part = 0)
    ⟨fun h => ⟨h.1, h.2⟩, fun h => ⟨h.covered, h.closed⟩⟩

theorem separated_nil : Separated [] :=
  ⟨List.forall_mem_nil _, List.forall_mem_nil _⟩

theorem separated_iff_parted {parts : List (List Char)} : Separated parts ↔ Parted ',' parts :=
  ⟨fun h => ⟨fun part hpart => covered_iff_clear.1 (h.covered part hpart), h.closed⟩,
    fun h => ⟨fun part hpart => covered_iff_clear.2 (h.clear part hpart), h.closed⟩⟩

theorem separated_cons {part : List Char} {parts : List (List Char)} (hne : parts ≠ []) :
    Separated (part :: parts) ↔ Covered 0 part ∧ level part = 0 ∧ Separated parts := by
  rw [separated_iff_parted, parted_cons hne, covered_iff_clear, separated_iff_parted]

/-- **The parts of a text are separated.** -/
theorem separated_splitOutside (cs : List Char) : Separated (splitOutside cs [',']) :=
  separated_iff_parted.2 (parted_splitOutside (by decide) cs)

/-- **Texts with commas between are split into just these texts exactly if they are separated.** -/
theorem splitOutside_joinCommas_iff {parts : List (List Char)} (hne : parts ≠ []) :
    splitOutside (joinCommas parts) [','] = parts ↔ Separated parts := by
  rw [joinCommas_eq_intercalate, separated_iff_parted]
  exact splitOutside_intercalate_iff (by decide) hne

/-- Separated texts with commas between are split into just these texts. -/
theorem Separated.splitOutside_eq {parts : List (List Char)} (h : Separated parts) (hne : parts ≠ []) :
    splitOutside (joinCommas parts) [','] = parts :=
  (splitOutside_joinCommas_iff hne).2 h

/-- Only brackets and commas tell whether texts are separated. -/
theorem separated_skeleton {parts : List (List Char)} : Separated (parts.map skeleton) ↔ Separated parts := by
  have hcovered : (∀ part ∈ parts.map skeleton, Covered 0 part) ↔ ∀ part ∈ parts, Covered 0 part := by
    simp only [List.forall_mem_map, covered_skeleton]
  have hclosed : (∀ part ∈ (parts.map skeleton).dropLast, level part = 0) ↔
      ∀ part ∈ parts.dropLast, level part = 0 := by
    rw [← List.map_dropLast]
    simp only [List.forall_mem_map, level, foldl_skeleton]
  exact ⟨fun h => ⟨hcovered.1 h.covered, hclosed.1 h.closed⟩, fun h => ⟨hcovered.2 h.covered, hclosed.2 h.closed⟩⟩

theorem separated_of_nested {parts : List (List Char)} (h : ∀ part ∈ parts, Nested 0 part) : Separated parts :=
  ⟨fun part hpart => (h part hpart 0 (Int.le_refl 0)).1,
    fun part hpart => (h part (List.dropLast_subset parts hpart) 0 (Int.le_refl 0)).2⟩

/-- **Nested texts with commas between are split into just these texts.** -/
theorem splitOutside_joinCommas {parts : List (List Char)} (hne : parts ≠ [])
    (h : ∀ part ∈ parts, Nested 0 part) : splitOutside (joinCommas parts) [','] = parts :=
  (separated_of_nested h).splitOutside_eq hne

end SophiaBind.Text
