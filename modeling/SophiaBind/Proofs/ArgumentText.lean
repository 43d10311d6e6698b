/-
**Arguments in one text.**

Arguments may be passed as a list of literals or in one text, in parentheses and with commas between. The text
is taken apart at the commas that stand outside brackets, and nothing else tells where a literal ends. So the
literals come back exactly if such commas tell them apart, and if none of them is blank or has blanks at its ends.
Literals that are built of numbers, truth values and brackets are so.

Main definition:

* `Value.Composed` — a value of integers, truth values, lists, tuples and maps.

Main results:

* `Arguments.ofText_tuple_iff` — **literals in one text are read back exactly if they can be told apart**,
* `Value.nested_literalChars` — the brackets of a literal match, and its commas stand within them,
* `Arguments.ofInitState_tuple` — **the two ways to pass what sets a contract up agree.**
-/

import SophiaBind.Arguments
import SophiaBind.Proofs.Nesting
import SophiaBind.Proofs.Shown
import SophiaBind.Proofs.Spans

namespace SophiaBind

open TypeTree (joinCommas joinCommas_cons)

/-! ### Trimmed parts -/

namespace Text

/-- The parts that are not blank, without the blanks at their ends. -/
def kept (parts : List (List Char)) : List (List Char) :=
  (parts.map trim).filter (· ≠ [])

section Kept

variable {part : List Char} {parts : List (List Char)}

theorem kept_cons_of_blank (h : trim part = []) : kept (part :: parts) = kept parts := by
  simp [kept, h]

theorem kept_cons_of_ne (h : trim part ≠ []) : kept (part :: parts) = trim part :: kept parts := by
  simp [kept, h]

/-- The length of texts, each with a character behind. -/
def extent : List (List Char) → Nat
  | [] => 0
  | part :: parts => part.length + 1 + extent parts

theorem extent_cons (part : List Char) (parts : List (List Char)) :
    extent (part :: parts) = part.length + 1 + extent parts :=
  rfl

theorem length_joinCommas (hne : parts ≠ []) : (joinCommas parts).length + 1 = extent parts := by
  induction parts with
  | nil => exact absurd rfl hne
  | cons part parts ih =>
      cases parts with
      | nil => rfl
      | cons next parts =>
          have hnext := List.cons_ne_nil next parts
          have hrest := ih hnext
          rw [joinCommas_cons part hnext, List.length_append, List.length_cons, hrest, extent_cons part]
          omega

theorem extent_kept_le (parts : List (List Char)) : extent (kept parts) ≤ extent parts := by
  induction parts with
  | nil => exact Nat.le_refl 0
  | cons part parts ih =>
      have hpart := (trim_sublist part).length_le
      by_cases hblank : trim part = []
      · rw [kept_cons_of_blank hblank, extent_cons]
        omega
      · rw [kept_cons_of_ne hblank, extent_cons, extent_cons]
        omega

/-- Where nothing is lost, no part is blank or has blanks at its ends. -/
theorem trimmed_of_extent_le (h : extent parts ≤ extent (kept parts)) :
    ∀ part ∈ parts, part ≠ [] ∧ trim part = part := by
  induction parts with
  | nil => exact List.forall_mem_nil _
  | cons part parts ih =>
      have hpart := (trim_sublist part).length_le
      have hparts := extent_kept_le parts
      by_cases hblank : trim part = []
      · rw [kept_cons_of_blank hblank, extent_cons] at h
        omega
      · rw [kept_cons_of_ne hblank, extent_cons, extent_cons] at h
        have htrim : trim part = part := (trim_sublist part).eq_of_length (by omega)
        exact List.forall_mem_cons.2 ⟨⟨htrim ▸ hblank, htrim⟩, ih (by omega)⟩

theorem kept_eq_self (h : ∀ part ∈ parts, part ≠ [] ∧ trim part = part) : kept parts = parts := by
  induction parts with
  | nil => rfl
  | cons part parts ih =>
      obtain ⟨⟨hne, htrim⟩, hparts⟩ := List.forall_mem_cons.1 h
      rw [kept_cons_of_ne (htrim.symm ▸ hne), htrim, ih hparts]

/-- **Texts come back from commas between them** exactly if they are separated, and trimmed. -/
theorem kept_splitOutside_iff (hne : parts ≠ []) :
    kept (splitOutside (joinCommas parts) [',']) = parts ↔
      Separated parts ∧ ∀ part ∈ parts, part ≠ [] ∧ trim part = part := by
  constructor
  · intro h
    -- the text is as long as its parts with commas between, so that nothing of them was dropped
    have hsplit : splitOutside (joinCommas parts) [','] ≠ [] := splitFrom_ne_nil [','] 0 _
    have hextent := length_joinCommas hsplit
    rw [joinCommas_splitOutside, length_joinCommas hne] at hextent
    have htrimmed : ∀ part ∈ splitOutside (joinCommas parts) [','], part ≠ [] ∧ trim part = part :=
      trimmed_of_extent_le (Nat.le_of_eq (by rw [h, ← hextent]))
    rw [kept_eq_self htrimmed] at h
    rw [h] at htrimmed
    exact ⟨(splitOutside_joinCommas_iff hne).1 h, htrimmed⟩
  · rintro ⟨hseparated, htrimmed⟩
    rw [hseparated.splitOutside_eq hne, kept_eq_self htrimmed]

end Kept

end Text

/-! ### Literals in parentheses -/

namespace Arguments

/-- The pair of parentheses around a text is dropped. -/
theorem openTuple_parens (cs : List Char) : openTuple ('(' :: (cs ++ [')'])) = cs := by
  have htrim : Text.trim ('(' :: (cs ++ [')'])) = '(' :: (cs ++ [')']) :=
    Text.trim_between (by decide) (by decide) cs
  have hclosed : (cs ++ [')']).getLast? = some ')' := List.getLast?_concat
  simp only [openTuple, htrim, hclosed, if_true, List.dropLast_concat]

theorem toList_tuple (literals : List String) :
    (tuple literals).toList = '(' :: (joinCommas (literals.map String.toList) ++ [')']) := by
  simp [tuple, Text.joinCommas_eq_intercalate, String.toList_intercalate]

theorem ofText_eq (s : String) :
    ofText s = (Text.kept (Text.splitOutside (openTuple s.toList) [','])).map String.ofList :=
  rfl

/-- **Literals in one text are read back exactly if they can be told apart**, and are trimmed. -/
theorem ofText_tuple_iff (literals : List String) :
    ofText (tuple literals) = literals ↔
      Text.Separated (literals.map String.toList) ∧
        ∀ l ∈ literals, l.toList ≠ [] ∧ Text.trim l.toList = l.toList := by
  have hchars : ofText (tuple literals) = literals ↔
      Text.kept (Text.splitOutside (joinCommas (literals.map String.toList)) [',']) = literals.map String.toList := by
    have hself : (literals.map String.toList).map String.ofList = literals := by simp [Function.comp_def]
    have hinjective : ∀ cs ds : List Char, String.ofList cs = String.ofList ds → cs = ds := fun _ _ h =>
      String.ofList_inj.1 h
    rw [ofText_eq, toList_tuple, openTuple_parens, ← List.map_inj_right hinjective, hself]
  rw [hchars]
  by_cases hne : literals = []
  · subst hne
    exact iff_of_true rfl ⟨Text.separated_nil, List.forall_mem_nil _⟩
  · rw [Text.kept_splitOutside_iff (by simpa using hne), List.forall_mem_map]

end Arguments

/-! ### The literals of values -/

namespace Decimal

theorem not_mem_splitMarks {c : Char} (h : isNumeric c = true) : c ∉ Text.splitMarks := by
  intro hc
  have hall : ∀ d ∈ Text.splitMarks, isNumeric d = false := List.all_iff_forall_prop.1 (by decide)
  rw [hall c hc] at h
  cases h

theorem not_isBlank_of_isNumeric {c : Char} (h : isNumeric c = true) : Text.isBlank c = false := by
  simp only [isNumeric, Bool.or_eq_true, List.contains_iff_mem] at h
  rcases h with h | h
  · have hrange : 48 ≤ c.toNat ∧ c.toNat ≤ 57 := Char.isDigit_iff_toNat.1 h
    simp only [Text.isBlank, Bool.or_eq_false_iff, Bool.and_eq_false_iff, decide_eq_false_iff_not,
      beq_eq_false_iff_ne]
    omega
  · have hall : ∀ d ∈ ['-', '+', '.', 'e', 'i', 'n', 'f', 'a'], Text.isBlank d = false :=
      List.all_iff_forall_prop.1 (by decide)
    exact hall c h

end Decimal

namespace Value

/-- A value that is built of integers and truth values with lists, tuples and maps. -/
inductive Composed : Value → Prop
  | bool (b : Bool) : Composed (.bool b)
  | int (i : Int) : Composed (.int i)
  | tuple {items : List Value} (h : ∀ v ∈ items, Composed v) : Composed (.tuple items)
  | list {items : List Value} (h : ∀ v ∈ items, Composed v) : Composed (.list items)
  | map {entries : List (Value × Value)} (hkeys : ∀ e ∈ entries, Composed e.1) (hvalues : ∀ e ∈ entries, Composed e.2) :
      Composed (.map entries)

namespace Composed

@[simp] theorem bool_iff {b : Bool} : Composed (.bool b) ↔ True :=
  iff_of_true (.bool b) trivial

@[simp] theorem int_iff {i : Int} : Composed (.int i) ↔ True :=
  iff_of_true (.int i) trivial

@[simp] theorem tuple_iff {items : List Value} : Composed (.tuple items) ↔ ∀ v ∈ items, Composed v :=
  ⟨fun | .tuple h => h, .tuple⟩

@[simp] theorem list_iff {items : List Value} : Composed (.list items) ↔ ∀ v ∈ items, Composed v :=
  ⟨fun | .list h => h, .list⟩

@[simp] theorem map_iff {entries : List (Value × Value)} :
    Composed (.map entries) ↔ (∀ e ∈ entries, Composed e.1) ∧ ∀ e ∈ entries, Composed e.2 :=
  ⟨fun | .map hkeys hvalues => ⟨hkeys, hvalues⟩, fun h => .map h.1 h.2⟩

end Composed

/-- The characters of an entry's literal. -/
def entryChars (e : Value × Value) : List Char :=
  '[' :: e.1.literalChars ++ ']' :: ' ' :: '=' :: ' ' :: e.2.literalChars

theorem literalItems_eq (vs : List Value) : literalItems vs = joinCommas (vs.map literalChars) := by
  induction vs with
  | nil => rfl
  | cons v vs ih =>
      cases vs with
      | nil => rfl
      | cons w vs =>
          rw [literalItems, ih]
          rfl

theorem literalEntries_eq (entries : List (Value × Value)) :
    literalEntries entries = joinCommas (entries.map entryChars) := by
  induction entries with
  | nil => rfl
  | cons e entries ih =>
      cases entries with
      | nil => rfl
      | cons f entries =>
          rw [literalEntries, ih]
          rfl

open Text (Nested)

theorem nested_entryChars {e : Value × Value} (hkey : Nested 0 e.1.literalChars) (hvalue : Nested 0 e.2.literalChars) :
    Nested 0 (entryChars e) := by
  have heq : entryChars e = '[' :: (e.1.literalChars ++ [']']) ++ (" = ".toList ++ e.2.literalChars) := by
    simp [entryChars]
  have hbracketed : Nested 0 ('[' :: (e.1.literalChars ++ [']'])) :=
    (hkey.mono (by decide)).bracketed (by decide) (by decide)
  have hequals : Nested 0 " = ".toList := .of_forall (List.all_iff_forall_prop.1 (by decide))
  rw [heq]
  exact hbracketed.append (hequals.append hvalue)

/-- **The brackets of a literal match, and its commas stand within them.** -/
theorem nested_literalChars {v : Value} (h : Composed v) : Nested 0 v.literalChars := by
  induction h with
  | bool b => cases b <;> exact .of_forall (List.all_iff_forall_prop.1 (by decide))
  | int i => exact .of_forall fun c hc => Decimal.not_mem_splitMarks (Integer.isNumeric_of_mem hc)
  | tuple _ ih =>
      rw [literalChars, literalItems_eq]
      exact (Nested.joinCommas (List.forall_mem_map.2 ih)).bracketed (by decide) (by decide)
  | list _ ih =>
      rw [literalChars, literalItems_eq]
      exact (Nested.joinCommas (List.forall_mem_map.2 ih)).bracketed (by decide) (by decide)
  | map _ _ ihkeys ihvalues =>
      rw [literalChars, literalEntries_eq]
      have hentries : ∀ part ∈ List.map entryChars _, Nested 0 part :=
        List.forall_mem_map.2 fun e he => nested_entryChars (ihkeys e he) (ihvalues e he)
      exact (Nested.joinCommas hentries).bracketed (by decide) (by decide)

/-- A literal is not empty, and no blank stands at its ends. -/
theorem trim_literalChars {v : Value} (h : Composed v) :
    v.literalChars ≠ [] ∧ Text.trim v.literalChars = v.literalChars := by
  cases h with
  | bool b => cases b <;> decide
  | int i =>
      exact ⟨Integer.toText_ne_nil i,
        Text.trim_eq_self fun c hc => Decimal.not_isBlank_of_isNumeric (Integer.isNumeric_of_mem hc)⟩
  | tuple _ => exact ⟨List.cons_ne_nil _ _, Text.trim_between (by decide) (by decide) _⟩
  | list _ => exact ⟨List.cons_ne_nil _ _, Text.trim_between (by decide) (by decide) _⟩
  | map _ _ => exact ⟨List.cons_ne_nil _ _, Text.trim_between (by decide) (by decide) _⟩

end Value

namespace Arguments

/-- **The two ways to pass what sets a contract up agree**: values in a list, and their literals in one text. -/
theorem ofInitState_tuple {vs : List Value} (h : ∀ v ∈ vs, v.Composed) :
    ofInitState (.text (tuple (vs.map Value.literal))) = ofInitState (.list vs) ∧
      ofInitState (.list vs) = .ok (vs.map Value.literal) := by
  have hback : ofText (tuple (vs.map Value.literal)) = vs.map Value.literal := by
    refine (ofText_tuple_iff _).2 ⟨Text.separated_of_nested ?_, ?_⟩
    · simpa [Value.literal] using fun v hv => Value.nested_literalChars (h v hv)
    · simpa [Value.literal] using fun v hv => Value.trim_literalChars (h v hv)
  exact ⟨congrArg Except.ok hback, rfl⟩

/-- Empty and single tuples, and a map within a list. -/
def bracketedValues : List Value :=
  [.tuple [], .tuple [.int (-1)],
    .list [.map [(.int 1, .list [.bool true, .int 2]), (.tuple [.int 0], .tuple [])]], .bool false]

theorem ofInitState_tuple_brackets :
    (∀ v ∈ bracketedValues, v.Composed) ∧
      ofInitState (.text "((),(-1),[\x7b[1] = [true,2],[(0)] = ()\x7d],false)") =
        .ok ["()", "(-1)", "[\x7b[1] = [true,2],[(0)] = ()\x7d]", "false"] := by
  have hcomposed : ∀ v ∈ bracketedValues, v.Composed := by simp [bracketedValues]
  obtain ⟨htext, hlist⟩ := ofInitState_tuple hcomposed
  exact ⟨hcomposed, htext.trans hlist⟩

end Arguments

end SophiaBind
