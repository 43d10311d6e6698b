/-
**Modifiers and the catalog of a source.**

For the catalog a function is stateful if its line says so in front of the place where its name is met first.
That is where the function is named, unless a modifier has the name as a part: then the modifier that is said
there counts no longer, nor does any behind it, and `stateful` is always the last one. So a function of a
stateful form shows as such just if none of its modifiers has its name as a part.

Main definitions:

* `Catalog.Form.modifiers`, `Catalog.Form.keyword` — the words of a form,
* `Catalog.Written.met` — what stands in front of the place where the name is met first,
* `Catalog.Written.ShowsStateful` — a form is stateful, and the name is no part of its modifiers,
* `Catalog.sourceBehind` — the source of some declarations behind any lines that declare nothing.

Main results:

* `Catalog.before_append_of_infix`, `Catalog.before_append_of_not_infix` — **where a text is met first** in another,
* `Catalog.stateful_read_iff` — what is read of a declaration,
* `Catalog.ofSource_stateful` — **the catalog of a source, with its flags.**
-/

import Mathlib.Data.List.Infix
import SophiaBind.Proofs.SourceComments

namespace SophiaBind.Catalog

/-! ### Occurrences -/

theorem occursIn_iff {part cs : List Char} : occursIn part cs = true ↔ part <:+: cs := by
  induction cs with
  | nil => simp [occursIn]
  | cons c cs ih => rw [occursIn, Bool.or_eq_true, List.isPrefixOf_iff_prefix, ih, List.infix_cons_iff]

theorem before_eq_nil {part cs : List Char} (h : part <+: cs) : before part cs = [] := by
  cases cs with
  | nil => rfl
  | cons c cs => rw [before, if_pos (List.isPrefixOf_iff_prefix.2 h)]

theorem before_cons {part cs : List Char} {c : Char} (h : ¬part <+: c :: cs) :
    before part (c :: cs) = c :: before part cs := by
  rw [before, if_neg (mt List.isPrefixOf_iff_prefix.1 h)]

/-- **A text that occurs in the front of another is met there first**, as a whole. -/
theorem before_append_of_infix {part cs : List Char} (h : part <:+: cs) (rest : List Char) :
    before part (cs ++ rest) ++ part <+: cs := by
  induction cs with
  | nil =>
      obtain rfl := List.infix_nil.1 h
      rw [before_eq_nil List.nil_prefix]
      exact List.prefix_rfl
  | cons c cs ih =>
      by_cases hfirst : part <+: c :: cs
      · rw [before_eq_nil (hfirst.trans (List.prefix_append _ rest))]
        exact hfirst
      · have hwithin : part <:+: cs := (List.infix_cons_iff.1 h).resolve_left hfirst
        have hboth : ¬part <+: c :: (cs ++ rest) := fun hbegins =>
          hfirst (List.prefix_of_prefix_length_le hbegins (List.prefix_append (c :: cs) rest)
            (hwithin.length_le.trans (Nat.le_succ _)))
        rw [List.cons_append, before_cons hboth, List.cons_append, List.cons_prefix_cons]
        exact ⟨rfl, ih hwithin⟩

/-- It is met no later than where it is known to stand. -/
theorem before_append_self (part cs rest : List Char) : before part (cs ++ (part ++ rest)) <+: cs := by
  have hmet := before_append_of_infix (List.suffix_append cs part).isInfix rest
  rw [List.append_assoc] at hmet
  have hle := hmet.length_le
  rw [List.length_append, List.length_append] at hle
  exact List.prefix_of_prefix_length_le ((List.prefix_append _ part).trans hmet) (List.prefix_append cs part)
    (Nat.le_of_add_le_add_right hle)

/-- **A text that does not occur in the front of another is met behind it**, where it does not reach over the edge. -/
theorem before_append_of_not_infix {part cs : List Char} {c : Char} (hc : c ∉ part) (h : ¬part <:+: cs)
    (rest : List Char) : before part (cs ++ c :: rest) = cs ++ before part (c :: rest) := by
  induction cs with
  | nil => rfl
  | cons d cs ih =>
      have hfirst : ¬part <+: d :: (cs ++ c :: rest) := fun hbegins =>
        h (@prefix_of_prefix_append part (d :: cs) rest c hc hbegins).isInfix
      rw [List.cons_append, before_cons hfirst, ih fun hwithin => h (List.infix_cons hwithin),
        List.cons_append]

/-! ### The words of a form -/

/-- The modifiers of a form, in order. -/
def Form.modifiers : Form → List String
  | .publicFunction false => ["public"]
  | .publicFunction true => ["public", "stateful"]
  | .entrypoint false false => []
  | .entrypoint false true => ["stateful"]
  | .entrypoint true false => ["payable"]
  | .entrypoint true true => ["payable", "stateful"]
  | .function false => []
  | .function true => ["stateful"]
  | .privateFunction => ["private"]

/-- The word that says that a function is declared. -/
def Form.keyword : Form → String
  | .entrypoint _ _ => "entrypoint"
  | _ => "function"

/-- Words, each behind a blank. -/
def spaced (words : List String) : List Char :=
  words.flatMap fun word => ' ' :: word.toList

/-- The beginning of a line: a blank, and the modifiers of its form. -/
def Form.opening (form : Form) : List Char :=
  ' ' :: spaced form.modifiers

/-- What stands in front of a name is the modifiers and the word. -/
theorem Form.lead_append_core_eq (form : Form) :
    form.lead ++ form.core = form.opening ++ ' ' :: form.keyword.toList := by
  rcases form with (_ | _) | ⟨_ | _, _ | _⟩ | (_ | _) | _ <;> rfl

/-- The modifier that counts is the last one, and without its last character it is not said. -/
theorem Form.not_stateful_dropLast (form : Form) : ¬"stateful".toList <:+: form.opening.dropLast := by
  rcases form with (_ | _) | ⟨_ | _, _ | _⟩ | (_ | _) | _ <;> decide +kernel

/-- In front of the name, nothing but the modifier says that a form is stateful. -/
theorem Form.stateful_infix_iff (form : Form) :
    "stateful".toList <:+: form.opening ++ ' ' :: form.keyword.toList ++ [' '] ↔ "stateful" ∈ form.modifiers := by
  rcases form with (_ | _) | ⟨_ | _, _ | _⟩ | (_ | _) | _ <;> decide +kernel

theorem infix_spaced {words : List String} {word : String} (h : word ∈ words) : word.toList <:+: spaced words := by
  obtain ⟨front, behind, rfl⟩ := List.append_of_mem h
  exact ⟨spaced front ++ [' '], spaced behind, by simp [spaced]⟩

/-- A text without blanks that occurs among words occurs in one of them. -/
theorem exists_infix_of_infix_spaced {part cs : List Char} {words : List String} (hblank : ' ' ∉ part)
    (h : part <:+: cs ++ spaced words) : part <:+: cs ∨ ∃ word ∈ words, part <:+: word.toList := by
  induction words generalizing cs with
  | nil => exact .inl (by simpa [spaced] using h)
  | cons word words ih =>
      rcases infix_or_infix_of_append hblank h with hcs | hrest
      · exact .inl hcs
      · rcases ih hrest with hword | ⟨other, hother, hpart⟩
        · exact .inr ⟨word, List.mem_cons_self, hword⟩
        · exact .inr ⟨other, List.mem_cons_of_mem word hother, hpart⟩

/-! ### One declaration -/

/-- The form is stateful, and none of its modifiers has the name as a part. -/
def Written.ShowsStateful (d : Written) : Prop :=
  "stateful" ∈ d.form.modifiers ∧ ∀ word ∈ d.form.modifiers, ¬d.name.1 <:+: word.toList

instance (d : Written) : Decidable d.ShowsStateful :=
  @instDecidableAnd _ _ inferInstance (List.decidableBAll _ _)

namespace Written

variable (d : Written)

/-- What stands on the line of a declaration in front of the place where its name is met first. -/
def met : List Char :=
  before d.name.1 d.line

theorem line_eq : d.line =
    d.form.opening ++ ' ' :: (d.form.keyword.toList ++ ' ' :: (d.name.1 ++ '(' :: (d.listText ++ ['=']))) := by
  rw [line, found, ← List.append_assoc, d.form.lead_append_core_eq]
  simp

theorem not_mem_name : ' ' ∉ d.name.1 := fun h =>
  absurd (d.name.2.2 ' ' h) (by decide)

/-- The name is a part of the modifiers as they are written if it is a part of one of them. -/
theorem name_infix_iff : d.name.1 <:+: d.form.opening ↔ ∃ word ∈ d.form.modifiers, d.name.1 <:+: word.toList := by
  constructor
  · intro h
    rcases @infix_or_infix_of_append d.name.1 [] _ ' ' d.not_mem_name h with hnil | hspaced
    · exact absurd (List.infix_nil.1 hnil) d.name.2.1
    · rcases @exists_infix_of_infix_spaced d.name.1 [] _ d.not_mem_name hspaced with hnil | hword
      · exact absurd (List.infix_nil.1 hnil) d.name.2.1
      · exact hword
  · rintro ⟨word, hword, hname⟩
    exact hname.trans (List.infix_cons (infix_spaced hword))

/-- A name that is a part of the modifiers is met in front of their end. -/
theorem met_of_infix (h : d.name.1 <:+: d.form.opening) : d.met <+: d.form.opening.dropLast := by
  obtain ⟨behind, hbehind⟩ := before_append_of_infix h
    (' ' :: (d.form.keyword.toList ++ ' ' :: (d.name.1 ++ '(' :: (d.listText ++ ['=']))))
  rw [← d.line_eq] at hbehind
  rw [← hbehind, List.append_assoc, List.dropLast_append_of_ne_nil (by simp [d.name.2.1])]
  exact List.prefix_append _ _

/-- A name that is no part of the modifiers is met behind them. -/
theorem met_of_not_infix (h : ¬d.name.1 <:+: d.form.opening) : d.form.opening <+: d.met := by
  rw [met, d.line_eq, before_append_of_not_infix d.not_mem_name h]
  exact List.prefix_append _ _

/-- In any case it is met where the function is named, or in front of that. -/
theorem met_no_later : d.met <+: d.form.opening ++ ' ' :: d.form.keyword.toList ++ [' '] := by
  have hline : d.line = d.form.opening ++ ' ' :: d.form.keyword.toList ++ [' '] ++
      (d.name.1 ++ '(' :: (d.listText ++ ['='])) := by simp [d.line_eq]
  rw [met, hline]
  exact before_append_self _ _ _

end Written

/-- **A function shows as stateful if its form is, and its name is no part of the modifiers.** -/
theorem stateful_read_iff (d : Written) : d.read.stateful = true ↔ d.ShowsStateful := by
  have hread : d.read.stateful = occursIn "stateful".toList d.met := rfl
  rw [hread, occursIn_iff, Written.ShowsStateful]
  by_cases hname : d.name.1 <:+: d.form.opening
  · obtain ⟨word, hword, hpart⟩ := d.name_infix_iff.1 hname
    refine iff_of_false (fun h => ?_) fun h => h.2 word hword hpart
    exact d.form.not_stateful_dropLast (h.trans (d.met_of_infix hname).isInfix)
  · have hall : ∀ word ∈ d.form.modifiers, ¬d.name.1 <:+: word.toList := fun word hword hpart =>
      hname (d.name_infix_iff.2 ⟨word, hword, hpart⟩)
    constructor
    · intro h
      exact ⟨d.form.stateful_infix_iff.1 (h.trans d.met_no_later.isInfix), hall⟩
    · intro h
      have hopening : "stateful".toList <:+: d.form.opening := List.infix_cons (infix_spaced h.1)
      exact hopening.trans (d.met_of_not_infix hname).isInfix

/-- What is read of a declaration is what it declares, with its flag. -/
theorem read_eq (d : Written) : d.read = { d.function with stateful := decide d.ShowsStateful } := by
  have hflag : d.read.stateful = decide d.ShowsStateful := by
    rw [Bool.eq_iff_iff, stateful_read_iff, decide_eq_true_iff]
  rw [← hflag, ← unflagged_read d]
  rfl

/-! ### A whole source -/

/-- The source of some declarations, behind lines that declare nothing. -/
def sourceBehind (lines : List Body) (ds : List Written) : String :=
  String.ofList ((lines.flatMap fun line => line.1 ++ ['\n']) ++ ds.flatMap Written.text)

theorem heading_lines (lines : List Body) : Heading (lines.flatMap fun line => line.1 ++ ['\n']) := by
  induction lines with
  | nil => exact heading_nil
  | cons line lines ih => exact (heading_line line).append ih

/-- **The catalog of a source has its callable functions, and each is stateful if its form is and its name is no part
of the modifiers.** -/
theorem ofSource_stateful (lines : List Body) (ds : List Written) :
    (ofSource (sourceBehind lines ds)).1.functions =
      (ds.filter Written.isCallable).map fun d => { d.function with stateful := decide d.ShowsStateful } := by
  have hchars : (sourceBehind lines ds).toList =
      (lines.flatMap fun line => line.1 ++ ['\n']) ++ ds.flatMap Written.text := String.toList_ofList
  have hcallable : ∀ d : Written, (!isReserved d.read.name && d.form.isPublic) = d.isCallable := by
    intro d
    rw [Bool.eq_iff_iff]
    simp [read_eq, Written.function, isReserved, Written.isCallable, and_comm]
  rw [ofSource, hchars, functionsOfSource_source (heading_lines lines)]
  simp only [ofFunctions, List.filter_map, List.filter_filter, Function.comp_def, hcallable]
  exact List.map_congr_left fun d _ => read_eq d

/-- A stateful function whose name is a letter of its modifiers. -/
def hiddenModifier : Written where
  form := .publicFunction true
  name := ⟨"f".toList, by decide, List.all_eq_true.1 (by decide)⟩
  parameters := []
  gap := ⟨[' '], List.all_eq_true.1 (by decide)⟩
  returns := some writtenInt
  body := ⟨"1".toList, by decide⟩

/-- **A name may hide the modifier.** -/
theorem ofSource_misses_stateful :
    sourceBehind [⟨"contract C =".toList, by decide +kernel⟩] [hiddenModifier] =
        "contract C =\n  public stateful function f() : int = 1\n" ∧
      "stateful" ∈ hiddenModifier.form.modifiers ∧
      (ofSource (sourceBehind [⟨"contract C =".toList, by decide +kernel⟩] [hiddenModifier])).1.functions.map
        (fun f => (f.name, f.stateful)) = [(.whole "f", false)] := by
  refine ⟨by decide +kernel, by decide, by decide +kernel⟩

end SophiaBind.Catalog
