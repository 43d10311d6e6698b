/-
**JSON text on one line.**

Controls and all characters beyond ASCII are escaped within a text, numbers and words have none, and nothing
else is written between the parts of a value but marks and blanks. So each value that is written on one line
stays on it, and is the same in every encoding that goes on from ASCII.

Main definition:

* `Json.isPlain` — the characters that are neither controls nor beyond ASCII.

Main results:

* `Json.plain_render` — **a value is written in plain characters**,
* `Json.newline_not_mem_render` — and so without line feeds.
-/

import SophiaBind.Json.Printer
import SophiaBind.Proofs.Shown

namespace SophiaBind

namespace Json

/-- A character of ASCII that is no control. -/
def isPlain (c : Char) : Bool :=
  32 ≤ c.toNat && c.toNat < 127

/-- A text of plain characters. -/
abbrev Plain (cs : List Char) : Prop :=
  ∀ c ∈ cs, isPlain c = true

theorem Plain.append {cs ds : List Char} (hcs : Plain cs) (hds : Plain ds) : Plain (cs ++ ds) :=
  List.forall_mem_append.2 ⟨hcs, hds⟩

theorem Plain.cons {c : Char} {cs : List Char} (hc : isPlain c = true) (hcs : Plain cs) : Plain (c :: cs) :=
  List.forall_mem_cons.2 ⟨hc, hcs⟩

theorem isPlain_of_isNumeric {c : Char} (h : Decimal.isNumeric c = true) : isPlain c = true := by
  simp only [Decimal.isNumeric, Bool.or_eq_true, List.contains_iff_mem] at h
  rcases h with h | h
  · simp only [Char.isDigit, Bool.and_eq_true, decide_eq_true_eq, UInt32.le_iff_toNat_le] at h
    simp only [isPlain, Bool.and_eq_true, decide_eq_true_eq, Char.toNat]
    have h48 : '0'.val.toNat = 48 := rfl
    have h57 : '9'.val.toNat = 57 := rfl
    omega
  · have hall : ∀ d ∈ ['-', '+', '.', 'e', 'i', 'n', 'f', 'a'], isPlain d = true := List.all_eq_true.1 (by decide)
    exact hall c h

/-! ### Texts -/

theorem plain_digits (width n : Nat) : Plain (Hex.digits width n) := by
  have hdigit : ∀ m < 16, isPlain (Hex.digit m) = true := by decide
  induction width generalizing n with
  | zero => exact List.forall_mem_nil _
  | succ width ih => exact (ih (n / 16)).append (.cons (hdigit _ (Nat.mod_lt n (by decide))) (List.forall_mem_nil _))

theorem plain_unitEscape (n : Nat) : Plain (unitEscape n) :=
  .cons (by decide) (.cons (by decide) (plain_digits 4 n))

/-- What is written by cases. -/
theorem plain_ite {p : Prop} [Decidable p] {cs ds : List Char} (hcs : p → Plain cs) (hds : ¬p → Plain ds) :
    Plain (if p then cs else ds) := by
  by_cases hp : p
  · rw [if_pos hp]
    exact hcs hp
  · rw [if_neg hp]
    exact hds hp

theorem plain_escapeChar (c : Char) : Plain (escapeChar .ascii c) := by
  have hescape := plain_unitEscape
  unfold escapeChar
  refine plain_ite (fun _ => List.all_eq_true.1 (by decide)) fun _ => ?_
  refine plain_ite (fun _ => List.all_eq_true.1 (by decide)) fun _ => ?_
  refine plain_ite (fun _ => List.all_eq_true.1 (by decide)) fun _ => ?_
  refine plain_ite (fun _ => List.all_eq_true.1 (by decide)) fun _ => ?_
  refine plain_ite (fun _ => List.all_eq_true.1 (by decide)) fun _ => ?_
  refine plain_ite (fun _ => List.all_eq_true.1 (by decide)) fun _ => ?_
  refine plain_ite (fun _ => List.all_eq_true.1 (by decide)) fun _ => ?_
  refine plain_ite (fun _ => hescape _) fun hcontrol => ?_
  -- a character that stands for itself is neither a control nor beyond ASCII
  refine plain_ite (fun hascii => ?_) fun _ => ?_
  · have hlt : c.toNat < 127 := by simpa using hascii
    exact .cons (by simp [isPlain, hlt]; omega) (List.forall_mem_nil _)
  · exact plain_ite (fun _ => hescape _) fun _ => (hescape _).append (hescape _)

theorem plain_quotePoints (ps : List CodePoint) : Plain (quotePoints ps) := by
  have hpoints : Plain (ps.flatMap escapePoint) := by
    intro c hc
    obtain ⟨p, -, hp⟩ := List.mem_flatMap.1 hc
    cases p with
    | char d => exact plain_escapeChar d c hp
    | half k => exact plain_unitEscape _ c hp
  exact Plain.append (.cons (by decide) hpoints) (List.all_eq_true.1 (by decide))

/-! ### Values -/

theorem plain_renderFloat (x : Binary64) : Plain (renderFloat x) := by
  cases x with
  | nan => exact List.all_eq_true.1 (by decide)
  | infinite negative => cases negative <;> exact List.all_eq_true.1 (by decide)
  | finite negative m e =>
      exact fun c hc => isPlain_of_isNumeric (@Decimal.isNumeric_of_mem (.finite negative m e) c hc)

theorem plain_renderScalar (j : Json) : Plain (renderScalar j) := by
  cases j with
  | null => exact show Plain "null".toList from List.all_eq_true.1 (by decide)
  | bool b => cases b <;> exact show Plain _ from List.all_eq_true.1 (by decide)
  | int i => exact fun c hc => isPlain_of_isNumeric (Integer.isNumeric_of_mem hc)
  | float x => exact plain_renderFloat x
  | text s =>
      have hquote := plain_quotePoints (s.toList.map .char)
      rwa [quotePoints_map_char] at hquote
  | broken t => exact plain_quotePoints t.points
  | array items => exact show Plain "[]".toList from List.all_eq_true.1 (by decide)
  | object members => exact show Plain ['{', '}'] from List.all_eq_true.1 (by decide)

/-- A part and what follows it behind a mark and a blank. -/
theorem Plain.marked {part rest : List Char} {mark : Char} (hmark : isPlain mark = true) (hpart : Plain part)
    (hrest : Plain rest) : Plain (part ++ mark :: ' ' :: rest) :=
  hpart.append (.cons hmark (.cons (by decide) hrest))

/-- What stands in brackets. -/
theorem Plain.bracketed {cs : List Char} {opening closing : Char} (hopening : isPlain opening = true)
    (hclosing : isPlain closing = true) (h : Plain cs) : Plain (opening :: cs ++ [closing]) :=
  Plain.append (.cons hopening h) (.cons hclosing (List.forall_mem_nil _))

mutual

/-- **A value is written in plain characters.** -/
theorem plain_render : ∀ j : Json, Plain (render j)
  | .array items => (plain_renderItems items).bracketed (by decide) (by decide)
  | .object members => (plain_renderMembers members).bracketed (by decide) (by decide)
  | .null => plain_renderScalar .null
  | .bool b => plain_renderScalar (.bool b)
  | .int i => plain_renderScalar (.int i)
  | .float x => plain_renderScalar (.float x)
  | .text s => plain_renderScalar (.text s)
  | .broken t => plain_renderScalar (.broken t)

theorem plain_renderItems : ∀ items : List Json, Plain (renderItems items)
  | [] => List.forall_mem_nil _
  | [j] => plain_render j
  | j :: k :: rest => (plain_render j).marked (by decide) (plain_renderItems (k :: rest))

theorem plain_renderMembers : ∀ members : List (LooseText × Json), Plain (renderMembers members)
  | [] => List.forall_mem_nil _
  | [(name, j)] => (plain_quotePoints name.points).marked (by decide) (plain_render j)
  | (name, j) :: m :: rest => by
      have hmember := Plain.marked (show isPlain ':' = true by decide) (plain_quotePoints name.points)
        (plain_render j)
      rw [renderMembers]
      exact hmember.marked (by decide) (plain_renderMembers (m :: rest))

end

/-- A value is written without line feeds. -/
theorem newline_not_mem_render (j : Json) : '\n' ∉ render j :=
  fun h => absurd (plain_render j '\n' h) (by decide)

end Json

end SophiaBind
