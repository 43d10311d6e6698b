/-
**Sources as they are written.**

A source of the plainest kind: a line that opens a contract, and declarations, each on a line of its own
and with a body that says none of the words by which declarations are found. Blanks may stand around the
parameters' names, anywhere in the types and around the result.

Main definitions:

* `Catalog.Form` — the words in front of a function's name,
* `Catalog.WrittenType`, `Catalog.WrittenParameter`, `Catalog.Written` — a type, a parameter and a declaration
  with their texts,
* `Catalog.Written.function` — the function that a declaration declares,
* `Catalog.sourceText` — the source of some declarations,
* `Catalog.TypeText` — what the texts of types are made of.

Main results:

* `Catalog.typeText_renderChars` — the text of a type is made so,
* `Catalog.TypeText.nested`, `Catalog.TypeText.mem` — **its commas stand within its parentheses, which match, and
  it has no other marks.**
-/

import SophiaBind.Catalog.Source
import SophiaBind.Proofs.Nesting
import SophiaBind.Proofs.Spans
import SophiaBind.TypeTree

namespace SophiaBind

open TypeTree (joinCommas joinCommas_cons)

namespace Catalog

/-! ### Words and blanks -/

/-- A text of blanks only, perhaps empty. -/
abbrev Blanks :=
  { cs : List Char // ∀ c ∈ cs, Text.isBlank c = true }

/-- The marks between the identifiers of a source, and the one with which comments begin. -/
def marks : List Char :=
  [',', '(', '{', '[', ')', '}', ']', ':', '=', '/']

theorem not_isBlank_of_mem_marks : ∀ c ∈ marks, Text.isBlank c = false :=
  List.all_iff_forall_prop.1 (by decide)

/-- An identifier: not empty, without blanks and marks. -/
def IsIdentifier (cs : List Char) : Prop :=
  cs ≠ [] ∧ ∀ c ∈ cs, Text.isBlank c = false ∧ c ∉ marks

instance (cs : List Char) : Decidable (IsIdentifier cs) :=
  @instDecidableAnd (cs ≠ []) _ inferInstance (List.decidableBAll _ cs)

/-- An identifier. -/
abbrev Identifier :=
  { cs : List Char // IsIdentifier cs }

/-- A name of a function: not empty, of name characters only. -/
abbrev FunctionName :=
  { cs : List Char // cs ≠ [] ∧ ∀ c ∈ cs, isNameChar c = true }

/-- The words by which declarations are found. -/
def keywords : List String :=
  ["function", "entrypoint", "public", "stateful"]

/-- A body that says none of the words by which declarations are found, and begins no comment. -/
abbrev Body :=
  { cs : List Char // ∀ word ∈ keywords ++ ["//", "/*"], ¬word.toList <:+: cs }

/-! ### Types -/

mutual

/-- A type whose names are identifiers; the names of fields do not show. -/
def Identified : TypeTree → Prop
  | .primitive name => IsIdentifier name.toList
  | .list items => AllIdentified items
  | .tuple items => AllIdentified items
  | .record fields => FieldsIdentified fields
  | .map key value => Identified key ∧ Identified value
  | .applied name args => IsIdentifier name.toList ∧ AllIdentified args

/-- Types whose names are identifiers. -/
def AllIdentified : List TypeTree → Prop
  | [] => True
  | t :: rest => Identified t ∧ AllIdentified rest

/-- Fields of types whose names are identifiers. -/
def FieldsIdentified : List (String × TypeTree) → Prop
  | [] => True
  | (_, t) :: rest => Identified t ∧ FieldsIdentified rest

end

/-- A type in a source: the text of the tree with blanks anywhere. -/
structure WrittenType where
  tree : TypeTree
  identified : Identified tree
  text : List Char
  spells : Text.squeeze text = tree.renderChars

/-! ### Declarations -/

/-- A parameter in a source. -/
structure WrittenParameter where
  before : Blanks
  name : Identifier
  behind : Blanks
  type : Option WrittenType

/-- What stands in front of a function's name. -/
inductive Form where
  | publicFunction (stateful : Bool)
  | entrypoint (payable stateful : Bool)
  | function (stateful : Bool)
  | privateFunction
  deriving DecidableEq, Repr

/-- A declaration in a source. -/
structure Written where
  form : Form
  name : FunctionName
  parameters : List WrittenParameter
  gap : Blanks
  returns : Option WrittenType
  body : Body

/-- The words in front of a function's name. -/
def Form.words : Form → String
  | .publicFunction false => "public function"
  | .publicFunction true => "public stateful function"
  | .entrypoint false false => "entrypoint"
  | .entrypoint false true => "stateful entrypoint"
  | .entrypoint true false => "payable entrypoint"
  | .entrypoint true true => "payable stateful entrypoint"
  | .function false => "function"
  | .function true => "stateful function"
  | .privateFunction => "private function"

/-- Whether callers may call a function of a form. -/
def Form.isPublic : Form → Bool
  | .publicFunction _ => true
  | .entrypoint _ _ => true
  | .function _ => false
  | .privateFunction => false

/-- A type behind a colon, or nothing. -/
def behindColon : Option WrittenType → List Char
  | none => []
  | some t => ':' :: t.text

/-- The text of a parameter. -/
def WrittenParameter.text (p : WrittenParameter) : List Char :=
  p.before.1 ++ (p.name.1 ++ (p.behind.1 ++ behindColon p.type))

namespace Written

/-- The text between the parentheses. -/
def parametersText (d : Written) : List Char :=
  joinCommas (d.parameters.map WrittenParameter.text)

/-- The text from behind the opening parenthesis up to the equals sign. -/
def listText (d : Written) : List Char :=
  d.parametersText ++ ')' :: (d.gap.1 ++ behindColon d.returns)

/-- The text of a declaration. -/
def text (d : Written) : List Char :=
  "  ".toList ++ (d.form.words.toList ++ ' ' ::
    (d.name.1 ++ '(' :: (d.listText ++ '=' :: ' ' :: (d.body.1 ++ ['\n']))))

end Written

/-- The source of some declarations. -/
def sourceText (ds : List Written) : String :=
  String.ofList ("contract C =\n".toList ++ ds.flatMap Written.text)

/-- A name as a type, between blanks. -/
def writtenInt : WrittenType where
  tree := .primitive "int"
  identified := show IsIdentifier "int".toList by decide
  text := " int ".toList
  spells := by decide

example : sourceText
    [{ form := .entrypoint true false
       name := ⟨"pay".toList, by decide, List.all_eq_true.1 (by decide)⟩
       parameters :=
         [⟨⟨[], List.forall_mem_nil _⟩, ⟨"x".toList, by decide⟩, ⟨[' '], List.all_eq_true.1 (by decide)⟩,
            some writtenInt⟩,
          ⟨⟨[' '], List.all_eq_true.1 (by decide)⟩, ⟨"y".toList, by decide⟩, ⟨[], List.forall_mem_nil _⟩, none⟩]
       gap := ⟨[' '], List.all_eq_true.1 (by decide)⟩
       returns := some writtenInt
       body := ⟨"x + y".toList, by decide⟩ }] =
    "contract C =\n  payable entrypoint pay(x : int , y) : int = x + y\n" := by decide

/-! ### What is declared -/

/-- The parameter that a parameter in a source stands for. -/
def WrittenParameter.parameter (p : WrittenParameter) : Parameter where
  name := String.ofList p.name.1
  type := p.type.map fun t => t.tree.render

namespace Written

/-- The function that a declaration declares, but for whether it is stateful. -/
def function (d : Written) : ContractFunction where
  name := .whole (String.ofList d.name.1)
  parameters := d.parameters.map WrittenParameter.parameter
  returns := match d.returns with
    | none => ContractFunction.unitType
    | some t => t.tree.render
  stateful := false

/-- Whether callers may call the function: it is public, and not the one that sets the contract up. -/
def isCallable (d : Written) : Bool :=
  d.form.isPublic && String.ofList d.name.1 != "init"

end Written

/-- A function, but for whether it is stateful. -/
def unflagged (f : ContractFunction) : ContractFunction :=
  { f with stateful := false }

/-! ### The text of a type -/

/-- The text of a type, or within a list the texts of some types with commas between. -/
inductive TypeText : Bool → List Char → Prop
  | name {within : Bool} {cs : List Char} : IsIdentifier cs → TypeText within cs
  | alone {within : Bool} {cs : List Char} : TypeText true cs → TypeText within ('(' :: (cs ++ [')']))
  | named {within : Bool} {name cs : List Char} :
      IsIdentifier name → TypeText true cs → TypeText within (name ++ '(' :: (cs ++ [')']))
  | none : TypeText true []
  | more {cs ds : List Char} : TypeText true cs → TypeText true ds → TypeText true (cs ++ ',' :: ds)

namespace TypeText

theorem within {b : Bool} {cs : List Char} (h : TypeText b cs) : TypeText true cs := by
  cases h with
  | name h => exact .name h
  | alone h => exact .alone h
  | named hname h => exact .named hname h
  | none => exact .none
  | more h h' => exact .more h h'

/-- The characters are those of identifiers, parentheses and commas. -/
theorem mem {b : Bool} {cs : List Char} (h : TypeText b cs) {c : Char} (hc : c ∈ cs) :
    c ∉ marks ∨ c ∈ ['(', ')', ','] := by
  induction h with
  | name h => exact .inl (h.2 c hc).2
  | alone _ ih => grind
  | named hname _ ih =>
      have := hname.2 c
      grind
  | none => cases hc
  | more _ _ ih ih' => grind

theorem ne_nil {cs : List Char} (h : TypeText false cs) : cs ≠ [] := by
  cases h with
  | name h => exact h.1
  | alone _ => simp
  | named _ _ => simp

end TypeText

theorem IsIdentifier.nested {cs : List Char} (h : IsIdentifier cs) (floor : Int) : Text.Nested floor cs :=
  .of_forall fun c hc hmark => (h.2 c hc).2 (List.mem_append_left [':', '=', '/'] hmark)

/-- **The commas of a type's text stand within its parentheses, which match.** -/
theorem TypeText.nested {b : Bool} {cs : List Char} (h : TypeText b cs) : Text.Nested (if b then 1 else 0) cs := by
  induction h with
  | name h => exact h.nested _
  | alone _ ih => exact (Text.Nested.parens ih).mono (by split <;> decide)
  | named hname _ ih => exact (hname.nested _).append ((Text.Nested.parens ih).mono (by split <;> decide))
  | none => exact .nil
  | more _ _ ih ih' => exact ih.append (Text.Nested.comma.append ih')

theorem isIdentifier_list : IsIdentifier "list".toList := by decide

theorem isIdentifier_map : IsIdentifier "map".toList := by decide

/-- A text in front of others goes on with a comma, or is the last one. -/
theorem TypeText.joinCommas_cons {cs : List Char} {parts : List (List Char)} (h : TypeText true cs)
    (hparts : TypeText true (joinCommas parts)) : TypeText true (joinCommas (cs :: parts)) := by
  cases parts with
  | nil => exact h
  | cons part parts => exact .more h hparts

mutual

/-- **The text of a type is made of its names, of parentheses and of commas between them.** -/
theorem typeText_renderChars : ∀ {t : TypeTree}, Identified t → TypeText false t.renderChars
  | .primitive _, h => .name h
  | .list items, h => .named isIdentifier_list (typeText_renderAll (show AllIdentified items from h))
  | .tuple items, h => .alone (typeText_renderAll (show AllIdentified items from h))
  | .record fields, h => .alone (typeText_renderFields (show FieldsIdentified fields from h))
  | .map key value, h => by
      have hboth := (typeText_renderChars h.1).within.more (typeText_renderChars h.2).within
      rw [TypeTree.renderChars_map]
      simpa using hboth.named isIdentifier_map
  | .applied _ [], h => .name h.1
  | .applied name (arg :: args), h => by
      rw [TypeTree.renderChars_applied name (List.cons_ne_nil arg args)]
      simpa using (typeText_renderAll h.2).named h.1

theorem typeText_renderAll : ∀ {ts : List TypeTree}, AllIdentified ts →
    TypeText true (joinCommas (TypeTree.renderAll ts))
  | [], _ => .none
  | _ :: _, h => (typeText_renderChars h.1).within.joinCommas_cons (typeText_renderAll h.2)

theorem typeText_renderFields : ∀ {fields : List (String × TypeTree)}, FieldsIdentified fields →
    TypeText true (joinCommas (TypeTree.renderFields fields))
  | [], _ => .none
  | (name, t) :: rest, h => by
      have hrest := typeText_renderFields h.2
      cases hf : t.isFilledRecord with
      | true =>
          -- the fields of the record take its place
          obtain ⟨f, fs, rfl, -⟩ := TypeTree.normFields_of_filled name rest hf
          rw [TypeTree.renderFields_of_filled]
          exact (typeText_renderFields (show FieldsIdentified (f :: fs) from h.1)).joinCommas_cons hrest
      | false =>
          rw [TypeTree.renderFields_of_not_filled name rest hf]
          exact (typeText_renderChars h.1).within.joinCommas_cons hrest

end

end Catalog

end SophiaBind
