/-
**Types of contract functions** as trees.

A type is a name, a list, tuple, record or map of types, or a named constructor applied to types. Its
text is its signature. Records have no text of their own: a record is written like a tuple, and a record
that is directly a field of a record is written without its parentheses.

Main definitions:

* `TypeTree`,
* `TypeTree.render` — the text of a type,
* `TypeTree.depth` — how deep its constructors nest.
-/

namespace SophiaBind

/-- A type. -/
inductive TypeTree where
  | primitive (name : String)
  | list (items : List TypeTree)
  | tuple (items : List TypeTree)
  | record (fields : List (String × TypeTree))
  | map (key value : TypeTree)
  | applied (name : String) (args : List TypeTree)
  deriving Inhabited, Repr

namespace TypeTree

/-! ### Text -/

/-- Parts with commas between. -/
def joinCommas : List (List Char) → List Char
  | [] => []
  | [part] => part
  | part :: rest => part ++ ',' :: joinCommas rest

/-- A text without a pair of parentheses at its ends. -/
def stripParens (cs : List Char) : List Char :=
  match cs with
  | '(' :: r => if r.getLast? = some ')' then r.dropLast else cs
  | cs => cs

/-- Whether a type is a record with fields. -/
def isFilledRecord : TypeTree → Bool
  | .record (_ :: _) => true
  | _ => false

mutual

/-- The characters of a type's text. -/
def renderChars : TypeTree → List Char
  | .primitive name => name.toList
  | .list items => "list(".toList ++ joinCommas (renderAll items) ++ [')']
  | .tuple items => '(' :: joinCommas (renderAll items) ++ [')']
  | .record fields => '(' :: joinCommas (renderFields fields) ++ [')']
  | .map key value => "map(".toList ++ renderChars key ++ ',' :: renderChars value ++ [')']
  | .applied name [] => name.toList
  | .applied name (arg :: args) =>
    name.toList ++ '(' :: joinCommas (renderAll (arg :: args)) ++ [')']

/-- The text of each type. -/
def renderAll : List TypeTree → List (List Char)
  | [] => []
  | t :: rest => renderChars t :: renderAll rest

/-- The text of each field's type; a record with fields loses its parentheses. -/
def renderFields : List (String × TypeTree) → List (List Char)
  | [] => []
  | (_, t) :: rest =>
    (if isFilledRecord t then stripParens (renderChars t) else renderChars t) :: renderFields rest

end

/-- The text of a type. -/
def render (t : TypeTree) : String :=
  String.ofList t.renderChars

theorem renderChars_list (items : List TypeTree) :
    renderChars (.list items) = "list(".toList ++ joinCommas (renderAll items) ++ [')'] := rfl

theorem renderChars_tuple (items : List TypeTree) :
    renderChars (.tuple items) = '(' :: joinCommas (renderAll items) ++ [')'] := rfl

theorem renderChars_record (fields : List (String × TypeTree)) :
    renderChars (.record fields) = '(' :: joinCommas (renderFields fields) ++ [')'] := rfl

theorem renderChars_map (key value : TypeTree) :
    renderChars (.map key value) = "map(".toList ++ renderChars key ++ ',' :: renderChars value ++ [')'] := rfl

theorem renderChars_applied (name : String) {args : List TypeTree} (h : args ≠ []) :
    renderChars (.applied name args) = name.toList ++ '(' :: joinCommas (renderAll args) ++ [')'] := by
  cases args with
  | nil => exact absurd rfl h
  | cons arg args => rfl

theorem renderAll_cons (t : TypeTree) (rest : List TypeTree) :
    renderAll (t :: rest) = renderChars t :: renderAll rest := rfl

theorem renderFields_cons (name : String) (t : TypeTree) (rest : List (String × TypeTree)) :
    renderFields ((name, t) :: rest) =
      (if isFilledRecord t then stripParens (renderChars t) else renderChars t) :: renderFields rest := rfl

/-! ### Depth -/

mutual

/-- How deep constructors nest; a name has depth zero. -/
def depth : TypeTree → Nat
  | .primitive _ => 0
  | .list items => 1 + deepest items
  | .tuple items => 1 + deepest items
  | .record fields => 1 + deepestField fields
  | .map key value => 1 + max (depth key) (depth value)
  | .applied _ args => 1 + deepest args

/-- The greatest depth among types, zero if there is none. -/
def deepest : List TypeTree → Nat
  | [] => 0
  | t :: rest => max (depth t) (deepest rest)

/-- The greatest depth among the types of fields. -/
def deepestField : List (String × TypeTree) → Nat
  | [] => 0
  | (_, t) :: rest => max (depth t) (deepestField rest)

end

end TypeTree

end SophiaBind
