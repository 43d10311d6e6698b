/-
**A catalog from an interface description.**

The compiler's answer wraps the list of functions in one of several ways. A description is taken as a
whole: if one of its functions is malformed, the catalog is empty, and a warning says why. A description was read from
a text, so its numbers have no more digits than a text can have, and can be written again.

Main definitions:

* `Catalog.functionList?` — the list of functions in a description,
* `Catalog.ofInterface` — the catalog of a description, with its warnings.
-/

import SophiaBind.Catalog
import SophiaBind.TypeTree.Interface

namespace SophiaBind.Catalog

mutual

/-- The list of functions, directly or within one of the wrappings. -/
def functionList? : Json → Option (List Json)
  | .object members =>
    match Json.lookup? members "functions" with
    | some (.array functions) => some functions
    | _ =>
      match functionListUnder? "encoded_aci" members with
      | some functions => some functions
      | none => functionListUnder? "contract" members
  | _ => none

/-- The list of functions within a member. -/
def functionListUnder? (wrapping : String) : List (LooseText × Json) → Option (List Json)
  | [] => none
  | (name, j) :: rest => if name = .whole wrapping then functionList? j else functionListUnder? wrapping rest

end

/-- The value of a member, or nothing if there is none. -/
def memberOrNull (members : List (LooseText × Json)) (name : String) : Json :=
  (Json.lookup? members name).getD .null

/-- A described parameter: an object with a name and a type, or a type alone. -/
def parameterOf : Json → Except Fault Parameter
  | .object members => do
    let t ← TypeTree.renderInterface (memberOrNull members "type")
    return ⟨match Json.lookup? members "name" with | some n => n.shown | none => "", some t⟩
  | node => do
    let t ← TypeTree.renderInterface node
    return ⟨"", some t⟩

/-- The described result; nothing stands for the unit type. -/
def returnsOf : Json → Except Fault String
  | .null => .ok ContractFunction.unitType
  | node => TypeTree.renderInterface node

/-- A described function of a name with a list of parameters. -/
def functionOf (name : LooseText) (parameters : List Json) (members : List (LooseText × Json)) :
    Except Fault ContractFunction := do
  let parameters ← parameters.mapM parameterOf
  let returns ← returnsOf (memberOrNull members "returns")
  return ⟨name, parameters, returns, (Value.ofJson (memberOrNull members "stateful")).truthy⟩

/-- What a described function gives: nothing if its name is reserved, else the function or a warning. Nothing but its
types can be at fault. -/
def described (name : LooseText) (parameters : List Json) (members : List (LooseText × Json)) :
    Except String (Option ContractFunction) :=
  if isReserved name then .ok none
  else match functionOf name parameters members with
    | .ok f => .ok (some f)
    | .error e => .error ("Malformed interface description for '" ++ name.shown ++ "': " ++ e.message)

/-- What one entry of a description gives: nothing, a function, or a warning that ends the reading. -/
def entryOf : Json → Except String (Option ContractFunction)
  | .object members =>
    match Json.lookup? members "name" with
    | none => .ok none
    | some name =>
      match name.text?, memberOrNull members "arguments" with
      | some name, .null => described name [] members
      | some name, .array parameters => described name parameters members
      | _, arguments =>
        .error ("Malformed interface description entry: name=" ++ name.written ++ ", arguments=" ++
          arguments.written)
  | _ => .ok none

/-- The functions of all entries, or the first warning. -/
def entriesOf : List Json → Except String (List ContractFunction)
  | [] => .ok []
  | node :: rest => do
    let f ← entryOf node
    let fs ← entriesOf rest
    return f.toList ++ fs

/-- The catalog of an interface description, with its warnings. -/
def ofInterface (description : Json) : Catalog × List String :=
  match functionList? description with
  | none => ({}, [])
  | some nodes =>
    match entriesOf nodes with
    | .ok functions => ofFunctions functions
    | .error warning => ({}, [warning])

end SophiaBind.Catalog
