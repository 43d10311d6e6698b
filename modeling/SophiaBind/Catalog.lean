/-
**The catalog of a contract's functions.**

A catalog keeps the functions in the order in which they were found, with duplicates, and beside them a
look-up by name in which the last declaration of a name counts. The function that sets a contract up
is not for callers and never in a catalog.

Main definitions:

* `Parameter`, `ContractFunction` — a function with its signature,
* `Catalog`, `Catalog.get?`, `Catalog.names`, `Catalog.bindings`,
* `Catalog.ofFunctions` — the catalog of functions, with a warning for each repeated name.
-/

import SophiaBind.Keyed
import SophiaBind.Text.CodePoint

namespace SophiaBind

/-- A parameter of a function, with its type if it is declared. -/
structure Parameter where
  name : String
  type : Option String
  deriving DecidableEq, Repr

/-- A parameter with its type behind a colon; an empty type does not show. -/
def Parameter.render (p : Parameter) : String :=
  match p.type with
  | none => p.name
  | some t => if t = "" then p.name else p.name ++ ": " ++ t

/-- A function that callers may call. -/
structure ContractFunction where
  name : LooseText
  parameters : List Parameter
  returns : String
  stateful : Bool
  deriving DecidableEq, Repr

namespace ContractFunction

/-- The type of a function that returns nothing. -/
def unitType : String := "()"

/-- The parameters with commas between. -/
def renderParameters (f : ContractFunction) : String :=
  ", ".intercalate (f.parameters.map Parameter.render)

/-- The text that shows a function's name, parameters and result. -/
def signature (f : ContractFunction) : String :=
  f.name.shown ++ "(" ++ f.renderParameters ++ ") : " ++ f.returns

end ContractFunction

/-- Functions in order, and the last one of each name. -/
structure Catalog where
  functions : List ContractFunction := []
  lookup : List (LooseText × ContractFunction) := []
  deriving Repr, Inhabited

namespace Catalog

/-- Whether a name is kept from callers. -/
def isReserved (name : LooseText) : Bool :=
  name == .whole "init"

/-- The warning for a name that is declared again. -/
def duplicateWarning (name : LooseText) : String :=
  "Function '" ++ name.shown ++ "' declared more than once; the last declaration wins"

/-- Enters functions one after the other and warns of each that replaces another. -/
def enterAll (lookup : List (LooseText × ContractFunction)) :
    List ContractFunction → List (LooseText × ContractFunction) × List String
  | [] => (lookup, [])
  | f :: rest =>
    let (final, warnings) := enterAll (Keyed.put lookup f.name f) rest
    if (lookup.lookup f.name).isSome then (final, duplicateWarning f.name :: warnings)
    else (final, warnings)

/-- The catalog of functions, and the warnings of repeated names. -/
def ofFunctions (functions : List ContractFunction) : Catalog × List String :=
  let kept := functions.filter fun f => !isReserved f.name
  let (lookup, warnings) := enterAll [] kept
  ({ functions := kept, lookup := lookup }, warnings)

/-- The names of the functions, each once, in the order in which they first came. -/
def names (c : Catalog) : List LooseText :=
  c.lookup.map Prod.fst

/-- The function that counts for a name. -/
def get? (c : Catalog) (name : LooseText) : Option ContractFunction :=
  c.lookup.lookup name

/-- Whether a name is in the catalog. -/
def contains (c : Catalog) (name : LooseText) : Bool :=
  c.names.contains name

/-- The functions that count, each under the name that it has itself. -/
def bindings (c : Catalog) : List (LooseText × ContractFunction) :=
  Keyed.putAll [] (c.lookup.map fun e => (e.2.name, e.2))

/-- The number of functions, duplicates included. -/
def size (c : Catalog) : Nat :=
  c.functions.length

end Catalog

end SophiaBind
