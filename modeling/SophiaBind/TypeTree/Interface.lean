/-
**Types in an interface description.**

The compiler describes a type by a JSON node: a text or a whole number is a name, an array is a tuple
unless it has one item, an object with a type and a name is that type, and any other object has one member
whose name is the constructor.

Main definitions:

* `TypeTree.ofInterface` — the type of a node,
* `TypeTree.renderInterface` — its text.
-/

import SophiaBind.TypeTree
import SophiaBind.Value.Written
import SophiaBind.Fault

namespace SophiaBind.TypeTree

/-- A node that describes no type. -/
def malformed (node : Json) (reason : String) : Fault :=
  .malformedType node.written 0 reason

/-- Whether a node has a type and a name. -/
def isNamed (members : List (LooseText × Json)) : Bool :=
  (Json.lookup? members "type").isSome && (Json.lookup? members "name").isSome

mutual

/-- The type of a node. -/
def ofInterface : Json → Except Fault TypeTree
  | .text s => .ok (.primitive s)
  | .broken t => .ok (.primitive t.shown)
  | .int i => .ok (.primitive (String.ofList (Integer.toText i)))
  | .array [node] => ofInterface node
  | .array nodes => (ofItems nodes).map .tuple
  | .object members =>
    if isNamed members then ofMember "type" members
    else match members with
      | [(tag, node)] => ofTagged tag node
      | members => .error (malformed (.object members) "composite ACI nodes must have exactly one key")
  | node =>
    .error (malformed node ("unexpected ACI node of type " ++ (Value.ofJson node).kind))

/-- The type of the member with a name. -/
def ofMember (name : String) : List (LooseText × Json) → Except Fault TypeTree
  | [] => .error (malformed .null "composite ACI nodes must have exactly one key")
  | (n, node) :: rest => if n = .whole name then ofInterface node else ofMember name rest

/-- The type of a constructor's node; what is no array counts as an array of one item. -/
def ofTagged (tag : LooseText) : Json → Except Fault TypeTree
  | .array nodes =>
    if tag = .whole "tuple" then (ofItems nodes).map .tuple
    else if tag = .whole "list" then (ofItems nodes).map .list
    else if tag = .whole "record" then (ofFields (.object [(tag, .array nodes)]) nodes).map .record
    else if tag = .whole "map" then
      match nodes with
      | [key, value] => do return .map (← ofInterface key) (← ofInterface value)
      | nodes =>
        .error (malformed (.object [(tag, .array nodes)])
          ("map takes 2 type arguments, got " ++ toString nodes.length))
    else (ofItems nodes).map (.applied tag.shown)
  | node =>
    if tag = .whole "tuple" then (ofInterface node).map fun t => .tuple [t]
    else if tag = .whole "list" then (ofInterface node).map fun t => .list [t]
    else if tag = .whole "record" then (ofField (.object [(tag, node)]) node).map fun f => .record [f]
    else if tag = .whole "map" then
      .error (malformed (.object [(tag, node)]) "map takes 2 type arguments, got 1")
    else (ofInterface node).map fun t => .applied tag.shown [t]

/-- The types of nodes. -/
def ofItems : List Json → Except Fault (List TypeTree)
  | [] => .ok []
  | node :: rest => do
    let t ← ofInterface node
    let ts ← ofItems rest
    return t :: ts

/-- A field of a record: an object with a type, and a name if there is one. -/
def ofField (whole : Json) : Json → Except Fault (String × TypeTree)
  | .object members =>
    if (Json.lookup? members "type").isSome then do
      let t ← ofMember "type" members
      return (match Json.lookup? members "name" with | some n => n.shown | none => "", t)
    else .error (malformed whole "record fields need a name and a type")
  | _ => .error (malformed whole "record fields need a name and a type")

/-- The fields of a record, in order. -/
def ofFields (whole : Json) : List Json → Except Fault (List (String × TypeTree))
  | [] => .ok []
  | node :: rest => do
    let f ← ofField whole node
    let fs ← ofFields whole rest
    return f :: fs

end

/-- The text of a node's type. -/
def renderInterface (node : Json) : Except Fault String :=
  (ofInterface node).map render

end SophiaBind.TypeTree
