/-
**JSON values.**

Whole numbers have any size and differ from numbers with a point or an exponent; the members of an
object keep the order in which their names first came. Texts and names may hold halves of surrogate pairs
that stand alone.

Main definitions:

* `Json`,
* `Json.ofText`, `Json.text?` — values that are texts,
* `Json.ofGiven` — what was given on a command line,
* `Json.lookup?`, `Json.member?` — the value of a member.
-/

import SophiaBind.Number.Binary64
import SophiaBind.Given
import SophiaBind.Keyed
import SophiaBind.Text.CodePoint

namespace SophiaBind

/-- A JSON value. A text is `broken` if it holds halves of surrogate pairs. -/
inductive Json where
  | null
  | bool (b : Bool)
  | int (i : Int)
  | float (x : Binary64)
  | text (s : String)
  | broken (t : BrokenText)
  | array (items : List Json)
  | object (members : List (LooseText × Json))
  deriving Inhabited

namespace Json

/-- A text that may hold halves. -/
def ofText : LooseText → Json
  | .whole s => .text s
  | .broken t => .broken t

/-- The text that a value is, if it is one. -/
def text? : Json → Option LooseText
  | .text s => some (.whole s)
  | .broken t => some (.broken t)
  | _ => none

/-- What was given; a blank is an empty array. -/
def ofGiven {α : Type} (f : α → Json) : Given α → Json
  | .blank => .array []
  | .value a => f a

/-- The value under a name among members. -/
def lookup? (members : List (LooseText × Json)) (name : String) : Option Json :=
  members.lookup (.whole name)

/-- The value of a member of an object. -/
def member? (j : Json) (name : String) : Option Json :=
  match j with
  | .object members => lookup? members name
  | _ => none

end Json

end SophiaBind
