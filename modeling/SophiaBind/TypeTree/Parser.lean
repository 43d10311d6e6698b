/-
**Reading the text of a type.**

The grammar is

    T ::= name | name L | L        L ::= '(' ')' | '(' T (',' T)* ')'

with blanks before, after and between tokens. A name is a longest run of alphanumeric characters,
underscores, points and apostrophes. A list in parentheses alone is a tuple, behind `list` a list, behind
`map`, where it must have two members, a map, and behind any other name an application.

Main definitions:

* `TypeTree.isNameChar`,
* `TypeTree.parse` — reads a whole text, or gives the fault with the position where it was noticed.
-/

import SophiaBind.TypeTree
import SophiaBind.Fault
import SophiaBind.Text.Letter
import SophiaBind.Text.Blank

namespace SophiaBind.TypeTree

/-- The characters of names. -/
def isNameChar (c : Char) : Bool :=
  Text.isAlphanumeric c || c == '_' || c == '.' || c == '\''

/-- What a type's text lacks. -/
inductive Complaint where
  | name
  | closing
  | mapArity (count : Nat)
  | trailing
  deriving DecidableEq, Repr

/-- The wording of a complaint. -/
def Complaint.message : Complaint → String
  | .name => "expected a type name"
  | .closing => "expected ')'"
  | .mapArity count => "map takes 2 type arguments, got " ++ toString count
  | .trailing => "unexpected trailing input"

/-- A reader's result: a value and the rest of the text, or a complaint and the length of the rest. -/
abbrev Reading (α : Type) := Except (Complaint × Nat) (α × List Char)

/-- The constructor for a name with a list of arguments; `left` is the length of the rest behind it. -/
def construct (name : List Char) (args : List TypeTree) (left : Nat) : Except (Complaint × Nat) TypeTree :=
  if name = "list".toList then .ok (.list args)
  else if name = "map".toList then
    match args with
    | [key, value] => .ok (.map key value)
    | args => .error (.mapArity args.length, left)
  else .ok (.applied (String.ofList name) args)

mutual

/-- Reads a type; the fuel bounds the nesting and the members behind. -/
def typeFrom : Nat → List Char → Reading TypeTree
  | 0, cs => .error (.name, cs.length)
  | fuel + 1, cs =>
    match Text.trimStart cs with
    | '(' :: r =>
      match listFrom fuel r with
      | .ok (items, r) => .ok (.tuple items, r)
      | .error e => .error e
    | r =>
      let name := r.takeWhile isNameChar
      if name = [] then .error (.name, r.length)
      else
        match Text.trimStart (r.dropWhile isNameChar) with
        | '(' :: r =>
          match listFrom fuel r with
          | .error e => .error e
          | .ok (args, r) =>
            match construct name args r.length with
            | .ok t => .ok (t, r)
            | .error e => .error e
        | r => .ok (.primitive (String.ofList name), r)

/-- Reads a list behind its opening parenthesis. -/
def listFrom : Nat → List Char → Reading (List TypeTree)
  | 0, cs => .error (.closing, cs.length)
  | fuel + 1, cs =>
    match Text.trimStart cs with
    | ')' :: r => .ok ([], r)
    | r => membersFrom fuel r

/-- Reads the members of a list from a type on, up to the closing parenthesis. -/
def membersFrom : Nat → List Char → Reading (List TypeTree)
  | 0, cs => .error (.closing, cs.length)
  | fuel + 1, cs =>
    match typeFrom fuel cs with
    | .error e => .error e
    | .ok (t, r) =>
      match Text.trimStart r with
      | ',' :: r =>
        match membersFrom fuel r with
        | .ok (rest, r) => .ok (t :: rest, r)
        | .error e => .error e
      | ')' :: r => .ok ([t], r)
      | r => .error (.closing, r.length)

end

/-- Reads a whole text as a type. -/
def parseChars (cs : List Char) : Except (Complaint × Nat) TypeTree :=
  match typeFrom (3 * cs.length + 3) cs with
  | .error (complaint, left) => .error (complaint, cs.length - left)
  | .ok (t, r) =>
    match Text.trimStart r with
    | [] => .ok t
    | r => .error (.trailing, cs.length - r.length)

/-- Reads the text of a type. -/
def parse (text : String) : Except Fault TypeTree :=
  match parseChars text.toList with
  | .ok t => .ok t
  | .error (complaint, position) => .error (.malformedType text position complaint.message)

end SophiaBind.TypeTree
