/-
**Paths** of files.

A path is written with slashes; empty components and single points do not count, a double point does.
One slash in front, or three and more, anchor a path at the root; two are kept as they are.

Main definitions:

* `Path`, `Path.ofString`, `Path.toString`,
* `Path.append`, `Path.parent`, `Path.name`, `Path.stem`, `Path.withName`,
* `Path.precedes` — the order of listings, component by component.
-/

namespace SophiaBind

/-- A path: what anchors it, and its components. -/
structure Path where
  anchor : String := ""
  parts : List String
  deriving DecidableEq, Repr, Inhabited

namespace Path

/-- The components between slashes. -/
def splitSlashes : List Char → List (List Char)
  | [] => [[]]
  | '/' :: r => [] :: splitSlashes r
  | c :: r =>
    match splitSlashes r with
    | [] => [[c]]
    | part :: rest => (c :: part) :: rest

/-- The anchor of a path's text. -/
def anchorOf : List Char → String
  | ['/', '/'] => "//"
  | '/' :: '/' :: '/' :: _ => "/"
  | '/' :: '/' :: _ => "//"
  | '/' :: _ => "/"
  | _ => ""

/-- Reads a path. -/
def ofString (s : String) : Path where
  anchor := anchorOf s.toList
  parts := ((splitSlashes s.toList).filter fun part => part ≠ [] && part ≠ ['.']).map String.ofList

/-- The text of a path; an empty one is a point. -/
def toString (p : Path) : String :=
  if p.anchor = "" && p.parts = [] then "." else p.anchor ++ "/".intercalate p.parts

/-- A path from where another leads; an anchored one stands for itself. -/
def append (p q : Path) : Path :=
  if q.anchor = "" then { p with parts := p.parts ++ q.parts } else q

/-- A path with one more component. -/
def child (p : Path) (name : String) : Path :=
  { p with parts := p.parts ++ [name] }

/-- A path without its last component. -/
def parent (p : Path) : Path :=
  { p with parts := p.parts.dropLast }

/-- The last component. -/
def name (p : Path) : String :=
  p.parts.getLast?.getD ""

/-- A name without what stands behind its last point, if there is something on both sides. -/
def stemOf (name : String) : String :=
  let cs := name.toList
  let suffix := (cs.reverse.takeWhile (· != '.')).length
  let stem := cs.take (cs.length - suffix - 1)
  if suffix = 0 || cs.length ≤ suffix + 1 then name else String.ofList stem

/-- The last component without its ending. -/
def stem (p : Path) : String :=
  stemOf p.name

/-- A path with another last component. -/
def withName (p : Path) (name : String) : Path :=
  { p with parts := p.parts.dropLast ++ [name] }

/-- Whether components come before others, or are the same. -/
def partsPrecede : List String → List String → Bool
  | [], _ => true
  | _ :: _, [] => false
  | a :: as, b :: bs => decide (a < b) || (a == b && partsPrecede as bs)

/-- Whether a path comes before another in listings, or is the same. -/
def precedes (p q : Path) : Bool :=
  partsPrecede (p.anchor :: p.parts) (q.anchor :: q.parts)

end Path

end SophiaBind
