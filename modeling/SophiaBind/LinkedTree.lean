/-
**File trees with symbolic links.**

A link stands at a location and holds a path, which takes its place wherever it is met. A path is resolved
by following its links one by one, whether anything stands behind them or not. A link that is met on its own
way leads round: the rest of the path is then taken by its components alone, and that fails where the system
would be led round as well. The system itself goes from directory to directory and gives up after many links.

Main definitions:

* `LinkedTree`,
* `LinkedTree.real` — the location that components lead to, or where a link leads round,
* `LinkedTree.locate` — where the system is led by a location,
* `LinkedTree.resolve` — the location that a path leads to from a directory,
* `LinkedTree.contentAt?` — the content of a file that can be read.
-/

import SophiaBind.FileTree

namespace SophiaBind

/-- A file tree with links, each of which stands for a path. -/
structure LinkedTree where
  files : FileTree := {}
  links : List (Location × Path) := []
  deriving Repr, Inhabited

namespace LinkedTree

/-- Why components cannot be followed to their end: a link leads round, which leaves a location by components
alone, or a component cannot be handed to the system. -/
inductive Obstacle where
  | round (l : Location)
  | nullByte
  deriving DecidableEq, Repr

/-- Whether a component can be handed to the system. -/
def isUsable (part : String) : Bool :=
  part.toList.all fun c => c.toNat != 0

/-- Where a path sets out that is met at a location. -/
def setsOut (l : Location) (p : Path) : Location :=
  if p.anchor = "" then l else []

/-- Follows components from a location; `onward` says where a link leads, given its own location and the one
that it is met from. -/
def straighten (links : List (Location × Path)) (onward : Location → Location → Path → Except Obstacle Location) :
    Location → List String → Except Obstacle Location
  | l, [] => .ok l
  | l, part :: rest =>
    if isUsable part then
      if part = ".." then straighten links onward l.dropLast rest
      else
        match links.lookup (l ++ [part]) with
        | none => straighten links onward (l ++ [part]) rest
        | some p =>
          match onward (l ++ [part]) l p with
          | .ok m => straighten links onward m rest
          | .error (.round m) => .error (.round (FileTree.lexically m rest))
          | .error .nullByte => .error .nullByte
    else .error .nullByte

/-- Follows components and all links on the way, within links that are being followed already. Each nested
step enters another link, so the fuel of the number of links is enough. -/
def real (links : List (Location × Path)) :
    Nat → List Location → Location → List String → Except Obstacle Location
  | 0, _, l, parts => .error (.round (FileTree.lexically l parts))
  | fuel + 1, within, l, parts =>
    straighten links (fun here l p =>
      if here ∈ within then .error (.round here)
      else real links fuel (here :: within) (setsOut l p) p.parts) l parts

/-- The most links that the system follows for one path. -/
def mostLinks : Nat := 40

/-- Goes from directory to directory; `onward` goes on at a link with the components that are left. -/
def stepwise (t : LinkedTree) (onward : Location → Path → List String → Except FileCause Location) :
    Location → List String → Except FileCause Location
  | l, [] => .ok l
  | l, part :: rest =>
    match t.files.entryAt? l with
    | none => .error .absent
    | some (.file _) | some (.locked _) => .error .notDirectory
    | some .directory =>
      if FileTree.longestName < part.utf8ByteSize then .error .nameTooLong
      else if part = ".." then stepwise t onward l.dropLast rest
      else
        match t.links.lookup (l ++ [part]) with
        | none => stepwise t onward (l ++ [part]) rest
        | some p => onward l p rest

/-- Goes from directory to directory along at most some number of links. -/
def travel (t : LinkedTree) : Nat → Location → List String → Except FileCause Location
  | 0, l, parts => stepwise t (fun _ _ _ => .error .tooManyLinks) l parts
  | fuel + 1, l, parts => stepwise t (fun l p rest => travel t fuel (setsOut l p) (p.parts ++ rest)) l parts

/-- Where the system is led by a location. -/
def locate (t : LinkedTree) (l : Location) : Except FileCause Location :=
  if FileTree.longestPath < (FileTree.pathOf l).toString.utf8ByteSize then .error .nameTooLong
  else travel t mostLinks [] l

/-- The content of the file that the system is led to, if there is one that can be read. -/
def contentAt? (t : LinkedTree) (l : Location) : Option Bytes :=
  match t.locate l with
  | .error _ => none
  | .ok m =>
    match t.files.entryAt? m with
    | some (.file content) => some content
    | _ => none

/-- The location that a path leads to from a directory. -/
def resolve (t : LinkedTree) (home : Location) (p : Path) : Except Fault Location :=
  match real t.links (t.links.length + 1) [] [] (setsOut home p ++ p.parts) with
  | .ok l => .ok l
  | .error .nullByte => .error (.badPath "embedded null byte")
  | .error (.round l) =>
    if l.all isUsable then
      match t.locate l with
      | .error .tooManyLinks => .error (.linkLoop (FileTree.pathOf l).toString)
      | _ => .ok l
    else .error (.badPath "embedded null byte")

end LinkedTree

end SophiaBind
