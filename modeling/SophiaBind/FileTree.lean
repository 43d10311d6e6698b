/-
**File trees.**

A file or directory is found under its location, the components from the root. There are files that the
system lets nobody open. A path is followed from a directory component by component; a double point goes up,
and every step needs a directory to go from.

Main definitions:

* `Location`, `Entry`, `FileTree`,
* `FileTree.locate` — the location that a path leads to,
* `FileTree.put`, `FileTree.remove`, `FileTree.entryAt?`,
* `FileTree.below` — what lies below a location.
-/

import SophiaBind.Bytes
import SophiaBind.Path
import SophiaBind.Fault

namespace SophiaBind

/-- Components from the root. -/
abbrev Location := List String

/-- What stands at a location: a file, a file that may not be opened, or a directory. -/
inductive Entry where
  | file (content : Bytes)
  | locked (content : Bytes)
  | directory
  deriving DecidableEq, Repr

/-- Entries by location. The root is a directory without an entry. -/
structure FileTree where
  entries : List (Location × Entry) := []
  deriving Repr, Inhabited

namespace FileTree

/-- What stands at a location. -/
def entryAt? (t : FileTree) (l : Location) : Option Entry :=
  if l = [] then some .directory else t.entries.lookup l

/-- Puts an entry at a location. -/
def put (t : FileTree) (l : Location) (e : Entry) : FileTree :=
  ⟨Keyed.put t.entries l e⟩

/-- Takes the entry at a location away. -/
def remove (t : FileTree) (l : Location) : FileTree :=
  ⟨t.entries.filter fun e => e.1 ≠ l⟩

/-- The directories on the way to a location, and itself. -/
def waysTo (l : Location) : List Location :=
  (List.range (l.length + 1)).map l.take

/-- Makes a directory at a location and on the way to it where nothing stands. -/
def putDirectory (t : FileTree) (l : Location) : FileTree :=
  (waysTo l).foldl (fun t m => if (t.entryAt? m).isNone then t.put m .directory else t) t

/-- The longest name of an entry, in bytes. -/
def longestName : Nat := 255

/-- Follows components from a location. -/
def follow (t : FileTree) (l : Location) : List String → Except FileCause Location
  | [] => .ok l
  | part :: rest =>
    match t.entryAt? l with
    | none => .error .absent
    | some (.file _) | some (.locked _) => .error .notDirectory
    | some .directory =>
      if longestName < part.utf8ByteSize then .error .nameTooLong
      else if part = ".." then follow t l.dropLast rest
      else follow t (l ++ [part]) rest

/-- The longest path that the system follows, in bytes. -/
def longestPath : Nat := 4095

/-- The location that a path leads to from a directory. -/
def locate (t : FileTree) (home : Location) (p : Path) : Except FileCause Location :=
  if longestPath < p.toString.utf8ByteSize then .error .nameTooLong
  else follow t (if p.anchor = "" then home else []) p.parts

/-- What a path leads to, if anything. -/
def find? (t : FileTree) (home : Location) (p : Path) : Option Entry :=
  match t.locate home p with
  | .ok l => t.entryAt? l
  | .error _ => none

/-- The rest of a location below another. -/
def relative? (l : Location) (m : Location) : Option (List String) :=
  if l.isPrefixOf m && l.length < m.length then some (m.drop l.length) else none

/-- What lies below a location, each with the components that lead there. -/
def below (t : FileTree) (l : Location) : List (List String × Entry) :=
  t.entries.filterMap fun (m, e) => (relative? l m).map fun parts => (parts, e)

/-- Components behind a location, a double point taking the one in front away. -/
def lexically (l : Location) (parts : List String) : Location :=
  parts.foldl (fun l part => if part = ".." then l.dropLast else l ++ [part]) l

/-- The location of a path by its components alone. -/
def resolve (home : Location) (p : Path) : Location :=
  lexically (if p.anchor = "" then home else []) p.parts

/-- The path of a location. -/
def pathOf (l : Location) : Path :=
  { anchor := "/", parts := l }

end FileTree

end SophiaBind
