/-
**Contract sources** and the files that they include.

A source is a file or a text at hand. An `include` directive at the beginning of a line names a file
relative to the file that holds it; what is included is known to the compiler under the name as written,
and the first file found under a name stays.

Main definitions:

* `Source.contractName?` — the name of the last contract that a code declares,
* `Source.directives` — the files that a code includes,
* `Source.resolveIncludes` — the contents of all included files by name,
* `Source.Origin`, `Source.read` — a source from a file or from a text,
* `Source.discover` — the contract files of a directory.
-/

import SophiaBind.Files
import SophiaBind.LinkedTree
import SophiaBind.Text.Letter
import SophiaBind.Catalog.Source

namespace SophiaBind

/-- Included files by the name as written. -/
abbrev IncludeMap := List (String × String)

/-- A contract's code, where it comes from if that is a file, and what it includes. -/
structure Source where
  path : Option Path
  code : String
  includes : IncludeMap := []

namespace Source

/-! ### Names -/

/-- The characters of a contract's name. -/
def isNameChar (c : Char) : Bool :=
  Text.isAsciiAlphanumeric c || c == '_'

/-- The contract declared at the beginning of a text: its name and the length of the declaration. -/
def declared? (cs : List Char) : Option (List Char × Nat) :=
  match Catalog.afterWord? "contract".toList cs with
  | none => none
  | some r =>
    let name := r.takeWhile isNameChar
    match name, Text.trimStart (r.dropWhile isNameChar) with
    | _ :: _, '=' :: rest => some (name, cs.length - rest.length)
    | _, _ => none

/-- The names of the contracts that a text declares; `skip` characters belong to the one before. -/
def namesFrom (skip : Nat) : List Char → List (List Char)
  | [] => []
  | c :: r =>
    match skip with
    | n + 1 => namesFrom n r
    | 0 =>
      match declared? (c :: r) with
      | some (name, n) => name :: namesFrom (n - 1) r
      | none => namesFrom 0 r

/-- The name of the contract that a code declares last, which is the one that is deployed. -/
def contractName? (code : String) : Option String :=
  (namesFrom 0 code.toList).getLast?.map String.ofList

/-- A text from the first occurrence of another on, or the whole. -/
def fromFirst (part cs : List Char) : List Char :=
  match go cs with
  | some r => r
  | none => cs
where
  go : List Char → Option (List Char)
    | [] => none
    | c :: r => if part.isPrefixOf (c :: r) then some (c :: r) else go r

/-- An included code from its first contract on. -/
def actualContract (code : String) : String :=
  String.ofList (fromFirst "contract ".toList code.toList)

/-! ### Includes -/

/-- The letters that are the same as a small letter of the directive's word, in any case; the letter `i`
is matched without regard to its dot. -/
def matchesLetter (letter c : Char) : Bool :=
  c == letter || c.toNat + 32 == letter.toNat || (letter == 'i' && (c.toNat == 0x130 || c.toNat == 0x131))

/-- What stands behind the directive's word. -/
def afterInclude? : List Char → List Char → Option (List Char)
  | [], cs => some cs
  | letter :: word, c :: r => if matchesLetter letter c then afterInclude? word r else none
  | _ :: _, [] => none

/-- The characters of a file's name in a directive. -/
def isFileChar (c : Char) : Bool :=
  Text.isWord c || c == '/' || c == '.' || c == '-'

/-- The directive at the beginning of a text: the file's name and the length of the directive. -/
def directive? (cs : List Char) : Option (List Char × Nat) :=
  match afterInclude? "include".toList cs with
  | some (c :: r) =>
    if Text.isBlank c then
      match Text.trimStart r with
      | '"' :: r =>
        let name := r.takeWhile isFileChar
        match name, r.dropWhile isFileChar with
        | _ :: _, '"' :: rest => some (name, cs.length - rest.length)
        | _, _ => none
      | _ => none
    else none
  | _ => none

/-- The files named in directives at the beginning of lines; `atStart` says whether the text begins a line,
and `skip` characters belong to the directive before. -/
def directivesFrom (skip : Nat) (atStart : Bool) : List Char → List (List Char)
  | [] => []
  | c :: r =>
    match skip with
    | n + 1 => directivesFrom n (c = '\n') r
    | 0 =>
      match if atStart then directive? (c :: r) else none with
      | some (name, n) => name :: directivesFrom (n - 1) (c = '\n') r
      | none => directivesFrom 0 (c = '\n') r

/-- The files that a code includes, as written. -/
def directives (code : String) : List String :=
  (directivesFrom 0 true code.toList).map String.ofList

/-- The file that a directive in a directory names: where it is, and its text. Only a file that cannot be
read counts as missing, not a path that cannot be resolved. -/
def included (files : LinkedTree) (home : Location) (name : String) : Except Fault (Location × String) := do
  let l ← files.resolve home (Path.ofString name)
  match files.contentAt? l with
  | some content => return (l, ← Files.textOf content)
  | none => throw (.missingInclude name (FileTree.pathOf l).toString)

/-- Collects the files that a code in a directory includes, and those that they include, into `found`.
Each nested step finds a name for the first time, so the fuel of the number of names is enough. -/
def includesFrom (files : LinkedTree) : Nat → Location → String → IncludeMap → Except Fault IncludeMap
  | 0, _, _, found => .ok found
  | fuel + 1, home, code, found =>
    (directives code).foldlM (fun found name =>
      if (found.lookup name).isSome then .ok found
      else do
        let (l, code) ← included files home name
        includesFrom files fuel l.dropLast code (found ++ [(name, actualContract code)]))
      found

/-- The number of directives in all files that can be read. -/
def countDirectives (files : FileTree) : Nat :=
  files.entries.foldl (fun count (_, e) =>
    match e with
    | .file content =>
      match Files.textOf content with
      | .ok code => count + (directives code).length
      | .error _ => count
    | .locked _ | .directory => count) 0

/-- The contents of all files that a code in a directory includes, directly or through others. -/
def resolveIncludes (files : LinkedTree) (home : Location) (code : String) (found : IncludeMap := []) :
    Except Fault IncludeMap :=
  includesFrom files ((directives code).length + countDirectives files.files + 1) home code found

/-! ### Reading -/

/-- Reads a source from a file. -/
def readFile (p : Path) : App Source := do
  let code ← Files.readText p
  let w ← get
  let includes ← App.ofExcept (resolveIncludes { files := w.files } (FileTree.resolve w.home p.parent) code)
  return { path := some p, code, includes }

/-- Whether a text is a source itself and not a path: it has several lines or declares a contract. -/
def isInline (s : String) : Bool :=
  s.toList.contains '\n' || (contractName? s).isSome

/-- Where a source is: in a file, or in a text that is a path or the source itself. -/
inductive Origin where
  | file (p : Path)
  | text (s : String)
  deriving DecidableEq, Repr

/-- The text of an origin. -/
def Origin.toString : Origin → String
  | .file p => p.toString
  | .text s => s

/-- Reads a source from a file, or takes a text for a source. -/
def read : Origin → App Source
  | .file p => readFile p
  | .text s => if isInline s then return { path := none, code := s } else readFile (Path.ofString s)

/-- What a source is called: its contract's name, else its file's. -/
def label (s : Source) : String :=
  match contractName? s.code with
  | some name => name
  | none =>
    match s.path with
    | some p => p.stem
    | none => "contract"

/-! ### Directories of contracts -/

/-- The directory of contracts. -/
def directory : String := "contracts"

/-- The ending of contract files. -/
def ending : String := ".aes"

/-- The directory of contracts where a command runs. -/
def defaultRoot : App Path := do
  return (FileTree.pathOf (← get).home).child directory

/-- The contract files below a directory; a file stands for itself. -/
def discover (root : Option Path) : App (List Path) := do
  let p ← match root with
    | some p => pure p
    | none => defaultRoot
  if ← Files.isFile p then return [p] else Files.endingIn ending p

end Source

end SophiaBind
