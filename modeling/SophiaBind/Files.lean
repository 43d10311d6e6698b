/-
**Reading and writing files.**

Text is kept in UTF-8; when it is read, carriage returns become line feeds. A file is replaced atomically
by writing a temporary file beside it and renaming that.

Main definitions:

* `Files.find`, `Files.exists_`, `Files.isFile`, `Files.isDirectory`,
* `Files.readText`, `Files.writeText`, `Files.appendText`, `Files.makeDirectories`,
* `Files.replaceText`, `Files.replaceJson` — atomic writing,
* `Files.readTextIfAny`, `Files.readRows` — reading that passes over what cannot be read,
* `Files.endingIn` — the files below a directory with an ending.
-/

import SophiaBind.World
import SophiaBind.Text.Lines
import SophiaBind.Json.Parser
import SophiaBind.Json.Printer

namespace SophiaBind.Files

/-! ### Questions -/

/-- Whether a path can be handed to the system. -/
def isUsable (p : Path) : Bool :=
  p.parts.all fun part => part.toList.all fun c => c.toNat != 0

/-- What a path leads to, if anything; a name that is too long is a failure. -/
def find (p : Path) : App (Option Entry) := do
  if isUsable p then
    let w ← get
    match w.files.locate w.home p with
    | .ok l => return w.files.entryAt? l
    | .error .nameTooLong => throw (.file { cause := .nameTooLong, path := p.toString })
    | .error _ => return none
  else return none

/-- Whether a path leads to something. -/
def exists_ (p : Path) : App Bool := do
  return (← find p).isSome

/-- Whether a path leads to a file. -/
def isFile (p : Path) : App Bool := do
  return (← find p) matches some (.file _) | some (.locked _)

/-- Whether a path leads to a directory. -/
def isDirectory (p : Path) : App Bool := do
  return (← find p) matches some .directory

/-- The location that a path leads to. -/
def locate (p : Path) : App Location := do
  if isUsable p then
    let w ← get
    match w.files.locate w.home p with
    | .ok l => return l
    | .error cause => throw (.file { cause, path := p.toString })
  else throw (.badPath "embedded null byte")

/-! ### Reading -/

/-- The bytes of a file. -/
def readBytes (p : Path) : App Bytes := do
  let l ← locate p
  match (← get).files.entryAt? l with
  | some (.file content) => return content
  | some (.locked _) => throw (.file { cause := .refused, path := p.toString })
  | some .directory => throw (.file { cause := .isDirectory, path := p.toString })
  | none => throw (.file { cause := .absent, path := p.toString })

/-- The text of a file's bytes. -/
def textOf (content : Bytes) : Except Fault String :=
  match Utf8.decode content with
  | .ok cs => .ok (String.ofList (Text.normalizeNewlines cs))
  | .error why => .error (.notUtf8 why)

/-- The text of a file. -/
def readText (p : Path) : App String := do
  App.ofExcept (textOf (← readBytes p))

/-! ### Writing -/

/-- Fails if the system refuses an action on a path. -/
def permit (action : FileAction) (p : Path) (target : Option String := none) : App Unit := do
  if (← get).refuses action then throw (.file { cause := .refused, path := p.toString, target })

/-- Puts an entry at a location. -/
def put (l : Location) (e : Entry) : App Unit :=
  modify fun w => { w with files := w.files.put l e }

/-- Opens a path for writing: what is in the file, nothing if the file is new. -/
def openFile (p : Path) : App (Location × Bytes) := do
  let l ← locate p
  match (← get).files.entryAt? l with
  | some .directory => throw (.file { cause := .isDirectory, path := p.toString })
  | some (.locked _) => throw (.file { cause := .refused, path := p.toString })
  | some (.file content) =>
    permit (.openFile l) p
    return (l, content)
  | none =>
    permit (.openFile l) p
    return (l, [])

/-- The bytes of a text. -/
def bytesOf : LooseText → Except Fault Bytes
  | .whole s => .ok (Utf8.encode s.toList)
  | .broken t => .error (.notEncodable t)

/-- Makes a text the content of a file; the old content goes first, also if the text has no bytes. -/
def writeText (p : Path) (s : LooseText) : App Unit := do
  let (l, _) ← openFile p
  put l (.file [])
  let content ← App.ofExcept (bytesOf s)
  permit (.writeFile l) p
  put l (.file content)

/-- Writes a text behind the content of a file. -/
def appendText (p : Path) (s : String) : App Unit := do
  let (l, content) ← openFile p
  put l (.file content)
  permit (.writeFile l) p
  put l (.file (content ++ Utf8.encode s.toList))

/-- Makes one directory. -/
def makeDirectory (p : Path) : App Unit := do
  let l ← locate p
  match (← get).files.entryAt? l with
  | some _ => throw (.file { cause := .present, path := p.toString })
  | none =>
    permit (.makeDirectory l) p
    put l .directory

/-- Makes a directory unless it is there. -/
def ensureDirectory (p : Path) : App Unit :=
  tryCatch (makeDirectory p) fun e => do
    match e with
    | .file { cause := .absent, .. } => throw e
    | .file _ => if ← isDirectory p then return () else throw e
    | e => throw e

/-- Makes a directory with those above it that are missing, going up at most `fuel` components. -/
def makeDirectoriesFrom : Nat → Path → App Unit
  | 0, p => ensureDirectory p
  | fuel + 1, p =>
    tryCatch (ensureDirectory p) fun e => do
      match e with
      | .file { cause := .absent, .. } =>
        makeDirectoriesFrom fuel p.parent
        ensureDirectory p
      | e => throw e

/-- Makes a directory with those above it that are missing. -/
def makeDirectories (p : Path) : App Unit :=
  makeDirectoriesFrom p.parts.length p

/-- Renames a file, replacing the file at the target. A double point at the end of a path names a directory
in use. -/
def rename (p q : Path) : App Unit := do
  let source ← locate p
  let target ← locate q
  let fault (cause : FileCause) : Fault := .file { cause, path := p.toString, target := some q.toString }
  if p.name = ".." || q.name = ".." then throw (fault .busy)
  let w ← get
  match w.files.entryAt? source, w.files.entryAt? target with
  | none, _ => throw (fault .absent)
  | some .directory, _ => throw (fault .notDirectory)
  | some _, some .directory => throw (fault .isDirectory)
  | some e, _ =>
    permit (.rename source target) p (some q.toString)
    modify fun w => { w with files := (w.files.remove source).put target e }

/-- Deletes a file, if there is one. -/
def delete (p : Path) : App Unit := do
  let w ← get
  match w.files.locate w.home p with
  | .error _ => return ()
  | .ok l =>
    match w.files.entryAt? l with
    | some (.file _) | some (.locked _) => set { w with files := w.files.remove l }
    | _ => return ()

/-! ### Atomic writing -/

/-- The temporary file beside a path, named after the running process. -/
def temporary (p : Path) (process : Nat) : Path :=
  p.withName (p.name ++ ".tmp." ++ toString process)

/-- Makes a text the content of a file, which stays as it was if that fails. -/
def replaceText (p : Path) (s : LooseText) : App Unit := do
  makeDirectories p.parent
  if p.name = "" then throw (.badPath (p.toString ++ " has an empty name"))
  let tmp := temporary p (← get).process
  tryCatch
    (do
      writeText tmp s
      rename tmp p)
    fun e => do
      if e.isWriteFailure then
        App.logError ("Atomic write to " ++ p.toString ++ " failed: " ++ e.message)
        delete tmp
      throw e

/-- Makes a JSON value the content of a file, over several lines, its members in the order of names. -/
def replaceJson (p : Path) (j : Json) : App Unit :=
  if j.isWritable then replaceText p (String.ofList (Json.renderIndented 0 j.sorted ++ ['\n']))
  else throw .tooLongNumber

/-! ### Reading what can be read -/

/-- The text of a file, if there is one that can be read; a failure of the system is reported. -/
def readTextIfAny (p : Path) (context : String) : App (Option String) := do
  if ← exists_ p then
    tryCatch (return some (← readText p)) fun e => do
      match e with
      | .file f =>
        App.logError ("Failed to read " ++ p.toString ++ " (" ++ context ++ "): " ++ f.message)
        return none
      | e => throw e
  else return none

/-- The object on a line, if there is one; a line that is no JSON is reported, but one with a number of
too many digits is a failure. -/
def rowOf (p : Path) (context : String) (number : Nat) (line : List Char) :
    App (Option (List (LooseText × Json))) := do
  if line.all Text.isBlank then return none
  match Json.parseChars line with
  | .ok (.object members) => return some members
  | .ok _ => return none
  | .error e =>
    match e.digits? with
    | some count => throw (.tooManyDigits count)
    | none =>
      App.warn ("Skipping malformed line " ++ toString number ++ " in " ++ p.toString ++ " (" ++ context ++
        "): " ++ e.message)
      return none

/-- The objects on lines, of which the first has a number. -/
def rowsFrom (p : Path) (context : String) : Nat → List (List Char) → App (List (List (LooseText × Json)))
  | _, [] => return []
  | number, line :: rest => do
    let row ← rowOf p context number line
    let rows ← rowsFrom p context (number + 1) rest
    return row.toList ++ rows

/-- The objects of a file with one JSON value a line. -/
def readRows (p : Path) (context : String) : App (List (List (LooseText × Json))) := do
  match ← readTextIfAny p context with
  | none => return []
  | some s => rowsFrom p context 1 (Text.lines s.toList)

/-! ### Listings -/

/-- Whether a name ends in a text. -/
def endsIn (ending name : String) : Bool :=
  ending.toList.isSuffixOf name.toList

/-- What lies below the directory that a path leads to; nothing if it leads to none. -/
def entriesBelow (p : Path) : App (List (List String × Entry)) := do
  match ← find p with
  | some .directory => return (← get).files.below (← locate p)
  | _ => return []

/-- The files below a directory whose names have an ending, in the order of listings. -/
def endingIn (ending : String) (p : Path) : App (List Path) := do
  let found := (← entriesBelow p).filterMap fun (parts, e) =>
    match e with
    | .file _ | .locked _ =>
      if endsIn ending (parts.getLast?.getD "") then some { p with parts := p.parts ++ parts } else none
    | .directory => none
  return found.mergeSort Path.precedes

/-- The paths of a name in the directories directly below another, in the order of listings. -/
def inChildren (name : String) (p : Path) : App (List Path) := do
  let found := (← entriesBelow p).filterMap fun (parts, _) =>
    match parts with
    | [child, n] => if n = name then some { p with parts := p.parts ++ [child, n] } else none
    | _ => none
  return found.mergeSort Path.precedes

end SophiaBind.Files
