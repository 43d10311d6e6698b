/-
**The deploy history.**

Every run has a directory of its own, named by its id, in which each attempt to deploy is one line of
JSON. Reading collects the attempts of all runs, the oldest first, and passes over entries that are not
valid.

Main definitions:

* `History.problems` — what is wrong with an entry,
* `History.sanitize`, `History.freshRunId` — names of runs,
* `History.Log`, `History.Log.open_`, `History.Log.record`, `History.Log.writeMetadata`,
* `History.read`.
-/

import SophiaBind.Files
import SophiaBind.Calendar
import SophiaBind.History.Order
import SophiaBind.Text.Letter

namespace SophiaBind.History

/-! ### Entries -/

/-- The names that an entry has, in order. -/
def entryNames : List String :=
  ["deployerType", "error", "gasPrice", "gasUsed", "nameOrLabel", "result", "status", "transactionHash"]

/-- Whether a value is a whole number; truth values count. -/
def isWhole : Json → Bool
  | .int _ => true
  | .bool _ => true
  | _ => false

/-- The problem of a gas figure that is no whole number. -/
def gasProblem (entry : List (LooseText × Json)) (name : String) : List String :=
  match Json.lookup? entry name with
  | some v => if isWhole v then [] else [name ++ " must be an int"]
  | none => []

/-- What is wrong with an entry; nothing if it is valid. -/
def problems (entry : List (LooseText × Json)) : List String :=
  let missing := entryNames.filter fun name => (Json.lookup? entry name).isNone
  let absent := if missing = [] then [] else ["missing keys: " ++ Value.writtenTexts (missing.map .whole)]
  let status := match Json.lookup? entry "status" with
    | some (.bool _) | none => []
    | some _ => ["status must be a bool"]
  let reason := match Json.lookup? entry "status" with
    | some (.bool false) =>
      if (Value.ofJson ((Json.lookup? entry "error").getD .null)).truthy then []
      else ["failed entries must carry an error message"]
    | _ => []
  absent ++ status ++ gasProblem entry "gasPrice" ++ gasProblem entry "gasUsed" ++ reason

/-! ### Names of runs -/

/-- The characters that the name of a run keeps. -/
def keeps (c : Char) : Bool :=
  Text.isAlphanumeric c || c == '-' || c == '_' || c == '.'

/-- A text as the name of a directory: at most 120 characters, an underscore for each that is not kept. -/
def sanitize (s : String) : String :=
  String.ofList ((s.toList.map fun c => if keeps c then c else '_').take 120)

/-- The id of a run that has none: when, by which process, and a part by chance. -/
def freshRunId (kind : String) (w : World) : String :=
  kind ++ "_" ++ Calendar.stamp w.clock ++ "_pid" ++ toString w.process ++ "_" ++ w.token

/-! ### Logs -/

/-- The log of a run. -/
structure Log where
  runId : String
  root : Path
  deriving DecidableEq, Repr, Inhabited

namespace Log

/-- The file of what is known about the run. -/
def metadataFile (log : Log) : Path := log.root.append (Path.ofString "run_metadata.json")

/-- The file of the attempts. -/
def actionsFile (log : Log) : Path := log.root.append (Path.ofString "actions.jsonl")

/-- Opens the log of a run below a directory, making the run's directory if it is not there. -/
def open_ (base : Path) (runId : Option String := none) : App Log := do
  let w ← get
  let id := match runId with
    | some id => if id = "" then freshRunId "deploy" w else id
    | none => freshRunId "deploy" w
  let name := sanitize id
  let root := base.append (Path.ofString name)
  Files.makeDirectories root
  tryCatch (Files.writeText (root.append (Path.ofString ".hostname")) w.host) fun e => do
    match e with
    | .file _ => return ()
    | e => throw e
  return ⟨name, root⟩

/-- Writes what is known about the run; its id comes first and can be replaced. -/
def writeMetadata (log : Log) (members : List (LooseText × Json)) : App Unit :=
  Files.replaceJson log.metadataFile (.object (Keyed.putAll [("run_id", .text log.runId)] members))

/-- The row of an entry. -/
def row (log : Log) (time : Int) (entry : List (LooseText × Json)) : Json :=
  .object [("t", .int time), ("run_id", .text log.runId), ("entry", .object entry)]

/-- The line of a row: its members in the order of names, and a line feed. -/
def line (j : Json) : String :=
  String.ofList (j.sorted.render ++ ['\n'])

/-- Records an entry. -/
def record (log : Log) (entry : List (LooseText × Json)) : App Unit := do
  let row := log.row (← get).clock entry
  if row.isWritable then Files.appendText log.actionsFile (line row) else throw .tooLongNumber

end Log

/-! ### Reading -/

/-- The rows of a file whose entries are valid; a warning says what is wrong with the others. -/
def validRows (p : Path) : List Row → App (List Row)
  | [] => return []
  | row :: rest => do
    match Json.lookup? row "entry" with
    | some (.object entry) =>
      match problems entry with
      | [] => return row :: (← validRows p rest)
      | found =>
        App.warn ("Skipping malformed history entry in " ++ p.toString ++ ": " ++ "; ".intercalate found)
        validRows p rest
    | _ => validRows p rest

/-- The valid rows of files, one file after the other. -/
def rowsOf : List Path → App (List Row)
  | [] => return []
  | p :: rest => do
    let rows ← Files.readRows p "deploy history"
    let valid ← validRows p rows
    return valid ++ (← rowsOf rest)

/-- All recorded attempts below a directory, the oldest first. -/
def read (base : Path) : App (List Row) := do
  if ← Files.isDirectory base then
    let rows ← rowsOf (← Files.inChildren "actions.jsonl" base)
    App.ofExcept (sortByTime rows)
  else return []

end SophiaBind.History
