/-
**The program.**

It takes the files below the directory at hand, the environment and the clock into a world, carries the
command line out in it, shows what there is to see, and puts the files back that have changed. It reaches
no service of its own: every request ends without a connection.

Main definition:

* `main`.
-/

import SophiaBind.Program

namespace SophiaBind.Terminal

/-! ### Taking the world in -/

/-- A file with its content, or a locked one if it cannot be read. -/
def takeFile (e : IO.FS.DirEntry) : IO Entry := do
  try return .file (← IO.FS.readBinFile e.path).toList catch _ => return .locked []

/-- The entries of a directory and of those below it, going down at most `fuel` levels. -/
def takeIn : Nat → Location → Array IO.FS.DirEntry → IO (List (Location × Entry))
  | 0, _, _ => return []
  | fuel + 1, l, found => do
    let mut entries : List (Location × Entry) := []
    for e in found do
      let here := l ++ [e.fileName]
      if ← e.path.isDir then
        entries := entries ++ (here, .directory) :: (← takeIn fuel here (← e.path.readDir))
      else
        entries := entries ++ [(here, ← takeFile e)]
    return entries

/-- The seconds since the beginning of 1970: when a file that is made now was made. -/
def now : IO Int := do
  let (_, path) ← IO.FS.createTempFile
  let time := (← path.metadata).modified.sec
  IO.FS.removeFile path
  return time

/-- The text of a system file, or another if it cannot be read. -/
def systemText (file other : String) : IO String := do
  try IO.FS.readFile file catch _ => return other

/-- The number of the running process, zero where the system does not tell. -/
def process : IO Nat := do
  let stat ← systemText "/proc/self/stat" "0"
  return Decimal.natOfDigits (stat.toList.takeWhile Decimal.isDigit)

/-- The variables that settings are taken from, where they are set. -/
def environment : IO (List (String × String)) := do
  let mut found : List (String × String) := []
  for name in ["FORGAE_NETWORK", "FORGAE_NETWORK_ID", "FORGAE_SECRET_KEY", "FORGAE_HISTORY_DIR",
      "FORGAE_LOG_LEVEL"] do
    match ← IO.getEnv name with
    | some value => found := found ++ [(name, value)]
    | none => pure ()
  return found

/-- The addresses on this machine, where the environment names others. -/
def endpoints : IO Endpoints := do
  let usual : Endpoints := {}
  return {
    node := (← IO.getEnv "FORGAE_LOCAL_URL").getD usual.node
    compiler := (← IO.getEnv "FORGAE_COMPILER_URL").getD usual.compiler
    history := (← IO.getEnv "FORGAE_HISTORY_DIR").getD usual.history }

/-- The world at hand. -/
def world : IO World := do
  let directory ← IO.currentDir
  let home := (Path.ofString directory.toString).parts
  let entries ← takeIn 32 home (← directory.readDir)
  let seed := (Bytes.toNat (← IO.getRandomBytes 8).toList).toUInt64
  return {
    files := entries.foldl (fun t (l, e) => t.put l e) (FileTree.putDirectory {} home)
    home
    environment := ← environment
    clock := ← now
    process := ← process
    host := Text.trimmed (← systemText "/etc/hostname" "localhost")
    token := String.ofList (Hex.encode (← IO.getRandomBytes 3).toList)
    chance := fun i => .ofRatio false (mixHash seed i.toUInt64).toNat UInt64.size
    transport := fun _ _ => .error (.connect, "no connection") }

/-! ### Putting it back -/

/-- Puts entries back that were not there before, or were others. A locked file stays as it is. -/
def putBack (before after : FileTree) : IO Unit := do
  for (l, e) in after.entries do
    if before.entryAt? l ≠ some e then
      let path := FileTree.pathOf l
      match e with
      | .directory => IO.FS.createDirAll path.toString
      | .locked _ => pure ()
      | .file content =>
        IO.FS.createDirAll path.parent.toString
        IO.FS.writeBinFile path.toString (ByteArray.mk content.toArray)

/-! ### Showing -/

/-- The characters within a mark of style. -/
def isStyle (c : Char) : Bool := ('a' ≤ c && c ≤ 'z') || c == ' ' || c == '/'

/-- A text without its marks of style; `skip` characters belong to the mark before. -/
def plainFrom (skip : Nat) : List Char → List Char
  | [] => []
  | c :: r =>
    match skip with
    | n + 1 => plainFrom n r
    | 0 =>
      let mark := r.takeWhile isStyle
      if c = '[' && !mark.isEmpty && (r.drop mark.length).head? = some ']' then plainFrom (mark.length + 1) r
      else c :: plainFrom 0 r

/-- A text without its marks of style. -/
def plain (s : String) : String := String.ofList (plainFrom 0 s.toList)

/-- A text filled up with blanks. -/
def padded (width : Nat) (s : String) : String :=
  s ++ String.ofList (List.replicate (width - s.length) ' ')

/-- The lines of a table. -/
def tableLines (title : String) (columns : List String) (rows : List (List String)) : List String :=
  let rows := columns :: rows.map fun row => row.map plain
  let width (i : Nat) : Nat := (rows.map fun row => (row.getD i "").length).foldl max 0
  plain title :: rows.map fun row =>
    "  ".intercalate ((List.range columns.length).map fun i => padded (width i) (row.getD i ""))

/-- Shows an output. -/
def showOutput : Output → IO Unit
  | .line text => IO.println (plain text)
  | .table title columns rows => do
    for line in tableLines title columns rows do IO.println line
  | .panel title text => do
    IO.println (plain title)
    IO.println (plain text)
  | .value v => IO.println v.shown

/-- Shows an event, as far as it is for the user. -/
def showEvent : Event → IO Unit
  | .shown o => showOutput o
  | .warning message => IO.eprintln message
  | .error message => IO.eprintln message
  | _ => return ()

/-- The exit code of a program that ended so; a fault that is not explained yet is. -/
def exitCode : Except Fault Unit → IO UInt32
  | .ok () => return 0
  | .error (.exit code) => return code.toNat.toUInt32
  | .error f => do
    IO.eprintln (f.name ++ ": " ++ f.message)
    return 1

/-- Carries out a command line in the world at hand: its exit code. -/
def run (words : List String) : IO UInt32 := do
  let before ← world
  let (result, after) := (Program.run (← endpoints) words).runIn before
  for e in after.events do showEvent e
  putBack before.files after.files
  exitCode result

end SophiaBind.Terminal

/-- The program. -/
def main (words : List String) : IO UInt32 :=
  SophiaBind.Terminal.run words
