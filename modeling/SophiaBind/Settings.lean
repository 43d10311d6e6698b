/-
**Settings** from the environment and from a file of assignments.

A line `KEY=VALUE` assigns; blanks around both do not count, nor does a pair of quotes around the value.
A setting is taken from the environment if it is not blank there, else from the file, else a default.

Main definitions:

* `Settings.assignments` — the assignments of a file's text,
* `Settings.load` — those of the file that stands by,
* `Settings`, `Settings.resolve`.
-/

import SophiaBind.Files
import SophiaBind.Network
import SophiaBind.Text.UpperCase

namespace SophiaBind

/-- The settings of a command. -/
structure Settings where
  network : String
  networkId : Option String
  secretKey : String
  historyDirectory : Path
  logLevel : String

namespace Settings

/-! ### The file -/

/-- A value without a pair of quotes around it. -/
def unquote (cs : List Char) : List Char :=
  match cs with
  | q :: r => if (q = '"' || q = '\'') && r ≠ [] && r.getLast? = some q then r.dropLast else cs
  | [] => []

/-- The assignment on a line, if there is one; a line that begins with `#` is a comment. -/
def assignment? (line : List Char) : Option (String × String) :=
  let cs := Text.trim line
  if cs.head? = some '#' then none
  else
    let key := cs.takeWhile (· != '=')
    if key.length = cs.length then none
    else
      let name := Text.trim key
      if name = [] then none
      else some (String.ofList name, String.ofList (unquote (Text.trim (cs.drop (key.length + 1)))))

/-- The assignments of a text, the last one of a name winning. -/
def assignments (s : String) : List (String × String) :=
  Keyed.putAll [] ((Text.lines s.toList).filterMap assignment?)

/-- The assignments of a file, none if it is not there. -/
def load (p : Path) : App (List (String × String)) := do
  if ← Files.exists_ p then return assignments (← Files.readText p) else return []

/-! ### Settings -/

/-- The secret key of the account that a development node starts with. -/
def defaultSecretKey : String :=
  "bb9f0b01c8c9553cfbaf7ef81a50f977b1326801ebf7294d1c2cbccdedf27476" ++
    "e9bbf604e611b5460a3b3999e9771b6f60417d73ce7c5519e12f7e127a1225ca"

/-- A text without the blanks around it, unless it is blank. -/
def filled? (s : Option String) : Option String :=
  match s with
  | none => none
  | some s => if Text.trimmed s = "" then none else some (Text.trimmed s)

/-- The value of a setting, if it has one that is not blank. -/
def lookup? (environment file : List (String × String)) (name : String) : Option String :=
  (filled? (environment.lookup name)).or (filled? (file.lookup name))

/-- The settings under an environment and the assignments of a file. -/
def resolve (e : Endpoints) (environment file : List (String × String)) : Settings where
  network := (lookup? environment file "FORGAE_NETWORK").getD "local"
  networkId := lookup? environment file "FORGAE_NETWORK_ID"
  secretKey := (lookup? environment file "FORGAE_SECRET_KEY").getD defaultSecretKey
  historyDirectory := Path.ofString ((lookup? environment file "FORGAE_HISTORY_DIR").getD e.history)
  logLevel := Text.upper ((lookup? environment file "FORGAE_LOG_LEVEL").getD "WARNING")

end Settings

/-! ### Log levels -/

/-- What a name of the log stands for: the number of a level, or a format, which has a name as well. -/
inductive LogLevel where
  | number (n : Int)
  | format (text : String)
  deriving DecidableEq, Repr

/-- The level of a name in any case of letters; an unknown name stands for warnings. -/
def LogLevel.ofName (name : String) : LogLevel :=
  let levels : List (String × LogLevel) :=
    [("CRITICAL", .number 50), ("FATAL", .number 50), ("ERROR", .number 40), ("WARNING", .number 30),
     ("WARN", .number 30), ("INFO", .number 20), ("DEBUG", .number 10), ("NOTSET", .number 0),
     ("BASIC_FORMAT", .format "%(levelname)s:%(name)s:%(message)s")]
  (levels.lookup (Text.upper name)).getD (.number 30)

/-- A level as a value. -/
def LogLevel.toValue : LogLevel → Value
  | .number n => .int n
  | .format text => .text text

/-- Sets the least level of what is logged. -/
def setLogLevel (name : String) : App Unit :=
  App.report (.loggingSet (LogLevel.ofName name).toValue "%(message)s")

end SophiaBind
