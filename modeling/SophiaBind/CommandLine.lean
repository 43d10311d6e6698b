/-
**The command line.**

Five commands: compile contracts, deploy one, call a function of one, show the deploy history, and check
the environment. The last can also be asked for on its own, with options of its own.

Main definitions:

* `Access` — the network and the identity that a command is for,
* `Command`, `Invocation`, `Invocation.ofWords`,
* `CheckupRequest`, `CheckupRequest.ofWords`.
-/

import SophiaBind.CommandLine.Grammar
import SophiaBind.Path
import SophiaBind.Value

namespace SophiaBind

open CommandLine

/-- The network and the identity that a command is for, where they are not left to the settings; a blank leaves
them to the settings as well. -/
structure Access where
  network : Option (Given String) := none
  networkId : Option (Given String) := none
  secretKey : Option (Given String) := none
  deriving DecidableEq, Repr

/-- A command with its options. `fromSource` says that functions are to be found in the source. -/
inductive Command where
  | compile (path : Option Path) (access : Access)
  | deploy (path : Path) (initState : List String) (gas amount : Given Int) (fromSource : Bool) (access : Access)
  | call (path : Path) (address function : Given String) (arguments : List String) (amount : Given Int)
      (fromSource : Bool) (access : Access)
  | history (limit : Given Int)
  | checkup
  deriving DecidableEq, Repr

/-- A command, and whether it is to report on itself. -/
structure Invocation where
  verbose : Bool := false
  command : Command
  deriving DecidableEq, Repr

namespace Invocation

/-! ### Grammars -/

/-- The option that asks for help. -/
def helpRule : OptionRule := ⟨["-h", "--help"], .help⟩

/-- The options of `Access`. -/
def accessRules : List OptionRule :=
  [⟨["--network"], .text⟩, ⟨["--network-id"], .text⟩, ⟨["--secret-key"], .text⟩]

/-- The whole line: the command's word and all words behind it. -/
def grammar : Grammar where
  options := [helpRule, ⟨["-v", "--verbose"], .switch⟩]
  positions := [⟨"command", .rest⟩]

/-- The words behind `compile`. -/
def compileGrammar : Grammar where
  options := helpRule :: accessRules
  positions := [⟨"path", .optional⟩]

/-- The words behind `deploy`. -/
def deployGrammar : Grammar where
  options := [helpRule, ⟨["--init-state"], .texts⟩, ⟨["--gas"], .integer⟩, ⟨["--amount"], .integer⟩,
    ⟨["--legacy"], .switch⟩] ++ accessRules
  positions := [⟨"path", .one⟩]

/-- The words behind `call`. -/
def callGrammar : Grammar where
  options := [helpRule, ⟨["--amount"], .integer⟩, ⟨["--legacy"], .switch⟩] ++ accessRules
  positions := [⟨"path", .one⟩, ⟨"address", .one⟩, ⟨"function", .one⟩, ⟨"args", .many⟩]

/-- The words behind `history`. -/
def historyGrammar : Grammar where
  options := [helpRule, ⟨["--limit"], .integer⟩]

/-- The words behind `doctor`. -/
def checkupGrammar : Grammar where
  options := [helpRule]

/-! ### Commands -/

/-- The path under a name; an empty text is the path of the directory at hand. -/
def pathAt (r : Reading) (name : String) : Path :=
  Path.ofString ((r.word? name).getD "")

/-- The options of `Access` that were read. -/
def accessAt (r : Reading) : Access :=
  ⟨r.given? "--network", r.given? "--network-id", r.given? "--secret-key"⟩

/-- The command `compile` as read. -/
def compileOf (r : Reading) : Command :=
  .compile ((r.word? "path").map Path.ofString) (accessAt r)

/-- The command `deploy` as read. -/
def deployOf (r : Reading) : Command :=
  .deploy (pathAt r "path") ((r.words? "--init-state").getD []) (r.integerAt "--gas" CallOptions.usualGas)
    (r.integerAt "--amount" 0) (r.isSet "--legacy") (accessAt r)

/-- The command `call` as read. -/
def callOf (r : Reading) : Command :=
  .call (pathAt r "path") ((r.given? "address").getD .blank) ((r.given? "function").getD .blank)
    ((r.words? "args").getD []) (r.integerAt "--amount" 0) (r.isSet "--legacy") (accessAt r)

/-- The command `history` as read. -/
def historyOf (r : Reading) : Command :=
  .history (r.integerAt "--limit" 20)

/-- The grammar behind a command's word, and the command of what is read there. -/
def branch? (word : String) : Option (Grammar × (Reading → Command)) :=
  if word = "compile" then some (compileGrammar, compileOf)
  else if word = "deploy" then some (deployGrammar, deployOf)
  else if word = "call" then some (callGrammar, callOf)
  else if word = "history" then some (historyGrammar, historyOf)
  else if word = "doctor" then some (checkupGrammar, fun _ => .checkup)
  else none

/-- Reads the words of a command line. A word that is left over anywhere is misuse, which is noticed
last. -/
def ofWords (words : List String) : Except Ending Invocation := do
  let whole ← grammar.read words
  match whole.words? "command" with
  | some (word :: rest) =>
    match branch? word with
    | none => throw .misuse
    | some (g, build) => do
      let part ← g.read rest
      if whole.leftOver || part.leftOver then throw .misuse
      else return { verbose := whole.isSet "--verbose", command := build part }
  | _ => throw .misuse

end Invocation

/-! ### Checking on its own -/

/-- What is to be checked, where it is not left to the settings. -/
structure CheckupRequest where
  network : Option String := none
  networkId : Option String := none
  contracts : Option Path := none
  deriving DecidableEq, Repr

namespace CheckupRequest

/-- The options of the check on its own. -/
def grammar : Grammar where
  options :=
    [Invocation.helpRule, ⟨["--network"], .text⟩, ⟨["--network-id"], .text⟩, ⟨["--contracts"], .text⟩]

/-- Reads the words of a command line. -/
def ofWords (words : List String) : Except Ending CheckupRequest := do
  let r ← grammar.read words
  if r.leftOver then throw .misuse
  else return ⟨r.word? "--network", r.word? "--network-id", (r.word? "--contracts").map Path.ofString⟩

end CheckupRequest

end SophiaBind
