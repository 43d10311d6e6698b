/-
**Carrying out commands.**

A command reads the settings, does its work by a client of the node and the compiler, and shows what came
of it. One of the library's own findings, or a missing file, is shown to the user and ends the program
with a failure; any other fault goes through.

Main definitions:

* `Program.compile`, `Program.deploy`, `Program.call`, `Program.history` — the commands,
* `Program.momentOf` — the moment that a row of the history was recorded,
* `Program.run` — a whole command line.
-/

import SophiaBind.Checkup
import SophiaBind.Deployer

namespace SophiaBind.Program

/-! ### Clients -/

/-- The client of a network for an identity. -/
def clientOf (n : Network) (k : Keypair) : RemoteClient :=
  NodeClient.remote { network := n, keypair := k }

/-- The client of a network for an identity, with a session of its own that is to be closed. -/
def factory : ClientFactory := fun n k => .tell .sessionOpened (.done (clientOf n k))

/-- The network of a command. -/
def networkOf (e : Endpoints) (a : Access) (s : Settings) : Except Fault Network :=
  Checkup.networkOf e (a.network.bind Given.value?) (a.networkId.bind Given.value?) s

/-- The secret key of a command. -/
def secretOf (a : Access) (s : Settings) : Value :=
  .text ((Checkup.given (a.secretKey.bind Given.value?) none).getD s.secretKey)

/-! ### Compiling -/

/-- The first 24 characters of compiled code and its length; a list of parts counts as well. -/
def briefly (bytecode : Json) : Except Fault String :=
  let line (start : String) (length : Nat) : String :=
    start ++ "... (" ++ toString length ++ " chars)"
  match bytecode.text?, bytecode with
  | some t, _ => .ok (line (String.ofList (t.shown.toList.take 24)) t.points.length)
  | none, .array items => .ok (line (Json.array (items.take 24)).shown items.length)
  | none, j => .error (.notSubscriptable (Value.ofJson j).kind)

/-- Compiles contracts one after the other: a row for each. -/
def compileAll (client : RemoteClient) : List Path → App (List (List String))
  | [] => return []
  | p :: rest => do
    let s ← Source.readFile p
    let artifact ← App.converse (client.compile s.code s.includes)
    let row ← App.ofExcept (briefly artifact.bytecode)
    let rows ← compileAll client rest
    return [p.toString, row] :: rows

/-- Compiles one contract, or all in the directory of contracts. -/
def compile (e : Endpoints) (s : Settings) (path : Option Path) (access : Access) : App Unit := do
  let n ← App.ofExcept (networkOf e access s)
  let k ← App.ofExcept (Keypair.resolve (secretOf access s))
  let paths ← match path with
    | some p => pure [p]
    | none => Source.discover none
  if paths = [] then App.print "[yellow]No contracts found.[/yellow]"
  else
    let client ← App.converse (factory n k)
    let rows ← App.andFinally (compileAll client paths) (App.converse client.close)
    App.show_ (.table "Compiled contracts" ["Contract", "Bytecode"] rows)

/-! ### Deploying -/

/-- A function as a row. -/
def functionRow (f : ContractFunction) : List String :=
  [f.name.shown, f.renderParameters, f.returns, if f.stateful then "yes" else ""]

/-- Shows the functions of a contract. -/
def showCatalog (catalog : Catalog) (title : String) : App Unit :=
  App.show_ (.table title ["Function", "Arguments", "Returns", "Stateful"] (catalog.functions.map functionRow))

/-- What sets a contract up: a single text in parentheses is a list of literals, else every text is one
value. -/
def initStateOf (initState : List String) : Value :=
  match initState with
  | [s] => if (Text.trim s.toList).head? = some '(' then .text s else .list [.text s]
  | texts => .list (texts.map .text)

/-- Shows a contract that was deployed. -/
def showDeployed (d : DeployedContract) : App Unit := do
  App.print ("Address:     [bold]" ++ d.handle.address.shown ++ "[/bold]")
  App.print ("Transaction: " ++ d.handle.transaction.shown)
  App.print ("Owner:       " ++ d.handle.owner)
  showCatalog d.table.catalog ("Functions of " ++ d.handle.address.shown)

/-- Deploys a contract and lists its functions. The log is opened before anything else can fail but the
network. -/
def deploy (e : Endpoints) (s : Settings) (path : Path) (initState : List String) (gas amount : Given Int)
    (fromSource : Bool) (access : Access) : App Unit := do
  let n ← App.ofExcept (networkOf e access s)
  let log ← History.Log.open_ s.historyDirectory
  let k ← App.ofExcept (Keypair.resolve (secretOf access s))
  log.writeMetadata
    [("started_at_unix_seconds", .int (← get).clock), ("network", .text n.name),
      ("network_id", .text n.networkId), ("command", .text "deploy")]
  let deployer : Deployer :=
    { network := n, keypair := k, factory, useInterface := !fromSource, log := some log
      historyDirectory := s.historyDirectory }
  let what : Deployment :=
    { source := .file path, gas := gas.getD CallOptions.usualGas, initState := initStateOf initState
      options := .map [(.text "amount", .int (amount.getD 0))] }
  let (_, ending) ← deployer.deploy what
  let d ← App.ofExcept ending
  App.andFinally (showDeployed d) (App.converse d.table.close)

/-! ### Calling -/

/-- The name of a function that was given; a blank is no name to look a function up by. -/
def functionOf : Given String → Except Fault String
  | .value name => .ok name
  | .blank => .error (.misused "unhashable type: 'list'")

/-- Calls a function of a contract and shows the result. -/
def call (e : Endpoints) (s : Settings) (path : Path) (address function : Given String)
    (arguments : List String) (amount : Given Int) (fromSource : Bool) (access : Access) : App Unit := do
  let n ← App.ofExcept (networkOf e access s)
  let k ← App.ofExcept (Keypair.resolve (secretOf access s))
  let source ← Source.readFile path
  let client ← App.converse (factory n k)
  let work : App Value := do
    let (catalog, quoteAll) ← buildCatalog client source (!fromSource)
    let table : FunctionTable :=
      { catalog, address := .ofGiven .text address, source := source.code, bytecode := .text "", client, network := n
        includes := source.includes, quoteAll, factory }
    let name ← App.ofExcept (functionOf function)
    App.converse (table.invoke name (arguments.map fun s => .value (.text s)) (some { amount }))
  match ← App.andFinally work (App.converse client.close) with
  | .text s => App.print s
  | v => App.show_ (.value v)

/-! ### The history -/

/-- The seconds that the clock can count. -/
def clockRange (seconds : Int) : Bool :=
  decide (Int64.minValue.toInt ≤ seconds ∧ seconds ≤ Int64.maxValue.toInt)

/-- A number rounded down. -/
def floorOf : Binary64 → Except Fault Int
  | .finite negative m e =>
    let (n, d) := Binary64.fraction negative m e
    .ok (n / d)
  | .nan => .error .nanMoment
  | .infinite _ => .error .outOfCalendar

/-- The numbers in which a year is counted. -/
def countRange (n : Int) : Bool :=
  decide (Int32.minValue.toInt ≤ n ∧ n ≤ Int32.maxValue.toInt)

/-- A moment within the calendar, which counts years from 1900, and in a year that can be written. -/
def checkMoment (seconds : Int) : Except Fault Int :=
  let year := (Calendar.civil (seconds / 86400)).1
  if !clockRange seconds then .error .outOfCalendar
  else if !countRange (year - 1900) then .error .beyondYears
  else if !countRange year then .error .tooLateYear
  else .ok seconds

/-- The moment that a row was recorded; nothing stands for now, and a fraction counts as its whole
second. -/
def momentOf (now : Int) (row : History.Row) : Except Fault Int :=
  match History.time row with
  | .null => .ok now
  | .bool b => .ok (if b then 1 else 0)
  | .int i => checkMoment i
  | .float x => do checkMoment (← floorOf x)
  | j => .error (.misused ("'" ++ (Value.ofJson j).kind ++ "' object cannot be interpreted as an integer"))

/-- The text of an entry's field, `None` where it is missing. -/
def fieldText (entry : List (LooseText × Json)) (name : String) : String :=
  ((Json.lookup? entry name).getD .null).shown

/-- The text of an entry's field, empty where it is missing or empty itself. -/
def filledText (entry : List (LooseText × Json)) (name : String) : String :=
  let v := (Json.lookup? entry name).getD .null
  if (Value.ofJson v).truthy then v.shown else ""

/-- A row of the history as it is shown. -/
def historyRow (now : Int) (row : History.Row) : Except Fault (List String) := do
  let entry := match Json.lookup? row "entry" with
    | some (.object members) => members
    | _ => []
  let moment ← momentOf now row
  let succeeded := (Value.ofJson ((Json.lookup? entry "status").getD .null)).truthy
  return [Calendar.render moment, fieldText entry "nameOrLabel", Checkup.sign succeeded,
    filledText entry (if succeeded then "result" else "error"),
    ((Json.lookup? entry "gasUsed").getD (.int 0)).shown]

/-- The last of some items, all of them for a limit of zero; a negative limit drops as many in front. -/
def lastOf {α : Type} (limit : Int) (items : List α) : List α :=
  if limit = 0 then items
  else if 0 < limit then items.drop (items.length - limit.toNat)
  else items.drop (-limit).toNat

/-- Shows the latest attempts of the history; a blank limit is none. -/
def history (s : Settings) (limit : Given Int) : App Unit := do
  let rows ← History.read s.historyDirectory
  let rows := lastOf (limit.getD 0) rows
  if rows.isEmpty then
    App.print ("[yellow]No deploys recorded in " ++ s.historyDirectory.toString ++ "[/yellow]")
  else
    let now := (← get).clock
    let shown ← App.ofExcept (rows.mapM (historyRow now))
    App.show_ (.table "Deploy history" ["When", "Contract", "Status", "Address / Error", "Gas used"] shown)

/-! ### Command lines -/

/-- Does what a command says. -/
def perform (e : Endpoints) (s : Settings) : Command → App Unit
  | .compile path access => compile e s path access
  | .deploy path initState gas amount fromSource access =>
    deploy e s path initState gas amount fromSource access
  | .call path address function arguments amount fromSource access =>
    call e s path address function arguments amount fromSource access
  | .history limit => history s limit
  | .checkup => Checkup.run e {}

/-- Shows a fault that the user can do something about and ends the program; any other goes through. -/
def explain (f : Fault) : App Unit :=
  if f.isFinding || f.isAbsence then Checkup.giveUp f.message else throw f

/-- Carries out a command; checking the environment explains its own failures. -/
def carryOut (e : Endpoints) (s : Settings) (c : Command) : App Unit :=
  match c with
  | .checkup => perform e s .checkup
  | c => tryCatch (perform e s c) explain

/-- Carries out a command line. -/
def run (e : Endpoints) (words : List String) : App Unit := do
  match Invocation.ofWords words with
  | .error ending => throw (.exit ending.code)
  | .ok invocation =>
    let s ← Checkup.settings e
    setLogLevel (if invocation.verbose then "DEBUG" else s.logLevel)
    carryOut e s invocation.command

/-- Checks the environment as a command line of its own asks. -/
def runCheckup (e : Endpoints) (words : List String) : App Unit := do
  match CheckupRequest.ofWords words with
  | .error ending => throw (.exit ending.code)
  | .ok request => Checkup.run e request

end SophiaBind.Program
