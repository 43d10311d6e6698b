/-
**Deploying contracts.**

An attempt reads a source, compiles it, puts the contract on the chain, catalogs its functions and binds
them to a table. Every attempt leaves one entry in the deploy history, whether it succeeds or fails; one
that fails also releases its client.

Main definitions:

* `Deployer`, `Phase`,
* `buildCatalog` — from the interface description if there is one, else from the source,
* `DeployedContract`,
* `Deployer.entry` — the entry of an attempt,
* `Deployer.deploy`.
-/

import SophiaBind.Table
import SophiaBind.Source
import SophiaBind.History
import SophiaBind.Catalog.Interface
import SophiaBind.Settings

namespace SophiaBind

/-! ### Cataloging -/

/-- Runs a computation to its result or its fault. -/
def App.attempt {α : Type} (app : App α) : App (Except Fault α) :=
  tryCatch (do return .ok (← app)) fun f => return .error f

/-- The functions of a source, and that they were found there. -/
def catalogOfSource (code : String) : App (Catalog × Bool) := do
  let (catalog, warnings) := Catalog.ofSource code
  App.warnAll warnings
  return (catalog, true)

/-- The functions of a contract, and whether they were found in the source: that is scanned if the
interface description is not wanted, not available, or has no function. -/
def buildCatalog (client : RemoteClient) (s : Source) (useInterface : Bool) : App (Catalog × Bool) := do
  if useInterface then
    match ← App.attempt (App.converse (client.interface s.code s.includes)) with
    | .ok description =>
      let (catalog, warnings) := Catalog.ofInterface description
      App.warnAll warnings
      if catalog.size ≠ 0 then return (catalog, false) else catalogOfSource s.code
    | .error (.api _ reason _) =>
      App.warn ("Interface description unavailable (" ++ reason ++ "); falling back to source scan")
      catalogOfSource s.code
    | .error f => throw f
  else catalogOfSource s.code

/-! ### Deployers -/

/-- How far a deployer got with its latest attempt. -/
inductive Phase where
  | uninitialized
  | compiling
  | deploying
  | cataloging
  | ready
  | failed
  deriving DecidableEq, Repr

/-- The word for a phase. -/
def Phase.name : Phase → String
  | .uninitialized => "uninitialized"
  | .compiling => "compiling"
  | .deploying => "deploying"
  | .cataloging => "cataloging"
  | .ready => "ready"
  | .failed => "failed"

/-- A contract that was deployed: what is known of it, what was compiled, and its functions. -/
structure DeployedContract where
  handle : DeployedHandle
  artifact : Artifact
  table : FunctionTable

/-- How a deployed contract is shown. -/
def DeployedContract.render (d : DeployedContract) : String :=
  "<DeployedContract " ++ d.handle.address.shown ++ " functions=" ++ Value.writtenTexts d.table.names ++ ">"

/-- Deploys contracts for an identity on a network. The log is opened at its first use if it is not
given; a log of its own is kept below `historyDirectory`. -/
structure Deployer where
  network : Network
  keypair : Keypair
  factory : ClientFactory
  useInterface : Bool := true
  log : Option History.Log := none
  historyDirectory : Path
  phase : Phase := .uninitialized

/-- What is to be deployed: a path or a source, and how. -/
structure Deployment where
  source : Source.Origin
  gas : Int := CallOptions.usualGas
  initState : Value := .tuple []
  options : Value := .null

namespace Deployer

/-- A deployer for a network name and what gives an identity; both are checked at once. -/
def open_ (e : Endpoints) (name : String) (networkId : Option String) (secret : Value)
    (factory : ClientFactory) (useInterface : Bool) (log : Option History.Log) : Except Fault Deployer := do
  let network ← Network.resolve e name networkId
  let keypair ← Keypair.resolve secret
  return { network, keypair, factory, useInterface, log, historyDirectory := Path.ofString e.history }

/-! ### Options -/

/-- A part of a sequence as an entry of a map. -/
def entryOf (number : Nat) (v : Value) : Except Fault (Value × Value) :=
  match v.items with
  | .ok [key, value] => .ok (key, value)
  | .ok parts =>
    .error (.badPath ("dictionary update sequence element #" ++ toString number ++ " has length " ++
      toString parts.length ++ "; 2 is required"))
  | .error _ =>
    .error (.misused ("cannot convert dictionary update sequence element #" ++ toString number ++
      " to a sequence"))

/-- Parts of a sequence as entries of a map, of which the first has a number. -/
def entriesFrom (number : Nat) (entries : List (Value × Value)) :
    List Value → Except Fault (List (Value × Value))
  | [] => .ok entries
  | v :: rest => do
    let (key, value) ← entryOf number v
    let key ← key.asKey
    entriesFrom (number + 1) (Value.setEntry entries key value) rest

/-- A value as a map: a sequence of pairs counts as one. -/
def entriesOf (v : Value) : Except Fault (List (Value × Value)) :=
  match v with
  | .map entries => .ok entries
  | v => if v.truthy then do entriesFrom 0 [] (← v.items) else .ok []

/-- An entry as an integer, if it is there and not empty. -/
def integerMember? (entries : List (Value × Value)) (name : String) : Except Fault (Option Int) :=
  match Value.lookup? entries name with
  | none => .ok none
  | some v => if v.truthy then v.toInt.map some else .ok none

/-- The options of the transaction that puts a contract on the chain. -/
def optionsOf (gas : Int) (options : Value) : Except Fault CallOptions := do
  let entries ← entriesOf options
  let amount ← integerMember? entries "amount"
  let ttl ← integerMember? entries "ttl"
  return CallOptions.change { gas := some gas } amount ttl none

/-! ### Recording -/

/-- The entry of an attempt: what was put on the chain, if anything, its gas figures, and the fault if
there was one. -/
def entry (label : String) (handle : Option DeployedHandle) (used price : Int) (fault : Option String) :
    List (LooseText × Json) :=
  let transaction := match handle with | some h => h.transaction | none => .null
  [("deployerType", .text "Deployer"), ("nameOrLabel", .text label), ("transactionHash", transaction),
   ("status", .bool ((Value.ofJson transaction).truthy && fault.isNone)), ("gasPrice", .int price),
   ("gasUsed", .int used), ("result", match handle with | some h => h.address | none => .null),
   ("error", match fault with | some m => .text m | none => .null)]

/-- The log, opened if it is not. -/
def openLog (d : Deployer) : App History.Log :=
  match d.log with
  | some log => return log
  | none => History.Log.open_ d.historyDirectory

/-- The gas figures of a transaction: a client that cannot tell counts as zeros. -/
def gasFigures (client : RemoteClient) (transaction : Json) : App (Int × Int) := do
  match ← App.attempt (App.converse (client.transactionInfo transaction)) with
  | .error f =>
    App.warn ("Could not fetch transaction info for " ++ transaction.shown ++ ": " ++ f.message)
    return (0, 0)
  | .ok info =>
    let used ← App.ofExcept do ((← info.get "gasUsed").getD (.int 0)).toInt
    let price ← App.ofExcept do ((← info.get "gasPrice").getD (.int 0)).toInt
    return (used, price)

/-! ### Attempts -/

/-- What an attempt ends with: the deployer behind it, and the contract or the fault. -/
abbrev Ending := Deployer × Except Fault DeployedContract

/-- Ends an attempt that failed: reports and records it, releases the client, and fails with the same
fault. -/
def fail (d : Deployer) (client : RemoteClient) (label : String) (handle : Option DeployedHandle) (f : Fault) :
    App Ending := do
  let d := { d with phase := .failed }
  App.logError ("Deploy of " ++ label ++ " failed: " ++ f.message)
  match ← App.attempt d.openLog with
  | .error g => return (d, .error g)
  | .ok log =>
    let d := { d with log := some log }
    let rest := do
      log.record (entry label handle 0 0 (some f.summary))
      App.converse client.close
    match ← App.attempt rest with
    | .ok () => return (d, .error f)
    | .error g => return (d, .error g)

/-- Ends an attempt that succeeded: records it with its gas figures and tells the user. -/
def finish (d : Deployer) (label shownName : String) (contract : DeployedContract) : App Ending := do
  let d := { d with phase := .cataloging }
  match ← App.attempt (gasFigures contract.table.client contract.handle.transaction) with
  | .error g => return (d, .error g)
  | .ok (used, price) =>
    match ← App.attempt d.openLog with
    | .error g => return (d, .error g)
    | .ok log =>
      let d := { d with log := some log }
      match ← App.attempt (log.record (entry label (some contract.handle) used price none)) with
      | .error g => return (d, .error g)
      | .ok () =>
        App.print ("===== Contract: " ++ shownName ++ " has been deployed =====")
        return ({ d with phase := .ready }, .ok contract)

/-- Compiles a source and puts the contract on the chain. -/
def create (client : RemoteClient) (s : Source) (what : Deployment) : App (Artifact × DeployedHandle) := do
  let artifact ← App.converse (client.compile s.code s.includes)
  let o ← App.ofExcept (optionsOf what.gas what.options)
  let arguments ← App.ofExcept (Arguments.ofInitState what.initState)
  let handle ← App.converse (client.deploy artifact arguments o)
  return (artifact, handle)

/-- The functions of a contract on the chain, bound to the client that put it there. -/
def bindTable (d : Deployer) (client : RemoteClient) (s : Source) (artifact : Artifact)
    (handle : DeployedHandle) : App DeployedContract := do
  let (catalog, quoteAll) ← buildCatalog client s d.useInterface
  let table : FunctionTable :=
    { catalog, address := handle.address, source := s.code, bytecode := artifact.bytecode, client
      network := d.network, includes := s.includes, quoteAll, factory := d.factory }
  return { handle, artifact, table }

/-- What an attempt is called before its source is read. -/
def labelOf (source : Source.Origin) : String :=
  (Source.contractName? source.toString).getD (Path.ofString source.toString).stem

/-- The name under which the user is told of a deployed source. -/
def shownNameOf (s : Source) : String :=
  match s.path with
  | some p => p.name
  | none => s.label

/-- One attempt by a client that is built for it. -/
def deployBy (d : Deployer) (client : RemoteClient) (what : Deployment) : App Ending := do
  match ← App.attempt (Source.read what.source) with
  | .error f => d.fail client (labelOf what.source) none f
  | .ok s =>
    match ← App.attempt (create client s what) with
    | .error f => d.fail client s.label none f
    | .ok (artifact, handle) =>
      match ← App.attempt (d.bindTable client s artifact handle) with
      | .error f => d.fail client s.label (some handle) f
      | .ok contract => d.finish s.label (shownNameOf s) contract

/-- One attempt to deploy a contract. -/
def deploy (d : Deployer) (what : Deployment) : App Ending := do
  let d := { d with phase := .uninitialized }
  match ← App.attempt (App.converse (d.factory d.network d.keypair)) with
  | .error f => return (d, .error f)
  | .ok client => d.deployBy client what

end Deployer

end SophiaBind
