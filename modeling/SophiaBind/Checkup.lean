/-
**Checking the environment**: the identity that signs, the node, the compiler, and the contracts at hand.

Each check has a verdict: whether it passed, what was found, and perhaps what helps. A check asks its
service once; one that cannot be reached has not passed.

Main definitions:

* `Verdict`, `Finding`,
* `Checkup.identity`, `Checkup.node`, `Checkup.compiler`, `Checkup.contracts` — the checks,
* `Checkup.all` — all of them in order,
* `Checkup.show_` — the findings as a table, and what helps,
* `Checkup.run` — the command.
-/

import SophiaBind.CommandLine
import SophiaBind.Settings
import SophiaBind.NodeClient
import SophiaBind.Source

namespace SophiaBind

/-- What a check came to. -/
structure Verdict where
  passed : Bool
  message : String
  remedy : Option String := none
  deriving DecidableEq, Repr

/-- The verdict of a check with a name. -/
structure Finding where
  name : String
  verdict : Verdict
  deriving DecidableEq, Repr

namespace Checkup

/-! ### Checks -/

/-- Whether an identity follows from a secret key. -/
def identity (secret : Value) : Except Fault Verdict :=
  match Keypair.ofSecret secret with
  | .ok k => .ok ⟨true, "Signing identity: " ++ k.publicKey, none⟩
  | .error f =>
    if f.isFinding then .ok ⟨false, f.message, some "export FORGAE_SECRET_KEY=<128 hex chars>"⟩ else .error f

/-- Asks a service at an address; without a response there is a verdict at once. -/
def visit (service address url remedy : String) (judge : Response → Dialogue Verdict) : Dialogue Verdict :=
  .ask { method := "GET", url } fun
    | .error (_, message) =>
      .done ⟨false, service ++ " not reachable at " ++ address ++ ": " ++ message, some remedy⟩
    | .ok response =>
      if response.status ≠ 200 then
        .done ⟨false, service ++ " at " ++ address ++ " answered HTTP " ++ toString response.status, none⟩
      else judge response

/-- The verdict on a node by its status: it must be of the network's id, if it tells. -/
def judgeStatus (n : Network) (status : Json) : Dialogue Verdict := do
  let id ← NodeClient.get status "network_id" .null
  let version ← NodeClient.get status "node_version" (.text "unknown version")
  if (Value.ofJson id).truthy && !Value.sameKey (Value.ofJson id) (.text n.networkId) then
    return ⟨false, "Node reports network id " ++ id.shown ++ ", expected " ++ n.networkId,
      some ("--network-id " ++ id.shown)⟩
  else return ⟨true, "Node reachable: " ++ n.url ++ " (" ++ version.shown ++ ")", none⟩

/-- Whether the node answers and belongs to the network. -/
def node (n : Network) : Dialogue Verdict :=
  visit "Node" n.url (Network.dropSlashes n.url ++ "/v2/status") "start the node or set FORGAE_LOCAL_URL"
    fun response =>
      match response.json with
      | .error _ => .done ⟨false, "Node at " ++ n.url ++ " returned a non-JSON status", none⟩
      | .ok status => judgeStatus n status

/-- Whether the compiler answers. -/
def compiler (n : Network) : Dialogue Verdict :=
  visit "Compiler" n.compilerUrl (Network.dropSlashes n.compilerUrl ++ "/api-version") "set FORGAE_COMPILER_URL"
    fun response => do
      let version ← match response.json with
        | .error _ => pure (.text "unknown")
        | .ok j => NodeClient.get j "api-version" (.text "unknown")
      return ⟨true, "Compiler reachable: " ++ n.compilerUrl ++ " (api " ++ version.shown ++ ")", none⟩

/-- Whether there is a directory with contracts. -/
def contracts (root : Option Path) : App Verdict := do
  let p ← match root with
    | some p => pure p
    | none => Source.defaultRoot
  if ← Files.isDirectory p then
    let count := (← Files.endingIn Source.ending p).length
    if count = 0 then return ⟨false, p.toString ++ " contains no " ++ Source.ending ++ " files", none⟩
    else return ⟨true, toString count ++ " contract(s) found in " ++ p.toString, none⟩
  else
    return ⟨false, "No " ++ Source.directory ++ "/ directory in " ++ p.parent.toString,
      some ("mkdir " ++ Source.directory)⟩

/-- All checks in order. -/
def all (n : Network) (secret : Value) (root : Option Path) : App (List Finding) := do
  let signer ← App.ofExcept (identity secret)
  let nodeVerdict ← App.converse (node n)
  let compilerVerdict ← App.converse (compiler n)
  let contractsVerdict ← contracts root
  return [⟨"Keypair", signer⟩, ⟨"Node", nodeVerdict⟩, ⟨"Compiler", compilerVerdict⟩,
    ⟨"Contracts", contractsVerdict⟩]

/-! ### Showing -/

/-- The sign of whether something succeeded. -/
def sign (passed : Bool) : String :=
  if passed then "[green]✓[/green]" else "[red]✗[/red]"

/-- What helps with a check that has not passed. -/
def remedyLine? (f : Finding) : Option String :=
  match f.verdict.passed, f.verdict.remedy with
  | false, some remedy => if remedy = "" then none else some ("[bold]" ++ f.name ++ ":[/bold] " ++ remedy)
  | _, _ => none

/-- Shows findings, and what helps; answers whether all passed. -/
def show_ (findings : List Finding) : App Bool := do
  App.show_ (.table "forgae Environment Check" ["Check", "Status", "Details"]
    (findings.map fun f => [f.name, sign f.verdict.passed, f.verdict.message]))
  let remedies := findings.filterMap remedyLine?
  if remedies ≠ [] then
    App.print ""
    App.show_ (.panel "[yellow]Suggested Fixes[/yellow]" ("\n".intercalate remedies))
  return findings.all fun f => f.verdict.passed

/-! ### The command -/

/-- Shows a failure and ends the program. -/
def giveUp {α : Type} (message : String) : App α := do
  App.print ("[red]" ++ message ++ "[/red]")
  throw (.exit 1)

/-- A text that was given, unless it is empty, else another. -/
def given (s other : Option String) : Option String :=
  match s with
  | some s => if s = "" then other else some s
  | none => other

/-- The network that is asked for on the command line or else in the settings. -/
def networkOf (e : Endpoints) (name networkId : Option String) (s : Settings) : Except Fault Network :=
  Network.resolve e ((given name none).getD s.network) (given networkId s.networkId)

/-- The settings where a command runs. -/
def settings (e : Endpoints) : App Settings := do
  let file ← Settings.load (Path.ofString ".env")
  return Settings.resolve e (← get).environment file

/-- Checks everything and says so; the program ends with a failure if a check has not passed. -/
def run (e : Endpoints) (request : CheckupRequest) : App Unit := do
  let s ← settings e
  App.print "[bold blue]forgae doctor[/bold blue]"
  App.print ""
  match networkOf e request.network request.networkId s with
  | .error f => giveUp f.message
  | .ok n =>
    let findings ← all n (.text s.secretKey) request.contracts
    let passed ← show_ findings
    App.print ""
    if passed then App.print "[bold green]✓ All checks passed! Ready to deploy.[/bold green]"
    else
      App.print "[bold red]✗ Some checks failed. See suggested fixes above.[/bold red]"
      throw (.exit 1)

end Checkup

end SophiaBind
