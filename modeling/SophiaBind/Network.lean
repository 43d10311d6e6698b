/-
**Networks**: the end points behind a name.

Three names are known; any other name is the address of a node and needs the network's id. A node on this
machine serves its internal interface under a path of its own.

Main definitions:

* `Endpoints` — the addresses that stand behind the known names of this machine,
* `Network`, `Network.resolve`, `Network.internalUrl`.
-/

import SophiaBind.Fault
import SophiaBind.Catalog.Source

namespace SophiaBind

/-- The addresses on this machine, and the directory of the deploy history. -/
structure Endpoints where
  node : String := "http://localhost:3001"
  compiler : String := "http://localhost:3080"
  history : String := ".forgae-history"
  deriving DecidableEq, Repr

/-- A network with its end points. -/
structure Network where
  name : String
  url : String
  internalUrl : String
  networkId : String
  compilerUrl : String
  deriving DecidableEq, Repr

namespace Network

/-- An address without the slashes at its end. -/
def dropSlashes (url : String) : String :=
  String.ofList (url.toList.reverse.dropWhile (· == '/')).reverse

/-- Whether a text contains another. -/
def mentions (part s : String) : Bool :=
  Catalog.occursIn part.toList s.toList

/-- The address of the internal interface. -/
def internalUrlOf (url : String) : String :=
  let base := dropSlashes url
  if mentions "localhost" base || mentions "127.0.0.1" base then base ++ "/internal" else base

/-- The address and id behind a known name. -/
def known? (e : Endpoints) (name : String) : Option (String × String) :=
  if name = "local" then some (e.node, "ae_devnet")
  else if name = "testnet" then some ("https://sdk-testnet.aepps.com", "ae_uat")
  else if name = "mainnet" then some ("https://sdk-mainnet.aepps.com", "ae_mainnet")
  else none

/-- The network of a name that is not taken for a known one. -/
def custom (name : String) (networkId : Option String) (compiler : String) : Except Fault Network :=
  match networkId with
  | none => .error (.invalidNetwork name "both network and networkId should be passed")
  | some id =>
    if mentions "local" name then .error (.invalidNetwork name "both network and networkId should be passed")
    else .ok ⟨name, dropSlashes name, internalUrlOf name, id, compiler⟩

/-- The network of a name. With an id the name is an address, without one it must be known. -/
def resolve (e : Endpoints) (name : String) (networkId : Option String := none)
    (compilerUrl : Option String := none) : Except Fault Network :=
  let compiler := match compilerUrl with
    | none => e.compiler
    | some url => if url = "" then e.compiler else url
  match networkId, known? e name with
  | none, some (url, id) => .ok ⟨name, url, internalUrlOf url, id, compiler⟩
  | networkId, _ => custom name networkId compiler

end Network

end SophiaBind
