/-
**Remote clients.**

A client compiles, describes, deploys and calls contracts for one identity. What it does is a dialogue;
nothing is said about the services behind it.

Main definitions:

* `Artifact`, `DeployedHandle`, `CallRequest`, `CallResult`,
* `RemoteClient`, `ClientFactory`.
-/

import SophiaBind.Dialogue
import SophiaBind.Network

namespace SophiaBind

/-- A compiled contract, with the source and the included files that it was compiled from. -/
structure Artifact where
  bytecode : Json
  source : String
  includes : List (String × String) := []

/-- A contract on the chain, with the transaction that put it there and what is known about that. -/
structure DeployedHandle where
  address : Json
  transaction : Json
  owner : String
  result : Json

/-- A call of a function with encoded arguments. -/
structure CallRequest where
  source : String
  address : Json
  function : LooseText
  arguments : List String
  options : CallOptions
  includes : List (String × String)

/-- A mined call: what it is known by, and its decoding by a type. -/
structure CallResult where
  details : Value
  decode : String → Dialogue Value

/-- What a client does for its identity. -/
structure RemoteClient where
  keypair : Keypair
  compile : String → List (String × String) → Dialogue Artifact
  interface : String → List (String × String) → Dialogue Json
  deploy : Artifact → List String → CallOptions → Dialogue DeployedHandle
  call : CallRequest → Dialogue CallResult
  transactionInfo : Json → Dialogue Value
  close : Dialogue Unit

/-- How clients are built for an identity on a network. -/
abbrev ClientFactory := Network → Keypair → Dialogue RemoteClient

end SophiaBind
