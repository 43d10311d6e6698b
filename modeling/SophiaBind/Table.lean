/-
**Tables of a contract's functions.**

A table binds the functions of a catalog to a contract on the chain and to a client that signs. From it
come alternate tables: the same functions of the same contract, signed by another identity.

Main definitions:

* `Argument` — what a call is given: values, and at the end perhaps a client for this call,
* `CallResult.decoded` — the result of a call, by the type that a function returns,
* `FunctionTable`, `FunctionTable.invoke`, `FunctionTable.call`, `FunctionTable.withIdentity`,
* `IdentityTable`, with the same operations,
* `callOptionsOf` — the options of a raw call.
-/

import SophiaBind.Client
import SophiaBind.Arguments
import SophiaBind.Keypair
import SophiaBind.Result

namespace SophiaBind

/-- What a call is given. -/
inductive Argument where
  | value (v : Value)
  | client (c : RemoteClient)

/-- An argument as a value; a client is an object without fields of its own. -/
def Argument.toValue : Argument → Value
  | .value v => v
  | .client _ => .record []

/-- Takes the client at the end of the arguments away, if there is one. -/
def splitClient (args : List Argument) : Option RemoteClient × List Argument :=
  match args.getLast? with
  | some (.client c) => (some c, args.dropLast)
  | _ => (none, args)

/-- The result of a call, decoded by the type that a function returns; blanks around the type do not count. -/
def CallResult.decoded (result : CallResult) (returns : String) : Dialogue Value := do
  let type := Text.trimmed returns
  let answer ← result.decode type
  .ofExcept (Result.ofDecoded type answer)

/-! ### Tables -/

/-- The functions of a contract, signed by the client that it was deployed with. `quoteAll` says that they
were found in the source. -/
structure FunctionTable where
  catalog : Catalog
  address : Json
  source : String
  bytecode : Json
  client : RemoteClient
  network : Network
  includes : List (String × String)
  quoteAll : Bool
  factory : ClientFactory

/-- The functions of a table, signed by another client. -/
structure IdentityTable where
  parent : FunctionTable
  client : RemoteClient

namespace FunctionTable

variable (t : FunctionTable)

/-- The names of the functions that the table binds. -/
def names : List LooseText := t.catalog.bindings.map Prod.fst

/-- The names as they are shown. -/
def keys : List String := t.names.map LooseText.shown

/-- The function of a name. -/
def function (name : LooseText) : Except Fault ContractFunction :=
  match t.catalog.get? name with
  | some f => .ok f
  | none => .error (.unknownFunction name.shown (t.catalog.names.map LooseText.shown))

/-- The request of a call with encoded arguments. -/
def callRequest (name : LooseText) (literals : List String) (o : CallOptions) : CallRequest where
  source := t.source
  address := t.address
  function := name
  arguments := literals
  options := o
  includes := t.includes

/-- The arguments and options of a call: given options leave no argument to be read for options. -/
def prepare (f : ContractFunction) (args : List Value) (options : Option CallOptions) :
    Except Fault (List String × CallOptions) := do
  let declared := f.parameters.length
  let (args, o) ← match options with
    | none => Arguments.split declared args {}
    | some o => .ok (args.take declared, o)
  let literals ← Arguments.encode t.quoteAll f.parameters args
  return (literals, o)

/-- Calls a function by a client and decodes the result by its type. -/
def invokeBy (client : RemoteClient) (name : LooseText) (args : List Value) (options : Option CallOptions) :
    Dialogue Value := do
  let f ← .ofExcept (t.function name)
  let (literals, o) ← .ofExcept (t.prepare f args options)
  let result ← client.call (t.callRequest name literals o)
  result.decoded f.returns

/-- Calls a function; a client at the end of the arguments signs this one call. -/
def invoke (name : LooseText) (args : List Argument) (options : Option CallOptions := none) : Dialogue Value :=
  let (client, args) := splitClient args
  t.invokeBy (client.getD t.client) name (args.map Argument.toValue) options

/-- A field of an options map as an integer, or a default for one that is missing or empty. -/
def optionField (options : Value) (name : String) (default : Int) : Except Fault Int := do
  let v := (← options.get name).getD .null
  if v.truthy then v.toInt else return default

/-- The options and arguments of a raw call. -/
def callOptionsOf (options : Value) : Except Fault (CallOptions × List String) := do
  let options := if options.truthy then options else .map []
  let amount ← optionField options "amount" 0
  let ttl ← optionField options "ttl" 100
  let literals ← Arguments.ofValue ((← options.get "args").getD .null)
  return ({ amount := .value (max amount 0), ttl }, literals)

/-- Calls a function by a client without looking it up, and leaves the result as it is. -/
def callBy (client : RemoteClient) (name : LooseText) (options : Value) : Dialogue CallResult := do
  let (o, literals) ← .ofExcept (callOptionsOf options)
  client.call (t.callRequest name literals o)

/-- Calls a function without looking it up, and leaves the result as it is. -/
def call (name : LooseText) (options : Value) : Dialogue CallResult :=
  t.callBy t.client name options

/-- The same functions for another identity, by a client built for it. -/
def withIdentity (secret : Value) : Dialogue IdentityTable := do
  let keypair ← .ofExcept (Keypair.resolve secret)
  let client ← t.factory t.network keypair
  return { parent := t, client }

/-- Releases the table's client. -/
def close : Dialogue Unit := t.client.close

/-- How the table is shown. -/
def render : String :=
  "<ProxyFunctionTable " ++ t.address.shown ++ " functions=" ++ Value.writtenTexts t.names ++ ">"

end FunctionTable

namespace IdentityTable

variable (t : IdentityTable)

/-- The names of the functions that the table binds, those of its parent's catalog. -/
def names : List LooseText := t.parent.catalog.bindings.map Prod.fst

/-- The names as they are shown. -/
def keys : List String := t.names.map LooseText.shown

/-- Calls a function; a client among the arguments changes nothing. -/
def invoke (name : LooseText) (args : List Argument) (options : Option CallOptions := none) : Dialogue Value :=
  t.parent.invokeBy t.client name (args.map Argument.toValue) options

/-- Calls a function without looking it up, and leaves the result as it is. -/
def call (name : LooseText) (options : Value) : Dialogue CallResult :=
  t.parent.callBy t.client name options

/-- The same functions for yet another identity. -/
def withIdentity (secret : Value) : Dialogue IdentityTable :=
  t.parent.withIdentity secret

/-- Releases the table's client. -/
def close : Dialogue Unit := t.client.close

/-- How the table is shown. -/
def render : String :=
  "<AlternateIdentityTable " ++ t.parent.address.shown ++ " as " ++ t.client.keypair.publicKey ++ ">"

end IdentityTable

/-- How a function of a table is shown. -/
def ContractFunction.renderBinding (f : ContractFunction) : String :=
  "<ProxyFunction " ++ f.signature ++ ">"

end SophiaBind
