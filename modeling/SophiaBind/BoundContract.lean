/-
**What a caller holds**: a table, an alternate table, or a deployed contract.

All three show their functions under their names. As members, their own fields and operations win over
functions of the same name; as items, every function is found under its name, and beside them only
`from` and `call`.

Main definitions:

* `BoundContract`, with `invoke`, `call`, `withIdentity`, `close`,
* `Member`, `BoundContract.member`, `BoundContract.item`, `BoundContract.contains`,
* `BoundContract.use` — a member or an item called with arguments.
-/

import SophiaBind.Deployer

namespace SophiaBind

/-- What a caller holds. -/
inductive BoundContract where
  | table (t : FunctionTable)
  | alternate (t : IdentityTable)
  | deployed (d : DeployedContract)

/-- What a name stands for: a function of the contract, an operation, or a field. -/
inductive Member where
  | function (f : ContractFunction)
  | operation (name : String)
  | field (name : String)
  deriving DecidableEq, Repr

namespace BoundContract

/-- The table whose functions are shown. -/
def root : BoundContract → FunctionTable
  | .table t => t
  | .alternate t => t.parent
  | .deployed d => d.table

/-- The client that signs. -/
def client : BoundContract → RemoteClient
  | .table t => t.client
  | .alternate t => t.client
  | .deployed d => d.table.client

/-- The address of the contract. -/
def address : BoundContract → Json
  | .table t => t.address
  | .alternate t => t.parent.address
  | .deployed d => d.handle.address

/-- The names of the functions. -/
def keys : BoundContract → List String
  | .table t => t.keys
  | .alternate t => t.keys
  | .deployed d => d.table.keys

/-- How it is shown. -/
def render : BoundContract → String
  | .table t => t.render
  | .alternate t => t.render
  | .deployed d => d.render

/-- Calls a function. -/
def invoke (b : BoundContract) (name : LooseText) (args : List Argument) (options : Option CallOptions := none) :
    Dialogue Value :=
  match b with
  | .table t => t.invoke name args options
  | .alternate t => t.invoke name args options
  | .deployed d => d.table.invoke name args options

/-- Calls a function without looking it up, and leaves the result as it is. -/
def call (b : BoundContract) (name : LooseText) (options : Value) : Dialogue CallResult :=
  match b with
  | .table t => t.call name options
  | .alternate t => t.call name options
  | .deployed d => d.table.call name options

/-- The same functions for another identity. -/
def withIdentity (b : BoundContract) (secret : Value) : Dialogue IdentityTable :=
  b.root.withIdentity secret

/-- Releases the client that signs. -/
def close (b : BoundContract) : Dialogue Unit := b.client.close

/-! ### Names -/

/-- The fields of its own. -/
def fields : BoundContract → List String
  | .table _ =>
    ["catalog", "address", "source", "bytecode", "client", "network", "file_system", "legacy", "keypair"]
  | .alternate _ => ["parent", "client", "address", "keypair"]
  | .deployed _ => ["address", "transaction", "owner", "result", "bytecode", "source", "table", "catalog"]

/-- The operations of its own. -/
def operations : BoundContract → List String
  | .table _ => ["invoke", "call", "from_", "from_identity", "keys", "aclose", "client_factory"]
  | .alternate _ => ["invoke", "call", "from_", "from_identity", "keys", "aclose"]
  | .deployed _ => ["invoke", "call", "from_", "from_identity", "aclose"]

/-- What an item is: `from` and `call` are operations, any other name is a function. -/
def item (b : BoundContract) (name : LooseText) : Except Fault Member :=
  if name = .whole "from" then .ok (.operation "from_identity")
  else if name = .whole "call" then .ok (.operation "call")
  else match b.root.catalog.get? name with
    | some f => .ok (.function f)
    | none => .error (.unknownFunction name.shown b.keys)

/-- Whether a key is the name of a function. A deployed contract is no collection of names, and asked for
its first item it has none. -/
def contains (b : BoundContract) (key : Value) : Except Fault Bool :=
  match b, key with
  | .deployed _, _ => .error (.unknownItem 0 b.keys)
  | b, .text name => .ok (b.root.catalog.contains name)
  | b, .broken name => .ok (b.root.catalog.contains (.broken name))
  | _, key => key.asKey.map fun _ => false

/-- What a function of the name is as a member of a deployed contract. -/
def deployedFunction (b : BoundContract) (name : String) : Except Fault Member :=
  if b.root.catalog.contains name then b.item name else .error (.noMember name)

/-- What a member is: a field or an operation of its own, else a function. -/
def member (b : BoundContract) (name : String) : Except Fault Member :=
  if b.fields.contains name then .ok (.field name)
  else if b.operations.contains name then .ok (.operation name)
  else match b with
    | .deployed _ => b.deployedFunction name
    | .table t =>
      match t.catalog.get? name with
      | some f => .ok (.function f)
      | none => .error (.noFunction "ProxyFunctionTable" name)
    | .alternate t =>
      match t.parent.catalog.get? name with
      | some f => .ok (.function f)
      | none => .error (.noFunction "AlternateIdentityTable" name)

/-! ### Calling by name -/

/-- Arguments that an operation does not take. -/
def refuse (name : String) : Dialogue Value :=
  .fail (.misused (name ++ "() does not take these arguments"))

/-- Options that are given as a value. -/
def optionsGiven? : Value → Except Fault (Option CallOptions)
  | .null => .ok none
  | .options o => .ok (some o)
  | v => .error (.noAttribute v.kind "amount")

/-- Calls a function with arguments and options that are given as values. -/
def invokeWith (b : BoundContract) (name : String) (args options : Value) : Dialogue Value := do
  let _ ← .ofExcept (b.root.function name)
  let args ← .ofExcept args.items
  let options ← .ofExcept (optionsGiven? options)
  b.invoke name (args.map .value) options

/-- An operation called with arguments. -/
def operate (b : BoundContract) (name : String) (args : List Argument) : Dialogue Value :=
  match name, args with
  | "call", [.value (.text f)] => do return (← b.call f .null).details
  | "call", [.value (.text f), .value options] => do return (← b.call f options).details
  | "invoke", [.value (.text f)] => b.invoke f []
  | "invoke", [.value (.text f), .value args] => b.invokeWith f args .null
  | "invoke", [.value (.text f), .value args, .value options] => b.invokeWith f args options
  | "aclose", [] => do
    b.close
    return .null
  | "from_", [.value secret] => do
    let _ ← b.withIdentity secret
    refuse name
  | "from_identity", [.value secret] => do
    let _ ← b.withIdentity secret
    refuse name
  | name, _ => refuse name

/-- A member or an item called with arguments. -/
def use (b : BoundContract) (m : Except Fault Member) (args : List Argument) : Dialogue Value :=
  match m with
  | .error f => .fail f
  | .ok (.function f) => b.invoke f.name args
  | .ok (.operation name) => b.operate name args
  | .ok (.field name) => refuse name

end BoundContract

end SophiaBind
