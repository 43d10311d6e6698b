/-
**A client of a node and a compiler over HTTP.**

The compiler encodes call data and decodes results. The node builds transactions on its internal
interface; they are signed here, posted on the public one, and waited for until they are mined.

Main definitions:

* `NodeClient`,
* `NodeClient.request` — a request and its JSON answer,
* `NodeClient.compile`, `NodeClient.interface`, `NodeClient.encodeCalldata`, `NodeClient.decodeData`,
* `NodeClient.balance`, `NodeClient.waitForTransaction`, `NodeClient.transactionInfo`,
* `NodeClient.Submission`, `NodeClient.submit` — building, signing, posting and waiting,
* `NodeClient.deploy`, `NodeClient.call` — the two submissions,
* `NodeClient.remote` — all of it as a `RemoteClient`.
-/

import SophiaBind.Client
import SophiaBind.Retry
import SophiaBind.Transaction
import SophiaBind.Json.Encoding

namespace SophiaBind

/-- A client of a network for an identity, and how it waits for transactions. -/
structure NodeClient where
  network : Network
  keypair : Keypair
  pollInterval : Binary64 := .ofInt 1
  pollAttempts : Int := 60

/-! ### Answers -/

namespace Response

/-- The JSON value of a response. -/
def json (r : Response) : Except Json.Unreadable Json :=
  Json.ofEncoded r.body

/-- The text of a response; what is malformed in it is replaced. -/
def text (r : Response) : String :=
  match Utf8.decodeMending Utf8.replacing r.body with
  | .ok ps => String.ofList (ps.map CodePoint.shown)
  | .error why => why.message

/-- A description of one of several errors. -/
def messageOf : Json → String
  | .object members => ((Json.lookup? members "message").getD (.object members)).shown
  | j => j.shown

/-- The first 500 characters of a text. -/
def clip (s : String) : String :=
  String.ofList (s.toList.take 500)

/-- The reason that an error response gives. -/
def reason (r : Response) : String :=
  match r.json with
  | .error _ => if clip r.text = "" then "HTTP " ++ toString r.status else clip r.text
  | .ok (.object members) =>
    match Json.lookup? members "reason" with
    | some reason => reason.shown
    | none => clip (Json.object members).shown
  | .ok (.array items) => "; ".intercalate (items.map fun j => Text.trimmed (messageOf j))
  | .ok j => clip j.shown

end Response

namespace NodeClient

/-- What a JSON value must have under a name. -/
def item (j : Json) (name : String) : Dialogue Json :=
  match j with
  | .object members =>
    match Json.lookup? members name with
    | some v => .done v
    | none => .fail (.missingKey name)
  | j => .ofExcept ((Value.ofJson j).item name |>.map fun _ => .null)

/-- What a JSON value has under a name, or a default. -/
def get (j : Json) (name : String) (default : Json) : Dialogue Json :=
  match j with
  | .object members => .done ((Json.lookup? members name).getD default)
  | j => .fail (.noAttribute (Value.ofJson j).kind "get")

/-- A JSON value as an integer. -/
def toInt (j : Json) : Dialogue Int :=
  .ofExcept (Value.ofJson j).toInt

/-! ### Requests -/

/-- Sends a request once. -/
def sendOnce (r : Request) : Dialogue Response :=
  .ask r fun
    | .ok response => .done response
    | .error (kind, message) => .fail (.disrupted kind message)

/-- How requests of a method are tried again: only those that change nothing. -/
def policy (method : String) : Retry.Policy where
  attempts := if method = "GET" then 3 else 1
  baseDelay := .ofInt 1
  maxDelay := .ofInt 10
  retryable
    | .disrupted kind _ => kind.isTransport
    | _ => false

/-- Reports a disruption and fails with what it means for the caller. -/
def disrupted (r : Request) : Fault → Dialogue Response
  | .disrupted kind message =>
    if kind.isTimeout then
      .tell (.error ("Request timed out: " ++ r.method ++ " " ++ r.url))
        (.fail (.api r.url ("timeout: " ++ message) none))
    else
      .tell (.error ("Request failed: " ++ r.method ++ " " ++ r.url ++ ": " ++ message))
        (.fail (.api r.url ("cannot connect: " ++ message) none))
  | f => .fail f

/-- The JSON value of a response that is no error. -/
def answer (url : String) (response : Response) : Dialogue Json :=
  if 400 ≤ response.status then .fail (.api url response.reason (some response.status))
  else match response.json with
    | .ok j => .done j
    | .error e => .fail (.api url ("invalid JSON response: " ++ e.message) (some response.status))

/-- A request and its JSON answer. -/
def request (method url : String) (body : Option Json := none) : Dialogue Json := do
  let r : Request := { method, url, body }
  let response ← (Retry.run (policy method) fun _ => sendOnce r).recover (disrupted r)
  answer url response

variable (c : NodeClient)

/-- An address at the compiler. -/
def compilerUrl (path : String) : String := Network.dropSlashes c.network.compilerUrl ++ path

/-- An address at the node's public interface. -/
def nodeUrl (path : String) : String := Network.dropSlashes c.network.url ++ "/v2" ++ path

/-- An address at the node's internal interface. -/
def internalUrl (path : String) : String := Network.dropSlashes c.network.internalUrl ++ "/v2" ++ path

/-! ### The compiler -/

/-- The included files as an option of the compiler. -/
def includeOptions (includes : List (String × String)) : Json :=
  .object [("file_system", .object (includes.map fun (name, code) => (.whole name, .text code)))]

/-- A code with its included files. -/
def codeBody (source : String) (includes : List (String × String)) : Json :=
  .object [("code", .text source), ("options", includeOptions includes)]

/-- Compiles a source; a source at fault is told apart from a compiler at fault. -/
def compile (source : String) (includes : List (String × String)) : Dialogue Artifact := do
  let res ← (request "POST" (c.compilerUrl "/compile") (some (codeBody source includes))).recover fun
    | .api url reason (some status) =>
      if 400 ≤ status && status < 500 then .fail (.rejectedSource "contract" reason)
      else .fail (.api url reason (some status))
    | f => .fail f
  let bytecode ← item res "bytecode"
  return { bytecode, source, includes }

/-- The interface description of a source. -/
def interface (source : String) (includes : List (String × String)) : Dialogue Json :=
  request "POST" (c.compilerUrl "/aci") (some (codeBody source includes))

/-- The call data of a function with arguments. -/
def encodeCalldata (source : String) (function : LooseText) (arguments : List String)
    (includes : List (String × String)) : Dialogue Json := do
  let body : Json := .object
    [("source", .text source), ("function", .ofText function), ("arguments", .array (arguments.map .text)),
     ("options", includeOptions includes)]
  let res ← request "POST" (c.compilerUrl "/encode-calldata") (some body)
  item res "calldata"

/-- A result decoded by a type. -/
def decodeData (data type : String) : Dialogue Json :=
  request "POST" (c.compilerUrl "/decode-data") (some (.object [("data", .text data), ("sophia-type", .text type)]))

/-! ### The node -/

/-- The balance of an account; an unknown one has none. -/
def balance (publicKey : String) : Dialogue Int := do
  let res ← ((request "GET" (c.nodeUrl ("/accounts/" ++ publicKey))).bind fun j => .done (some j)).recover fun
    | .api url reason status => if status = some 404 then .done none else .fail (.api url reason status)
    | f => .fail f
  match res with
  | none => return 0
  | some j => toInt (← get j "balance" (.int 0))

/-- The number of the next transaction of the client's account. -/
def nextNonce : Dialogue Int := do
  let res ← request "GET" (c.nodeUrl ("/accounts/" ++ c.keypair.publicKey))
  let nonce ← toInt (← get res "nonce" (.int 0))
  return nonce + 1

/-- The block at which a transaction with a relative life time ends; zero for one that lives on. -/
def absoluteTtl (relative : Int) : Dialogue Int := do
  if relative ≤ 0 then return 0
  let res ← request "GET" (c.nodeUrl "/key-blocks/current/height")
  let height ← toInt (← item res "height")
  return height + relative

/-- Signs a transaction and posts it: its hash, as the node gives it if it does. -/
def postSigned (tx : Json) : Dialogue Json := do
  let tx ← match tx.text? with
    | some tx => pure tx
    | none => .fail (.noAttribute (Value.ofJson tx).kind "partition")
  let (signed, hash) ← .ofExcept (Transaction.sign tx c.keypair.secretKey c.network.networkId)
  let res ← request "POST" (c.nodeUrl "/transactions") (some (.object [("tx", .text signed)]))
  get res "tx_hash" (.text hash)

/-- The address of a transaction. -/
def transactionUrl (hash : Json) : String := c.nodeUrl ("/transactions/" ++ hash.shown)

/-- Asks for a transaction until it is in a block, at most `polls` times. -/
def poll (hash : Json) : Nat → Dialogue Json
  | 0 => .fail (.api (c.transactionUrl hash) ("transaction " ++ hash.shown ++ " not mined in time") none)
  | polls + 1 => do
    let tx ← request "GET" (c.transactionUrl hash)
    let height ← toInt (← get tx "block_height" (.int (-1)))
    if 0 < height then return tx
    .tell (.slept c.pollInterval) (poll hash polls)

/-- Waits for a transaction to be mined. -/
def waitForTransaction (hash : Json) : Dialogue Json :=
  c.poll hash c.pollAttempts.toNat

/-- What is known about the call of a mined transaction. -/
def callInfo (hash : Json) : Dialogue Json := do
  let res ← request "GET" (c.transactionUrl hash ++ "/info")
  get res "call_info" res

/-- The gas figures of a mined transaction. -/
def transactionInfo (hash : Json) : Dialogue Value := do
  let info ← c.callInfo hash
  let used ← toInt (← get info "gas_used" (.int 0))
  let price ← toInt (← get info "gas_price" (.int 0))
  return .map [(.text "gasUsed", .int used), (.text "gasPrice", .int price)]

/-- The gas limit of a transaction. -/
def gasLimit (o : CallOptions) : Int :=
  match o.gas with
  | some 0 | none => CallOptions.usualGas
  | some gas => gas

/-- The price of gas. -/
def gasPrice : Int := 1000000000

/-- The fee of a transaction. -/
def fee : Int := 2000000000000000

/-! ### Submitting -/

/-- What is submitted: the code, function and arguments that call data is encoded for, the life time, and
what the node builds the transaction from. -/
structure Submission where
  source : String
  function : LooseText
  arguments : List String
  includes : List (String × String)
  ttl : Int
  /-- Whether a contract is created or called. -/
  creates : Bool
  /-- What a transaction is built from that ends its life at a block, has a number and carries call data. -/
  body : Int → Int → Json → Json

/-- Where the node builds the transaction. -/
def Submission.path (s : Submission) : String :=
  if s.creates then "/debug/contracts/create" else "/debug/contracts/call"

/-- Submits a transaction and waits for it; `finish` goes on with what the node built, the transaction's hash,
and what is known about it. -/
def submit {α : Type} (s : Submission) (finish : Json → Json → Json → Dialogue α) : Dialogue α := do
  let calldata ← c.encodeCalldata s.source s.function s.arguments s.includes
  let ttl ← c.absoluteTtl s.ttl
  let nonce ← c.nextNonce
  let res ← request "POST" (c.internalUrl s.path) (some (s.body ttl nonce calldata))
  let hash ← c.postSigned (← item res "tx")
  let mined ← c.waitForTransaction hash
  finish res hash mined

/-- A contract that is put on the chain. -/
def creation (artifact : Artifact) (arguments : List String) (o : CallOptions) : Submission where
  source := artifact.source
  function := "init"
  arguments := arguments
  includes := artifact.includes
  ttl := o.ttl
  creates := true
  body ttl nonce calldata := .object
    [("owner_id", .text c.keypair.publicKey), ("code", artifact.bytecode), ("vm_version", .int 5),
     ("abi_version", .int 3), ("deposit", .int 0), ("amount", .ofGiven .int o.amount), ("gas", .int (gasLimit o)),
     ("gas_price", .int gasPrice), ("fee", .int fee), ("ttl", .int ttl), ("nonce", .int nonce),
     ("call_data", calldata)]

/-- A call of a function. -/
def invocation (r : CallRequest) : Submission where
  source := r.source
  function := r.function
  arguments := r.arguments
  includes := r.includes
  ttl := r.options.ttl
  creates := false
  body ttl nonce calldata := .object
    [("caller_id", .text c.keypair.publicKey), ("contract_id", r.address), ("abi_version", .int 3),
     ("amount", .ofGiven .int r.options.amount), ("gas", .int (gasLimit r.options)), ("gas_price", .int gasPrice),
     ("fee", .int fee), ("ttl", .int ttl), ("nonce", .int nonce), ("call_data", calldata)]

/-- What a mined deployment is known by. -/
def deployed (res hash mined : Json) : Dialogue DeployedHandle := do
  let address ← item res "contract_id"
  return { address, transaction := hash, owner := c.keypair.publicKey, result := mined }

/-- What a mined call gives; a call that did not succeed is a failure. -/
def called (r : CallRequest) (hash : Json) : Dialogue CallResult := do
  let info ← c.callInfo hash
  let returnType := (← get info "return_type" (.text "ok")).shown
  let returnValue := (← get info "return_value" (.text "")).shown
  if returnType ≠ "ok" then .fail (.failedCall r.function.shown returnType returnValue)
  let used ← toInt (← get info "gas_used" (.int 0))
  return {
    details := .map [(.text "function", .ofText r.function), (.text "return_type", .text returnType),
      (.text "return_value", .text returnValue), (.text "tx_hash", Value.ofJson hash),
      (.text "gas_used", .int used)]
    decode := fun type => (c.decodeData returnValue type).bind fun j => .done (Value.ofJson j) }

/-- Puts a contract on the chain. -/
def deploy (artifact : Artifact) (arguments : List String) (o : CallOptions) : Dialogue DeployedHandle :=
  c.submit (c.creation artifact arguments o) c.deployed

/-- Calls a function of a contract. -/
def call (r : CallRequest) : Dialogue CallResult :=
  c.submit (c.invocation r) fun _ hash _ => c.called r hash

/-- The client as others see it. -/
def remote : RemoteClient where
  keypair := c.keypair
  compile := c.compile
  interface := c.interface
  deploy := c.deploy
  call := c.call
  transactionInfo := c.transactionInfo
  close := .report .sessionClosed

end NodeClient

end SophiaBind
