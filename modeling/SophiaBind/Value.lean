/-
**Values passed to and from contracts.**

The arguments of a call are not typed when they come in: a caller may pass anything, and what an argument
means depends on the declared type. `Value` is what may come in; JSON values are among them.

Main definitions:

* `CallOptions` — what a call carries besides its arguments,
* `Keypair` — an identity that signs,
* `Value`,
* `Value.ofJson`,
* `Value.lookup?`, `Value.characters?`, `Value.truthy`, `Value.kind`.
-/

import SophiaBind.Json
import SophiaBind.Bytes

namespace SophiaBind

/-- What a call carries besides its arguments: the amount paid, which may have been left blank, the life time
in key blocks, and the gas limit if it is not the default. -/
structure CallOptions where
  amount : Given Int := .value 0
  ttl : Int := 100
  gas : Option Int := none
  deriving DecidableEq, Repr, Inhabited

/-- The gas limit where none is asked for. -/
def CallOptions.usualGas : Int := 20000000

/-- An identity: a public key in its textual form and the secret key in hexadecimal digits. -/
structure Keypair where
  publicKey : String
  secretKey : String
  deriving DecidableEq, Repr, Inhabited

/-- An argument or a result. A text is `broken` if it holds halves of surrogate pairs. A `map` has entries in
order; a `record` has named fields. -/
inductive Value where
  | null
  | bool (b : Bool)
  | int (i : Int)
  | float (x : Binary64)
  | text (s : String)
  | broken (t : BrokenText)
  | bytes (bs : Bytes)
  | tuple (items : List Value)
  | list (items : List Value)
  | map (entries : List (Value × Value))
  | record (fields : List (String × Value))
  | options (o : CallOptions)
  | keypair (k : Keypair)
  deriving Inhabited

namespace Value

/-! ### JSON values -/

/-- A text that may hold halves. -/
def ofText : LooseText → Value
  | .whole s => .text s
  | .broken t => .broken t

mutual

/-- A JSON value; an object is a map with texts as keys. -/
def ofJson : Json → Value
  | .null => .null
  | .bool b => .bool b
  | .int i => .int i
  | .float x => .float x
  | .text s => .text s
  | .broken t => .broken t
  | .array items => .list (ofJsonItems items)
  | .object members => .map (ofJsonMembers members)

/-- The values of JSON values. -/
def ofJsonItems : List Json → List Value
  | [] => []
  | j :: rest => ofJson j :: ofJsonItems rest

/-- The entries of an object's members. -/
def ofJsonMembers : List (LooseText × Json) → List (Value × Value)
  | [] => []
  | (name, j) :: rest => (ofText name, ofJson j) :: ofJsonMembers rest

end

/-! ### Looking things up -/

/-- The value of an entry whose key is a text. -/
def lookup? (entries : List (Value × Value)) (name : String) : Option Value :=
  match entries with
  | [] => none
  | (.text n, v) :: rest => if n = name then some v else lookup? rest name
  | _ :: rest => lookup? rest name

/-- The word for a value's kind in messages. -/
def kind : Value → String
  | .null => "NoneType"
  | .bool _ => "bool"
  | .int _ => "int"
  | .float _ => "float"
  | .text _ => "str"
  | .broken _ => "str"
  | .bytes _ => "bytes"
  | .tuple _ => "tuple"
  | .list _ => "list"
  | .map _ => "dict"
  | .record _ => "types.SimpleNamespace"
  | .options _ => "CallOptions"
  | .keypair _ => "Keypair"

/-- The word for a value's kind without the family that it belongs to. -/
def briefKind : Value → String
  | .record _ => "SimpleNamespace"
  | v => v.kind

/-- The characters of a text. -/
def characters? : Value → Option String
  | .text s => some s
  | .broken t => some t.shown
  | _ => none

/-- Whether a value counts as true: nothing, zeros and empty things do not. -/
def truthy : Value → Bool
  | .null => false
  | .bool b => b
  | .int i => i != 0
  | .float x => !x.isZero
  | .text s => s != ""
  | .broken _ => true
  | .bytes bs => !bs.isEmpty
  | .tuple items => !items.isEmpty
  | .list items => !items.isEmpty
  | .map entries => !entries.isEmpty
  | .record _ => true
  | .options _ => true
  | .keypair _ => true

/-! ### Keys -/

/-- The number that a value counts as when keys are compared. -/
def asNumber? : Value → Option (Int ⊕ Binary64)
  | .bool b => some (.inl (if b then 1 else 0))
  | .int i => some (.inl i)
  | .float x => some (.inr x)
  | _ => none

/-- Whether two numbers have the same value. -/
def sameNumber : Int ⊕ Binary64 → Int ⊕ Binary64 → Bool
  | .inl i, .inl j => i == j
  | .inl i, .inr y => y.equalsInt i
  | .inr x, .inl j => x.equalsInt j
  | .inr x, .inr y => x.sameValue y

mutual

/-- Whether two values are the same key: numbers by value, whatever their kind. -/
def sameKey : Value → Value → Bool
  | .null, .null => true
  | .text s, .text t => s == t
  | .broken s, .broken t => s == t
  | .bytes a, .bytes b => a == b
  | .tuple xs, .tuple ys => sameKeys xs ys
  | .options o, .options p => o == p
  | .keypair k, .keypair l => k == l
  | x, y =>
    match x.asNumber?, y.asNumber? with
    | some a, some b => sameNumber a b
    | _, _ => false

/-- Whether two lists hold the same keys. -/
def sameKeys : List Value → List Value → Bool
  | [], [] => true
  | x :: xs, y :: ys => sameKey x y && sameKeys xs ys
  | _, _ => false

end

mutual

/-- What keeps a value from being a key, if anything does: the value itself, or a part of it. -/
def obstacle? : Value → Option Value
  | .list items => some (.list items)
  | .map entries => some (.map entries)
  | .record fields => some (.record fields)
  | .tuple items => firstObstacle? items
  | _ => none

/-- What keeps the first of some values that is no key from being one. -/
def firstObstacle? : List Value → Option Value
  | [] => none
  | v :: rest => (obstacle? v).or (firstObstacle? rest)

end

/-- Whether a value can be a key. -/
def isKey (v : Value) : Bool :=
  v.obstacle?.isNone

/-- Gives a key a value: in place if the same key is there, else behind the other entries. -/
def setEntry (entries : List (Value × Value)) (key value : Value) : List (Value × Value) :=
  match entries with
  | [] => [(key, value)]
  | (k, v) :: rest => if sameKey k key then (k, value) :: rest else (k, v) :: setEntry rest key value

end Value

end SophiaBind
