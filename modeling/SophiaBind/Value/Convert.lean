/-
**What a value is used as.**

An argument of any kind may be asked for an integer, for its parts, or for something under a name. Each
request has its own fault for the kinds that cannot answer.

Main definitions:

* `Value.toInt` — a whole number, also from text,
* `Value.asKey` — a key of a map,
* `Value.items` — the parts that a value is run through,
* `Value.get`, `Value.item` — what a map has under a name, optional or required,
* `Value.attribute?` — what an object shows under a name.
-/

import SophiaBind.Value.Written
import SophiaBind.Fault

namespace SophiaBind.Value

/-- The integer part of a floating point number. -/
def truncate (x : Binary64) : Except Fault Int :=
  match x.truncate? with
  | some i => .ok i
  | none => .error (if x = .nan then .nanInteger else .infiniteInteger)

/-- A byte as a character of a number's text; a byte beyond ASCII is none that a number has. -/
def charOfByte (b : UInt8) : Char :=
  if b < 0x80 then Char.ofNat b.toNat else '?'

/-- The whole number that a text writes; `written` is the text in messages, which hold at most 200
characters of it. -/
def readInt (cs : List Char) (written : String) : Except Fault Int :=
  match Integer.read cs with
  | .ok i => .ok i
  | .error .notInteger => .error (.notInteger (String.ofList (written.toList.take 200)))
  | .error (.tooManyDigits count) => .error (.tooManyDigits count)

/-- A value as an integer: numbers are cut to their integer part, texts are read. -/
def toInt : Value → Except Fault Int
  | .bool b => .ok (if b then 1 else 0)
  | .int i => .ok i
  | .float x => truncate x
  | .text s => readInt s.toList (Text.quoted s)
  | .broken t => readInt t.shown.toList (Text.quotedPoints t.points)
  | .bytes bs => readInt (bs.map charOfByte) (Text.quotedBytes bs)
  | v => .error (.notNumber v.kind)

/-- The parts of a value: items, characters, bytes, or keys. -/
def items : Value → Except Fault (List Value)
  | .list vs => .ok vs
  | .tuple vs => .ok vs
  | .text s => .ok (s.toList.map fun c => .text (String.singleton c))
  | .broken t => .ok (t.points.map fun p => ofText (.ofPoints [p]))
  | .bytes bs => .ok (bs.map fun b => .int b.toNat)
  | .map entries => .ok (entries.map Prod.fst)
  | v => .error (.notIterable v.kind)

/-- A value that is to be a key. -/
def asKey (v : Value) : Except Fault Value :=
  match v.obstacle? with
  | none => .ok v
  | some part => .error (.notKey part.kind)

/-- What a map has under a name, if anything. -/
def get (v : Value) (name : String) : Except Fault (Option Value) :=
  match v with
  | .map entries => .ok (lookup? entries name)
  | v => .error (.noAttribute v.kind "get")

/-- What a map must have under a name. -/
def item (v : Value) (name : String) : Except Fault Value :=
  match v with
  | .map entries =>
    match lookup? entries name with
    | some x => .ok x
    | none => .error (.missingKey name)
  | .bytes _ => .error (.namedIndex "byte")
  | .list _ | .tuple _ | .text _ | .broken _ => .error (.namedIndex v.kind)
  | v => .error (.notSubscriptable v.kind)

/-- What an object with fields shows under a name. -/
def attribute? (v : Value) (name : String) : Option Value :=
  match v with
  | .record fields => fields.lookup name
  | .options o =>
    if name = "amount" then some (match o.amount with | .blank => .list [] | .value a => .int a)
    else if name = "ttl" then some (.int o.ttl)
    else if name = "gas" then some (match o.gas with | none => .null | some g => .int g)
    else none
  | .keypair k =>
    if name = "public_key" then some (.text k.publicKey)
    else if name = "secret_key" then some (.text k.secretKey)
    else none
  | _ => none

end SophiaBind.Value
