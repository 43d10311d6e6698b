/-
**Arguments of a call.**

An argument is encoded by the declared type of its parameter. What is passed beyond the declared
parameters never reaches the contract; the last two of it may carry options of the call.

Main definitions:

* `Arguments.encodeOne`, `Arguments.encode` — arguments as literals,
* `Arguments.tuple` — literals in parentheses,
* `Arguments.ofValue`, `Arguments.ofInitState` — literals that are passed as they are,
* `CallOptions.change` — options with some fields replaced,
* `Arguments.split` — arguments apart from options.
-/

import SophiaBind.Literal
import SophiaBind.Encoded
import SophiaBind.Catalog
import SophiaBind.Json.Printer
import SophiaBind.Text.UpperCase
import SophiaBind.Text.Nesting

namespace SophiaBind

/-! ### Options -/

/-- Options with those fields replaced for which there is a new value. -/
def CallOptions.change (o : CallOptions) (amount ttl gas : Option Int) : CallOptions where
  amount := (amount.map .value).getD o.amount
  ttl := ttl.getD o.ttl
  gas := gas.or o.gas

namespace Arguments

/-! ### Literals by type -/

/-- A value that means yes or no: the texts `true`, `1` and `yes` do in any case of letters. -/
def toBool (v fallback : Value) : Value :=
  match v with
  | .null => fallback
  | .bool b => .bool b
  | .broken _ => .bool false
  | .text s =>
    let cs := Text.lowerAscii s.toList
    .bool (cs = "true".toList || cs = "1".toList || cs = "yes".toList)
  | v => .bool v.truthy

/-- The text of a value in quotes. -/
def quote (v : Value) : String :=
  String.ofList (Json.quote .unicode v.shown.toList)

/-- An address: a hexadecimal literal stays, anything else is an encoded key. -/
def encodeAddress (v : Value) : Except Fault String :=
  let t := v.shownText.trimmed
  let s := t.shown
  if "0x".toList.isPrefixOf s.toList || "#".toList.isPrefixOf s.toList then .ok s else Encoded.keyToHex t

/-- The text of an integer; a truth value is one or zero. -/
def encodeInteger : Value → String
  | .bool b => if b then "1" else "0"
  | v => v.shown

/-- One argument as a literal. With `quoteAll`, as for functions found in a source, a value of a type that
has no rule of its own is quoted, else it is written as a literal. -/
def encodeOne (type : Option String) (v : Value) (quoteAll : Bool) : Except Fault String :=
  let t := Text.lowerAscii (Text.trim (type.getD "").toList)
  if t = "address".toList then encodeAddress v
  else if t = "int".toList then .ok (encodeInteger v)
  else if t = "bool".toList then .ok (if toBool v (.bool false) matches .bool true then "true" else "false")
  else if t = "string".toList || quoteAll then .ok (quote v)
  else .ok v.literal

/-- Arguments as literals, one by one as long as there are both a parameter and a value. -/
def encode (quoteAll : Bool) : List Parameter → List Value → Except Fault (List String)
  | p :: ps, v :: vs => do
    let s ← encodeOne p.type v quoteAll
    let rest ← encode quoteAll ps vs
    return s :: rest
  | _, _ => .ok []

/-- Literals in parentheses with commas between. -/
def tuple (literals : List String) : String :=
  "(" ++ ",".intercalate literals ++ ")"

/-! ### Literals as they are -/

/-- A text without a pair of parentheses around it. -/
def openTuple (cs : List Char) : List Char :=
  match Text.trim cs with
  | '(' :: r => if r.getLast? = some ')' then r.dropLast else '(' :: r
  | cs => cs

/-- The literals in a text: the parts between commas outside brackets, without those that are blank. -/
def ofText (s : String) : List String :=
  ((Text.splitOutside (openTuple s.toList) [',']).map Text.trim).filter (· ≠ []) |>.map String.ofList

/-- The literals that a caller passes: none, in a text, or one a part. -/
def ofValue : Value → Except Fault (List String)
  | .null => .ok []
  | v =>
    match v.characters? with
    | some s => .ok (ofText s)
    | none => (v.items).map fun vs => vs.map Value.shown

/-- The literals that set a contract up: in a text, or one a part. -/
def ofInitState (v : Value) : Except Fault (List String) :=
  match v.characters? with
  | some s => .ok (ofText s)
  | none => (v.items).map fun vs => vs.map Value.literal

/-! ### Arguments and options -/

/-- A field that a value carries, if it carries fields. -/
def field? (carrier : Value) (name : String) : Option Value :=
  match carrier with
  | .map entries => Value.lookup? entries name
  | v => v.attribute? name

/-- A field as an integer, if it is one and no truth value. An infinity is a fault. -/
def integerField? (carrier : Value) (name : String) : Except Fault (Option Int) :=
  match field? carrier name with
  | none => .ok none
  | some (.bool _) => .ok none
  | some (.float (.infinite _)) => .error .infiniteInteger
  | some v => .ok v.toInt.toOption

/-- The amount that a value carries: under its name if that is not zero, else as a value. -/
def amountOf (carrier : Value) : Except Fault (Option Int) := do
  match ← integerField? carrier "amount" with
  | some 0 | none => integerField? carrier "value"
  | some a => return some a

/-- The options that a value carries on top of others, if it carries an amount or a life time. -/
def optionsOf? (carrier : Value) (base : CallOptions) : Except Fault (Option CallOptions) :=
  match carrier with
  | .options o => .ok (some o)
  | carrier => do
    let amount := (← amountOf carrier).filter (· ≠ 0)
    let ttl ← integerField? carrier "ttl"
    let gas ← integerField? carrier "gas"
    if amount.isNone && ttl.isNone then return none
    else return some (base.change amount ttl gas)

/-- Reads carriers one on top of the other. -/
def readCarriers (options : CallOptions) : List Value → Except Fault CallOptions
  | [] => .ok options
  | carrier :: rest => do
    let read ← optionsOf? carrier options
    readCarriers (read.getD options) rest

/-- The arguments for `declared` parameters, and the options that the last and then the last but one of
the values beyond carry on top of the base. -/
def split (declared : Nat) (args : List Value) (base : CallOptions) :
    Except Fault (List Value × CallOptions) := do
  let extras := args.drop declared
  let options ← readCarriers base (extras.drop (extras.length - 2)).reverse
  return (args.take declared, options)

end Arguments

end SophiaBind
