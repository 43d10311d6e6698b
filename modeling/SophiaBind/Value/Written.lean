/-
**Values in messages.**

A value within a message is written out with its structure: texts in quotes, lists in square brackets,
maps in braces. On its own a text is shown as it is.

Main definitions:

* `Value.written` — a value with quotes,
* `Value.shown`, `Value.shownText` — a value on its own, as characters or with halves,
* `Json.written`, `Json.shown` — the same of JSON values.
-/

import SophiaBind.Value
import SophiaBind.Text.Quoted
import SophiaBind.Number.Integer
import SophiaBind.Number.Decimal

namespace SophiaBind.Value

/-- Texts with a comma and a blank between. -/
def commas (parts : List String) : String :=
  ", ".intercalate parts

/-- A whole number or nothing. -/
def writtenInt? : Option Int → String
  | none => "None"
  | some i => String.ofList (Integer.toText i)

/-- Call options with their three fields. -/
def writtenOptions (o : CallOptions) : String :=
  let amount := match o.amount with
    | .blank => "[]"
    | .value a => writtenInt? (some a)
  "CallOptions(amount=" ++ amount ++ ", ttl=" ++ writtenInt? (some o.ttl) ++
    ", gas=" ++ writtenInt? o.gas ++ ")"

/-- A keypair with its two fields. -/
def writtenKeypair (k : Keypair) : String :=
  "Keypair(public_key=" ++ Text.quoted k.publicKey ++ ", secret_key=" ++ Text.quoted k.secretKey ++ ")"

mutual

/-- A value with its texts in quotes. -/
def written : Value → String
  | .null => "None"
  | .bool b => if b then "True" else "False"
  | .int i => String.ofList (Integer.toText i)
  | .float x => String.ofList (Decimal.toText x)
  | .text s => Text.quoted s
  | .broken t => Text.quotedPoints t.points
  | .bytes bs => Text.quotedBytes bs
  | .tuple [v] => "(" ++ written v ++ ",)"
  | .tuple items => "(" ++ commas (writtenItems items) ++ ")"
  | .list items => "[" ++ commas (writtenItems items) ++ "]"
  | .map entries => "\x7b" ++ commas (writtenEntries entries) ++ "\x7d"
  | .record fields => "namespace(" ++ commas (writtenFields fields) ++ ")"
  | .options o => writtenOptions o
  | .keypair k => writtenKeypair k

/-- Each value written. -/
def writtenItems : List Value → List String
  | [] => []
  | v :: rest => written v :: writtenItems rest

/-- Each entry written. -/
def writtenEntries : List (Value × Value) → List String
  | [] => []
  | (k, v) :: rest => (written k ++ ": " ++ written v) :: writtenEntries rest

/-- Each field written. -/
def writtenFields : List (String × Value) → List String
  | [] => []
  | (name, v) :: rest => (name ++ "=" ++ written v) :: writtenFields rest

end

/-- A value on its own: a text as it is, anything else written out. -/
def shownText : Value → LooseText
  | .text s => .whole s
  | .broken t => .broken t
  | v => .whole (written v)

/-- A value on its own, as characters. -/
def shown (v : Value) : String :=
  v.shownText.shown

/-- Texts as a list of quoted texts. -/
def writtenTexts (texts : List LooseText) : String :=
  "[" ++ commas (texts.map LooseText.quoted) ++ "]"

end SophiaBind.Value

namespace SophiaBind.Json

/-- A JSON value with its texts in quotes. -/
def written (j : Json) : String :=
  (Value.ofJson j).written

/-- A JSON value on its own. -/
def shown (j : Json) : String :=
  (Value.ofJson j).shown

end SophiaBind.Json
