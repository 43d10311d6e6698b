/-
**Results of a call.**

The compiler decodes a result by the declared type. What it answers may wrap the value; an address comes
as a number or in hexadecimal and is shown in its encoded form.

Main definitions:

* `Result.unwrap` — the value within an answer,
* `Result.ofDecoded` — the result of a type.
-/

import SophiaBind.Encoded

namespace SophiaBind.Result

/-- The value within an answer: what it has under the name `value`, else the answer itself. -/
def unwrap (answer : Value) : Value :=
  match answer with
  | .map entries => (Value.lookup? entries "value").getD answer
  | .record fields => (fields.lookup "value").getD answer
  | v => v

/-- The result of a type, from what it was decoded to. -/
def ofDecoded (type : String) (answer : Value) : Except Fault Value :=
  if type = "address" then (Encoded.addressOf (unwrap answer) "ak").map .text else .ok (unwrap answer)

end SophiaBind.Result
