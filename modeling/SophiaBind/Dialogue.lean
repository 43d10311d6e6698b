/-
**Dialogues** with remote services.

A dialogue is what one party of a conversation does: it sends a request and goes on with the outcome,
reports an event, or draws a number by chance, until it is done or fails. Being a tree of such steps, it
touches nothing else, and two dialogues can be run one after the other or interleaved.

Main definitions:

* `Request`, `Response`, `Outcome`,
* `Output`, `Event` — what an observer sees,
* `Dialogue`, with `Dialogue.bind` and `Dialogue.recover`.
-/

import SophiaBind.Value
import SophiaBind.Fault
import SophiaBind.Text.Utf8

namespace SophiaBind

/-! ### Requests -/

/-- A request, with a JSON body if it has one. -/
structure Request where
  method : String
  url : String
  body : Option Json := none

/-- A response, with the bytes of its body. -/
structure Response where
  status : Int
  body : Bytes

/-- A response with a text in UTF-8. -/
def Response.ofText (status : Int) (text : String) : Response :=
  ⟨status, Utf8.encode text.toList⟩

/-- What becomes of a request: a response, or a disruption with its description. -/
abbrev Outcome := Except (Disruption × String) Response

/-! ### Events -/

/-- What is shown to the user. -/
inductive Output where
  | line (text : String)
  | table (title : String) (columns : List String) (rows : List (List String))
  | panel (title text : String)
  | value (v : Value)

/-- What an observer sees. -/
inductive Event where
  | warning (message : String)
  | error (message : String)
  | slept (seconds : Binary64)
  | requested (r : Request)
  | sessionOpened
  | sessionClosed
  | shown (o : Output)
  | loggingSet (level : Value) (format : String)
  /-- A remark of a party from outside. -/
  | noted (note : Json)

/-! ### Dialogues -/

/-- What one party of a conversation does. -/
inductive Dialogue (α : Type) where
  | done (a : α)
  | fail (f : Fault)
  | ask (r : Request) (next : Outcome → Dialogue α)
  | tell (e : Event) (next : Dialogue α)
  | draw (next : Binary64 → Dialogue α)

namespace Dialogue

variable {α β : Type}

/-- Goes on with another dialogue when the first is done. -/
def bind : Dialogue α → (α → Dialogue β) → Dialogue β
  | .done a, f => f a
  | .fail e, _ => .fail e
  | .ask r next, f => .ask r fun o => bind (next o) f
  | .tell e next, f => .tell e (bind next f)
  | .draw next, f => .draw fun x => bind (next x) f

/-- Goes on with another dialogue when the first fails. -/
def recover : Dialogue α → (Fault → Dialogue α) → Dialogue α
  | .done a, _ => .done a
  | .fail e, handler => handler e
  | .ask r next, handler => .ask r fun o => recover (next o) handler
  | .tell e next, handler => .tell e (recover next handler)
  | .draw next, handler => .draw fun x => recover (next x) handler

instance : Monad Dialogue where
  pure := .done
  bind := bind

/-- A result that is there already, or a failure. -/
def ofExcept : Except Fault α → Dialogue α
  | .ok a => .done a
  | .error e => .fail e

/-- Reports an event. -/
def report (e : Event) : Dialogue Unit :=
  .tell e (.done ())

end Dialogue

end SophiaBind
