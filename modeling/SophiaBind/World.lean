/-
**The world** in which a command runs: its files, its environment, the services that it reaches, and
what an observer has seen of it so far.

Main definitions:

* `Transport` — the services: what becomes of a request after the requests before it,
* `World`,
* `App` — a computation in a world that may fail; what it did before it failed stays done,
* `App.converse` — runs a dialogue.
-/

import SophiaBind.Dialogue
import SophiaBind.FileTree

namespace SophiaBind

/-- The services behind all requests: the outcome of a request, given those sent before, latest first. -/
abbrev Transport := List Request → Request → Outcome

/-- Something that is done to a file or directory, and that the system may refuse. -/
inductive FileAction where
  | makeDirectory (l : Location)
  | openFile (l : Location)
  | writeFile (l : Location)
  | rename (source target : Location)
  deriving DecidableEq, Repr

/-- Where commands run. -/
structure World where
  files : FileTree := {}
  home : Location := []
  refuses : FileAction → Bool := fun _ => false
  environment : List (String × String) := []
  clock : Int := 0
  process : Nat := 0
  host : String := ""
  token : String := ""
  chance : Nat → Binary64 := fun _ => .finite false 0 (-1074)
  transport : Transport := fun _ _ => .error (.connect, "no service")
  drawn : Nat := 0
  sent : List Request := []
  events : List Event := []

/-- A computation in a world that may fail. -/
abbrev App := ExceptT Fault (StateM World)

namespace App

variable {α : Type}

/-- Reports an event. -/
def report (e : Event) : App Unit :=
  modify fun w => { w with events := w.events ++ [e] }

/-- Reports a warning. -/
def warn (message : String) : App Unit := report (.warning message)

/-- Reports an error. -/
def logError (message : String) : App Unit := report (.error message)

/-- Shows something to the user. -/
def show_ (o : Output) : App Unit := report (.shown o)

/-- Shows a line to the user. -/
def print (text : String) : App Unit := show_ (.line text)

/-- Reports several warnings. -/
def warnAll : List String → App Unit
  | [] => pure ()
  | m :: rest => do
    warn m
    warnAll rest

/-- Sends a request. -/
def send (r : Request) : App Outcome :=
  modifyGet fun w =>
    (w.transport w.sent r, { w with sent := r :: w.sent, events := w.events ++ [.requested r] })

/-- Draws a number by chance. -/
def draw : App Binary64 :=
  modifyGet fun w => (w.chance w.drawn, { w with drawn := w.drawn + 1 })

/-- Runs a dialogue. -/
def converse : Dialogue α → App α
  | .done a => pure a
  | .fail e => throw e
  | .ask r next => do
    let o ← send r
    converse (next o)
  | .tell e next => do
    report e
    converse next
  | .draw next => do
    let x ← draw
    converse (next x)

/-- A result that is there already, or a failure. -/
def ofExcept : Except Fault α → App α
  | .ok a => pure a
  | .error e => throw e

/-- Runs a computation in a world: its result and the world behind it. -/
def runIn (app : App α) (w : World) : Except Fault α × World :=
  (app.run).run w

/-- Does something last, whether a computation succeeds or fails. -/
def andFinally (app : App α) (last : App Unit) : App α := do
  let a ← tryCatch app fun e => do
    last
    throw e
  last
  return a

end App

end SophiaBind
