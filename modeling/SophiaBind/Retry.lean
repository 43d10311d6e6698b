/-
**Trying again.**

What fails in a way that may pass is tried again after a delay that doubles each time, up to a greatest
delay, with a bit of chance added. A delay that has doubled too often for a floating point number ends the trying.

Main definitions:

* `Retry.Policy`, `Retry.delay`, `Retry.overflows`,
* `Retry.run` — tries until it succeeds, fails for good, or the attempts are used up.
-/

import SophiaBind.Dialogue
import SophiaBind.Number.Decimal

namespace SophiaBind.Retry

/-- How often and how fast to try again, and after which faults. -/
structure Policy where
  attempts : Int := 3
  baseDelay : Binary64 := .ofInt 1
  maxDelay : Binary64 := .ofInt 30
  retryable : Fault → Bool := fun _ => true

/-- The delay in seconds behind an attempt, counted from zero. -/
def delay (p : Policy) (attempt : Nat) (chance : Binary64) : Binary64 :=
  Binary64.least p.maxDelay (Binary64.add (Binary64.mul p.baseDelay (.ofInt (Nat.pow 2 attempt))) chance)

/-- Whether the delay behind an attempt cannot be told: a power of two that is beyond all numbers. -/
def overflows (attempt : Nat) : Bool :=
  (Binary64.ofInt (Nat.pow 2 attempt)).isInfinite

/-- The warning that something is tried again. -/
def warning (p : Policy) (attempt : Nat) (seconds : Binary64) (f : Fault) : String :=
  "Async retry " ++ toString (attempt + 1) ++ "/" ++ toString p.attempts ++ " after " ++
    String.ofList (Decimal.toTenths seconds) ++ "s (reason: " ++ f.name ++ ": " ++ f.message ++ ")"

/-- Tries from an attempt on, with `left` more attempts behind it. -/
def runFrom {α : Type} (p : Policy) (attempt : Nat → Dialogue α) (i : Nat) : Nat → Dialogue α
  | 0 => attempt i
  | left + 1 =>
    (attempt i).recover fun f =>
      if p.retryable f then
        if overflows i then .fail .tooLargeInteger
        else .draw fun chance =>
          let seconds := delay p i chance
          .tell (.warning (warning p i seconds f)) (.tell (.slept seconds) (runFrom p attempt (i + 1) left))
      else .fail f

/-- Tries at least once, and at most as often as the policy says. -/
def run {α : Type} (p : Policy) (attempt : Nat → Dialogue α) : Dialogue α :=
  runFrom p attempt 0 (p.attempts.toNat - 1)

end SophiaBind.Retry
