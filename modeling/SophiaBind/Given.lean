/-
**What was given** for an option or a position of a command line.

A double dash takes a place without filling it. So a place that was given may still be blank, and that is
told apart from a place that was not given at all.

Main definition:

* `Given` — a value, or a blank.
-/

namespace SophiaBind

/-- What was given: a value, or a blank where only a double dash stood. -/
inductive Given (α : Type) where
  | blank
  | value (a : α)
  deriving DecidableEq, Repr, Inhabited

namespace Given

variable {α β : Type}

/-- The value, if the place is not blank. -/
def value? : Given α → Option α
  | .blank => none
  | .value a => some a

/-- The value, or a default for a blank. -/
def getD (g : Given α) (default : α) : α :=
  g.value?.getD default

/-- What was given, with the value changed. -/
def map (f : α → β) : Given α → Given β
  | .blank => .blank
  | .value a => .value (f a)

end Given

end SophiaBind
