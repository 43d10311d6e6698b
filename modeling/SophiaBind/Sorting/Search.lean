/-
**Searching for a boundary by a test that may fail.**

A test that holds for the items in front and for none behind has a boundary. It is found by halving, or,
where it is likely to be near a given place, by strides away from that place that double each time, and by
halving within the last stride. Where the test has no boundary the items that are tried decide.

Main definitions:

* `Sorting.halve` — the boundary between two places,
* `Sorting.gallop` — the boundary, from a place on.
-/

namespace SophiaBind.Sorting

variable {α ε : Type} (test : α → Except ε Bool) (items : List α)

/-- The boundary between two places. -/
def halve (low high : Nat) : Except ε Nat :=
  if low < high then
    match items[low + (high - low) / 2]? with
    | none => .ok low
    | some x => do
      if ← test x then halve (low + (high - low) / 2 + 1) high
      else halve low (low + (high - low) / 2)
  else .ok low
termination_by high - low

/-- Strides up from a place as long as the test holds: the last distance at which it does, and the distance
at which it does not, or `most`. -/
def strideUp (place last next most : Nat) : Except ε (Nat × Nat) :=
  if next < most then
    match items[place + next]? with
    | none => .ok (last, most)
    | some x => do
      if ← test x then strideUp place next (2 * next + 1) most else return (last, next)
  else .ok (last, most)
termination_by most - next

/-- Strides down from a place as long as the test does not hold: the last distance at which it does not, and
the distance at which it does, or `most`. -/
def strideDown (place last next most : Nat) : Except ε (Nat × Nat) :=
  if next < most then
    match items[place - next]? with
    | none => .ok (last, most)
    | some x => do
      if ← test x then return (last, next) else strideDown place next (2 * next + 1) most
  else .ok (last, most)
termination_by most - next

/-- The boundary, from a place on. -/
def gallop (place : Nat) : Except ε Nat :=
  match items[place]? with
  | none => .ok 0
  | some x => do
    if ← test x then
      let (last, next) ← strideUp test items place 0 1 (items.length - place)
      halve test items (place + last + 1) (place + next)
    else
      let (last, next) ← strideDown test items place 0 1 (place + 1)
      halve test items (place + 1 - next) (place - last)

end SophiaBind.Sorting
