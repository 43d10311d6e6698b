/-
**Sorting by a comparison that may fail.**

The items are cut into runs: those in front that ascend, or that descend strictly and are reversed. A short
run is lengthened by putting the items behind it into their places. Runs are merged with their neighbours
in an order that keeps the lengths in balance. Where the comparison is an order this is the stable sorting.
Where it is none, as with numbers of which one is not a number, or where some items cannot be compared, the
comparisons that are made decide.

Main definitions:

* `Sorting.firstRun` — the items in front that ascend or descend,
* `Sorting.insert` — puts an item into its place,
* `Sorting.Run`, `Sorting.power` — a run, and how far down its merging is in a balanced tree,
* `Sorting.sort`.
-/

import SophiaBind.Sorting.Merge

namespace SophiaBind.Sorting

variable {α ε : Type} (below : α → α → Except ε Bool)

/-! ### Runs -/

/-- How many items go on behind an item, each below the one in front of it or none of them. -/
def runLength (descending : Bool) (last : α) : List α → Except ε Nat
  | [] => .ok 0
  | x :: rest => do
    if (← below x last) = descending then return (← runLength descending x rest) + 1 else return 0

/-- The items in front that ascend, or that descend strictly, in ascending order, and the items behind. -/
def firstRun : List α → Except ε (List α × List α)
  | x :: y :: rest => do
    let descending ← below y x
    let n ← runLength below descending y rest
    let run := x :: y :: rest.take n
    return (if descending then run.reverse else run, rest.drop n)
  | xs => .ok (xs, [])

/-- Puts an item into its place among sorted ones, behind those that are not above it. -/
def insert (sorted : List α) (x : α) : Except ε (List α) := do
  return sorted.insertIdx (← halve (upTo below x) sorted 0 sorted.length) x

/-- The least length of a run among `n` items: between half of `longest` and `longest`, so that the number
of runs is a power of two or a bit less. -/
def leastRun (longest n : Nat) : Nat :=
  shrink n 0 n
where
  /-- Halves a number until it is below `longest`, adding one if anything was cut off. -/
  shrink (n rest : Nat) : Nat → Nat
    | 0 => n + rest
    | fuel + 1 => if n < longest then n + rest else shrink (n / 2) (max rest (n % 2)) fuel

/-- The next run, of at least so many items if there are as many, and the items behind. -/
def nextRun (least : Nat) (xs : List α) : Except ε (List α × List α) := do
  let (run, rest) ← firstRun below xs
  let missing := least - run.length
  return (← (rest.take missing).foldlM (insert below) run, rest.drop missing)

/-! ### Merging -/

/-- A run from a place on, and the power of its boundary with the next one. -/
structure Run (α : Type) where
  start : Nat
  items : List α
  power : Nat := 0

/-- The power of the boundary between two neighbouring runs among `n` items: the number of binary digits in
which the middles of both, as fractions of `n`, first differ. Both are given doubled. -/
def power (n : Nat) (left right : Nat) : Nat → Nat
  | 0 => 0
  | fuel + 1 =>
    if n ≤ left then power n (2 * (left - n)) (2 * (right - n)) fuel + 1
    else if n ≤ right then 1
    else power n (2 * left) (2 * right) fuel + 1

/-- The power of the boundary of a run with another of a length behind it. -/
def powerOf (n : Nat) (r : Run α) (length : Nat) : Nat :=
  let left := 2 * r.start + r.items.length
  power n left (left + r.items.length + length) n

/-- Merges a run with the one in front of it. -/
def mergeRuns (wins : Nat) (left right : Run α) : Except ε (Run α × Nat) := do
  let (items, wins) ← merge below wins left.items right.items
  return ({ left with items, power := right.power }, wins)

/-- Merges the latest runs, given first, as long as the boundary in front of them has more than a power. -/
def settle (limit : Nat) (wins : Nat) : List (Run α) → Nat → Except ε (List (Run α) × Nat)
  | right :: left :: others, fuel + 1 => do
    if limit < left.power then
      let (r, wins) ← mergeRuns below wins left right
      settle limit wins (r :: others) fuel
    else return (right :: left :: others, wins)
  | runs, _ => .ok (runs, wins)

/-- Merges all runs, given the latest one first, the shorter ones of neighbours first. -/
def settleAll (wins : Nat) : List (Run α) → Nat → Except ε (List α)
  | c :: b :: a :: others, fuel + 1 => do
    if a.items.length < c.items.length then
      let (r, wins) ← mergeRuns below wins a b
      settleAll wins (c :: r :: others) fuel
    else
      let (r, wins) ← mergeRuns below wins b c
      settleAll wins (r :: a :: others) fuel
  | [b, a], _ => do return (← merge below wins a.items b.items).1
  | [a], _ => .ok a.items
  | _, _ => .ok []

/-- Cuts items into runs and merges; every run takes an item at least. -/
def sortFrom (n least : Nat) (wins : Nat) (runs : List (Run α)) (start : Nat) :
    List α → Nat → Except ε (List α)
  | x :: xs, fuel + 1 => do
    let (run, rest) ← nextRun below least (x :: xs)
    let (runs, wins) ← match runs with
      | [] => pure ([], wins)
      | r :: others =>
        let p := powerOf n r run.length
        let (runs, wins) ← settle below p wins (r :: others) n
        pure (match runs with | r :: others => { r with power := p } :: others | [] => [], wins)
    sortFrom n least wins ({ start, items := run } :: runs) (start + run.length) rest fuel
  | _, _ => settleAll below wins runs n

/-- Sorts items. -/
def sort (xs : List α) : Except ε (List α) :=
  sortFrom below xs.length (leastRun 64 xs.length) worthwhile [] 0 xs xs.length

end SophiaBind.Sorting
