/-
**Merging sorted runs by a comparison that may fail.**

Two runs are merged from the end at which fewer items are to be set aside. Item by item the lesser one is
taken, the left one of two equal ones; when one run has won several times in a row, the items to be taken
from it are searched for and taken together, and how often it has to win is adapted to how well that goes.

Main definitions:

* `Sorting.Merged` — a merged run, and how often a run has to win from now on,
* `Sorting.mergeUp`, `Sorting.mergeDown` — merging from the front and from the back,
* `Sorting.merge`.
-/

import SophiaBind.Sorting.Search

namespace SophiaBind.Sorting

variable {α ε : Type} (below : α → α → Except ε Bool)

/-- A merged run, and how often a run has to win from now on before items are searched for. -/
abbrev Merged (α : Type) := List α × Nat

/-- How many items are worth a search. -/
def worthwhile : Nat := 7

/-- Whether an item is not above another. -/
def upTo (key x : α) : Except ε Bool := do
  return !(← below key x)

/-- What has been merged in front, latest first, and what is left of the runs. -/
def closeUp (done left right : List α) : List α := done.reverse ++ right ++ left

/-- What is left of the runs, latest first, and what has been merged behind. -/
def closeDown (left right done : List α) : List α := right.reverse ++ left.reverse ++ done

/-! ### From the front -/

mutual

/-- Takes items from the front one by one; `lefts` and `rights` count how often a run has won in a row.
Every turn takes an item at least, so the fuel of the number of items is enough. -/
def stepUp : Nat → Nat → Nat → Nat → List α → List α → List α → Except ε (Merged α)
  | fuel + 1, wins, lefts, rights, done, x :: left, y :: right => do
    if ← below y x then
      if right.isEmpty then return (closeUp (y :: done) (x :: left) right, wins)
      else if wins ≤ rights + 1 then searchUp fuel (wins + 1) (y :: done) (x :: left) right
      else stepUp fuel wins 0 (rights + 1) (y :: done) (x :: left) right
    else
      if left.length ≤ 1 then return (closeUp (x :: done) left (y :: right), wins)
      else if wins ≤ lefts + 1 then searchUp fuel (wins + 1) (x :: done) left (y :: right)
      else stepUp fuel wins (lefts + 1) 0 (x :: done) left (y :: right)
  | _, wins, _, _, done, left, right => .ok (closeUp done left right, wins)

/-- Takes as many items from the front together as a search finds, from both runs in turn. -/
def searchUp : Nat → Nat → List α → List α → List α → Except ε (Merged α)
  | fuel + 1, wins, done, left, y :: right => do
    let wins := if 1 < wins then wins - 1 else wins
    let lefts ← gallop (upTo below y) left 0
    let done := (left.take lefts).reverse ++ done
    match left.drop lefts with
    | x :: z :: left =>
      if right.isEmpty then return (closeUp (y :: done) (x :: z :: left) right, wins)
      else
        let rights ← gallop (fun w => below w x) right 0
        let done := (right.take rights).reverse ++ y :: done
        let right := right.drop rights
        if right.isEmpty then return (closeUp done (x :: z :: left) right, wins)
        else if left.isEmpty then return (closeUp (x :: done) [z] right, wins)
        else if worthwhile ≤ lefts || worthwhile ≤ rights then searchUp fuel wins (x :: done) (z :: left) right
        else stepUp fuel (wins + 1) 0 0 (x :: done) (z :: left) right
    | left => return (closeUp done left (y :: right), wins)
  | _, wins, done, left, right => .ok (closeUp done left right, wins)

end

/-- Merges from the front, where the first item on the right comes first. -/
def mergeUp (wins : Nat) (left right : List α) : Except ε (Merged α) :=
  match right with
  | y :: right =>
    if right.isEmpty || left.length ≤ 1 then .ok (closeUp [y] left right, wins)
    else stepUp below (left.length + right.length) wins 0 0 [y] left right
  | [] => .ok (left, wins)

/-! ### From the back -/

mutual

/-- Takes items from the back one by one; both runs are given with the last item in front. -/
def stepDown : Nat → Nat → Nat → Nat → List α → List α → List α → Except ε (Merged α)
  | fuel + 1, wins, lefts, rights, x :: left, y :: right, done => do
    if ← below y x then
      if left.isEmpty then return (closeDown left (y :: right) (x :: done), wins)
      else if wins ≤ lefts + 1 then searchDown fuel (wins + 1) left (y :: right) (x :: done)
      else stepDown fuel wins (lefts + 1) 0 left (y :: right) (x :: done)
    else
      if right.length ≤ 1 then return (closeDown (x :: left) right (y :: done), wins)
      else if wins ≤ rights + 1 then searchDown fuel (wins + 1) (x :: left) right (y :: done)
      else stepDown fuel wins 0 (rights + 1) (x :: left) right (y :: done)
  | _, wins, _, _, left, right, done => .ok (closeDown left right done, wins)

/-- Takes as many items from the back together as a search finds, from both runs in turn. -/
def searchDown : Nat → Nat → List α → List α → List α → Except ε (Merged α)
  | fuel + 1, wins, left, y :: right, done => do
    let wins := if 1 < wins then wins - 1 else wins
    let lefts := left.length - (← gallop (upTo below y) left.reverse (left.length - 1))
    let done := (left.take lefts).reverse ++ done
    match left.drop lefts with
    | [] => return (closeDown [] (y :: right) done, wins)
    | x :: left =>
      if right.length ≤ 1 then return (closeDown (x :: left) right (y :: done), wins)
      else
        let rights := right.length - (← gallop (fun w => below w x) right.reverse (right.length - 1))
        let done := (right.take rights).reverse ++ y :: done
        let right := right.drop rights
        if right.length ≤ 1 && 0 < rights then return (closeDown (x :: left) right done, wins)
        else if left.isEmpty then return (closeDown [] right (x :: done), wins)
        else if worthwhile ≤ lefts || worthwhile ≤ rights then searchDown fuel wins left right (x :: done)
        else stepDown fuel (wins + 1) 0 0 left right (x :: done)
  | _, wins, left, right, done => .ok (closeDown left right done, wins)

end

/-- Merges from the back, where the last item on the left comes last. -/
def mergeDown (wins : Nat) (left right : List α) : Except ε (Merged α) :=
  match left.reverse with
  | x :: left =>
    if left.isEmpty || right.length ≤ 1 then .ok (closeDown left right.reverse [x], wins)
    else stepDown below (left.length + right.length) wins 0 0 left right.reverse [x]
  | [] => .ok (right, wins)

/-! ### Both -/

/-- Merges two runs: the items that are in their places already stay there. -/
def merge (wins : Nat) (left right : List α) : Except ε (Merged α) := do
  match left.getLast?, right with
  | some z, y :: _ =>
    let front ← gallop (upTo below y) left 0
    if left.length ≤ front then return (left ++ right, wins)
    else
      let back ← gallop (fun w => below w z) right (right.length - 1)
      if back = 0 then return (left ++ right, wins)
      else
        let (merged, wins) ←
          if left.length - front ≤ back then mergeUp below wins (left.drop front) (right.take back)
          else mergeDown below wins (left.drop front) (right.take back)
        return (left.take front ++ merged ++ right.drop back, wins)
  | _, _ => return (left ++ right, wins)

end SophiaBind.Sorting
