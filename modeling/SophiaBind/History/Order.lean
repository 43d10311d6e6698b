/-
**The order of the deploy history.**

Rows are ordered by their times. Numbers have an order among themselves, texts have one, and sequences
have one by the first items that differ; nothing else can be compared. Times that are numbers or that are
texts decide the order alone; with any others, and with a time that is not a number, it depends on the
order in which the rows were given as well.

Main definitions:

* `History.Row`, `History.time`,
* `History.below` — whether a time is strictly below another,
* `History.same` — whether two items of sequences do not differ,
* `History.sortByTime`.
-/

import SophiaBind.Sorting
import SophiaBind.Value.Convert

namespace SophiaBind.History

/-- A row: the members of one line. -/
abbrev Row := List (LooseText × Json)

/-- The time of a row; a row without one counts as zero. -/
def time (row : Row) : Json :=
  (Json.lookup? row "t").getD (.int 0)

/-! ### Comparisons -/

/-- Whether a number is strictly below another. -/
def numberBelow : Int ⊕ Binary64 → Int ⊕ Binary64 → Bool
  | .inl i, .inl j => decide (i < j)
  | .inl i, .inr y => below i y
  | .inr x, .inl j => above x j
  | .inr x, .inr y => x.lt y
where
  below (i : Int) : Binary64 → Bool
    | .nan => false
    | .infinite negative => !negative
    | .finite negative m e =>
      let (n, d) := Binary64.fraction negative m e
      decide (i * d < n)
  above : Binary64 → Int → Bool
    | .nan, _ => false
    | .infinite negative, _ => negative
    | .finite negative m e, j =>
      let (n, d) := Binary64.fraction negative m e
      decide (n < j * d)

mutual

/-- Whether two items do not differ. Numbers are the same by value, what is not a number is the same as
itself, and objects are the same with the same values under the same names. -/
def same : Json → Json → Bool
  | .null, .null => true
  | .text s, .text t => s == t
  | .broken s, .broken t => s == t
  | .float .nan, .float .nan => true
  | .array xs, .array ys => sameAll xs ys
  | .object ms, .object ns => ms.length == ns.length && sameMembers ms ns
  | x, y =>
    match (Value.ofJson x).asNumber?, (Value.ofJson y).asNumber? with
    | some a, some b => Value.sameNumber a b
    | _, _ => false

/-- Whether two sequences do not differ. -/
def sameAll : List Json → List Json → Bool
  | [], [] => true
  | x :: xs, y :: ys => same x y && sameAll xs ys
  | _, _ => false

/-- Whether members are found with the same values among others. -/
def sameMembers : List (LooseText × Json) → List (LooseText × Json) → Bool
  | [], _ => true
  | (name, x) :: ms, ns =>
    (match ns.lookup name with
      | some y => same x y
      | none => false) && sameMembers ms ns

end

mutual

/-- Whether a value is strictly below another. -/
def below : Json → Json → Except Fault Bool
  | .array xs, .array ys => belowAll xs ys
  | x, y =>
    match x.text?, y.text? with
    | some s, some t => .ok (s.below t)
    | _, _ =>
      match (Value.ofJson x).asNumber?, (Value.ofJson y).asNumber? with
      | some a, some b => .ok (numberBelow a b)
      | _, _ => .error (.incomparable (Value.ofJson x).kind (Value.ofJson y).kind)

/-- Whether a sequence is strictly below another, by the first items that differ. -/
def belowAll : List Json → List Json → Except Fault Bool
  | [], ys => .ok !ys.isEmpty
  | _ :: _, [] => .ok false
  | x :: xs, y :: ys => if same x y then belowAll xs ys else below x y

end

/-! ### Sorting -/

/-- Whether a time is a number. -/
def isNumber : Json → Bool
  | .int _ => true
  | .bool _ => true
  | .float x => x != .nan
  | _ => false

/-- Whether a time is a text. -/
def isText (j : Json) : Bool :=
  j.text?.isSome

/-- Whether a row may stay in front of another. -/
def notAfter (a b : Row) : Bool :=
  match below (time b) (time a) with
  | .ok later => !later
  | .error _ => true

/-- Rows in the order of their times, those of the same time in the order given. -/
def sortByTime (rows : List Row) : Except Fault (List Row) :=
  let times := rows.map time
  if times.all isNumber || times.all isText then .ok (rows.mergeSort notAfter)
  else Sorting.sort (fun a b => below (time a) (time b)) rows

end SophiaBind.History
