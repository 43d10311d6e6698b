/-
**Splitting outside brackets.**

The three kinds of brackets count as one: an opening bracket of any kind raises the level, a closing
bracket of any kind lowers it, below zero too. A separator splits where the level is zero.

Main definitions:

* `levelAfter` — the level behind a character,
* `splitOutside` — the parts between the separators at level zero,
* `level` — the level at the end of a text.
-/

namespace SophiaBind.Text

/-- The bracket level behind a character. -/
def levelAfter (level : Int) (c : Char) : Int :=
  if c = '(' || c = '{' || c = '[' then level + 1
  else if c = ')' || c = '}' || c = ']' then level - 1
  else level

/-- The level at the end of a text that starts at level zero. -/
def level (cs : List Char) : Int :=
  cs.foldl levelAfter 0

/-- Puts a character in front of the first part. -/
def consPart (c : Char) : List (List Char) → List (List Char)
  | [] => [[c]]
  | part :: rest => (c :: part) :: rest

/-- The parts of a text that starts at level `level`. A separator that is not one character long
separates nothing. -/
def splitFrom (separator : List Char) (level : Int) : List Char → List (List Char)
  | [] => [[]]
  | c :: r =>
    let level' := levelAfter level c
    if [c] = separator ∧ level' = 0 then [] :: splitFrom separator level' r
    else consPart c (splitFrom separator level' r)

/-- The parts of a text between the separators that stand outside all brackets. -/
def splitOutside (cs : List Char) (separator : List Char) : List (List Char) :=
  splitFrom separator 0 cs

end SophiaBind.Text
