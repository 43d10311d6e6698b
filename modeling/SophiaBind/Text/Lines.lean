/-
**Lines** of a text.

A line ends at a line feed, a carriage return, the pair of both, a vertical tab, a form feed, one of the
first three information separators, the next-line control, or a Unicode line or paragraph separator.
A text file is read with its carriage returns turned into line feeds.

Main definitions:

* `isLineBreak` — the class of the characters that end a line,
* `lines` — the lines of a text, without what ends them,
* `normalizeNewlines` — a file's text as it is read.
-/

namespace SophiaBind.Text

/-- The characters that end a line. -/
def isLineBreak (c : Char) : Bool :=
  let n := c.toNat
  (10 ≤ n && n ≤ 13) || (28 ≤ n && n ≤ 30) || n == 0x85 || n == 0x2028 || n == 0x2029

/-- Puts a character in front of the first line; an empty list stands for one empty line. -/
def consLine (c : Char) : List (List Char) → List (List Char)
  | [] => [[c]]
  | line :: rest => (c :: line) :: rest

/-- The lines of a text; what follows the last break is a line only if it is not empty. -/
def lines : List Char → List (List Char)
  | [] => []
  | '\r' :: '\n' :: r => [] :: lines r
  | c :: r => if isLineBreak c then [] :: lines r else consLine c (lines r)

/-- A carriage return, alone or before a line feed, is read as a line feed. -/
def normalizeNewlines : List Char → List Char
  | [] => []
  | '\r' :: '\n' :: r => '\n' :: normalizeNewlines r
  | c :: r => (if c = '\r' then '\n' else c) :: normalizeNewlines r

end SophiaBind.Text
