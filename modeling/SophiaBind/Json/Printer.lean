/-
**Writing JSON text.**

Main definitions:

* `Json.render` — on one line, with a blank behind each comma and colon,
* `Json.renderIndented` — over several lines, two blanks a level,
* `Json.isWritable` — whether that is within the limit of whole numbers in texts,
* `Json.sorted` — the members of all objects in the order of their names,
* `Json.quote` — a text in double quotes; all characters beyond ASCII may be escaped or kept.
-/

import SophiaBind.Json
import SophiaBind.Number.Decimal
import SophiaBind.Number.Integer
import SophiaBind.Bytes.Hex

namespace SophiaBind.Json

/-! ### Texts -/

/-- Whether characters beyond ASCII are escaped. -/
inductive Charset where
  | ascii
  | unicode
  deriving DecidableEq, Repr

/-- A code unit as an escape of four digits. -/
def unitEscape (n : Nat) : List Char :=
  '\\' :: 'u' :: Hex.digits 4 n

/-- One character within quotes. -/
def escapeChar (charset : Charset) (c : Char) : List Char :=
  let n := c.toNat
  if c = '"' then ['\\', '"']
  else if c = '\\' then ['\\', '\\']
  else if n = 8 then ['\\', 'b']
  else if n = 12 then ['\\', 'f']
  else if c = '\n' then ['\\', 'n']
  else if c = '\r' then ['\\', 'r']
  else if c = '\t' then ['\\', 't']
  else if n < 32 then unitEscape n
  else if n < 127 || charset = .unicode then [c]
  else if n < 0x10000 then unitEscape n
  else unitEscape (0xD800 + (n - 0x10000) / 1024) ++ unitEscape (0xDC00 + (n - 0x10000) % 1024)

/-- A text in double quotes. -/
def quote (charset : Charset) (cs : List Char) : List Char :=
  '"' :: cs.flatMap (escapeChar charset) ++ ['"']

/-- One code point within quotes; a half is always escaped. -/
def escapePoint : CodePoint → List Char
  | .char c => escapeChar .ascii c
  | .half k => unitEscape (0xD800 + k)

/-- A text of code points in double quotes, in ASCII. -/
def quotePoints (ps : List CodePoint) : List Char :=
  '"' :: ps.flatMap escapePoint ++ ['"']

/-- Code points that are all characters are quoted as these are. -/
theorem quotePoints_map_char (cs : List Char) : quotePoints (cs.map .char) = quote .ascii cs := by
  simp [quotePoints, quote, List.flatMap_map, escapePoint]

/-! ### Values -/

/-- A number with a point or an exponent, or one of the three names. -/
def renderFloat (x : Binary64) : List Char :=
  match x with
  | .nan => "NaN".toList
  | .infinite negative => if negative then "-Infinity".toList else "Infinity".toList
  | x => Decimal.toText x

/-- The text of a value without parts. -/
def renderScalar : Json → List Char
  | .null => "null".toList
  | .bool b => if b then "true".toList else "false".toList
  | .int i => Integer.toText i
  | .float x => renderFloat x
  | .text s => quote .ascii s.toList
  | .broken t => quotePoints t.points
  | .array _ => "[]".toList
  | .object _ => ['{', '}']

mutual

/-- A value on one line. -/
def render : Json → List Char
  | .array items => '[' :: renderItems items ++ [']']
  | .object members => '{' :: renderMembers members ++ ['}']
  | j => renderScalar j

/-- Values with commas between. -/
def renderItems : List Json → List Char
  | [] => []
  | [j] => render j
  | j :: k :: rest => render j ++ ',' :: ' ' :: renderItems (k :: rest)

/-- Members with commas between. -/
def renderMembers : List (LooseText × Json) → List Char
  | [] => []
  | [(name, j)] => quotePoints name.points ++ ':' :: ' ' :: render j
  | (name, j) :: m :: rest =>
    quotePoints name.points ++ ':' :: ' ' :: render j ++ ',' :: ' ' :: renderMembers (m :: rest)

end

/-- A new line at a depth. -/
def newLine (depth : Nat) : List Char :=
  '\n' :: List.replicate (2 * depth) ' '

mutual

/-- A value over several lines, its parts one level deeper than `depth`. -/
def renderIndented (depth : Nat) : Json → List Char
  | .array (j :: rest) =>
    '[' :: newLine (depth + 1) ++ renderIndentedItems (depth + 1) (j :: rest) ++ newLine depth ++ [']']
  | .object (m :: rest) =>
    '{' :: newLine (depth + 1) ++ renderIndentedMembers (depth + 1) (m :: rest) ++ newLine depth ++ ['}']
  | j => renderScalar j

/-- Values with commas between, each on its line. -/
def renderIndentedItems (depth : Nat) : List Json → List Char
  | [] => []
  | [j] => renderIndented depth j
  | j :: k :: rest =>
    renderIndented depth j ++ ',' :: newLine depth ++ renderIndentedItems depth (k :: rest)

/-- Members with commas between, each on its line. -/
def renderIndentedMembers (depth : Nat) : List (LooseText × Json) → List Char
  | [] => []
  | [(name, j)] => quotePoints name.points ++ ':' :: ' ' :: renderIndented depth j
  | (name, j) :: m :: rest =>
    quotePoints name.points ++ ':' :: ' ' :: renderIndented depth j ++ ',' :: newLine depth ++
      renderIndentedMembers depth (m :: rest)

end

mutual

/-- Whether all whole numbers within a value can be written. -/
def isWritable : Json → Bool
  | .int i => Integer.isWritable i
  | .array items => areWritable items
  | .object members => areWritableMembers members
  | _ => true

/-- Whether all values can be written. -/
def areWritable : List Json → Bool
  | [] => true
  | j :: rest => isWritable j && areWritable rest

/-- Whether the values of all members can be written. -/
def areWritableMembers : List (LooseText × Json) → Bool
  | [] => true
  | (_, j) :: rest => isWritable j && areWritableMembers rest

end

/-! ### Order of members -/

/-- Members in the order of their names, by code points. -/
def sortMembers (members : List (LooseText × Json)) : List (LooseText × Json) :=
  members.mergeSort fun a b => !b.1.below a.1

mutual

/-- The members of all objects within a value in the order of their names. -/
def sorted : Json → Json
  | .array items => .array (sortedItems items)
  | .object members => .object (sortMembers (sortedMembers members))
  | j => j

/-- Each value with sorted members. -/
def sortedItems : List Json → List Json
  | [] => []
  | j :: rest => sorted j :: sortedItems rest

/-- Each member with sorted members in its value. -/
def sortedMembers : List (LooseText × Json) → List (LooseText × Json)
  | [] => []
  | (name, j) :: rest => (name, sorted j) :: sortedMembers rest

end

end SophiaBind.Json
