/-
**Blank characters**, and the trimming and squeezing of text by them.

Blank are the ASCII controls that space or separate text, the space, and the Unicode separators.

Main definitions:

* `isBlank` — the class,
* `trim`, `trimEnd` — drop the blanks at the ends,
* `squeeze` — drop all blanks,
* `LooseText.trimmed` — a text, perhaps with halves, without the blanks at its ends.
-/

import SophiaBind.Text.CodePoint

namespace SophiaBind.Text

/-- A blank: tab to carriage return, the four information separators, the space and the Unicode spaces. -/
def isBlank (c : Char) : Bool :=
  let n := c.toNat
  (9 ≤ n && n ≤ 13) || (28 ≤ n && n ≤ 32) || n == 0x85 || n == 0xA0 || n == 0x1680 ||
    (0x2000 ≤ n && n ≤ 0x200A) || n == 0x2028 || n == 0x2029 || n == 0x202F || n == 0x205F || n == 0x3000

/-- Drops the blanks in front. -/
def trimStart (cs : List Char) : List Char :=
  cs.dropWhile isBlank

/-- Drops the blanks behind. -/
def trimEnd (cs : List Char) : List Char :=
  (cs.reverse.dropWhile isBlank).reverse

/-- Drops the blanks at both ends. -/
def trim (cs : List Char) : List Char :=
  trimEnd (trimStart cs)

/-- Drops every blank. -/
def squeeze (cs : List Char) : List Char :=
  cs.filter fun c => !isBlank c

/-- The text without the blanks at its ends. -/
def trimmed (s : String) : String :=
  String.ofList (trim s.toList)

end SophiaBind.Text

namespace SophiaBind

/-- A blank; a half is none. -/
def CodePoint.isBlank : CodePoint → Bool
  | .char c => Text.isBlank c
  | .half _ => false

/-- The text without the blanks at its ends. -/
def LooseText.trimmed : LooseText → LooseText
  | .whole s => .whole (Text.trimmed s)
  | .broken t => .ofPoints ((t.points.dropWhile CodePoint.isBlank).reverse.dropWhile CodePoint.isBlank).reverse

end SophiaBind
