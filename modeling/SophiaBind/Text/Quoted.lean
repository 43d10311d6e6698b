/-
**Quoted texts**, as messages show them.

A text stands between single quotes, or between double quotes if it holds a single quote and no double
one. The quote in use and the backslash are escaped, tab, line feed and carriage return have short
escapes, and any other code point that is not printable is written by its number, as all halves of
surrogate pairs are.

Main definitions:

* `quoted` — a quoted text,
* `quotedPoints`, `LooseText.quoted` — a quoted text that may hold halves,
* `quotedBytes` — a quoted byte string, marked by a leading `b`.
-/

import SophiaBind.Text.Printable
import SophiaBind.Text.CodePoint
import SophiaBind.Bytes.Hex

namespace SophiaBind.Text

/-- The quote for a text: double only if that avoids escapes. -/
def quoteFor (cs : List Char) : Char :=
  if cs.contains '\'' && !cs.contains '"' then '"' else '\''

/-- The escapes that are the same in texts and byte strings. -/
def shortEscape? (quote c : Char) : Option (List Char) :=
  if c = quote || c = '\\' then some ['\\', c]
  else if c = '\t' then some ['\\', 't']
  else if c = '\n' then some ['\\', 'n']
  else if c = '\r' then some ['\\', 'r']
  else none

/-- A code point by its number. -/
def codeEscape (n : Nat) : List Char :=
  if n < 0x100 then '\\' :: 'x' :: Hex.digits 2 n
  else if n < 0x10000 then '\\' :: 'u' :: Hex.digits 4 n
  else '\\' :: 'U' :: Hex.digits 8 n

/-- One character within quotes. -/
def escapeChar (quote c : Char) : List Char :=
  match shortEscape? quote c with
  | some e => e
  | none => if isPrintable c then [c] else codeEscape c.toNat

/-- A text in quotes. -/
def quoted (s : String) : String :=
  let quote := quoteFor s.toList
  String.ofList (quote :: s.toList.flatMap (escapeChar quote) ++ [quote])

/-- One code point within quotes. -/
def escapePoint (quote : Char) : CodePoint → List Char
  | .char c => escapeChar quote c
  | .half k => codeEscape (0xD800 + k)

/-- A text of code points in quotes. -/
def quotedPoints (ps : List CodePoint) : String :=
  let quote := quoteFor (ps.map CodePoint.shown)
  String.ofList (quote :: ps.flatMap (escapePoint quote) ++ [quote])

/-- One byte within quotes. -/
def escapeByte (quote : Char) (b : UInt8) : List Char :=
  let c := Char.ofNat b.toNat
  match shortEscape? quote c with
  | some e => e
  | none => if 32 ≤ b && b < 127 then [c] else '\\' :: 'x' :: Hex.digits 2 b.toNat

/-- A byte string in quotes. -/
def quotedBytes (bs : Bytes) : String :=
  let quote := quoteFor (bs.map fun b => Char.ofNat b.toNat)
  String.ofList ('b' :: quote :: bs.flatMap (escapeByte quote) ++ [quote])

end SophiaBind.Text

namespace SophiaBind.LooseText

/-- A text in quotes. -/
def quoted (t : LooseText) : String :=
  Text.quotedPoints t.points

end SophiaBind.LooseText
