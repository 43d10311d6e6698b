/-
**Base 58**: a byte string is a number written in 58 digits that cannot be confused with each other.

The zeros in front of a byte string do not show in its number, so each is written as one leading zero
digit.

Main definitions:

* `Base58.encode`, `Base58.decode`,
* `Base58.Refusal` — why a text is not in base 58.
-/

import SophiaBind.Bytes
import SophiaBind.Text.Blank

namespace SophiaBind.Base58

/-- The digits in order of value: no zero, no capital I or O, no small l. -/
def alphabet : List Char :=
  "123456789ABCDEFGHJKLMNPQRSTUVWXYZabcdefghijkmnopqrstuvwxyz".toList

/-- The digit of a value below 58. -/
def digit (n : Nat) : Char :=
  alphabet.getD n '1'

/-- The value of a digit. -/
def digitValue? (c : Char) : Option Nat :=
  alphabet.findIdx? (· == c)

/-- The digits of a number, most significant first; zero has none. -/
def digitsOf (n : Nat) : List Char :=
  if n = 0 then [] else digitsOf (n / 58) ++ [digit (n % 58)]
termination_by n

/-- A byte string in base 58. -/
def encode (bs : Bytes) : List Char :=
  List.replicate (bs.takeWhile (· == 0)).length '1' ++ digitsOf (Bytes.toNat bs)

/-- Why a text is not in base 58. -/
inductive Refusal where
  /-- The character at this position, the first of a run of so many, is beyond ASCII. -/
  | nonAscii (position count : Nat)
  /-- The character is no digit. -/
  | notDigit (c : Char)
  deriving DecidableEq, Repr

/-- The number that digits write. -/
def number (n : Nat) : List Char → Except Refusal Nat
  | [] => .ok n
  | c :: r =>
    match digitValue? c with
    | some d => number (n * 58 + d) r
    | none => .error (.notDigit c)

/-- The first run of characters beyond ASCII in a text that begins at a position. -/
def nonAscii? (position : Nat) : List Char → Option Refusal
  | [] => none
  | c :: r =>
    if c.toNat < 128 then nonAscii? (position + 1) r
    else some (.nonAscii position ((r.takeWhile fun c => 128 ≤ c.toNat).length + 1))

/-- Reads a text in base 58; blanks behind it do not count. -/
def decode (text : List Char) : Except Refusal Bytes :=
  let cs := Text.trimEnd text
  match nonAscii? 0 cs with
  | some why => .error why
  | none =>
    let zeros := (cs.takeWhile (· == '1')).length
    (number 0 (cs.dropWhile (· == '1'))).map fun n => List.replicate zeros 0 ++ Bytes.ofNat n

end SophiaBind.Base58
