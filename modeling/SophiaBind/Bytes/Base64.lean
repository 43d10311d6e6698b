/-
**Base 64**: three bytes in four characters, filled up with `=`.

Reading is lenient: a character outside the alphabet is passed over, and so is a filling that comes too
early; a filling that completes a group of four ends the text.

Main definitions:

* `Base64.encode`, `Base64.decode`,
* `Base64.Refusal` — why a text is not in base 64.
-/

import SophiaBind.Bytes

namespace SophiaBind.Base64

/-- The digits in order of value. -/
def alphabet : List Char :=
  "ABCDEFGHIJKLMNOPQRSTUVWXYZabcdefghijklmnopqrstuvwxyz0123456789+/".toList

/-- The character of a value below 64. -/
def digit (n : Nat) : Char :=
  alphabet.getD n 'A'

/-- The value of a character of the alphabet. -/
def digitValue? (c : Char) : Option Nat :=
  let n := c.toNat
  if 65 ≤ n && n ≤ 90 then some (n - 65)
  else if 97 ≤ n && n ≤ 122 then some (n - 71)
  else if 48 ≤ n && n ≤ 57 then some (n + 4)
  else if n = 43 then some 62
  else if n = 47 then some 63
  else none

/-- A byte string in base 64, group by group. -/
def encode : Bytes → List Char
  | [] => []
  | [a] => [digit (a.toNat / 4), digit (a.toNat % 4 * 16), '=', '=']
  | [a, b] =>
    [digit (a.toNat / 4), digit (a.toNat % 4 * 16 + b.toNat / 16), digit (b.toNat % 16 * 4), '=']
  | a :: b :: c :: r =>
    digit (a.toNat / 4) :: digit (a.toNat % 4 * 16 + b.toNat / 16) ::
      digit (b.toNat % 16 * 4 + c.toNat / 64) :: digit (c.toNat % 64) :: encode r

/-- Why a text is not in base 64. -/
inductive Refusal where
  /-- Some character is beyond ASCII. -/
  | nonAscii
  /-- The last group has one character; the text has this many characters of the alphabet. -/
  | loneCharacter (count : Nat)
  /-- The last group is not filled up. -/
  | padding
  deriving DecidableEq, Repr

/-- Where a reader stands within a group of four characters, with the bits left over. -/
inductive Pending where
  | none
  | six (bits : Nat)
  | four (bits : Nat)
  | two (bits : Nat)
  deriving DecidableEq, Repr

/-- The number of characters read of the current group. -/
def Pending.count : Pending → Nat
  | .none => 0
  | .six _ => 1
  | .four _ => 2
  | .two _ => 3

/-- Reads one value: the byte that it completes, if any, and what is pending behind it. -/
def Pending.push : Pending → Nat → Option UInt8 × Pending
  | .none, v => (Option.none, .six v)
  | .six bits, v => (some (UInt8.ofNat (bits * 4 + v / 16)), .four (v % 16))
  | .four bits, v => (some (UInt8.ofNat (bits * 16 + v / 4)), .two (v % 4))
  | .two bits, v => (some (UInt8.ofNat (bits * 64 + v)), .none)

/-- Reads on, with `written` bytes so far and `pads` fillings since the last character of the alphabet. -/
def decodeFrom (pending : Pending) (pads written : Nat) : List Char → Except Refusal Bytes
  | [] =>
    match pending with
    | .none => .ok []
    | .six _ => .error (.loneCharacter (written / 3 * 4 + 1))
    | _ => .error .padding
  | c :: r =>
    if c = '=' then
      if 2 ≤ pending.count then
        if 4 ≤ pending.count + pads + 1 then .ok [] else decodeFrom pending (pads + 1) written r
      else decodeFrom pending pads written r
    else match digitValue? c with
      | none => decodeFrom pending pads written r
      | some v =>
        match pending.push v with
        | (some b, next) => (decodeFrom next 0 (written + 1) r).map (b :: ·)
        | (none, next) => decodeFrom next 0 written r

/-- Reads a text in base 64. -/
def decode (cs : List Char) : Except Refusal Bytes :=
  if cs.all fun c => c.toNat < 128 then decodeFrom .none 0 0 cs else .error .nonAscii

end SophiaBind.Base64
