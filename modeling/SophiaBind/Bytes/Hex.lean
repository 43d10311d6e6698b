/-
**Hexadecimal text** of byte strings.

Main definitions:

* `Hex.encode` — two lower-case digits a byte,
* `Hex.digits` — a number in lower-case digits, at least as many as asked for,
* `Hex.decode` — reads pairs of digits of either case; ASCII blanks may stand between pairs.
-/

import SophiaBind.Bytes

namespace SophiaBind.Hex

/-- The lower-case digit of a value below sixteen. -/
def digit (n : Nat) : Char :=
  if n < 10 then Char.ofNat (48 + n) else Char.ofNat (87 + n)

/-- The value of a digit of either case. -/
def digitValue? (c : Char) : Option Nat :=
  let n := c.toNat
  if 48 ≤ n && n ≤ 57 then some (n - 48)
  else if 97 ≤ n && n ≤ 102 then some (n - 87)
  else if 65 ≤ n && n ≤ 70 then some (n - 55)
  else none

/-- Two digits a byte. -/
def encode : Bytes → List Char
  | [] => []
  | b :: r => digit (b.toNat / 16) :: digit (b.toNat % 16) :: encode r

/-- The last `width` digits of a number. -/
def digits : Nat → Nat → List Char
  | 0, _ => []
  | width + 1, n => digits width (n / 16) ++ [digit (n % 16)]

/-- The blanks that may stand between pairs: tab to carriage return, and the space. -/
def isGap (c : Char) : Bool :=
  (9 ≤ c.toNat && c.toNat ≤ 13) || c == ' '

/-- Reads from position `pos`; the error is the position of the character that is no digit, where a
missing second digit counts as the place behind the text. -/
def decodeFrom (pos : Nat) : List Char → Except Nat Bytes
  | [] => .ok []
  | c :: r =>
    if isGap c then decodeFrom (pos + 1) r
    else match digitValue? c, r with
      | none, _ => .error pos
      | some _, [] => .error (pos + 1)
      | some hi, d :: r =>
        match digitValue? d with
        | none => .error (pos + 1)
        | some lo => (decodeFrom (pos + 2) r).map (UInt8.ofNat (hi * 16 + lo) :: ·)

/-- Reads pairs of hexadecimal digits. -/
def decode (cs : List Char) : Except Nat Bytes :=
  decodeFrom 0 cs

end SophiaBind.Hex
