/-
**Decimal text of floating point numbers.**

A number is written with the fewest digits that read back as itself, the nearest such digits to its
value. Numbers from `10 ^ -4` up to below `10 ^ 16` are written positionally, always with a point;
others with an exponent of at least two digits and a sign.

Main definitions:

* `Decimal.shortest` — the fewest digits and their scale,
* `Decimal.toText` — the text of a number,
* `Decimal.toTenths` — with one place behind the point, a tie to the even digit,
* `Decimal.ofText?` — reads a number.
-/

import SophiaBind.Number.Binary64

namespace SophiaBind.Decimal

/-! ### Fewest digits -/

/-- The number of decimal digits before the point of a ratio of at least one; for a ratio below one, zero
or less by the number of zeros behind the point. The fuel bounds the zeros. -/
def integerDigits (numerator denominator : Nat) : Nat → Int
  | 0 => 0
  | fuel + 1 =>
    if denominator ≤ numerator then ((Nat.toDigits 10 (numerator / denominator)).length : Int)
    else if denominator ≤ numerator * 10 then 0
    else integerDigits (numerator * 10) denominator fuel - 1

/-- A ratio in units of `10 ^ k`, as a ratio again. -/
def inTens (numerator denominator : Nat) (k : Int) : Nat × Nat :=
  match k with
  | .ofNat j => (numerator, denominator * Nat.pow 10 j)
  | .negSucc j => (numerator * Nat.pow 10 (j + 1), denominator)

/-- Of the two neighbours of a value on the grid of multiples of `10 ^ k`, the nearer one that reads
back as the number `m · 2 ^ e`. -/
def neighbour? (m : Nat) (e k : Int) : Option Nat :=
  let (num, den) := Binary64.magnitude m e
  let (n, d) := inTens num den k
  let low := n / d
  let reads (c : Nat) : Bool := Binary64.ofDecimal false c k == .finite false m e
  match reads low, reads (low + 1) with
  | true, true => some (if 2 * (n % d) < d || (2 * (n % d) == d && low % 2 == 0) then low else low + 1)
  | true, false => some low
  | false, true => some (low + 1)
  | false, false => none

/-- Searches the grids of more and more digits, `count` being the next. -/
def search (m : Nat) (e point : Int) (count : Nat) : Nat → Nat × Int
  | 0 => (m, 0)
  | fuel + 1 =>
    let k := point - count
    match neighbour? m e k with
    | some digits => (digits, k)
    | none => search m e point (count + 1) fuel

/-- The fewest digits that read back as `m · 2 ^ e`, and the power of ten of the last one. -/
def shortest (m : Nat) (e : Int) : Nat × Int :=
  let (num, den) := Binary64.magnitude m e
  search m e (integerDigits num den 400) 1 20

/-- Drops the zeros at the end of a digit list, counting them. -/
def dropZeros (digits : List Char) : List Char × Nat :=
  let rev := digits.reverse
  let zeros := (rev.takeWhile (· == '0')).length
  ((rev.drop zeros).reverse, zeros)

/-! ### Writing -/

/-- Lays digits out with the point behind the first `point` of them. -/
def layout (digits : List Char) (point : Int) : List Char :=
  let n : Int := digits.length
  if -4 < point && point ≤ 16 then
    if point ≤ 0 then '0' :: '.' :: List.replicate (-point).toNat '0' ++ digits
    else if n ≤ point then digits ++ List.replicate (point - n).toNat '0' ++ ['.', '0']
    else digits.take point.toNat ++ '.' :: digits.drop point.toNat
  else
    let exponent := point - 1
    let shown := Nat.toDigits 10 exponent.natAbs
    let padded := if shown.length < 2 then '0' :: shown else shown
    digits.take 1 ++ (if n = 1 then [] else '.' :: digits.drop 1) ++
      'e' :: (if exponent < 0 then '-' else '+') :: padded

/-- The text of a number. -/
def toText : Binary64 → List Char
  | .nan => "nan".toList
  | .infinite negative => if negative then "-inf".toList else "inf".toList
  | .finite negative m e =>
    let body :=
      if m = 0 then "0.0".toList
      else
        let (digits, k) := shortest m e
        let (kept, zeros) := dropZeros (Nat.toDigits 10 digits)
        layout kept (k + zeros + kept.length)
    if negative then '-' :: body else body

/-- The text of a number with one place behind the point. -/
def toTenths : Binary64 → List Char
  | .nan => "nan".toList
  | .infinite negative => if negative then "-inf".toList else "inf".toList
  | .finite negative m e =>
    let (n, d) := Binary64.magnitude m e
    let tenths := Binary64.roundRatio (10 * n) d
    let body := Nat.toDigits 10 (tenths / 10) ++ '.' :: Nat.toDigits 10 (tenths % 10)
    if negative then '-' :: body else body

/-! ### Reading -/

/-- The number that a run of ASCII digits writes. -/
def natOfDigits (cs : List Char) : Nat :=
  cs.foldl (fun n c => n * 10 + (c.toNat - 48)) 0

/-- An ASCII digit. -/
def isDigit (c : Char) : Bool :=
  48 ≤ c.toNat && c.toNat ≤ 57

/-- The number written by the digits before and behind the point and an exponent. -/
def assemble (negative : Bool) (whole places : List Char) (exponent : Int) : Binary64 :=
  Binary64.ofDecimal negative (natOfDigits (whole ++ places)) (exponent - places.length)

/-- Reads an exponent behind its letter: a sign if any and digits. -/
def exponent? : List Char → Option Int
  | '-' :: r => if r ≠ [] && r.all isDigit then some (-(natOfDigits r : Int)) else none
  | '+' :: r => if r ≠ [] && r.all isDigit then some (natOfDigits r : Int) else none
  | r => if r ≠ [] && r.all isDigit then some (natOfDigits r : Int) else none

/-- Reads a magnitude: digits, a point with digits if any, an exponent if any. -/
def magnitude? (negative : Bool) (cs : List Char) : Option Binary64 :=
  let whole := cs.takeWhile isDigit
  let r := cs.dropWhile isDigit
  let (places, r) := match r with
    | '.' :: r => (r.takeWhile isDigit, r.dropWhile isDigit)
    | r => ([], r)
  if whole = [] && places = [] then none
  else match r with
    | [] => some (assemble negative whole places 0)
    | c :: r =>
      if c = 'e' || c = 'E' then (exponent? r).map (assemble negative whole places) else none

/-- Reads a number as it is written, with the names of the values that are not finite. -/
def ofText? (cs : List Char) : Option Binary64 :=
  let (negative, r) := match cs with
    | '-' :: r => (true, r)
    | r => (false, r)
  if r = "inf".toList then some (.infinite negative)
  else if r = "nan".toList then some .nan
  else magnitude? negative r

end SophiaBind.Decimal
