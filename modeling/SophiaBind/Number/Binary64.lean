/-
**Binary floating point of 64 bits**, with exact values.

A finite number is `± m · 2 ^ e` with `m < 2 ^ 53` and `e ≥ -1074`, where `m ≥ 2 ^ 52` unless
`e = -1074`; so two numbers are the same exactly when they are written the same. Sums and products are
exact and then rounded once, to the nearest, a tie to the even neighbour.

Main definitions:

* `Binary64` — a number, an infinity, or not a number,
* `Binary64.ofRatio` — the nearest to a ratio of natural numbers,
* `Binary64.add`, `Binary64.mul`, `Binary64.lt`,
* `Binary64.truncate?` — the integer part.
-/

namespace SophiaBind

/-- A floating point number. -/
inductive Binary64 where
  | nan
  | infinite (negative : Bool)
  | finite (negative : Bool) (mantissa : Nat) (exponent : Int)
  deriving DecidableEq, Repr

namespace Binary64

/-! ### Rounding -/

/-- A ratio rounded to a natural number: to the nearest, a tie to the even one. -/
def roundRatio (numerator denominator : Nat) : Nat :=
  let q := numerator / denominator
  let r := numerator % denominator
  if 2 * r < denominator then q
  else if denominator < 2 * r then q + 1
  else if q % 2 = 0 then q else q + 1

/-- A ratio in units of `2 ^ e`, as a ratio again. -/
def inUnits (numerator denominator : Nat) (e : Int) : Nat × Nat :=
  match e with
  | .ofNat k => (numerator, denominator * Nat.pow 2 k)
  | .negSucc k => (numerator * Nat.pow 2 (k + 1), denominator)

/-- The exponent of the last place of a number near a positive ratio. -/
def placeOf (numerator denominator : Nat) : Int :=
  let e := (numerator.log2 : Int) - denominator.log2 - 52
  let (n, d) := inUnits numerator denominator e
  max (-1074) (if n / d < Nat.pow 2 52 then e - 1 else e)

/-- The number nearest to a ratio, with a sign. -/
def ofRatio (negative : Bool) (numerator denominator : Nat) : Binary64 :=
  if numerator = 0 then .finite negative 0 (-1074)
  else
    let e := placeOf numerator denominator
    let (n, d) := inUnits numerator denominator e
    let m := roundRatio n d
    let (m, e) := if m = Nat.pow 2 53 then (Nat.pow 2 52, e + 1) else (m, e)
    if 971 < e then .infinite negative else .finite negative m e

/-- The number nearest to an integer. -/
def ofInt (i : Int) : Binary64 :=
  ofRatio (i < 0) i.natAbs 1

/-- The number nearest to `digits · 10 ^ exponent`. -/
def ofDecimal (negative : Bool) (digits : Nat) (exponent : Int) : Binary64 :=
  if digits = 0 then .finite negative 0 (-1074)
  else if 400 < exponent then .infinite negative
  else match exponent with
    | .ofNat k => ofRatio negative (digits * Nat.pow 10 k) 1
    | .negSucc k =>
      if (Nat.toDigits 10 digits).length + 400 < k then .finite negative 0 (-1074)
      else ofRatio negative digits (Nat.pow 10 (k + 1))

/-! ### Exact values -/

/-- A magnitude `m · 2 ^ e` as a ratio. -/
def magnitude (m : Nat) (e : Int) : Nat × Nat :=
  match e with
  | .ofNat k => (m * Nat.pow 2 k, 1)
  | .negSucc k => (m, Nat.pow 2 (k + 1))

/-- A finite value as a fraction with a positive denominator. -/
def fraction (negative : Bool) (m : Nat) (e : Int) : Int × Nat :=
  let (n, d) := magnitude m e
  (if negative then -(n : Int) else n, d)

/-- Whether a number is one of the two zeros. -/
def isZero : Binary64 → Bool
  | .finite _ m _ => m == 0
  | _ => false

/-- Whether a number is one of the two infinities. -/
def isInfinite : Binary64 → Bool
  | .infinite _ => true
  | _ => false

/-- The integer part of a finite number, towards zero. -/
def truncate? : Binary64 → Option Int
  | .finite negative m e =>
    let (n, d) := magnitude m e
    some (if negative then -((n / d : Nat) : Int) else ((n / d : Nat) : Int))
  | _ => none

/-! ### Arithmetic and order -/

/-- The sum. -/
def add : Binary64 → Binary64 → Binary64
  | .nan, _ => .nan
  | _, .nan => .nan
  | .infinite s, .infinite t => if s = t then .infinite s else .nan
  | .infinite s, .finite _ _ _ => .infinite s
  | .finite _ _ _, .infinite t => .infinite t
  | .finite s m e, .finite t n f =>
    let (a, b) := fraction s m e
    let (c, d) := fraction t n f
    let top := a * d + c * b
    if top = 0 then .finite (s && t) 0 (-1074) else ofRatio (top < 0) top.natAbs (b * d)

/-- The product. -/
def mul : Binary64 → Binary64 → Binary64
  | .nan, _ => .nan
  | _, .nan => .nan
  | .infinite s, .infinite t => .infinite (s != t)
  | .infinite s, .finite t n _ => if n = 0 then .nan else .infinite (s != t)
  | .finite s m _, .infinite t => if m = 0 then .nan else .infinite (s != t)
  | .finite s m e, .finite t n f =>
    let (a, b) := magnitude m e
    let (c, d) := magnitude n f
    ofRatio (s != t) (a * c) (b * d)

/-- Strictly below; never with a `nan`. -/
def lt : Binary64 → Binary64 → Bool
  | .nan, _ => false
  | _, .nan => false
  | .infinite s, .infinite t => s && !t
  | .infinite s, .finite _ _ _ => s
  | .finite _ _ _, .infinite t => !t
  | .finite s m e, .finite t n f =>
    let (a, b) := fraction s m e
    let (c, d) := fraction t n f
    a * d < c * b

/-- The lesser of two, the first unless the second is strictly below it. -/
def least (x y : Binary64) : Binary64 :=
  if lt y x then y else x

/-- Whether a number has exactly the value of an integer. -/
def equalsInt (x : Binary64) (i : Int) : Bool :=
  match x with
  | .finite negative m e => (fraction negative m e).1 == i * (fraction negative m e).2
  | _ => false

/-- Whether two numbers have the same value; the zeros have, a `nan` has not. -/
def sameValue : Binary64 → Binary64 → Bool
  | .nan, _ => false
  | _, .nan => false
  | x, y => (x.isZero && y.isZero) || x == y

/-- The nearest integer to a finite number, a tie to the even one. -/
def nearest? : Binary64 → Option Int
  | .finite negative m e =>
    let (n, d) := magnitude m e
    let q := roundRatio n d
    some (if negative then -(q : Int) else q)
  | _ => none

end Binary64

end SophiaBind
