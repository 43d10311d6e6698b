/-
**Integers in text.**

A whole number is written in decimal digits of any script, with a sign in front if any, single
underscores between digits if wanted, and blanks around. Of the ASCII separators only tab to carriage
return and the space count as blanks here. Texts hold numbers of at most `digitLimit` digits, leading zeros
among them, when they are read and when they are written.

Main definitions:

* `Integer.read` — reads a whole number, `Integer.Refusal` says why that fails,
* `Integer.ofText?` — the same without the reason,
* `Integer.toText` — writes one, `Integer.isWritable` says whether that is within the limit.
-/

import SophiaBind.Text.Blank
import SophiaBind.Text.Letter

namespace SophiaBind.Integer

/-! ### The limit -/

/-- The greatest number of digits in a text. -/
def digitLimit : Nat := 4300

/-- What texts of numbers are limited to. -/
def limitText : String :=
  "Exceeds the limit (" ++ toString digitLimit ++ " digits) for integer string conversion"

/-- How the limit can be raised. -/
def limitAdvice : String :=
  "; use sys.set_int_max_str_digits() to increase the limit"

/-- The complaint about a text of too many digits. -/
def limitMessage (count : Nat) : String :=
  limitText ++ ": value has " ++ toString count ++ " digits" ++ limitAdvice

/-- The complaint about a number of too many digits. -/
def textLimitMessage : String :=
  limitText ++ limitAdvice

/-! ### Reading -/

/-- Why a text is not read as a whole number. -/
inductive Refusal where
  | notInteger
  | tooManyDigits (count : Nat)
  deriving DecidableEq, Repr

/-- The blanks around a number. -/
def isPadding (c : Char) : Bool :=
  if c.toNat < 128 then (9 ≤ c.toNat && c.toNat ≤ 13) || c == ' ' else Text.isBlank c

/-- Reads digits behind a digit, where `n` is the number so far, of `count` digits: the number, how many
digits it has, and what follows. An underscore needs a digit behind it. -/
def digitsFrom? (n count : Nat) : List Char → Option (Nat × Nat × List Char)
  | [] => some (n, count, [])
  | '_' :: c :: r => (Text.decimalDigit? c).bind fun d => digitsFrom? (n * 10 + d) (count + 1) r
  | ['_'] => none
  | c :: r =>
    match Text.decimalDigit? c with
    | some d => digitsFrom? (n * 10 + d) (count + 1) r
    | none => some (n, count, c :: r)

/-- Reads one or more digits and blanks behind them. -/
def digits : List Char → Except Refusal Nat
  | [] => .error .notInteger
  | c :: r =>
    match (Text.decimalDigit? c).bind fun d => digitsFrom? d 1 r with
    | none => .error .notInteger
    | some (n, count, rest) =>
      if digitLimit < count then .error (.tooManyDigits count)
      else if rest.all isPadding then .ok n else .error .notInteger

/-- Reads a whole number. -/
def read (cs : List Char) : Except Refusal Int :=
  match cs.dropWhile isPadding with
  | '-' :: r => (digits r).map fun n => -(n : Int)
  | '+' :: r => (digits r).map fun n => (n : Int)
  | cs => (digits cs).map fun n => (n : Int)

/-- Reads a whole number, if there is one. -/
def ofText? (cs : List Char) : Option Int :=
  (read cs).toOption

/-! ### Writing -/

/-- The decimal digits of a number, with a minus sign if it is negative. -/
def toText (i : Int) : List Char :=
  match i with
  | .ofNat n => Nat.toDigits 10 n
  | .negSucc n => '-' :: Nat.toDigits 10 (n + 1)

/-- Whether a number has no more digits than a text may have. -/
def isWritable (i : Int) : Bool :=
  i.natAbs < Nat.pow 10 digitLimit

end SophiaBind.Integer
