/-
**Reading JSON text.**

The reader accepts the grammar of JSON and the names `NaN`, `Infinity` and `-Infinity`. It works on the
rest of the text; a failure gives the length of the rest at which it was noticed, from which its line and
column follow. Halves of surrogate pairs may stand in texts and in names, by themselves or as escapes; two
escapes that belong together are one character.

Main definitions:

* `Json.Failure` — what was wrong, and where,
* `Json.Failure.message` — with line, column and position,
* `Json.parse` — reads a whole text.
-/

import SophiaBind.Json
import SophiaBind.Number.Decimal
import SophiaBind.Number.Integer
import SophiaBind.Bytes.Hex

namespace SophiaBind.Json

/-! ### Failures -/

/-- What was wrong with a text. -/
inductive Complaint where
  | byteOrderMark
  | value
  | extra
  | name
  | colon
  | comma
  | control
  | unterminated
  | escape
  | unicodeEscape
  /-- A whole number of so many digits, more than a text may have. -/
  | digits (count : Nat)
  deriving DecidableEq, Repr

/-- The wording of a complaint. -/
def Complaint.message : Complaint → String
  | .byteOrderMark => "Unexpected UTF-8 BOM (decode using utf-8-sig)"
  | .value => "Expecting value"
  | .extra => "Extra data"
  | .name => "Expecting property name enclosed in double quotes"
  | .colon => "Expecting ':' delimiter"
  | .comma => "Expecting ',' delimiter"
  | .control => "Invalid control character at"
  | .unterminated => "Unterminated string starting at"
  | .escape => "Invalid \\escape"
  | .unicodeEscape => "Invalid \\uXXXX escape"
  | .digits count => Integer.limitMessage count

/-- A complaint about a text and the position of its cause. -/
structure Failure where
  complaint : Complaint
  position : Nat
  line : Nat
  column : Nat
  deriving DecidableEq, Repr

/-- The number of digits that a failure complains about, if the text is JSON but for their number. -/
def Failure.digits? (f : Failure) : Option Nat :=
  match f.complaint with
  | .digits count => some count
  | _ => none

/-- The complaint with its place; the number of digits is complained about without one. -/
def Failure.message (f : Failure) : String :=
  match f.digits? with
  | some count => Integer.limitMessage count
  | none =>
    f.complaint.message ++ ": line " ++ toString f.line ++ " column " ++ toString f.column ++
      " (char " ++ toString f.position ++ ")"

/-- Locates a complaint at a position of a text. -/
def Failure.locate (text : List CodePoint) (complaint : Complaint) (position : Nat) : Failure :=
  let before := text.take position
  { complaint, position
    line := before.count (.char '\n') + 1
    column := (before.reverse.takeWhile (· != .char '\n')).length + 1 }

/-! ### Tokens -/

/-- A reader's result: a value and the rest of the text, or a complaint and the length of the rest. -/
abbrev Reading (α : Type) := Except (Complaint × Nat) (α × List CodePoint)

/-- The blanks between tokens. -/
def isGap : CodePoint → Bool
  | .char c => c == ' ' || c == '\t' || c == '\n' || c == '\r'
  | .half _ => false

/-- Drops the blanks in front. -/
def skipGap (ps : List CodePoint) : List CodePoint :=
  ps.dropWhile isGap

/-- The value of a hexadecimal digit. -/
def digitValue? : CodePoint → Option Nat
  | .char c => Hex.digitValue? c
  | .half _ => none

/-- The value of four hexadecimal digits. -/
def hexValue? (a b c d : CodePoint) : Option Nat := do
  let a ← digitValue? a
  let b ← digitValue? b
  let c ← digitValue? c
  let d ← digitValue? d
  return a * 4096 + b * 256 + c * 16 + d

/-- The character behind a backslash in a short escape. -/
def shortEscape? (c : Char) : Option Char :=
  if c = '"' || c = '\\' || c = '/' then some c
  else if c = 'b' then some (Char.ofNat 8)
  else if c = 'f' then some (Char.ofNat 12)
  else if c = 'n' then some '\n'
  else if c = 'r' then some '\r'
  else if c = 't' then some '\t'
  else none

/-- Puts a code point in front of a text that was read. -/
def consRead (p : CodePoint) : Reading (List CodePoint) → Reading (List CodePoint)
  | .ok (s, r) => .ok (p :: s, r)
  | .error e => .error e

/-- Reads a text behind its opening quote; `start` is the length of the rest at that quote. -/
def textFrom (start : Nat) : List CodePoint → Reading (List CodePoint)
  | [] => .error (.unterminated, start)
  | .char '"' :: r => .ok ([], r)
  | [.char '\\'] => .error (.unterminated, start)
  | .char '\\' :: .char 'u' :: a :: b :: c :: d :: .char '\\' :: .char 'u' :: e :: f :: g :: h :: r =>
    match hexValue? a b c d with
    | none => .error (.unicodeEscape, r.length + 11)
    | some n =>
      if CodePoint.isHighHalf n then
        match hexValue? e f g h with
        | none => .error (.unicodeEscape, r.length + 5)
        | some m =>
          if CodePoint.isLowHalf m then consRead (CodePoint.joinHalves n m) (textFrom start r)
          else consRead (.ofNat n) (textFrom start (.char '\\' :: .char 'u' :: e :: f :: g :: h :: r))
      else consRead (.ofNat n) (textFrom start (.char '\\' :: .char 'u' :: e :: f :: g :: h :: r))
  | .char '\\' :: .char 'u' :: a :: b :: c :: d :: r =>
    match hexValue? a b c d with
    | none => .error (.unicodeEscape, r.length + 5)
    | some n => consRead (.ofNat n) (textFrom start r)
  | .char '\\' :: .char 'u' :: r => .error (.unicodeEscape, r.length + 1)
  | .char '\\' :: .char c :: r =>
    match shortEscape? c with
    | none => .error (.escape, r.length + 2)
    | some c => consRead (.char c) (textFrom start r)
  | .char '\\' :: .half _ :: r => .error (.escape, r.length + 2)
  | p :: r => if p.toNat < 32 then .error (.control, r.length + 1) else consRead p (textFrom start r)

/-- The exponent in front of a text, if it is complete, and the rest. -/
def exponentIn : List Char → Option (List Char × List Char)
  | c :: r =>
    if c = 'e' || c = 'E' then
      let (sign, r) := match r with
        | '-' :: r => (['-'], r)
        | '+' :: r => (['+'], r)
        | r => ([], r)
      let digits := r.takeWhile Decimal.isDigit
      if digits = [] then none else some (sign ++ digits, r.dropWhile Decimal.isDigit)
    else none
  | [] => none

/-- The result of reading a word: a value and the rest of the word, or a complaint. -/
abbrev WordReading := Except Complaint (Json × List Char)

/-- Reads a number behind its sign. -/
def numberFrom (negative : Bool) (cs : List Char) : WordReading :=
  let whole := match cs with
    | '0' :: _ => ['0']
    | cs => cs.takeWhile Decimal.isDigit
  if whole = [] then .error .value
  else
    let r := cs.drop whole.length
    let (places, r) := match r with
      | '.' :: d :: r =>
        if Decimal.isDigit d then (d :: r.takeWhile Decimal.isDigit, r.dropWhile Decimal.isDigit)
        else ([], '.' :: d :: r)
      | r => ([], r)
    match exponentIn r with
    | some (exponent, r) =>
      .ok (.float (Decimal.assemble negative whole places ((Decimal.exponent? exponent).getD 0)), r)
    | none =>
      if places = [] then
        if Integer.digitLimit < whole.length then .error (.digits whole.length)
        else
          let n : Int := Decimal.natOfDigits whole
          .ok (.int (if negative then -n else n), r)
      else .ok (.float (Decimal.assemble negative whole places 0), r)

/-- Reads a number or one of the names that stand for values. -/
def scalar (word : List Char) : WordReading :=
  match word with
  | 'n' :: 'u' :: 'l' :: 'l' :: r => .ok (.null, r)
  | 't' :: 'r' :: 'u' :: 'e' :: r => .ok (.bool true, r)
  | 'f' :: 'a' :: 'l' :: 's' :: 'e' :: r => .ok (.bool false, r)
  | 'N' :: 'a' :: 'N' :: r => .ok (.float .nan, r)
  | 'I' :: 'n' :: 'f' :: 'i' :: 'n' :: 'i' :: 't' :: 'y' :: r => .ok (.float (.infinite false), r)
  | '-' :: 'I' :: 'n' :: 'f' :: 'i' :: 'n' :: 'i' :: 't' :: 'y' :: r => .ok (.float (.infinite true), r)
  | '-' :: r => numberFrom true r
  | cs => numberFrom false cs

/-- The characters of numbers and of the names that stand for values. -/
def isWordChar (c : Char) : Bool :=
  c.isAlphanum || c == '+' || c == '-' || c == '.'

/-- The longest word in front of a text. -/
def wordOf : List CodePoint → List Char
  | .char c :: r => if isWordChar c then c :: wordOf r else []
  | _ => []

/-- Reads a number or a name in front of a text. -/
def scalarFrom (ps : List CodePoint) : Reading Json :=
  let word := wordOf ps
  match scalar word with
  | .ok (v, r) => .ok (v, ps.drop (word.length - r.length))
  | .error complaint => .error (complaint, ps.length)

/-! ### Values -/

mutual

/-- Reads a value; the fuel bounds its depth and the members behind. -/
def valueFrom : Nat → List CodePoint → Reading Json
  | 0, ps => .error (.value, ps.length)
  | fuel + 1, ps =>
    match ps with
    | .char '"' :: r =>
      match textFrom ps.length r with
      | .ok (s, r) => .ok (.ofText (.ofPoints s), r)
      | .error e => .error e
    | .char '{' :: r =>
      match skipGap r with
      | .char '}' :: r => .ok (.object [], r)
      | r => membersFrom fuel [] r
    | .char '[' :: r =>
      match skipGap r with
      | .char ']' :: r => .ok (.array [], r)
      | r => itemsFrom fuel [] r
    | ps => scalarFrom ps

/-- Reads the members of an object from a name on; `done` holds those in front. -/
def membersFrom : Nat → List (LooseText × Json) → List CodePoint → Reading Json
  | 0, _, ps => .error (.value, ps.length)
  | fuel + 1, done, ps =>
    match ps with
    | .char '"' :: r =>
      match textFrom ps.length r with
      | .error e => .error e
      | .ok (name, r) =>
        match skipGap r with
        | .char ':' :: r =>
          match valueFrom fuel (skipGap r) with
          | .error e => .error e
          | .ok (v, r) =>
            let done := Keyed.put done (LooseText.ofPoints name) v
            match skipGap r with
            | .char '}' :: r => .ok (.object done, r)
            | .char ',' :: r => membersFrom fuel done (skipGap r)
            | r => .error (.comma, r.length)
        | r => .error (.colon, r.length)
    | ps => .error (.name, ps.length)

/-- Reads the items of an array from a value on; `done` holds those in front, the last one first. -/
def itemsFrom : Nat → List Json → List CodePoint → Reading Json
  | 0, _, ps => .error (.value, ps.length)
  | fuel + 1, done, ps =>
    match valueFrom fuel ps with
    | .error e => .error e
    | .ok (v, r) =>
      match skipGap r with
      | .char ']' :: r => .ok (.array (v :: done).reverse, r)
      | .char ',' :: r => itemsFrom fuel (v :: done) (skipGap r)
      | r => .error (.comma, r.length)

end

/-- Reads a text that is one value with blanks around. -/
def parseWhole (ps : List CodePoint) : Except Failure Json :=
  let fail (complaint : Complaint) (left : Nat) : Except Failure Json :=
    .error (Failure.locate ps complaint (ps.length - left))
  match valueFrom (2 * ps.length + 2) (skipGap ps) with
  | .error (complaint, left) => fail complaint left
  | .ok (v, r) =>
    match skipGap r with
    | [] => .ok v
    | r => fail .extra r.length

/-- Reads a text that is one value with blanks around, without a mark of its encoding in front. -/
def parseChars (cs : List Char) : Except Failure Json :=
  match cs with
  | '\uFEFF' :: _ => .error (Failure.locate (cs.map .char) .byteOrderMark 0)
  | cs => parseWhole (cs.map .char)

/-- Reads a text that is one value with blanks around. -/
def parse (s : String) : Except Failure Json :=
  parseChars s.toList

end SophiaBind.Json
