/-
**UTF-8** texts.

Reading names the first malformed sequence: its extent is the longest well-formed beginning, or everything
to the end of the input where only more bytes could complete it. Where there is a remedy for what is malformed,
reading goes on behind it.

Main definitions:

* `Utf8.encode`, `Utf8.decode`,
* `Utf8.Malformed` — where and why a byte string is not UTF-8,
* `Utf8.Remedy`, `Utf8.decodeMending` — reading on behind malformed bytes.
-/

import SophiaBind.Bytes.Hex
import SophiaBind.Text.CodePoint

namespace SophiaBind.Utf8

/-- Why a sequence of bytes is no character. -/
inductive Reason where
  /-- The first byte starts no character. -/
  | start
  /-- A later byte does not continue the character. -/
  | continuation
  /-- The input ends within the character. -/
  | truncated
  deriving DecidableEq, Repr

/-- A malformed sequence: the positions `first` up to but not including `past`. -/
structure Malformed where
  bytes : Bytes
  first : Nat
  past : Nat
  reason : Reason
  deriving DecidableEq, Repr

/-- The bytes of a text. -/
def encode (cs : List Char) : Bytes :=
  cs.flatMap String.utf8EncodeChar

/-- A byte of the form `10xxxxxx`. -/
def continues (b : UInt8) : Bool :=
  0x80 ≤ b && b < 0xC0

/-- Whether `b` may follow the first byte `a` of a character of three or four bytes. -/
def follows (a b : UInt8) : Bool :=
  continues b && !(a == 0xE0 && b < 0xA0) && !(a == 0xED && 0xA0 ≤ b) &&
    !(a == 0xF0 && b < 0x90) && !(a == 0xF4 && 0x90 ≤ b)

/-- The low six bits of a continuation byte. -/
def payload (b : UInt8) : Nat :=
  b.toNat % 64

/-- Reads from position `pos`; a failure gives the malformed range and the reason. -/
def decodeFrom (pos : Nat) : Bytes → Except (Nat × Nat × Reason) (List Char)
  | [] => .ok []
  | a :: r =>
    if a < 0x80 then (decodeFrom (pos + 1) r).map (Char.ofNat a.toNat :: ·)
    else if a < 0xC2 || 0xF5 ≤ a then .error (pos, pos + 1, .start)
    else if a < 0xE0 then
      match r with
      | [] => .error (pos, pos + 1, .truncated)
      | b :: r =>
        if continues b then
          (decodeFrom (pos + 2) r).map (Char.ofNat (a.toNat % 32 * 64 + payload b) :: ·)
        else .error (pos, pos + 1, .continuation)
    else if a < 0xF0 then
      match r with
      | [] => .error (pos, pos + 1, .truncated)
      | [b] => if follows a b then .error (pos, pos + 2, .truncated) else .error (pos, pos + 1, .continuation)
      | b :: c :: r =>
        if !follows a b then .error (pos, pos + 1, .continuation)
        else if !continues c then .error (pos, pos + 2, .continuation)
        else (decodeFrom (pos + 3) r).map
          (Char.ofNat (a.toNat % 16 * 4096 + payload b * 64 + payload c) :: ·)
    else
      match r with
      | [] => .error (pos, pos + 1, .truncated)
      | [b] => if follows a b then .error (pos, pos + 2, .truncated) else .error (pos, pos + 1, .continuation)
      | [b, c] =>
        if !follows a b then .error (pos, pos + 1, .continuation)
        else if !continues c then .error (pos, pos + 2, .continuation)
        else .error (pos, pos + 3, .truncated)
      | b :: c :: d :: r =>
        if !follows a b then .error (pos, pos + 1, .continuation)
        else if !continues c then .error (pos, pos + 2, .continuation)
        else if !continues d then .error (pos, pos + 3, .continuation)
        else (decodeFrom (pos + 4) r).map
          (Char.ofNat (a.toNat % 8 * 262144 + payload b * 4096 + payload c * 64 + payload d) :: ·)

/-- The text that a byte string writes. -/
def decode (bs : Bytes) : Except Malformed (List Char) :=
  match decodeFrom 0 bs with
  | .ok cs => .ok cs
  | .error (first, past, reason) => .error ⟨bs, first, past, reason⟩

/-! ### Malformed bytes -/

/-- What is taken for malformed bytes: of the bytes from there on, so many are malformed; a code point stands for
some of them, if there is a remedy. -/
abbrev Remedy := Bytes → Nat → Option (CodePoint × Nat)

/-- The replacement character stands for all that is malformed. -/
def replacing : Remedy :=
  fun _ count => some (.char '\uFFFD', count)

/-- A half of a surrogate pair is written in three bytes, as a character of its number would be. -/
def keepingHalves : Remedy
  | 0xED :: b :: c :: _, _ =>
    if 0xA0 ≤ b && b < 0xC0 && continues c then some (.ofNat (0xD000 + payload b * 64 + payload c), 3) else none
  | _, _ => none

/-- Reads from position `pos`, and goes on behind malformed bytes if there is a remedy, `left` times at most. -/
def mendFrom (remedy : Remedy) : Nat → Nat → Bytes → Except (Nat × Nat × Reason) (List CodePoint)
  | 0, pos, bs => (decodeFrom pos bs).map (List.map .char)
  | left + 1, pos, bs =>
    match decodeFrom pos bs with
    | .ok cs => .ok (cs.map .char)
    | .error (first, past, reason) =>
      match remedy (bs.drop (first - pos)) (past - first) with
      | none => .error (first, past, reason)
      | some (p, count) => do
        let front ← decodeFrom pos (bs.take (first - pos))
        let rest ← mendFrom remedy left (first + count) (bs.drop (first - pos + count))
        return front.map .char ++ p :: rest

/-- The text that a byte string writes, with a remedy for what is malformed. -/
def decodeMending (remedy : Remedy) (bs : Bytes) : Except Malformed (List CodePoint) :=
  match mendFrom remedy bs.length 0 bs with
  | .ok ps => .ok ps
  | .error (first, past, reason) => .error ⟨bs, first, past, reason⟩

/-! ### Wordings -/

/-- The wording of a reason. -/
def Reason.message : Reason → String
  | .start => "invalid start byte"
  | .continuation => "invalid continuation byte"
  | .truncated => "unexpected end of data"

/-- Names the byte at a place if there is one, else the range of positions. -/
def placeOf (bytes : Bytes) (first past : Nat) : String :=
  if past = first + 1 then
    "byte 0x" ++ String.ofList (Hex.digits 2 ((bytes.getD first 0).toNat)) ++ " in position " ++ toString first
  else "bytes in position " ++ toString first ++ "-" ++ toString (past - 1)

/-- The place and the reason. -/
def Malformed.message (m : Malformed) : String :=
  "'utf-8' codec can't decode " ++ placeOf m.bytes m.first m.past ++ ": " ++ m.reason.message

end SophiaBind.Utf8
