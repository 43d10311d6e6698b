/-
**JSON text in bytes.**

A text of JSON begins with two ASCII characters, or is one character long. So the zeros among its first
four bytes tell its encoding: UTF-8, or code units of two or four bytes with the lowest or the highest byte
in front. A mark of UTF-8 in front is no part of the text.

Main definitions:

* `Json.Encoding`, `Json.Encoding.detect` — the encoding of some bytes,
* `Json.Encoding.Malformed` — where and why bytes are no code units,
* `Json.textOf`, `Json.ofEncoded` — reads the bytes of a text,
* `Json.Unreadable` — why bytes are no JSON.
-/

import SophiaBind.Json.Parser
import SophiaBind.Text.Utf8

namespace SophiaBind.Json

/-- An encoding of texts; `high` says that the highest byte of a code unit comes first. -/
inductive Encoding where
  | utf8
  | marked
  | utf16 (high : Bool)
  | utf32 (high : Bool)
  deriving DecidableEq, Repr

namespace Encoding

/-- The encoding of the bytes of a text, by its first four bytes, or by both of only two. -/
def detect (bs : Bytes) : Encoding :=
  match bs with
  | 0xEF :: 0xBB :: 0xBF :: _ => .marked
  | a :: b :: c :: d :: _ =>
    if a = 0 then if b = 0 then .utf32 true else .utf16 true
    else if b = 0 then if c = 0 && d = 0 then .utf32 false else .utf16 false
    else .utf8
  | [a, b] => if a = 0 then .utf16 true else if b = 0 then .utf16 false else .utf8
  | _ => .utf8

/-- The name of an encoding. -/
def name : Encoding → String
  | .utf8 => "utf-8"
  | .marked => "utf-8-sig"
  | .utf16 high => if high then "utf-16-be" else "utf-16-le"
  | .utf32 high => if high then "utf-32-be" else "utf-32-le"

/-- Why bytes are no code units. -/
inductive Reason where
  /-- The bytes end within a code unit. -/
  | truncated
  /-- A code unit is beyond all characters. -/
  | beyond
  deriving DecidableEq, Repr

/-- The wording of a reason. -/
def Reason.message : Reason → String
  | .truncated => "truncated data"
  | .beyond => "code point not in range(0x110000)"

/-- Bytes that are no code unit: the positions `first` up to but not including `past`. -/
structure Malformed where
  encoding : Encoding
  bytes : Bytes
  first : Nat
  past : Nat
  reason : Reason
  deriving DecidableEq, Repr

/-- The encoding, the place and the reason. -/
def Malformed.message (m : Malformed) : String :=
  "'" ++ m.encoding.name ++ "' codec can't decode " ++ Utf8.placeOf m.bytes m.first m.past ++ ": " ++
    m.reason.message

/-- The number that bytes write. -/
def unitOf (high : Bool) (bs : Bytes) : Nat :=
  if high then Bytes.toNat bs else Bytes.toNatLittle bs

/-- The code units of two bytes each, from a position; a failure gives the malformed range. -/
def units16 (high : Bool) (pos : Nat) : Bytes → Except (Nat × Nat × Reason) (List Nat)
  | [] => .ok []
  | [_] => .error (pos, pos + 1, .truncated)
  | a :: b :: rest => (units16 high (pos + 2) rest).map (unitOf high [a, b] :: ·)

/-- The code units of four bytes each, from a position; a failure gives the malformed range. -/
def units32 (high : Bool) (pos : Nat) : Bytes → Except (Nat × Nat × Reason) (List Nat)
  | [] => .ok []
  | a :: b :: c :: d :: rest =>
    let n := unitOf high [a, b, c, d]
    if 0x110000 ≤ n then .error (pos, pos + 4, .beyond)
    else (units32 high (pos + 4) rest).map (n :: ·)
  | bs => .error (pos, pos + bs.length, .truncated)

/-- The text of bytes of two or four a code unit. -/
def decodeWide (e : Encoding) (bs : Bytes) : Except Malformed (List CodePoint) :=
  let text := match e with
    | .utf16 high => (units16 high 0 bs).map CodePoint.ofUnits
    | .utf32 high => (units32 high 0 bs).map (List.map CodePoint.ofNat)
    | _ => .ok []
  match text with
  | .ok ps => .ok ps
  | .error (first, past, reason) => .error ⟨e, bs, first, past, reason⟩

end Encoding

/-- Why bytes are no JSON. -/
inductive Unreadable where
  | bytes (why : Utf8.Malformed)
  | encoding (why : Encoding.Malformed)
  | content (why : Failure)
  deriving DecidableEq, Repr

/-- The wording of a reason. -/
def Unreadable.message : Unreadable → String
  | .bytes why => why.message
  | .encoding why => why.message
  | .content why => why.message

/-- The text of bytes, by the encoding that they tell. Halves of pairs are kept. -/
def textOf (bs : Bytes) : Except Unreadable (List CodePoint) :=
  match Encoding.detect bs with
  | .utf8 => (Utf8.decodeMending Utf8.keepingHalves bs).mapError .bytes
  | .marked => (Utf8.decodeMending Utf8.keepingHalves (bs.drop 3)).mapError .bytes
  | e => (e.decodeWide bs).mapError .encoding

/-- Reads the value whose text is in bytes. -/
def ofEncoded (bs : Bytes) : Except Unreadable Json := do
  let text ← textOf bs
  (parseWhole text).mapError .content

end SophiaBind.Json
