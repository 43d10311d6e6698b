/-
**Encoded values** of the node's interface.

Keys, contracts, transactions and call data are written as a mark of what they are, an underscore, and
the payload followed by a checksum. Marks of short things use base 58, all others base 64.

Main definitions:

* `Encoded.encode`, `Encoded.decode`,
* `Encoded.keyToHex` — a key as the hexadecimal literal that contracts take,
* `Encoded.addressOf` — a decoded address in its encoded form again.
-/

import SophiaBind.Hash.Sha2
import SophiaBind.Value.Convert

namespace SophiaBind.Encoded

/-- The marks whose payload is in base 58. -/
def base58Tags : List String :=
  ["ak", "ct", "th", "kh", "mh", "nm", "ok", "oq", "bk", "bs", "sg"]

/-- The first four bytes of the doubled digest. -/
def checksum (payload : Bytes) : Bytes :=
  (sha256 (sha256 payload)).take 4

/-- The payload with its checksum. -/
def withChecksum (payload : Bytes) : Bytes :=
  payload ++ checksum payload

/-- The payload in front of a checksum that fits. -/
def dropChecksum? (bs : Bytes) : Option Bytes :=
  let payload := bs.take (bs.length - 4)
  if bs.drop (bs.length - 4) = checksum payload then some payload else none

/-- The text of a payload under a mark. -/
def encode (tag : String) (payload : Bytes) : String :=
  if base58Tags.contains tag then tag ++ "_" ++ String.ofList (Base58.encode (withChecksum payload))
  else tag ++ "_" ++ String.ofList (Base64.encode (withChecksum payload))

/-- What stands in front of the first underscore, and what stands behind it. -/
def splitMark? (cs : List Char) : Option (List Char × List Char) :=
  match cs.dropWhile (· != '_') with
  | [] => none
  | _ :: body => some (cs.takeWhile (· != '_'), body)

/-- Reads the payload of an encoded value. -/
def decode (value : LooseText) : Except Fault Bytes :=
  match splitMark? value.shown.toList with
  | none => .error (.notPrefixed value)
  | some (_, []) => .error (.notPrefixed value)
  | some (mark, body) =>
    let tag := String.ofList mark
    if base58Tags.contains tag then
      match Base58.decode body with
      | .error why => .error (.notBase58 (value.points.drop (mark.length + 1)) why)
      | .ok bs =>
        match dropChecksum? bs with
        | some payload => .ok payload
        | none => .error .wrongChecksum58
    else
      match Base64.decode body with
      | .error why => .error (.notBase64 why)
      | .ok bs =>
        match dropChecksum? bs with
        | some payload => .ok payload
        | none => .error (.wrongChecksum tag)

/-- A key as a hexadecimal literal. -/
def keyToHex (key : LooseText) : Except Fault String :=
  (decode key.trimmed).map fun payload => "0x" ++ String.ofList (Hex.encode payload)

/-- A text without the mark of a hexadecimal literal. -/
def dropHexMark (cs : List Char) : List Char :=
  match cs with
  | '0' :: 'x' :: r => r
  | '0' :: 'X' :: r => r
  | '#' :: r => r
  | cs => cs

/-- A text filled up in front with zero digits. -/
def padZeros (width : Nat) (cs : List Char) : List Char :=
  List.replicate (width - cs.length) '0' ++ cs

/-- An integer in 32 bytes. -/
def bytesOfInt (i : Int) : Except Fault Bytes :=
  if i < 0 then .error .negativeBytes
  else match Bytes.ofNatPadded? 32 i.toNat with
    | some bs => .ok bs
    | none => .error .tooManyBytes

/-- A decoded address in its encoded form: a text in that form stays, other texts are hexadecimal with
leading zeros left out, and any other value is an integer. -/
def addressOf (value : Value) (tag : String) : Except Fault String :=
  match value.characters? with
  | some s =>
    let cs := Text.trim s.toList
    if (tag ++ "_").toList.isPrefixOf cs then .ok (String.ofList cs)
    else match Hex.decode (padZeros 64 (dropHexMark cs)) with
      | .ok bs => .ok (encode tag bs)
      | .error position => .error (.notHex position)
  | none => do
    let i ← value.toInt
    let bs ← bytesOfInt i
    return encode tag bs

end SophiaBind.Encoded
