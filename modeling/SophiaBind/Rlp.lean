/-
**Recursive length prefixes**: the binary form of transactions.

An item is a byte string, a number, written as its shortest byte string, or a list of items. A byte below
`0x80` stands for itself; anything else is led by its length, in the first byte if it is below 56, else
behind the length of the length.

Main definitions:

* `Rlp.Item`,
* `Rlp.encode` — the bytes of an item.
-/

import SophiaBind.Bytes

namespace SophiaBind.Rlp

/-- What is encoded. -/
inductive Item where
  | bytes (bs : Bytes)
  | number (n : Nat)
  | list (items : List Item)

/-- What leads a body of `length` bytes; `base` tells byte strings from lists. -/
def lengthMark (length base : Nat) : Bytes :=
  if length < 56 then [UInt8.ofNat (base + length)]
  else UInt8.ofNat (base + 55 + (Bytes.ofNat length).length) :: Bytes.ofNat length

/-- The bytes of a byte string. -/
def encodeBytes : Bytes → Bytes
  | [b] => if b < 0x80 then [b] else lengthMark 1 0x80 ++ [b]
  | bs => lengthMark bs.length 0x80 ++ bs

/-- The bytes of a list whose items are encoded already. -/
def encodeBody (body : Bytes) : Bytes :=
  lengthMark body.length 0xC0 ++ body

mutual

/-- The bytes of an item. -/
def encode : Item → Bytes
  | .bytes bs => encodeBytes bs
  | .number n => encodeBytes (Bytes.ofNat n)
  | .list items => encodeBody (encodeAll items)

/-- The bytes of items, one after the other. -/
def encodeAll : List Item → Bytes
  | [] => []
  | item :: rest => encode item ++ encodeAll rest

end

end SophiaBind.Rlp
