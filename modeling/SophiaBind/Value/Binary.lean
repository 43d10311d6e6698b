/-
**Values in binary form.** Numbers, byte strings and sequences of them have a binary form; a text has
none unless it is empty, since its characters are texts again.

Main definition:

* `Value.toRlp` — the item that a value is encoded as.
-/

import SophiaBind.Value.Convert
import SophiaBind.Rlp

namespace SophiaBind.Value

/-- A whole number as an item. -/
def rlpOfInt (i : Int) : Except Fault Rlp.Item :=
  if i < 0 then .error .negativeBytes else .ok (.number i.toNat)

mutual

/-- The item that a value is encoded as; a map stands for its keys. -/
def toRlp : Value → Except Fault Rlp.Item
  | .bool b => .ok (.number (if b then 1 else 0))
  | .int i => rlpOfInt i
  | .bytes bs => .ok (.bytes bs)
  | .list vs => (toRlpItems vs).map .list
  | .tuple vs => (toRlpItems vs).map .list
  | .map entries => (toRlpKeys entries).map .list
  | .text s => if s = "" then .ok (.list []) else .error .endless
  | .broken _ => .error .endless
  | v => .error (.notIterable v.kind)

/-- The items of values. -/
def toRlpItems : List Value → Except Fault (List Rlp.Item)
  | [] => .ok []
  | v :: rest => do
    let item ← toRlp v
    let items ← toRlpItems rest
    return item :: items

/-- The items of keys. -/
def toRlpKeys : List (Value × Value) → Except Fault (List Rlp.Item)
  | [] => .ok []
  | (k, _) :: rest => do
    let item ← toRlp k
    let items ← toRlpKeys rest
    return item :: items

end

end SophiaBind.Value
