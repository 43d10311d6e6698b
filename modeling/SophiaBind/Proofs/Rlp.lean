/-
**Recursive length prefixes are uniquely decodable.**

What leads an item says where the item ends, so no encoded item is the beginning of another one. The proof
reads the lead: `payload?` takes one item off the front of a byte string, and gives back exactly the
payload that `encodeBytes` or `encodeBody` was given. An item is then determined by its payload, that of a
list item by item.

Main definitions:

* `Rlp.Item.inBytes` — an item with its numbers written as byte strings,
* `Rlp.Item.Fits` — an item whose lengths can be written in eight bytes,
* `Rlp.payload?` — the payload of the item at the front.

Main results:

* `Rlp.lengthBehind_lengthMark` — **a mark gives back the length and what follows it**,
* `Rlp.payload?_encodeBytes`, `Rlp.payload?_encodeBody`,
* `Rlp.encode_uniquely_decodable` — **an item and what follows it are determined by the bytes of both**.
-/

import SophiaBind.Rlp
import SophiaBind.Proofs.BigEndian

namespace SophiaBind.Rlp

/-! ### Items -/

mutual

/-- An item with its numbers written as byte strings, which is all that is encoded of them. -/
def Item.inBytes : Item → Item
  | .bytes bs => .bytes bs
  | .number n => .bytes (Bytes.ofNat n)
  | .list items => .list (inBytesAll items)

/-- Items with their numbers written as byte strings. -/
def inBytesAll : List Item → List Item
  | [] => []
  | item :: rest => item.inBytes :: inBytesAll rest

end

mutual

/-- The byte strings within an item, those of numbers too, and the encoded bodies of its lists are shorter
than `2 ^ 64` bytes. -/
def Item.Fits : Item → Prop
  | .bytes bs => bs.length < UInt64.size
  | .number n => (Bytes.ofNat n).length < UInt64.size
  | .list items => (encodeAll items).length < UInt64.size ∧ AllFit items

/-- All items fit. -/
def AllFit : List Item → Prop
  | [] => True
  | item :: rest => item.Fits ∧ AllFit rest

end

/-! ### Reading a lead -/

/-- The length that a mark of `base` with the first byte `b` gives, and what follows the mark. -/
def lengthBehind (base : Nat) (b : UInt8) (r : Bytes) : Nat × Bytes :=
  if b.toNat < base + 56 then (b.toNat - base, r)
  else (Bytes.toNat (r.take (b.toNat - (base + 55))), r.drop (b.toNat - (base + 55)))

/-- The item at the front: whether it is a list, its payload, and what follows it. -/
def payload? : Bytes → Option (Bool × Bytes × Bytes)
  | [] => none
  | b :: r =>
    if b.toNat < 0x80 then some (false, [b], r)
    else if b.toNat < 0xC0 then
      let (n, r) := lengthBehind 0x80 b r
      some (false, r.take n, r.drop n)
    else
      let (n, r) := lengthBehind 0xC0 b r
      some (true, r.take n, r.drop n)

/-- **A mark gives back the length and what follows it.** Its first byte is one of the 64 from `base` on,
which is where the bound on lengths is needed. -/
theorem lengthBehind_lengthMark {length : Nat} (base : Nat) (hl : length < UInt64.size) (hb : base ≤ 0xC0) :
    ∃ b u, lengthMark length base = b :: u ∧ base ≤ b.toNat ∧ b.toNat < base + 64 ∧
      ∀ r, lengthBehind base b (u ++ r) = (length, r) := by
  by_cases h : length < 56
  · have hv : (UInt8.ofNat (base + length)).toNat = base + length := by
      rw [UInt8.toNat_ofNat']
      omega
    refine ⟨UInt8.ofNat (base + length), [], by rw [lengthMark, if_pos h], by omega, by omega, ?_⟩
    intro r
    rw [lengthBehind, hv, if_pos (by omega), Nat.add_sub_cancel_left, List.nil_append]
  · -- the length is written in one to eight bytes, so that the first byte stays below `base + 64`
    have hpos : 0 < (Bytes.ofNat length).length := Bytes.length_ofNat_pos (by omega)
    have hle : (Bytes.ofNat length).length ≤ 8 := Bytes.length_ofNat_le (by omega)
    have hv : (UInt8.ofNat (base + 55 + (Bytes.ofNat length).length)).toNat =
        base + 55 + (Bytes.ofNat length).length := by
      rw [UInt8.toNat_ofNat']
      omega
    refine ⟨_, Bytes.ofNat length, by rw [lengthMark, if_neg h], by omega, by omega, ?_⟩
    intro r
    rw [lengthBehind, hv, if_neg (by omega), Nat.add_sub_cancel_left, List.take_left', List.drop_left',
      Bytes.toNat_ofNat] <;> rfl

/-- A byte string behind its mark is read back. -/
theorem payload?_lengthMark_bytes {bs : Bytes} (h : bs.length < UInt64.size) (r : Bytes) :
    payload? (lengthMark bs.length 0x80 ++ bs ++ r) = some (false, bs, r) := by
  obtain ⟨b, u, hm, hlow, hhigh, hu⟩ := lengthBehind_lengthMark 0x80 h (by omega)
  rw [hm, List.cons_append, List.cons_append, List.append_assoc, payload?, if_neg (by omega), if_pos hhigh]
  simp [hu]

/-- **A byte string is read back**, whether it stands for itself or behind a mark. -/
theorem payload?_encodeBytes {bs : Bytes} (h : bs.length < UInt64.size) (r : Bytes) :
    payload? (encodeBytes bs ++ r) = some (false, bs, r) := by
  unfold encodeBytes
  split
  · next b =>
      split
      · next hb =>
          -- a small byte alone is its own mark
          have hlow : b.toNat < 0x80 := hb
          rw [List.singleton_append, payload?, if_pos hlow]
      · exact payload?_lengthMark_bytes h r
  · exact payload?_lengthMark_bytes h r

/-- **The body of a list is read back.** -/
theorem payload?_encodeBody {body : Bytes} (h : body.length < UInt64.size) (r : Bytes) :
    payload? (encodeBody body ++ r) = some (true, body, r) := by
  obtain ⟨b, u, hm, hlow, -, hu⟩ := lengthBehind_lengthMark 0xC0 h (by omega)
  rw [encodeBody, hm, List.cons_append, List.cons_append, List.append_assoc, payload?, if_neg (by omega),
    if_neg (by omega)]
  simp [hu]

/-- No item is encoded by the empty byte string. -/
theorem encode_ne_nil {item : Item} (h : item.Fits) : encode item ≠ [] := by
  intro he
  have hn : payload? (encode item ++ []) = none := by rw [he]; rfl
  cases item with
  | bytes bs => rw [encode, payload?_encodeBytes h] at hn; cases hn
  | number n => rw [encode, payload?_encodeBytes h] at hn; cases hn
  | list items => rw [encode, payload?_encodeBody h.1] at hn; cases hn

/-! ### Unique decoding -/

/-- The payload of an item, and whether it is a list. -/
def Item.payload : Item → Bool × Bytes
  | .bytes bs => (false, bs)
  | .number n => (false, Bytes.ofNat n)
  | .list items => (true, encodeAll items)

theorem payload?_encode {item : Item} (h : item.Fits) (r : Bytes) :
    payload? (encode item ++ r) = some (item.payload.1, item.payload.2, r) := by
  cases item with
  | bytes bs => exact payload?_encodeBytes h r
  | number n => exact payload?_encodeBytes h r
  | list items => exact payload?_encodeBody h.1 r

/-- Equal bytes give equal payloads, and the same bytes behind them. -/
theorem payload_eq_of_encode_append {x y : Item} (hx : x.Fits) (hy : y.Fits) {r s : Bytes}
    (h : encode x ++ r = encode y ++ s) : x.payload = y.payload ∧ r = s := by
  have hp : payload? (encode x ++ r) = payload? (encode y ++ s) := by rw [h]
  rw [payload?_encode hx, payload?_encode hy] at hp
  simp only [Option.some.injEq, Prod.mk.injEq] at hp
  exact ⟨Prod.ext hp.1 hp.2.1, hp.2.2⟩

mutual

/-- Items of the same payload are the same up to how numbers are written. -/
theorem inBytes_eq_of_payload_eq : ∀ {x y : Item}, x.Fits → y.Fits → x.payload = y.payload →
    x.inBytes = y.inBytes
  | .list xs, .list ys, hx, hy, h => by
      have hb : encodeAll xs = encodeAll ys := by simpa [Item.payload] using h
      rw [Item.inBytes, Item.inBytes, inBytesAll_eq_of_encodeAll_eq hx.2 hy.2 hb]
  | .bytes _, .bytes _, _, _, h => by simpa [Item.payload, Item.inBytes] using h
  | .bytes _, .number _, _, _, h => by simpa [Item.payload, Item.inBytes] using h
  | .number _, .bytes _, _, _, h => by simpa [Item.payload, Item.inBytes] using h
  | .number _, .number _, _, _, h => by simpa [Item.payload, Item.inBytes] using h
  -- a list is marked as such, so that it is never taken for a byte string
  | .list _, .bytes _, _, _, h => by simp [Item.payload] at h
  | .list _, .number _, _, _, h => by simp [Item.payload] at h
  | .bytes _, .list _, _, _, h => by simp [Item.payload] at h
  | .number _, .list _, _, _, h => by simp [Item.payload] at h

/-- The body of a list determines its items one after the other. -/
theorem inBytesAll_eq_of_encodeAll_eq : ∀ {xs ys : List Item}, AllFit xs → AllFit ys →
    encodeAll xs = encodeAll ys → inBytesAll xs = inBytesAll ys
  | [], [], _, _, _ => rfl
  | [], y :: ys, _, hy, h => by
      have hn : encode y = [] := (List.append_eq_nil_iff.1 h.symm).1
      exact absurd hn (encode_ne_nil hy.1)
  | x :: xs, [], hx, _, h => by
      have hn : encode x = [] := (List.append_eq_nil_iff.1 h).1
      exact absurd hn (encode_ne_nil hx.1)
  | x :: xs, y :: ys, hx, hy, h => by
      -- the rest of each body is what follows its first item
      obtain ⟨hp, hr⟩ := payload_eq_of_encode_append hx.1 hy.1 h
      rw [inBytesAll, inBytesAll, inBytes_eq_of_payload_eq hx.1 hy.1 hp,
        inBytesAll_eq_of_encodeAll_eq hx.2 hy.2 hr]

end

/-- **An item and what follows it are determined by the bytes of both**, the item up to how its numbers
are written. -/
theorem encode_uniquely_decodable (x y : Item) (r s : Bytes) (hx : x.Fits) (hy : y.Fits)
    (h : encode x ++ r = encode y ++ s) : r = s ∧ x.inBytes = y.inBytes := by
  obtain ⟨hp, hr⟩ := payload_eq_of_encode_append hx hy h
  exact ⟨hr, inBytes_eq_of_payload_eq hx hy hp⟩

/-- A list of more than 55 bytes, with a number in one and that number's bytes in the other. -/
theorem encode_uniquely_decodable_long_list :
    (Item.list [.bytes (List.replicate 60 7), .number 1024]).Fits ∧
    (Item.list [.bytes (List.replicate 60 7), .bytes [4, 0]]).Fits ∧
    encode (.list [.bytes (List.replicate 60 7), .number 1024]) ++ [0x80] =
      encode (.list [.bytes (List.replicate 60 7), .bytes [4, 0]]) ++ [0x80] ∧
    ([0x80] : Bytes) = [0x80] ∧
    (Item.list [.bytes (List.replicate 60 7), .number 1024]).inBytes =
      (Item.list [.bytes (List.replicate 60 7), .bytes [4, 0]]).inBytes := by
  have hn : Bytes.ofNat 1024 = [4, 0] := by simp [Bytes.ofNat_of_ne_zero]
  have hx : (Item.list [.bytes (List.replicate 60 7), .number 1024]).Fits := by
    simp [Item.Fits, AllFit, encodeAll, encode, encodeBytes, lengthMark, hn, Bytes.ofNat_of_ne_zero, UInt64.size]
  have hy : (Item.list [.bytes (List.replicate 60 7), .bytes [4, 0]]).Fits := by
    simp [Item.Fits, AllFit, encodeAll, encode, encodeBytes, lengthMark, Bytes.ofNat_of_ne_zero, UInt64.size]
  have he : encode (.list [.bytes (List.replicate 60 7), .number 1024]) ++ [0x80] =
      encode (.list [.bytes (List.replicate 60 7), .bytes [4, 0]]) ++ [0x80] := by
    simp only [encode, encodeAll, hn]
  exact ⟨hx, hy, he, encode_uniquely_decodable _ _ _ _ hx hy he⟩

end SophiaBind.Rlp
