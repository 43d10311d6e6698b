/-
**BLAKE2b** without a key.

Main definitions:

* `Blake2b.hash` — the digest of a byte string, of a chosen size up to 64 bytes.
-/

import SophiaBind.Bytes

namespace SophiaBind.Blake2b

/-- The initial words. -/
def start : List UInt64 :=
  [
    0x6a09e667f3bcc908, 0xbb67ae8584caa73b, 0x3c6ef372fe94f82b, 0xa54ff53a5f1d36f1,
    0x510e527fade682d1, 0x9b05688c2b3e6c1f, 0x1f83d9abfb41bd6b, 0x5be0cd19137e2179]

/-- The order in which each of ten rounds reads the message words; two more rounds repeat the first two. -/
def orders : List (List Nat) :=
  [[0, 1, 2, 3, 4, 5, 6, 7, 8, 9, 10, 11, 12, 13, 14, 15],
   [14, 10, 4, 8, 9, 15, 13, 6, 1, 12, 0, 2, 11, 7, 5, 3],
   [11, 8, 12, 0, 5, 2, 15, 13, 10, 14, 3, 6, 7, 1, 9, 4],
   [7, 9, 3, 1, 13, 12, 11, 14, 2, 6, 5, 10, 4, 0, 15, 8],
   [9, 0, 5, 7, 2, 4, 10, 15, 14, 1, 11, 12, 6, 8, 3, 13],
   [2, 12, 6, 10, 0, 11, 8, 3, 4, 13, 7, 5, 15, 14, 1, 9],
   [12, 5, 1, 15, 14, 13, 4, 10, 0, 7, 6, 3, 9, 2, 8, 11],
   [13, 11, 7, 14, 12, 1, 3, 9, 5, 0, 15, 4, 8, 6, 2, 10],
   [6, 15, 14, 9, 11, 3, 0, 8, 12, 2, 13, 7, 1, 4, 10, 5],
   [10, 2, 8, 4, 7, 6, 1, 5, 15, 11, 9, 14, 3, 12, 13, 0]]

/-- The places of the working vector that the eight mixings of a round act on: columns, then diagonals. -/
def places : List (Fin 16 × Fin 16 × Fin 16 × Fin 16) :=
  [(0, 4, 8, 12), (1, 5, 9, 13), (2, 6, 10, 14), (3, 7, 11, 15),
   (0, 5, 10, 15), (1, 6, 11, 12), (2, 7, 8, 13), (3, 4, 9, 14)]

/-- A word turned right by `n` bits. -/
def turn (x : UInt64) (n : UInt64) : UInt64 :=
  (x >>> n) ||| (x <<< (64 - n))

/-- Mixes two message words into four words of the working vector. -/
def mix (v : Vector UInt64 16) (at_ : Fin 16 × Fin 16 × Fin 16 × Fin 16) (x y : UInt64) :
    Vector UInt64 16 :=
  let (i, j, k, l) := at_
  let a := v[i] + v[j] + x
  let d := turn (v[l] ^^^ a) 32
  let c := v[k] + d
  let b := turn (v[j] ^^^ c) 24
  let a := a + b + y
  let d := turn (d ^^^ a) 16
  let c := c + d
  let b := turn (b ^^^ c) 63
  (((v.set i a).set j b).set k c).set l d

/-- One round: the message words are taken in pairs in the given order. -/
def round (message : List UInt64) (v : Vector UInt64 16) (order : List Nat) : Vector UInt64 16 :=
  (places.zipIdx).foldl (fun v (place, n) =>
    mix v place (message.getD (order.getD (2 * n) 0) 0) (message.getD (order.getD (2 * n + 1) 0) 0)) v

/-- The eight words behind a block of 128 bytes, of which the message so far has `count` bytes. -/
def compress (state : List UInt64) (block : Bytes) (count : Nat) (final : Bool) : List UInt64 :=
  let message := (List.range 16).map fun i =>
    UInt64.ofNat (Bytes.toNatLittle ((block.drop (8 * i)).take 8))
  let ends : List UInt64 :=
    [UInt64.ofNat (count % UInt64.size), UInt64.ofNat (count / UInt64.size), if final then 0xFFFFFFFFFFFFFFFF else 0, 0]
  let second := start.take 4 ++ List.zipWith (· ^^^ ·) (start.drop 4) ends
  let words := state ++ second
  let v : Vector UInt64 16 := Vector.ofFn fun i => words.getD i 0
  let out := (orders ++ orders.take 2).foldl (round message) v
  List.ofFn (n := 8) fun i =>
    state.getD i 0 ^^^ out.get ⟨i.val, by omega⟩ ^^^ out.get ⟨i.val + 8, by omega⟩

/-- Reads all blocks; the last one is filled with zeros and marked. -/
def absorb : Nat → List UInt64 → Nat → Bytes → List UInt64
  | 0, state, _, _ => state
  | fuel + 1, state, done, bs =>
    if bs.length ≤ 128 then
      compress state (bs ++ List.replicate (128 - bs.length) 0) (done + bs.length) true
    else
      absorb fuel (compress state (bs.take 128) (done + 128) false) (done + 128) (bs.drop 128)

/-- The digest of a byte string, `size` bytes long. -/
def hash (size : Nat) (bs : Bytes) : Bytes :=
  let first := match start with
    | h :: rest => (h ^^^ 0x01010000 ^^^ UInt64.ofNat size) :: rest
    | [] => []
  let state := absorb (bs.length / 128 + 1) first 0 bs
  (state.flatMap fun x => Bytes.littleEndian 8 x.toNat).take size

end SophiaBind.Blake2b
