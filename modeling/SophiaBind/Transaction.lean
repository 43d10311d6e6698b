/-
**Signing transactions.**

The signature is over the network's id followed by the transaction; both are then wrapped into an
envelope, whose digest is the transaction's hash.

Main definitions:

* `Transaction.envelope` — the bytes of the signed transaction,
* `Transaction.sign` — the signed transaction and its hash, both encoded.
-/

import SophiaBind.Keypair
import SophiaBind.Rlp
import SophiaBind.Hash.Blake2b

namespace SophiaBind.Transaction

/-- The number that marks a signed transaction. -/
def signedTag : Nat := 11

/-- The version of the envelope. -/
def signedVersion : Nat := 1

/-- A transaction with one signature. -/
def envelope (signature tx : Bytes) : Bytes :=
  Rlp.encode (.list [.number signedTag, .number signedVersion, .list [.bytes signature], .bytes tx])

/-- What is signed: the network's id and the transaction. -/
def signedMessage (networkId : String) (tx : Bytes) : Bytes :=
  Utf8.encode networkId.toList ++ tx

/-- The seed of a secret key's text. -/
def seedOfSecret (secret : String) : Except Fault Bytes :=
  match Hex.decode (Text.trim secret.toList) with
  | .error position => .error (.notHex position)
  | .ok raw => Keypair.seedOf raw

/-- The signed transaction and its hash. -/
def sign (tx : LooseText) (secret networkId : String) : Except Fault (String × String) := do
  let payload ← Encoded.decode tx
  let seed ← seedOfSecret secret
  let signed := envelope (Ed25519.sign seed (signedMessage networkId payload)) payload
  return (Encoded.encode "tx" signed, Encoded.encode "th" (Blake2b.hash 32 signed))

end SophiaBind.Transaction
