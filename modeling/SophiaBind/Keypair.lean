/-
**Identities** from secret keys.

A secret key is 128 hexadecimal digits: the seed of 32 bytes, followed by the public key. An identity
may be given as a keypair, as a map of both keys, or as the secret key alone; only the secret key counts,
and a public key beside it must be the one that follows from it.

How a public key follows from a seed is for the curve to say; all else is the same for every derivation.

Main definitions:

* `Keypair.Derivation` — public keys of seeds,
* `Keypair.ofSecretBy`, `Keypair.generateBy`, `Keypair.resolveBy` — identities under a derivation,
* `Keypair.ofSecret`, `Keypair.generate`, `Keypair.resolve` — the same under Ed25519,
* `Keypair.isGiven` — whether a value gives both keys,
* `Keypair.toJson`.
-/

import SophiaBind.Encoded
import SophiaBind.Ed25519

namespace SophiaBind.Keypair

/-- The number of digits of a secret key. -/
def secretLength : Nat := 128

/-- How the 32 bytes of a public key follow from a seed. -/
structure Derivation where
  publicKey : Bytes → Bytes
  length_publicKey : ∀ seed, (publicKey seed).length = 32

/-- Public keys of Ed25519. -/
def Derivation.ed25519 : Derivation :=
  ⟨Ed25519.publicKey, Ed25519.length_publicKey⟩

/-- The seed at the beginning of a secret key's bytes. -/
def seedOf (raw : Bytes) : Except Fault Bytes :=
  let seed := raw.take 32
  if seed.length = 32 then .ok seed else .error .wrongSeed

/-- Both keys of a map, if they are texts. -/
def givenKeys? (entries : List (Value × Value)) : Option (String × String) := do
  let p ← (← Value.lookup? entries "publicKey").characters?
  let s ← (← Value.lookup? entries "secretKey").characters?
  return (p, s)

/-- Whether a value gives both keys. -/
def isGiven : Value → Bool
  | .keypair _ => true
  | .map entries => (givenKeys? entries).isSome
  | _ => false

/-! ### Identities under a derivation -/

section

variable (d : Derivation)

/-- The public key of a seed in its encoded form. -/
def publicKeyBy (seed : Bytes) : String :=
  Encoded.encode "ak" (d.publicKey seed)

/-- The identity of a secret key. -/
def ofSecretTextBy (secret : String) : Except Fault Keypair :=
  let cs := Text.trim secret.toList
  if cs.length ≠ secretLength then
    .error (.invalidKeypair ("secret key must be " ++ toString secretLength ++ " hex chars, got " ++
      toString cs.length))
  else match Hex.decode cs with
    | .error _ => .error (.invalidKeypair "secret key is not valid hex")
    | .ok raw => (seedOf raw).map fun seed => ⟨publicKeyBy d seed, String.ofList cs⟩

/-- The identity of a value that should be a secret key. -/
def ofSecretBy (secret : Value) : Except Fault Keypair :=
  match secret.characters? with
  | some s => ofSecretTextBy d s
  | none => .error (.invalidKeypair ("secret key must be a string, got " ++ secret.briefKind))

/-- The identity of a fresh seed. -/
def generateBy (seed : Bytes) : Keypair :=
  ⟨publicKeyBy d seed, String.ofList (Hex.encode (seed ++ d.publicKey seed))⟩

/-- The identity that a value gives. -/
def resolveBy : Value → Except Fault Keypair
  | .keypair k => .ok k
  | .text s => ofSecretTextBy d s
  | .broken t => ofSecretTextBy d t.shown
  | .map entries =>
    match givenKeys? entries with
    | some (p, s) => do
      let k ← ofSecretTextBy d s
      if k.publicKey = p then return k
      else throw (.invalidKeypair "public key does not match secret key")
    | none => .error (.invalidKeypair ("unsupported value of type " ++ (Value.map entries).kind))
  | v => .error (.invalidKeypair ("unsupported value of type " ++ v.briefKind))

end

/-! ### Identities of Ed25519 -/

/-- The identity of a secret key. -/
def ofSecretText : String → Except Fault Keypair :=
  ofSecretTextBy .ed25519

/-- The identity of a value that should be a secret key. -/
def ofSecret : Value → Except Fault Keypair :=
  ofSecretBy .ed25519

/-- The identity of a fresh seed. -/
def generate : Bytes → Keypair :=
  generateBy .ed25519

/-- The identity that a value gives. -/
def resolve : Value → Except Fault Keypair :=
  resolveBy .ed25519

/-- Both keys by name. -/
def toJson (k : Keypair) : Json :=
  .object [("publicKey", .text k.publicKey), ("secretKey", .text k.secretKey)]

end SophiaBind.Keypair
