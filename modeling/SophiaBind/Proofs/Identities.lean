/-
**One identity for each seed.**

The 64 bytes of a seed and its public key are written in four places: as a secret key in digits, as an encoded public
key, as a map of both, and as the identity that holds both. Whichever of them is given, the identity is the same; what
it signs is signed with the seed; and a public key that is given with the secret key of another is never taken for
its own.

Main results:

* `Keypair.ofSecretTextBy_generated` — the identity of a generated secret key,
* `Keypair.resolveBy_given` — a public key that is given is compared,
* `Transaction.sign_generated` — signing with a generated secret key,
* `Keypair.generateBy_resolved` — **all of them are one identity**.
-/

import SophiaBind.Transaction
import SophiaBind.Proofs.Addresses
import SophiaBind.Proofs.SecretKeys
import SophiaBind.Proofs.Shown

namespace SophiaBind

namespace Keypair

/-! ### Generated keys -/

section

variable (d : Derivation) {seed : Bytes} (hseed : seed.length = 32)

/-- The secret key of a seed: its digits, and those of the public key. -/
def secretDigits (seed : Bytes) : List Char :=
  Hex.encode (seed ++ d.publicKey seed)

theorem toList_secretKey (seed : Bytes) : (generateBy d seed).secretKey.toList = secretDigits d seed :=
  String.toList_ofList

include hseed

theorem isSecret_secretDigits : IsSecret (secretDigits d seed) := by
  refine ⟨?_, fun c hc => Hex.isDigit_of_mem_encode hc⟩
  rw [secretDigits, Hex.length_encode, List.length_append, hseed, d.length_publicKey]
  rfl

/-- The first 64 digits are those of the seed, the others those of the public key. -/
theorem split_secretDigits :
    (secretDigits d seed).take 64 = Hex.encode seed ∧
      (secretDigits d seed).drop 64 = Hex.encode (d.publicKey seed) := by
  have hlength : (Hex.encode seed).length = 64 := by rw [Hex.length_encode, hseed]
  rw [secretDigits, Hex.encode_append]
  exact ⟨List.take_left' hlength, List.drop_left' hlength⟩

/-- **The identity of a generated secret key** is the one that it was generated with, also if blanks stand around the
digits. -/
theorem ofSecretTextBy_generated {before after : List Char} (hbefore : ∀ c ∈ before, Text.isBlank c = true)
    (hafter : ∀ c ∈ after, Text.isBlank c = true) :
    ofSecretTextBy d (String.ofList (before ++ (secretDigits d seed ++ after))) = .ok (generateBy d seed) := by
  have hsecret := isSecret_secretDigits d hseed
  have hplain : ∀ c ∈ secretDigits d seed, Text.isBlank c = false := fun c hc => (hsecret.2 c hc).not_isBlank
  have hne : secretDigits d seed ≠ [] := by
    intro hnil
    have hlength := hsecret.1
    rw [hnil] at hlength
    cases hlength
  have htrim : Text.trim (String.ofList (before ++ (secretDigits d seed ++ after))).toList = secretDigits d seed := by
    rw [String.toList_ofList]
    exact Text.trim_append hbefore (fun c hc => hplain c (List.mem_of_mem_head? hc))
      (fun c hc => hplain c (List.mem_of_getLast? hc)) hafter hne
  obtain ⟨seed', hread, hidentity⟩ := ofSecretTextBy_secret d htrim hsecret
  rw [(split_secretDigits d hseed).1, Hex.decode_of_alike (.refl _)] at hread
  cases hread
  exact hidentity

theorem ofSecretTextBy_secretKey : ofSecretTextBy d (generateBy d seed).secretKey = .ok (generateBy d seed) := by
  have hnone : ∀ c ∈ ([] : List Char), Text.isBlank c = true := List.forall_mem_nil _
  have hgenerated := ofSecretTextBy_generated d hseed hnone hnone
  rw [List.nil_append, List.append_nil] at hgenerated
  exact hgenerated

/-- **A public key that is given beside a generated secret key** must be the one that was generated with it. -/
theorem resolveBy_given {p : Value} {given : String} (hp : p.characters? = some given) :
    resolveBy d (.map [(.text "publicKey", p), (.text "secretKey", .text (generateBy d seed).secretKey)]) =
      if (generateBy d seed).publicKey = given then .ok (generateBy d seed)
      else .error (.invalidKeypair "public key does not match secret key") := by
  have hsecret : (Value.text (generateBy d seed).secretKey).characters? = some (generateBy d seed).secretKey := rfl
  have hgiven : givenKeys? [(.text "publicKey", p), (.text "secretKey", .text (generateBy d seed).secretKey)] =
      some (given, (generateBy d seed).secretKey) := by
    simp [givenKeys?, Value.lookup?, hp, hsecret]
  rw [resolveBy, hgiven]
  dsimp only
  rw [ofSecretTextBy_secretKey d hseed]
  rfl

end

/-! ### Public keys -/

/-- An encoded public key has no half of a surrogate pair in it, so that no text with halves is shown like it. -/
theorem shown_ne_publicKeyBy (d : Derivation) (seed : Bytes) (t : BrokenText) : t.shown ≠ publicKeyBy d seed := by
  intro hshown
  have hmem := t.mem_shown
  rw [hshown, publicKeyBy, Encoded.toList_encode] at hmem
  simp only [List.mem_cons] at hmem
  rcases hmem with h | h | h | h
  · cases h
  · cases h
  · cases h
  · exact absurd (Base58.spec_of_mem_encode _ _ h).1 (by decide)

/-- Another text has other characters than the public key. -/
theorem exists_characters_ne {d : Derivation} {seed : Bytes} {p : LooseText} (hp : p ≠ .whole (publicKeyBy d seed)) :
    ∃ given, (Value.ofText p).characters? = some given ∧ publicKeyBy d seed ≠ given := by
  cases p with
  | whole s => exact ⟨s, rfl, fun h => hp (by rw [h])⟩
  | broken t => exact ⟨t.shown, rfl, (shown_ne_publicKeyBy d seed t).symm⟩

end Keypair

/-! ### Signing -/

/-- **A generated secret key signs with its seed.** -/
theorem Transaction.seedOfSecret_generated (d : Keypair.Derivation) {seed : Bytes} (hseed : seed.length = 32) :
    seedOfSecret (Keypair.generateBy d seed).secretKey = .ok seed := by
  have hplain : ∀ c ∈ Keypair.secretDigits d seed, Text.isBlank c = false :=
    fun c hc => ((Keypair.isSecret_secretDigits d hseed).2 c hc).not_isBlank
  have henough : 32 ≤ (seed ++ d.publicKey seed).length := by
    rw [List.length_append, hseed]
    omega
  rw [seedOfSecret, Keypair.toList_secretKey, Text.trim_eq_self hplain, Keypair.secretDigits,
    Hex.decode_of_alike (.refl _)]
  dsimp only
  rw [Keypair.seedOf_eq, if_pos henough, List.take_left' hseed]

namespace Keypair

/-- **All that a seed generates is one identity.** The keypair, the map of both keys, and the secret key with blanks
around it give the keypair; the secret key signs with the seed, whatever is signed for whatever network; it has 128
digits, the last 64 of them those of the encoded public key; and with another public key it is refused. -/
theorem generateBy_resolved (d : Derivation) (seed : Bytes) (hseed : seed.length = 32) :
    let k := generateBy d seed
    resolveBy d (.keypair k) = .ok k ∧
    resolveBy d (Value.ofJson k.toJson) = .ok k ∧
    (∀ before after : List Char, (∀ c ∈ before, Text.isBlank c = true) → (∀ c ∈ after, Text.isBlank c = true) →
      resolveBy d (.text (String.ofList (before ++ (k.secretKey.toList ++ after)))) = .ok k) ∧
    (∀ (tx : LooseText) (networkId : String), Transaction.sign tx k.secretKey networkId =
      (Encoded.decode tx).map fun payload =>
        let signature := Ed25519.sign seed (Transaction.signedMessage networkId payload)
        let signed := Transaction.envelope signature payload
        (Encoded.encode "tx" signed, Encoded.encode "th" (Blake2b.hash 32 signed))) ∧
    k.secretKey.toList.length = 128 ∧
    (∃ key, Encoded.decode k.publicKey = .ok key ∧ k.secretKey.toList.drop 64 = Hex.encode key) ∧
    ∀ p : LooseText, p ≠ .whole k.publicKey →
      resolveBy d (.map [(.text "publicKey", Value.ofText p), (.text "secretKey", .text k.secretKey)]) =
        .error (.invalidKeypair "public key does not match secret key") := by
  intro k
  refine ⟨rfl, ?_, ?_, ?_, ?_, ?_, ?_⟩
  · have hshown : (Value.text k.publicKey).characters? = some k.publicKey := rfl
    have hsame := resolveBy_given d hseed hshown
    rw [if_pos rfl] at hsame
    exact hsame
  · intro before after hbefore hafter
    rw [toList_secretKey, resolveBy]
    exact ofSecretTextBy_generated d hseed hbefore hafter
  · intro tx networkId
    rw [Transaction.sign, Transaction.seedOfSecret_generated d hseed]
    cases Encoded.decode tx with
    | error f => rfl
    | ok payload => rfl
  · rw [toList_secretKey]
    exact (isSecret_secretDigits d hseed).1
  · refine ⟨d.publicKey seed, Encoded.decode_encode (by decide) _, ?_⟩
    rw [toList_secretKey]
    exact (split_secretDigits d hseed).2
  · intro p hp
    obtain ⟨given, hgiven, hne⟩ := exists_characters_ne hp
    rw [resolveBy_given d hseed hgiven]
    exact if_neg hne

/-- The identity of a seed of sevens comes back from its secret key between a tab and a line break, and is refused
with a blank behind its public key. -/
theorem generateBy_resolved_sevens :
    let seed := List.replicate 32 (7 : UInt8)
    let k := generate seed
    seed.length = 32 ∧ resolve (.text (String.ofList (['\t'] ++ (k.secretKey.toList ++ ['\n'])))) = .ok k ∧
      LooseText.whole (k.publicKey ++ " ") ≠ .whole k.publicKey ∧
      resolve (.map [(.text "publicKey", .text (k.publicKey ++ " ")), (.text "secretKey", .text k.secretKey)]) =
        .error (.invalidKeypair "public key does not match secret key") := by
  intro seed k
  have hseed : seed.length = 32 := by decide
  have hne : LooseText.whole (k.publicKey ++ " ") ≠ .whole k.publicKey := by
    intro h
    have hlength := congrArg String.length (LooseText.whole.inj h)
    rw [String.length_append] at hlength
    exact absurd (Nat.add_eq_left.1 hlength) (by decide)
  obtain ⟨-, -, hblanks, -, -, -, hother⟩ := generateBy_resolved .ed25519 seed hseed
  have hback := hblanks ['\t'] ['\n'] (List.forall_mem_singleton.2 rfl) (List.forall_mem_singleton.2 rfl)
  have hrefused := hother _ hne
  exact ⟨hseed, hback, hne, hrefused⟩

end Keypair

end SophiaBind
