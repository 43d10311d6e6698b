/-
**What becomes of a secret key.**

A secret key passes three gates: it must be a text, of 128 characters without the blanks at its ends, and it must be
read as hexadecimal digits. The last gate is wider than it looks, since blanks may stand between pairs of digits. So
128 digits pass, but a text of 128 characters with blanks between its digits passes too. If at least 64 of its
characters are digits, the text with its blanks becomes the secret key of an identity; if not, the seed is too short,
and that is a fault of another kind.

Main definitions:

* `Keypair.IsSecret` — 128 digits,
* `Keypair.IsSpaced` — pairs of digits with blanks between them, of the same length,
* `Keypair.Refused` — what is no secret key,
* `Keypair.OfSecret` — an identity whose secret key are digits that its public key is derived from.

Main results:

* `Keypair.ofSecretTextBy_refused`, `Keypair.ofSecretTextBy_paired` — what becomes of a text,
* `Keypair.ofSecretBy_settled_iff` — **every value is refused or has an identity of its digits, unless it is a text
  with blanks between its digits**.
-/

import SophiaBind.Keypair
import SophiaBind.Proofs.Hexadecimal

namespace SophiaBind.Keypair

/-! ### Secret keys -/

/-- A secret key are as many digits as it must have. -/
def IsSecret (cs : List Char) : Prop :=
  cs.length = secretLength ∧ ∀ c ∈ cs, Hex.IsDigit c

/-- A text as long as a secret key, of pairs of digits with blanks between them. -/
structure IsSpaced (cs : List Char) : Prop where
  length_eq : cs.length = secretLength
  paired : Hex.Paired cs
  gap : ∃ c ∈ cs, Hex.isGap c = true

/-- A value has no identity, with a reason. -/
def Refused (result : Except Fault Keypair) : Prop :=
  ∃ reason, result = .error (.invalidKeypair reason)

/-- The secret key of an identity are digits, and the public key is derived from the first 64 of them. -/
structure OfSecret (d : Derivation) (k : Keypair) : Prop where
  isSecret : IsSecret k.secretKey.toList
  derived : ∃ seed, Hex.decode (k.secretKey.toList.take 64) = .ok seed ∧ k.publicKey = publicKeyBy d seed

theorem IsSecret.paired {cs : List Char} (h : IsSecret cs) : Hex.Paired cs :=
  Hex.paired_of_isDigit (n := 64) h.2 h.1

/-- Digits alone have no blanks between them. -/
theorem IsSecret.not_isSpaced {cs : List Char} (h : IsSecret cs) : ¬IsSpaced cs := by
  rintro ⟨-, -, c, hc, hgap⟩
  rw [(h.2 c hc).not_isGap] at hgap
  cases hgap

/-- Pairs of digits have blanks between them or are a secret key. -/
theorem isSecret_or_isSpaced {cs : List Char} (hlength : cs.length = secretLength) (hpaired : Hex.Paired cs) :
    IsSecret cs ∨ IsSpaced cs := by
  by_cases hgap : ∃ c ∈ cs, Hex.isGap c = true
  · exact .inr ⟨hlength, hpaired, hgap⟩
  · refine .inl ⟨hlength, fun c hc => hpaired.isDigit hc ?_⟩
    cases hc' : Hex.isGap c with
    | false => rfl
    | true => exact absurd ⟨c, hc, hc'⟩ hgap

/-- Pairs with blanks between them can be told by reading them. -/
theorem isSpaced_iff {cs : List Char} :
    IsSpaced cs ↔
      cs.length = secretLength ∧ (Hex.decode cs).toOption.isSome = true ∧ cs.any Hex.isGap = true := by
  have hread : (Hex.decode cs).toOption.isSome = true ↔ Hex.Paired cs := by
    rw [← Hex.exists_decode_iff]
    cases Hex.decode cs <;> simp [Except.toOption]
  rw [hread, List.any_eq_true]
  exact ⟨fun h => ⟨h.length_eq, h.paired, h.gap⟩, fun ⟨hlength, hpaired, hgap⟩ => ⟨hlength, hpaired, hgap⟩⟩

instance (cs : List Char) : Decidable (IsSpaced cs) :=
  decidable_of_iff _ isSpaced_iff.symm

/-! ### Texts -/

/-- There is a seed if there are bytes enough for it. -/
theorem seedOf_eq (raw : Bytes) :
    seedOf raw = if 32 ≤ raw.length then .ok (raw.take 32) else .error .wrongSeed := by
  have hlength : (raw.take 32).length = 32 ↔ 32 ≤ raw.length := by
    rw [List.length_take]
    omega
  unfold seedOf
  simp only [hlength]

section

variable (d : Derivation) {s : String} {cs : List Char} (hs : Text.trim s.toList = cs)

include hs

/-- A text of another length, or of anything but pairs of digits, is refused. -/
theorem ofSecretTextBy_refused (h : ¬(cs.length = secretLength ∧ Hex.Paired cs)) :
    Refused (ofSecretTextBy d s) := by
  unfold ofSecretTextBy
  rw [hs]
  dsimp only
  split
  · exact ⟨_, rfl⟩
  · next hlength =>
      cases hread : Hex.decode cs with
      | error position => exact ⟨_, rfl⟩
      | ok raw => exact absurd ⟨Decidable.not_not.1 hlength, Hex.exists_decode_iff.1 ⟨raw, hread⟩⟩ h

/-- **Pairs of digits have the identity of their first 64 digits**, if there are so many of them. -/
theorem ofSecretTextBy_paired (hlength : cs.length = secretLength) (hpaired : Hex.Paired cs) :
    ((Hex.withoutGaps cs).length < 64 ∧ ofSecretTextBy d s = .error .wrongSeed) ∨
      (64 ≤ (Hex.withoutGaps cs).length ∧ ∃ seed, Hex.decode ((Hex.withoutGaps cs).take 64) = .ok seed ∧
        ofSecretTextBy d s = .ok ⟨publicKeyBy d seed, String.ofList cs⟩) := by
  obtain ⟨raw, hread, hdigits, htake⟩ := hpaired.decode_take
  have hseed : ofSecretTextBy d s = (seedOf raw).map fun seed => ⟨publicKeyBy d seed, String.ofList cs⟩ := by
    unfold ofSecretTextBy
    rw [hs]
    dsimp only
    rw [if_neg fun hne => hne hlength, hread]
  rw [hseed, hdigits, seedOf_eq]
  by_cases henough : 32 ≤ raw.length
  · right
    rw [if_pos henough]
    exact ⟨by omega, raw.take 32, htake 32, rfl⟩
  · left
    rw [if_neg henough]
    exact ⟨by omega, rfl⟩

/-- **A secret key has its identity.** -/
theorem ofSecretTextBy_secret (h : IsSecret cs) :
    ∃ seed, Hex.decode (cs.take 64) = .ok seed ∧
      ofSecretTextBy d s = .ok ⟨publicKeyBy d seed, String.ofList cs⟩ := by
  have hlength : cs.length = 128 := h.1
  have hall := ofSecretTextBy_paired d hs h.1 h.paired
  rw [Hex.withoutGaps_eq_self h.2] at hall
  rcases hall with ⟨hshort, -⟩ | ⟨-, hidentity⟩
  · omega
  · exact hidentity

/-- An identity of a text has the text without the blanks at its ends as its secret key. -/
theorem secretKey_of_ofSecretTextBy {k : Keypair} (h : ofSecretTextBy d s = .ok k) : k.secretKey.toList = cs := by
  by_cases hpaired : cs.length = secretLength ∧ Hex.Paired cs
  · rcases ofSecretTextBy_paired d hs hpaired.1 hpaired.2 with ⟨-, hfault⟩ | ⟨-, seed, -, hidentity⟩
    · rw [hfault] at h
      cases h
    · rw [hidentity] at h
      cases h
      exact String.toList_ofList
  · obtain ⟨reason, hrefused⟩ := ofSecretTextBy_refused d hs hpaired
    rw [hrefused] at h
    cases h

end

/-! ### Values -/

section

variable (d : Derivation) {v : Value}

theorem ofSecretBy_eq {s : String} (hs : v.characters? = some s) : ofSecretBy d v = ofSecretTextBy d s := by
  rw [ofSecretBy, hs]

variable (v)

/-- What becomes of a value: it is refused, or it is a text that is a secret key or has blanks between its digits. -/
theorem ofSecretBy_cases :
    Refused (ofSecretBy d v) ∨
      ∃ s, v.characters? = some s ∧ (IsSecret (Text.trim s.toList) ∨ IsSpaced (Text.trim s.toList)) := by
  cases hv : v.characters? with
  | none =>
      left
      rw [ofSecretBy, hv]
      exact ⟨_, rfl⟩
  | some s =>
      by_cases hpaired : (Text.trim s.toList).length = secretLength ∧ Hex.Paired (Text.trim s.toList)
      · exact .inr ⟨s, rfl, isSecret_or_isSpaced hpaired.1 hpaired.2⟩
      · left
        rw [ofSecretBy_eq d hv]
        exact ofSecretTextBy_refused d rfl hpaired

/-- **The values that have the identity of their digits** are the texts that are secret keys. -/
theorem exists_ofSecret_iff :
    (∃ k, ofSecretBy d v = .ok k ∧ OfSecret d k) ↔
      ∃ s, v.characters? = some s ∧ IsSecret (Text.trim s.toList) := by
  constructor
  · rintro ⟨k, hk, hof⟩
    cases hv : v.characters? with
    | none =>
        rw [ofSecretBy, hv] at hk
        cases hk
    | some s =>
        rw [ofSecretBy_eq d hv] at hk
        refine ⟨s, rfl, ?_⟩
        rw [← secretKey_of_ofSecretTextBy d rfl hk]
        exact hof.isSecret
  · rintro ⟨s, hs, hsecret⟩
    obtain ⟨seed, hseed, hk⟩ := ofSecretTextBy_secret d rfl hsecret
    rw [← ofSecretBy_eq d hs] at hk
    refine ⟨_, hk, ?_, seed, ?_, rfl⟩
    · rw [String.toList_ofList]
      exact hsecret
    · rw [String.toList_ofList]
      exact hseed

/-- **A value is refused or has the identity of its digits, unless it is a text with blanks between its digits.** It
has such an identity if it is a text of digits, as many as a secret key has. With blanks between them there is a
fault of another kind if the digits are too few for a seed; and else an identity, whose secret key has the blanks and
whose public key is derived from the first of the digits. -/
theorem ofSecretBy_settled_iff :
    ((Refused (ofSecretBy d v) ∨ ∃ k, ofSecretBy d v = .ok k ∧ OfSecret d k) ↔
      ∀ s, v.characters? = some s → ¬IsSpaced (Text.trim s.toList)) ∧
    ((∃ k, ofSecretBy d v = .ok k ∧ OfSecret d k) ↔
      ∃ s, v.characters? = some s ∧ IsSecret (Text.trim s.toList)) ∧
    ∀ s, v.characters? = some s → IsSpaced (Text.trim s.toList) →
      let digits := Hex.withoutGaps (Text.trim s.toList)
      (digits.length < 64 ∧ ofSecretBy d v = .error .wrongSeed) ∨
        (64 ≤ digits.length ∧ ∃ seed, Hex.decode (digits.take 64) = .ok seed ∧
          ofSecretBy d v = .ok ⟨publicKeyBy d seed, String.ofList (Text.trim s.toList)⟩) := by
  have hiff := exists_ofSecret_iff d v
  have hspaced := fun s (hs : v.characters? = some s) (h : IsSpaced (Text.trim s.toList)) =>
    ofSecretBy_eq d hs ▸ ofSecretTextBy_paired d rfl h.length_eq h.paired
  refine ⟨⟨?_, ?_⟩, hiff, hspaced⟩
  · rintro (⟨reason, hrefused⟩ | hof) s hs h
    · -- a text with blanks between its digits is not refused
      rcases hspaced s hs h with ⟨-, hfault⟩ | ⟨-, seed, -, hidentity⟩
      · rw [hfault] at hrefused
        cases hrefused
      · rw [hidentity] at hrefused
        cases hrefused
    · obtain ⟨s', hs', hsecret⟩ := hiff.1 hof
      rw [hs] at hs'
      cases hs'
      exact hsecret.not_isSpaced h
  · intro hnone
    rcases ofSecretBy_cases d v with hrefused | ⟨s, hs, hsecret | h⟩
    · exact .inl hrefused
    · exact .inr (hiff.2 ⟨s, hs, hsecret⟩)
    · exact absurd h (hnone s hs)

end

/-- A pair of zeros, blanks, and as many pairs of zeros as are asked for, 128 characters in all. -/
def spacedZeros (pairs : Nat) : List Char :=
  "00".toList ++ (List.replicate (126 - 2 * pairs) ' ' ++ List.replicate (2 * pairs) '0')

/-- With 64 blanks between the digits of zeros there is an identity, and its secret key has the blanks. -/
theorem ofSecretBy_settled_iff_zeros :
    IsSpaced (Text.trim (String.ofList (spacedZeros 31)).toList) ∧
      ofSecret (.text (String.ofList (spacedZeros 31))) =
        .ok ⟨publicKeyBy .ed25519 (List.replicate 32 0), String.ofList (spacedZeros 31)⟩ := by
  have htrim : Text.trim (String.ofList (spacedZeros 31)).toList = spacedZeros 31 := by
    rw [String.toList_ofList]
    decide +kernel
  have hspaced : IsSpaced (Text.trim (String.ofList (spacedZeros 31)).toList) := by
    rw [htrim]
    decide +kernel
  refine ⟨hspaced, ?_⟩
  obtain ⟨-, -, houtcome⟩ := ofSecretBy_settled_iff .ed25519 (.text (String.ofList (spacedZeros 31)))
  have hzeros := houtcome _ rfl hspaced
  rw [htrim] at hzeros
  rcases hzeros with ⟨hshort, -⟩ | ⟨-, seed, hseed, hidentity⟩
  · exact absurd hshort (by decide +kernel)
  · have hread : Hex.decode ((Hex.withoutGaps (spacedZeros 31)).take 64) = .ok (List.replicate 32 0) :=
      Except.eq_ok_of_toOption (by decide +kernel)
    rw [hread] at hseed
    cases hseed
    exact hidentity

/-- **Blanks between the digits make a fault of another kind**: the text is as long as a secret key, but the seed in
it is too short. -/
theorem ofSecret_spaced :
    ofSecret (.text (String.ofList (spacedZeros 1))) = .error .wrongSeed ∧
      ¬(Refused (ofSecret (.text (String.ofList (spacedZeros 1)))) ∨
        ∃ k, ofSecret (.text (String.ofList (spacedZeros 1))) = .ok k ∧ OfSecret .ed25519 k) := by
  have htrim : Text.trim (String.ofList (spacedZeros 1)).toList = spacedZeros 1 := by
    rw [String.toList_ofList]
    decide +kernel
  have hspaced : IsSpaced (spacedZeros 1) := by decide +kernel
  have hfault : ofSecret (.text (String.ofList (spacedZeros 1))) = .error .wrongSeed := by
    rcases ofSecretTextBy_paired .ed25519 htrim hspaced.length_eq hspaced.paired with ⟨-, hfault⟩ | ⟨henough, -⟩
    · exact hfault
    · exact absurd henough (by decide +kernel)
  refine ⟨hfault, ?_⟩
  rw [hfault]
  rintro (⟨reason, hrefused⟩ | ⟨k, hk, -⟩)
  · cases hrefused
  · cases hk

end SophiaBind.Keypair
