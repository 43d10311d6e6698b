/-
**Encoded values are read back**, and nothing else is read.

A mark without underscores ends at the first underscore of an encoded value, so that the reader finds the
mark that the value was written with, and reads the body in the base that it was written in. The checksum
has four bytes always, so that it is told from the payload by its length, also if there is no payload; a
body of fewer bytes is no checksum at all.

Main results:

* `Encoded.dropChecksum?_eq_some` — **only a payload with its checksum behind it has a payload**,
* `Encoded.decode_encode` — **what is written is read back**,
* `Encoded.decode_eq_ok_iff` — a value in base 64 is read if its body is a payload with its checksum,
* `Encoded.decode_inverts_encode` — both, for all marks.
-/

import SophiaBind.Encoded
import SophiaBind.Proofs.Base58
import SophiaBind.Proofs.Base64
import SophiaBind.Proofs.Digest

namespace SophiaBind.Encoded

/-! ### Checksums -/

theorem length_checksum (payload : Bytes) : (checksum payload).length = 4 := by
  rw [checksum, List.length_take, length_sha256]
  rfl

theorem withChecksum_ne_nil (payload : Bytes) : withChecksum payload ≠ [] := by
  intro h
  have hlength := congrArg List.length h
  rw [withChecksum, List.length_append, length_checksum] at hlength
  simp at hlength

/-- **Only a payload with its checksum behind it has a payload.** -/
theorem dropChecksum?_eq_some {bs payload : Bytes} :
    dropChecksum? bs = some payload ↔ bs = withChecksum payload := by
  constructor
  · intro h
    unfold dropChecksum? at h
    dsimp only at h
    split at h
    · next hcheck =>
        cases h
        rw [withChecksum, ← hcheck, List.take_append_drop]
    · cases h
  · rintro rfl
    have hlength : (withChecksum payload).length - 4 = payload.length := by
      rw [withChecksum, List.length_append, length_checksum, Nat.add_sub_cancel]
    have htake : (withChecksum payload).take payload.length = payload := List.take_left
    have hdrop : (withChecksum payload).drop payload.length = checksum payload := List.drop_left
    rw [dropChecksum?, hlength, htake, hdrop, if_pos rfl]

/-- A body of fewer than four bytes is no payload with its checksum. -/
theorem ne_withChecksum_of_length_lt {bs : Bytes} (h : bs.length < 4) (payload : Bytes) :
    bs ≠ withChecksum payload := by
  rintro rfl
  rw [withChecksum, List.length_append, length_checksum] at h
  omega

/-! ### Marks -/

/-- A mark without underscores ends at the first one. -/
theorem splitMark?_append {mark : List Char} (h : '_' ∉ mark) (body : List Char) :
    splitMark? (mark ++ '_' :: body) = some (mark, body) := by
  have hspan := @Text.span_append _ (· != '_') mark ('_' :: body)
    (fun c hc => by simpa using fun he : c = '_' => h (he ▸ hc)) (by simp)
  rw [splitMark?, hspan.1, hspan.2]

section Value

variable {value : LooseText} {tag : String} {body : List Char} (htag : '_' ∉ tag.toList)
  (hvalue : value.shown.toList = tag.toList ++ '_' :: body)

include htag hvalue

/-- A value in base 58. -/
theorem decode_of_base58 (hbase : tag ∈ base58Tags) {bs payload : Bytes} (hbody : body ≠ [])
    (hread : Base58.decode body = .ok bs) (hpayload : dropChecksum? bs = some payload) :
    decode value = .ok payload := by
  obtain ⟨c, r, rfl⟩ := List.exists_cons_of_ne_nil hbody
  rw [decode, hvalue, splitMark?_append htag]
  dsimp only
  rw [String.ofList_toList, if_pos (List.contains_iff_mem.2 hbase), hread]
  dsimp only
  rw [hpayload]

/-- **A value in base 64 is read if its body is a payload with its checksum**, and only then. -/
theorem decode_eq_ok_iff (hbase : tag ∉ base58Tags) (payload : Bytes) :
    decode value = .ok payload ↔ Base64.decode body = .ok (withChecksum payload) := by
  rw [decode, hvalue, splitMark?_append htag]
  cases body with
  | nil =>
      -- nothing behind the mark is read neither way
      have hempty : Base64.decode [] = .ok [] := rfl
      have hne := withChecksum_ne_nil payload
      simp [hempty, hne.symm]
  | cons c r =>
      have hcontains : ¬base58Tags.contains tag = true := fun h => hbase (List.contains_iff_mem.1 h)
      dsimp only
      rw [String.ofList_toList, if_neg hcontains]
      cases hread : Base64.decode (c :: r) with
      | error why => simp
      | ok bs =>
          have hdrop := @dropChecksum?_eq_some bs payload
          dsimp only
          rw [Except.ok.injEq, ← hdrop]
          cases dropChecksum? bs <;> simp

end Value

/-! ### Reading back -/

theorem shown_encode_of_base58 {tag : String} (h : tag ∈ base58Tags) (payload : Bytes) :
    (LooseText.whole (encode tag payload)).shown.toList =
      tag.toList ++ '_' :: Base58.encode (withChecksum payload) := by
  rw [LooseText.shown, encode, if_pos (List.contains_iff_mem.2 h)]
  simp

theorem shown_encode_of_base64 {tag : String} (h : tag ∉ base58Tags) (payload : Bytes) :
    (LooseText.whole (encode tag payload)).shown.toList =
      tag.toList ++ '_' :: Base64.encode (withChecksum payload) := by
  rw [LooseText.shown, encode, if_neg fun hc => h (List.contains_iff_mem.1 hc)]
  simp

/-- **What is written is read back**, in both bases. -/
theorem decode_encode {tag : String} (htag : '_' ∉ tag.toList) (payload : Bytes) :
    decode (encode tag payload) = .ok payload := by
  have hne := withChecksum_ne_nil payload
  by_cases hbase : tag ∈ base58Tags
  · exact decode_of_base58 htag (shown_encode_of_base58 hbase payload) hbase (Base58.encode_ne_nil hne)
      (Base58.decode_encode _) (dropChecksum?_eq_some.2 rfl)
  · exact (decode_eq_ok_iff htag (shown_encode_of_base64 hbase payload) hbase payload).2
      (Base64.decode_encode _)

/-- **Reading inverts writing** in both bases, so that values of the same mark differ if their payloads do. In
base 64 nothing is read but payloads with their checksums behind them; every other body is a fault, and so
is each that has fewer bytes than a checksum. -/
theorem decode_inverts_encode :
    (∀ (tag : String) (payload : Bytes), '_' ∉ tag.toList → decode (encode tag payload) = .ok payload) ∧
    (∀ (tag : String) (p q : Bytes), '_' ∉ tag.toList → encode tag p = encode tag q → p = q) ∧
    ∀ (value : LooseText) (tag : String) (body : List Char), '_' ∉ tag.toList → tag ∉ base58Tags →
      value.shown.toList = tag.toList ++ '_' :: body →
      (∀ payload, decode value = .ok payload ↔
        Base64.decode body = .ok (payload ++ (sha256 (sha256 payload)).take 4)) ∧
      ((∀ payload, Base64.decode body ≠ .ok (payload ++ (sha256 (sha256 payload)).take 4)) →
        ∃ fault, decode value = .error fault) ∧
      (∀ bs, Base64.decode body = .ok bs → bs.length < 4 → ∃ fault, decode value = .error fault) := by
  refine ⟨fun tag payload htag => decode_encode htag payload, fun tag p q htag h => ?_,
    fun value tag body htag hbase hvalue => ?_⟩
  · have hp := decode_encode htag p
    rw [h, decode_encode htag q] at hp
    exact (Except.ok.inj hp).symm
  · have hiff := decode_eq_ok_iff htag hvalue hbase
    -- a value that is not read as any payload is a fault
    have hfault : (∀ payload, Base64.decode body ≠ .ok (withChecksum payload)) →
        ∃ fault, decode value = .error fault := by
      intro hno
      cases hread : decode value with
      | ok payload => exact absurd ((hiff payload).1 hread) (hno payload)
      | error fault => exact ⟨fault, rfl⟩
    refine ⟨hiff, hfault, fun bs hbs hshort => hfault fun payload he => ?_⟩
    rw [hbs] at he
    exact ne_withChecksum_of_length_lt hshort payload (Except.ok.inj he)

/-- A payload with a zero in front in base 58, an empty one in base 64, and a body of three bytes. -/
theorem decode_inverts_encode_short :
    ('_' ∉ "ak".toList ∧ decode (encode "ak" [0, 7]) = .ok [0, 7]) ∧
    ('_' ∉ "".toList ∧ encode "" [] = "_Xfbg4g==" ∧ decode "_Xfbg4g==" = .ok []) ∧
    ('_' ∉ "cb".toList ∧ "cb" ∉ base58Tags ∧ Base64.decode "AAAA".toList = .ok [0, 0, 0] ∧
      ∃ fault, decode "cb_AAAA" = .error fault) := by
  obtain ⟨hread, -, hbody⟩ := decode_inverts_encode
  have hempty : encode "" [] = "_Xfbg4g==" := by decide +kernel
  have hthree : Base64.decode "AAAA".toList = .ok [0, 0, 0] := by rfl
  refine ⟨⟨by decide, hread "ak" [0, 7] (by decide)⟩, ⟨by decide, hempty, ?_⟩,
    by decide, by decide, hthree, ?_⟩
  · rw [← hempty]
    exact hread "" [] (by decide)
  · exact (hbody "cb_AAAA" "cb" "AAAA".toList (by decide) (by decide) (by decide)).2.2 _ hthree (by decide)

end SophiaBind.Encoded
