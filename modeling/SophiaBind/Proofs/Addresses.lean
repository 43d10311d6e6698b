/-
**Addresses come back from every form.**

A contract is given an address as a hexadecimal literal, and gives one back in hexadecimal digits or as a number,
without the zeros in front. Padding puts back exactly the zeros that are missing, as the digits of a key are
always as many; so each key comes back from its literal, under every mark and in either case, from its number,
and from its encoded form. What is encoded as an argument is therefore what the result shows.

Main definitions:

* `Encoded.hexMarks` — the marks that hexadecimal digits may stand behind.

Main results:

* `Encoded.keyToHex_encode` — the literal of a key,
* `Encoded.addressOf_hex`, `Encoded.addressOf_number`, `Encoded.addressOf_encode` — **a key from its forms**,
* `Encoded.address_comes_back` — all of them, and through a call.
-/

import SophiaBind.Table
import SophiaBind.Proofs.Effects
import SophiaBind.Proofs.Encoded
import SophiaBind.Proofs.Hexadecimal

namespace SophiaBind.Encoded

/-! ### The encoded form of a key -/

/-- The characters of an encoded key. -/
theorem toList_encode (p : Bytes) :
    (encode "ak" p).toList = 'a' :: 'k' :: '_' :: Base58.encode (withChecksum p) :=
  shown_encode_of_base58 (by decide) p

theorem not_isBlank_of_mem_encode {p : Bytes} {c : Char} (h : c ∈ (encode "ak" p).toList) :
    Text.isBlank c = false := by
  rw [toList_encode] at h
  simp only [List.mem_cons] at h
  rcases h with rfl | rfl | rfl | h
  · rfl
  · rfl
  · rfl
  · exact (Base58.spec_of_mem_encode _ c h).2

theorem trim_encode (p : Bytes) : Text.trim (encode "ak" p).toList = (encode "ak" p).toList :=
  Text.trim_eq_self fun _ hc => not_isBlank_of_mem_encode hc

theorem trimmed_encode (p : Bytes) :
    LooseText.trimmed (.whole (encode "ak" p)) = .whole (encode "ak" p) := by
  rw [LooseText.trimmed, Text.trimmed, trim_encode, String.ofList_toList]

/-- The literal of a key are the digits of its bytes. -/
theorem keyToHex_encode (p : Bytes) :
    keyToHex (encode "ak" p) = .ok ("0x" ++ String.ofList (Hex.encode p)) := by
  rw [keyToHex, trimmed_encode, decode_encode (by decide) p]
  rfl

/-- The digits of a literal are those of the key. -/
theorem eq_encode_of_keyToHex {p : Bytes} {digits : List Char}
    (h : keyToHex (encode "ak" p) = .ok ("0x" ++ String.ofList digits)) : digits = Hex.encode p := by
  rw [keyToHex_encode] at h
  injection h with htext
  exact (String.ofList_inj.1 ((String.append_right_inj "0x").1 htext)).symm

/-- A key that is passed as an address is passed as its literal. -/
theorem encodeOne_encode (p : Bytes) (quoteAll : Bool) :
    Arguments.encodeOne (some "address") (.text (encode "ak" p)) quoteAll =
      .ok ("0x" ++ String.ofList (Hex.encode p)) := by
  have htype : Text.lowerAscii (Text.trim "address".toList) = "address".toList := by decide
  have hshown : (Value.text (encode "ak" p)).shownText = .whole (encode "ak" p) := rfl
  have hmark : ("0x".toList.isPrefixOf (LooseText.whole (encode "ak" p)).shown.toList ||
      "#".toList.isPrefixOf (LooseText.whole (encode "ak" p)).shown.toList) = false := by
    rw [LooseText.shown, toList_encode]
    rfl
  rw [Arguments.encodeOne, Option.getD_some, htype, if_pos rfl, Arguments.encodeAddress, hshown, trimmed_encode]
  simp only [hmark, Bool.false_eq_true, if_false, keyToHex_encode]

/-! ### Back from each form -/

/-- The encoded form stays as it is. -/
theorem addressOf_encode (p : Bytes) : addressOf (.text (encode "ak" p)) "ak" = .ok (encode "ak" p) := by
  have hmark : ("ak" ++ "_").toList.isPrefixOf (encode "ak" p).toList = true := by
    rw [toList_encode]
    rfl
  rw [addressOf]
  dsimp only [Value.characters?]
  rw [trim_encode, hmark, if_pos rfl, String.ofList_toList]

/-- A key comes back from its number. -/
theorem addressOf_number {p : Bytes} (hp : p.length = 32) :
    addressOf (.int (Bytes.toNat p)) "ak" = .ok (encode "ak" p) := by
  have hbytes : bytesOfInt (Bytes.toNat p) = .ok p := by
    have hpadded := Bytes.ofNatPadded?_toNat p
    rw [hp] at hpadded
    rw [bytesOfInt, if_neg (by omega), Int.toNat_natCast, hpadded]
  have hint : Value.toInt (.int (Bytes.toNat p)) = .ok (Bytes.toNat p : Int) := rfl
  rw [addressOf]
  dsimp only [Value.characters?]
  rw [hint]
  simp only [bind, Except.bind, hbytes]
  rfl

/-- The marks that hexadecimal digits may stand behind; the last is none at all. -/
def hexMarks : List String :=
  ["0x", "0X", "#", ""]

/-- What stands behind a mark are the digits alone, since no digit is part of a mark. -/
theorem dropHexMark_append {mark : String} (hmark : mark ∈ hexMarks) {cs : List Char}
    (hcs : ∀ c ∈ cs, Hex.IsDigit c) : dropHexMark (mark.toList ++ cs) = cs := by
  have hx : ¬Hex.IsDigit 'x' ∧ ¬Hex.IsDigit 'X' ∧ ¬Hex.IsDigit '#' := by
    unfold Hex.IsDigit
    decide
  simp only [hexMarks, List.mem_cons, List.not_mem_nil, or_false] at hmark
  rcases hmark with rfl | rfl | rfl | rfl
  · rfl
  · rfl
  · rfl
  · change dropHexMark cs = cs
    unfold dropHexMark
    split
    · next r => exact absurd (hcs 'x' (by simp)) hx.1
    · next r => exact absurd (hcs 'X' (by simp)) hx.2.1
    · next r => exact absurd (hcs '#' (by simp)) hx.2.2
    · rfl

/-- Digits behind a mark have no blanks and do not begin like an encoded key. -/
theorem spelling_plain {mark : String} (hmark : mark ∈ hexMarks) {cs : List Char}
    (hcs : ∀ c ∈ cs, Hex.IsDigit c) :
    Text.trim (mark.toList ++ cs) = mark.toList ++ cs ∧
      ("ak" ++ "_").toList.isPrefixOf (mark.toList ++ cs) = false := by
  have hmarks : ∀ m ∈ hexMarks, ∀ c ∈ m.toList, Text.isBlank c = false ∧ c ≠ 'k' := by
    simp [hexMarks, Text.isBlank]
  have hplain : ∀ c ∈ mark.toList ++ cs, Text.isBlank c = false ∧ c ≠ 'k' := by
    intro c hc
    rcases List.mem_append.1 hc with hc | hc
    · exact hmarks mark hmark c hc
    · refine ⟨(hcs c hc).not_isBlank, ?_⟩
      rintro rfl
      simpa using (hcs 'k' hc).range
  constructor
  · exact Text.trim_eq_self fun c hc => (hplain c hc).1
  · -- the second character of the mark of a key is no part of any spelling
    cases hprefix : ("ak" ++ "_").toList.isPrefixOf (mark.toList ++ cs) with
    | false => rfl
    | true =>
        have hk : 'k' ∈ mark.toList ++ cs := by
          refine (List.isPrefixOf_iff_prefix.1 hprefix).subset ?_
          decide
        exact absurd rfl (hplain 'k' hk).2

/-- **A key comes back from its digits**, behind every mark, in either case, and without any of the zeros in
front. -/
theorem addressOf_hex {p : Bytes} (hp : p.length = 32) {mark : String} (hmark : mark ∈ hexMarks) {dropped : Nat}
    {cs : List Char} (hcs : Hex.Alike (List.replicate dropped '0' ++ cs) (Hex.encode p)) :
    addressOf (.text (mark ++ String.ofList cs)) "ak" = .ok (encode "ak" p) := by
  have hdigits : ∀ c ∈ cs, Hex.IsDigit c := by
    intro c hc
    exact hcs.isDigit (fun d hd => Hex.isDigit_of_mem_encode hd) c (List.mem_append_right _ hc)
  have hlength := hcs.length_eq
  rw [Hex.length_encode, hp, List.length_append, List.length_replicate] at hlength
  have hpad : padZeros 64 cs = List.replicate dropped '0' ++ cs := by
    rw [padZeros, show 64 - cs.length = dropped by omega]
  obtain ⟨htrim, hprefix⟩ := spelling_plain hmark hdigits
  have htext : Text.trim (mark ++ String.ofList cs).toList = mark.toList ++ cs := by
    rw [String.toList_append, String.toList_ofList, htrim]
  rw [addressOf]
  dsimp only [Value.characters?]
  rw [htext, hprefix, if_neg (by decide), dropHexMark_append hmark hdigits, hpad, Hex.decode_of_alike hcs]

/-! ### Through a call -/

/-- The type of addresses, with blanks around it. -/
theorem trimmed_address {before after : List Char} (hbefore : ∀ c ∈ before, Text.isBlank c = true)
    (hafter : ∀ c ∈ after, Text.isBlank c = true) :
    Text.trimmed (String.ofList (before ++ ("address".toList ++ after))) = "address" := by
  have hhead : ∀ c ∈ "address".toList.head?, Text.isBlank c = false := by simp [Text.isBlank]
  have hlast : ∀ c ∈ "address".toList.getLast?, Text.isBlank c = false := by simp [Text.isBlank]
  rw [Text.trimmed, String.toList_ofList, Text.trim_append hbefore hhead hlast hafter (by decide)]
  rfl

/-- A result is the address of what it was decoded to. -/
theorem runIn_decoded {result : CallResult} {returns : String} (htype : Text.trimmed returns = "address")
    {answer : Value} {w w' : World} (hanswer : (App.converse (result.decode "address")).runIn w = (.ok answer, w')) :
    (App.converse (result.decoded returns)).runIn w =
      ((addressOf (Result.unwrap answer) "ak").map .text, w') := by
  have hbind : result.decoded returns =
      (result.decode (Text.trimmed returns)).bind fun answer =>
        .ofExcept (Result.ofDecoded (Text.trimmed returns) answer) := rfl
  rw [hbind, htype, App.runIn_converse_bind, hanswer]
  dsimp only
  rw [Result.ofDecoded, if_pos rfl]
  cases addressOf (Result.unwrap answer) "ak" with
  | ok s => rfl
  | error f => rfl

/-- **An address comes back from every form.** The literal of a key are 64 hexadecimal digits, and the key comes
back from them, behind every mark, in either case and without any of the zeros in front; it comes back from its
number and from itself. So a call that gives back the literal of an argument gives back the key. -/
theorem address_comes_back (p : Bytes) (hp : p.length = 32) :
    (∃ digits, keyToHex (encode "ak" p) = .ok ("0x" ++ String.ofList digits) ∧ digits.length = 64 ∧
      (∀ c ∈ digits, Hex.IsDigit c) ∧
      ∀ mark ∈ hexMarks, ∀ dropped cs, Hex.Alike (List.replicate dropped '0' ++ cs) digits →
        addressOf (.text (mark ++ String.ofList cs)) "ak" = .ok (encode "ak" p)) ∧
    addressOf (.int (Bytes.toNat p)) "ak" = .ok (encode "ak" p) ∧
    addressOf (.text (encode "ak" p)) "ak" = .ok (encode "ak" p) ∧
    ∀ quoteAll, ∃ literal,
      Arguments.encodeOne (some "address") (.text (encode "ak" p)) quoteAll = .ok literal ∧
      ∀ before after, (∀ c ∈ before, Text.isBlank c = true) → (∀ c ∈ after, Text.isBlank c = true) →
      ∀ (result : CallResult) (answer : Value) (w w' : World),
        (App.converse (result.decode "address")).runIn w = (.ok answer, w') →
        Result.unwrap answer = .text literal →
        (App.converse (result.decoded (String.ofList (before ++ ("address".toList ++ after))))).runIn w =
          (.ok (.text (encode "ak" p)), w') := by
  refine ⟨⟨Hex.encode p, keyToHex_encode p, ?_, ?_, ?_⟩, addressOf_number hp, addressOf_encode p, ?_⟩
  · rw [Hex.length_encode, hp]
  · exact fun c hc => Hex.isDigit_of_mem_encode hc
  · intro mark hmark dropped cs hcs
    exact addressOf_hex hp hmark hcs
  · intro quoteAll
    refine ⟨_, encodeOne_encode p quoteAll, ?_⟩
    intro before after hbefore hafter result answer w w' hanswer hcarries
    have hback : addressOf (.text ("0x" ++ String.ofList (Hex.encode p))) "ak" = .ok (encode "ak" p) := by
      have hnone : Hex.Alike (List.replicate 0 '0' ++ Hex.encode p) (Hex.encode p) := .refl _
      exact addressOf_hex hp (by decide) hnone
    rw [runIn_decoded (trimmed_address hbefore hafter) hanswer, hcarries, hback]
    rfl

/-- The key of zeros comes back from no digit at all, and a key with a zero in front from its number, and from
capital letters without that zero. -/
theorem address_comes_back_zeros :
    (List.replicate 32 (0 : UInt8)).length = 32 ∧
    addressOf (.text "#") "ak" = .ok (encode "ak" (List.replicate 32 0)) ∧
    (0 :: 10 :: List.replicate 30 (255 : UInt8)).length = 32 ∧
    addressOf (.text ("0X" ++ String.ofList ('A' :: List.replicate 60 'F'))) "ak" =
      .ok (encode "ak" (0 :: 10 :: List.replicate 30 255)) ∧
    addressOf (.int (11 * Int.pow 256 30 - 1)) "ak" = .ok (encode "ak" (0 :: 10 :: List.replicate 30 255)) := by
  have hzeros : (List.replicate 32 (0 : UInt8)).length = 32 := by decide
  have hsmall : (0 :: 10 :: List.replicate 30 (255 : UInt8)).length = 32 := by decide
  obtain ⟨⟨digits, hliteral, -, -, hback⟩, -⟩ := address_comes_back _ hzeros
  obtain ⟨⟨digits', hliteral', -, -, hback'⟩, hnumber, -⟩ := address_comes_back _ hsmall
  refine ⟨hzeros, ?_, hsmall, ?_, ?_⟩
  · refine hback "#" (by decide) 64 [] ?_
    rw [eq_encode_of_keyToHex hliteral]
    rfl
  · refine hback' "0X" (by decide) 3 _ ?_
    rw [eq_encode_of_keyToHex hliteral']
    rfl
  · have hvalue : (Bytes.toNat (0 :: 10 :: List.replicate 30 255) : Int) = 11 * Int.pow 256 30 - 1 := by decide
    rw [← hvalue]
    exact hnumber

end SophiaBind.Encoded
