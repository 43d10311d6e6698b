/-
**Texts among the arguments.**

A text is passed as a literal in quotes. Quotes and controls are escaped in it, but brackets and commas stand as they
are, and where arguments are read from one text these count within quotes as they do outside. So arguments that are
written in one text and read again are the same exactly if the texts among them are told apart by the commas between
the arguments: none has a comma outside its own brackets, and in each but the last argument the brackets match in
number.

Main definitions:

* `Arguments.Fits` — the values that a parameter of one of the four plain types may stand for,
* `Arguments.textWithin` — the text that is written within quotes.

Main results:

* `Json.skeleton_quote` — **quoting leaves brackets and commas as they are**,
* `Arguments.ofValue_tuple_encode` — **which arguments are read back from one text**,
* `Arguments.ofValue_quoted_comma` — a text that is not.
-/

import SophiaBind.Proofs.Addresses
import SophiaBind.Proofs.ArgumentText
import SophiaBind.Proofs.JsonText
import SophiaBind.Proofs.Results

namespace SophiaBind

open Text (skeleton splitMarks)

/-! ### Quoted texts -/

namespace Hex

theorem digit_not_mem_splitMarks {n : Nat} (h : n < 16) : digit n ∉ splitMarks := by
  have htable : ∀ m < 16, digit m ∉ splitMarks := by decide
  exact htable n h

theorem not_mem_splitMarks_of_mem_digits {width n : Nat} {c : Char} (h : c ∈ digits width n) : c ∉ splitMarks := by
  induction width generalizing n with
  | zero => cases h
  | succ width ih =>
      rcases List.mem_append.1 h with h | h
      · exact ih h
      · rw [List.mem_singleton.1 h]
        exact digit_not_mem_splitMarks (Nat.mod_lt n (by decide))

end Hex

namespace Json

theorem skeleton_unitEscape (n : Nat) : skeleton (unitEscape n) = [] := by
  refine Text.skeleton_eq_nil fun c hc => ?_
  rcases List.mem_cons.1 hc with rfl | hc
  · decide
  · rcases List.mem_cons.1 hc with rfl | hc
    · decide
    · exact Hex.not_mem_splitMarks_of_mem_digits hc

/-- Where characters beyond ASCII may stand, they stand for themselves, and the others are written as in ASCII. -/
theorem escapeChar_unicode (c : Char) :
    escapeChar .unicode c = escapeChar .ascii c ∨ escapeChar .unicode c = [c] := by
  by_cases hascii : c.toNat < 127
  · left
    simp [escapeChar, hascii]
  · right
    have hne : ∀ d : Char, d.toNat < 127 → c ≠ d := by
      rintro d hd rfl
      exact hascii hd
    have h8 : c.toNat ≠ 8 := by omega
    have h12 : c.toNat ≠ 12 := by omega
    have h32 : ¬c.toNat < 32 := by omega
    simp [escapeChar, hne '"' (by decide), hne '\\' (by decide), hne '\n' (by decide), hne '\r' (by decide),
      hne '\t' (by decide), h8, h12, h32]

/-- Escapes are of other characters than brackets and commas, and are written without these. -/
theorem skeleton_escapeChar (c : Char) : skeleton (escapeChar .unicode c) = skeleton [c] := by
  by_cases hc : c ∈ splitMarks
  · have hall : ∀ d ∈ splitMarks, escapeChar .unicode d = [d] := List.all_iff_forall_prop.1 (by decide)
    rw [hall c hc]
  · rcases escapeChar_unicode c with hascii | hself
    · rw [hascii, Text.skeleton_eq_nil (show ∀ d ∈ [c], d ∉ splitMarks by simpa using hc)]
      rcases escapeChar_cases c with ⟨d, hescape, -, hd⟩ | ⟨hself, -⟩ | ⟨hunit, -⟩ | ⟨-, hpair⟩
      · have hnone : ∀ e ∈ splitMarks, shortEscape? e = none := List.all_iff_forall_prop.1 (by decide)
        have hmark : d ∉ splitMarks := fun hmem => by
          rw [hnone d hmem] at hd
          cases hd
        rw [hescape]
        exact Text.skeleton_eq_nil (by simpa using ⟨by decide, hmark⟩)
      · rw [hself]
        exact Text.skeleton_eq_nil (by simpa using hc)
      · rw [hunit, skeleton_unitEscape]
      · rw [hpair, Text.skeleton_append, skeleton_unitEscape, skeleton_unitEscape]
        rfl
    · rw [hself]

/-- **Quoting leaves brackets and commas as they are.** -/
theorem skeleton_quote (cs : List Char) : skeleton (quote .unicode cs) = skeleton cs := by
  have hchars : skeleton (cs.flatMap (escapeChar .unicode)) = skeleton cs := by
    induction cs with
    | nil => rfl
    | cons c cs ih =>
        rw [List.flatMap_cons, Text.skeleton_append, skeleton_escapeChar, ih, ← Text.skeleton_append,
          List.singleton_append]
  have hquote : skeleton ['"'] = [] := by decide
  rw [quote, ← List.singleton_append, Text.skeleton_append, Text.skeleton_append, hquote, hchars, List.append_nil,
    List.nil_append]

end Json

/-! ### Arguments of the plain types -/

namespace Arguments

/-- What may be passed for a parameter of one of the four plain types: a text is passed for a text or, if it is marked
as a key, for an address. -/
inductive Fits : Option String → Value → Prop
  | int (i : Int) : Fits (some "int") (.int i)
  | bool (b : Bool) : Fits (some "bool") (.bool b)
  | address {s : String} (h : "ak_".toList <+: s.toList) : Fits (some "address") (.text s)
  | string {v : Value} {s : String} (h : v.characters? = some s) : Fits (some "string") v

/-- The text that is written within quotes, if an argument is. -/
def textWithin (type : Option String) (v : Value) : List Char :=
  if type = some "string" then v.shown.toList else []

/-- A literal that is not empty, has no blanks at its ends, and has the brackets and commas of a text. -/
structure Carries (cs text : List Char) : Prop where
  ne_nil : cs ≠ []
  trim_eq : Text.trim cs = cs
  skeleton_eq : skeleton cs = skeleton text

theorem carries_nil {cs : List Char} (hne : cs ≠ []) (h : ∀ c ∈ cs, Text.isBlank c = false ∧ c ∉ splitMarks) :
    Carries cs [] where
  ne_nil := hne
  trim_eq := Text.trim_eq_self fun c hc => (h c hc).1
  skeleton_eq := Text.skeleton_eq_nil fun c hc => (h c hc).2

theorem carries_quote (cs : List Char) : Carries (Json.quote .unicode cs) cs where
  ne_nil := List.cons_ne_nil _ _
  trim_eq := Text.trim_between (by decide) (by decide) _
  skeleton_eq := Json.skeleton_quote cs

/-- A key is passed as a literal of hexadecimal digits. -/
theorem exists_of_encodeAddress {s literal : String} (hmark : "ak_".toList <+: s.toList)
    (h : encodeAddress (.text s) = .ok literal) : ∃ payload, literal = "0x" ++ String.ofList (Hex.encode payload) := by
  obtain ⟨r, hr⟩ := hmark
  obtain ⟨rest, hrest⟩ := Text.exists_trim_cons (show Text.isBlank 'a' = false by decide) ('k' :: '_' :: r)
  have htrim : (Value.text s).shownText.trimmed = .whole (String.ofList ('a' :: rest)) := by
    rw [← hrest]
    exact congrArg (fun cs => LooseText.whole (String.ofList (Text.trim cs))) hr.symm
  have hshown : (LooseText.whole (String.ofList ('a' :: rest))).shown.toList = 'a' :: rest := String.toList_ofList
  have hno : ("0x".toList.isPrefixOf ('a' :: rest) || "#".toList.isPrefixOf ('a' :: rest)) = false := rfl
  rw [encodeAddress, htrim] at h
  simp only [hshown, hno, Bool.false_eq_true, if_false] at h
  obtain ⟨payload, -, hliteral⟩ := Except.map_eq_ok.1 h
  exact ⟨payload, hliteral.symm⟩

/-- Digits are neither blanks nor marks. -/
theorem carries_hex (bs : Bytes) : Carries ("0x" ++ String.ofList (Hex.encode bs)).toList [] := by
  have hchars : ("0x" ++ String.ofList (Hex.encode bs)).toList = '0' :: 'x' :: Hex.encode bs := by simp
  rw [hchars]
  refine carries_nil (List.cons_ne_nil _ _) ?_
  rw [List.forall_mem_cons, List.forall_mem_cons]
  refine ⟨by decide, by decide, fun c hc => ?_⟩
  have hdigit := Hex.isDigit_of_mem_encode hc
  constructor
  · have hrange := hdigit.range
    simp only [Text.isBlank, Bool.or_eq_false_iff, Bool.and_eq_false_iff, decide_eq_false_iff_not,
      beq_eq_false_iff_ne]
    omega
  · intro hmark
    have hnone : ∀ d ∈ splitMarks, Hex.digitValue? d = none := List.all_iff_forall_prop.1 (by decide)
    rw [Hex.IsDigit, hnone c hmark] at hdigit
    cases hdigit

theorem carries_int (i : Int) : Carries (Integer.toText i) [] :=
  carries_nil (Integer.toText_ne_nil i) fun _ hc =>
    ⟨Decimal.not_isBlank_of_isNumeric (Integer.isNumeric_of_mem hc),
      Decimal.not_mem_splitMarks (Integer.isNumeric_of_mem hc)⟩

/-- **A literal has the brackets and commas of the text within**, and no others. -/
theorem encodeOne_carries {type : Option String} {v : Value} {quoteAll : Bool} {literal : String} (hfits : Fits type v)
    (h : encodeOne type v quoteAll = .ok literal) : Carries literal.toList (textWithin type v) := by
  cases hfits with
  | int i =>
      have htype : Text.lowerAscii (Text.trim "int".toList) = "int".toList := by decide
      have hother : "int".toList ≠ "address".toList := by decide
      rw [encodeOne, Option.getD_some, htype, if_neg hother, if_pos rfl] at h
      obtain rfl := Except.ok.inj h
      have hchars : (encodeInteger (.int i)).toList = Integer.toText i := String.toList_ofList
      rw [hchars]
      exact carries_int i
  | bool b =>
      have htype : Text.lowerAscii (Text.trim "bool".toList) = "bool".toList := by decide
      have hother : "bool".toList ≠ "address".toList ∧ "bool".toList ≠ "int".toList := by decide
      rw [encodeOne, Option.getD_some, htype, if_neg hother.1, if_neg hother.2, if_pos rfl] at h
      obtain rfl := Except.ok.inj h
      cases b <;> exact carries_nil (by decide) (List.all_iff_forall_prop.1 (by decide))
  | address hmark =>
      have htype : Text.lowerAscii (Text.trim "address".toList) = "address".toList := by decide
      rw [encodeOne, Option.getD_some, htype, if_pos rfl] at h
      obtain ⟨payload, rfl⟩ := exists_of_encodeAddress hmark h
      exact carries_hex payload
  | string hv =>
      have htype : Text.lowerAscii (Text.trim "string".toList) = "string".toList := by decide
      have hother : "string".toList ≠ "address".toList ∧ "string".toList ≠ "int".toList ∧
        "string".toList ≠ "bool".toList := by decide
      rw [encodeOne, Option.getD_some, htype, if_neg hother.1, if_neg hother.2.1, if_neg hother.2.2] at h
      obtain rfl := Except.ok.inj h
      rw [quote, String.toList_ofList]
      exact carries_quote _

/-- The literals of arguments have the brackets and commas of the texts within. -/
theorem encode_carries {quoteAll : Bool} {ps : List Parameter} {vs : List Value} {literals : List String}
    (hfits : ∀ x ∈ ps.zip vs, Fits x.1.type x.2) (h : encode quoteAll ps vs = .ok literals) :
    (∀ l ∈ literals, l.toList ≠ [] ∧ Text.trim l.toList = l.toList) ∧
      (literals.map String.toList).map skeleton = ((ps.zip vs).map fun x => textWithin x.1.type x.2).map skeleton := by
  have hnone : ∀ {literals}, Except.ok (ε := Fault) [] = .ok literals →
      (∀ l ∈ literals, l.toList ≠ [] ∧ Text.trim l.toList = l.toList) ∧
        (literals.map String.toList).map skeleton = [] := by
    rintro _ h
    obtain rfl := Except.ok.inj h
    exact ⟨List.forall_mem_nil _, rfl⟩
  induction ps generalizing vs literals with
  | nil => exact hnone h
  | cons p ps ih =>
      cases vs with
      | nil => exact hnone h
      | cons v vs =>
          rw [List.zip_cons_cons] at hfits ⊢
          obtain ⟨hfirst, hrest⟩ := List.forall_mem_cons.1 hfits
          rw [encode] at h
          obtain ⟨literal, hliteral, h⟩ := Except.bind_eq_ok.1 h
          obtain ⟨rest, hencode, h⟩ := Except.bind_eq_ok.1 h
          obtain rfl : literal :: rest = literals := Except.ok.inj h
          obtain ⟨hne, htrim, hskeleton⟩ := encodeOne_carries hfirst hliteral
          obtain ⟨hall, hskeletons⟩ := ih hrest hencode
          refine ⟨List.forall_mem_cons.2 ⟨⟨hne, htrim⟩, hall⟩, ?_⟩
          simp only [List.map_cons, hskeleton, hskeletons]

/-- **Arguments are read back from one text exactly if the texts among them are separated**: none has a comma outside
its brackets, and in each but the last argument the brackets match in number. -/
theorem ofValue_tuple_encode {quoteAll : Bool} {ps : List Parameter} {vs : List Value} {literals : List String}
    (hfits : ∀ x ∈ ps.zip vs, Fits x.1.type x.2) (h : encode quoteAll ps vs = .ok literals) :
    ofValue (.text (tuple literals)) = .ok literals ↔
      Text.Separated ((ps.zip vs).map fun x => textWithin x.1.type x.2) := by
  obtain ⟨htrimmed, hskeletons⟩ := encode_carries hfits h
  have hback : ofValue (.text (tuple literals)) = .ok literals ↔ ofText (tuple literals) = literals :=
    ⟨Except.ok.inj, congrArg Except.ok⟩
  rw [hback, ofText_tuple_iff, and_iff_left htrimmed, ← Text.separated_skeleton, hskeletons, Text.separated_skeleton]

/-- Arguments of all four types; the last text leaves a bracket open. -/
def mixedParameters : List Parameter :=
  [⟨"to", some "address"⟩, ⟨"n", some "int"⟩, ⟨"on", some "bool"⟩, ⟨"note", some "string"⟩, ⟨"rest", some "string"⟩]

/-- Values for them. -/
def mixedValues : List Value :=
  [.text (Encoded.encode "ak" (List.replicate 32 0)), .int (-7), .bool true, .text "f(1, \"x\")", .text "(a,\n"]

/-- Their literals. -/
def mixedLiterals : List String :=
  ["0x" ++ String.ofList (List.replicate 64 '0'), "-7", "true", "\"f(1, \\\"x\\\")\"", "\"(a,\\n\""]

theorem ofValue_tuple_encode_mixed :
    (∀ x ∈ mixedParameters.zip mixedValues, Fits x.1.type x.2) ∧
      encode true mixedParameters mixedValues = .ok mixedLiterals ∧
      ofValue (.text (tuple mixedLiterals)) = .ok mixedLiterals := by
  have hkey : ∀ p, "ak_".toList <+: (Encoded.encode "ak" p).toList := by
    intro p
    rw [Encoded.toList_encode]
    exact ⟨_, rfl⟩
  have hfits : ∀ x ∈ mixedParameters.zip mixedValues, Fits x.1.type x.2 := by
    simp only [mixedParameters, mixedValues, List.zip_cons_cons, List.zip_nil_left, List.forall_mem_cons]
    exact ⟨.address (hkey _), .int (-7), .bool true, .string rfl, .string rfl, List.forall_mem_nil _⟩
  have hencode : encode true mixedParameters mixedValues = .ok mixedLiterals := by
    rw [mixedParameters, mixedValues, encode, Encoded.encodeOne_encode]
    rfl
  exact ⟨hfits, hencode, (ofValue_tuple_encode hfits hencode).2 (by decide +kernel)⟩

/-- **A comma within quotes tells literals apart** as any other. -/
theorem ofValue_quoted_comma :
    encode true [⟨"note", some "string"⟩] [.text "a,b"] = .ok ["\"a,b\""] ∧
      ofValue (.text (tuple ["\"a,b\""])) = .ok ["\"a", "b\""] :=
  ⟨rfl, rfl⟩

end Arguments

end SophiaBind
