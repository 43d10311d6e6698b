/-
**JSON text on one line is read back.**

Texts and names are quoted, words and numbers end where no character of a word follows, and behind every
part of an array or an object stands a comma or the closing bracket. What is read is what was written, but for
the halves of pairs: those that belong together become a character, and two members of which the names become
one are one member. Numbers with a point are rounded, and a whole number of too many digits is refused.

Main definitions:

* `Json.IsExact` — values without such numbers,
* `Json.joined`, `Json.foundMembers` — what is read of a value that was written, and of the members of an object,
* `Json.Readable` — values of which all is read as it was written,
* `Json.Stops` — a text at which a word ends.

Main results:

* `Json.Readable.joined_eq` — such values have no halves to be joined,
* `Json.valueFrom_render` — **a value is read back**, whatever follows it,
* `Json.parseChars_render` — reading a text that was rendered gives the value, with its halves joined.
-/

import Mathlib.Data.Bool.AllAny
import Mathlib.Data.List.TakeWhile
import SophiaBind.Proofs.JsonLine
import SophiaBind.Proofs.JsonText
import SophiaBind.Proofs.KeyedLists
import SophiaBind.Proofs.Spans

namespace SophiaBind

namespace Json

/-! ### Values that are read back -/

mutual

/-- A value without numbers with a point, whose whole numbers can be written. -/
def IsExact : Json → Prop
  | .int i => Integer.isWritable i = true
  | .float _ => False
  | .array items => AllExact items
  | .object members => MembersExact members
  | _ => True

/-- Values of this kind. -/
def AllExact : List Json → Prop
  | [] => True
  | j :: rest => IsExact j ∧ AllExact rest

/-- Members with values of this kind. -/
def MembersExact : List (LooseText × Json) → Prop
  | [] => True
  | (_, j) :: rest => IsExact j ∧ MembersExact rest

end

mutual

/-- What is read of a value that was written: in all texts and names, the halves that belong together are joined. Of
the members of which the names become one, the last one counts, in the place of the first. -/
def joined : Json → Json
  | .broken t => .ofText (LooseText.broken t).joined
  | .array items => .array (joinedItems items)
  | .object members => .object (Keyed.putAll [] (joinedMembers members))
  | j => j

/-- What is read of each value. -/
def joinedItems : List Json → List Json
  | [] => []
  | j :: rest => joined j :: joinedItems rest

/-- What is read of each member. -/
def joinedMembers : List (LooseText × Json) → List (LooseText × Json)
  | [] => []
  | (name, j) :: rest => (name.joined, joined j) :: joinedMembers rest

end

/-- What is read of the members of an object. -/
def foundMembers (members : List (LooseText × Json)) : List (LooseText × Json) :=
  Keyed.putAll [] (joinedMembers members)

theorem joined_object (members : List (LooseText × Json)) : joined (.object members) = .object (foundMembers members) :=
  rfl

theorem joinedMembers_eq_map (members : List (LooseText × Json)) :
    joinedMembers members = members.map fun m => (m.1.joined, joined m.2) := by
  induction members with
  | nil => rfl
  | cons m members ih =>
      obtain ⟨name, j⟩ := m
      rw [joinedMembers, ih, List.map_cons]

mutual

/-- A value without numbers with a point, whose whole numbers can be written, whose texts have no halves that join,
and whose objects have no name twice. -/
def Readable : Json → Prop
  | .null => True
  | .bool _ => True
  | .int i => Integer.isWritable i = true
  | .float _ => False
  | .text _ => True
  | .broken t => CodePoint.Unjoined t.points
  | .array items => AllReadable items
  | .object members => (members.map Prod.fst).Nodup ∧ MembersReadable members

/-- Values that are read back. -/
def AllReadable : List Json → Prop
  | [] => True
  | j :: rest => Readable j ∧ AllReadable rest

/-- Members that are read back. -/
def MembersReadable : List (LooseText × Json) → Prop
  | [] => True
  | (name, j) :: rest => CodePoint.Unjoined name.points ∧ Readable j ∧ MembersReadable rest

end

mutual

theorem Readable.isExact : ∀ {j : Json}, Readable j → IsExact j
  | .null, _ => trivial
  | .bool _, _ => trivial
  | .int _, h => h
  | .text _, _ => trivial
  | .broken _, _ => trivial
  | .array _, h => AllReadable.allExact h
  | .object _, h => MembersReadable.membersExact h.2

theorem AllReadable.allExact : ∀ {items : List Json}, AllReadable items → AllExact items
  | [], _ => trivial
  | _ :: _, h => ⟨h.1.isExact, AllReadable.allExact h.2⟩

theorem MembersReadable.membersExact : ∀ {members : List (LooseText × Json)}, MembersReadable members →
    MembersExact members
  | [], _ => trivial
  | _ :: _, h => ⟨h.2.1.isExact, MembersReadable.membersExact h.2.2⟩

end

mutual

/-- **Such values have no halves to be joined.** -/
theorem Readable.joined_eq : ∀ {j : Json}, Readable j → joined j = j
  | .null, _ => rfl
  | .bool _, _ => rfl
  | .int _, _ => rfl
  | .text _, _ => rfl
  | .broken t, h => by
      rw [joined, LooseText.joined_of_unjoined (t := .broken t) h]
      rfl
  | .array items, h => congrArg Json.array (AllReadable.joinedItems_eq h)
  | .object members, h => by
      rw [joined, MembersReadable.joinedMembers_eq h.2, Keyed.putAll_of_nodup h.1]
      rfl

theorem AllReadable.joinedItems_eq : ∀ {items : List Json}, AllReadable items → joinedItems items = items
  | [], _ => rfl
  | j :: items, h => by rw [joinedItems, h.1.joined_eq, AllReadable.joinedItems_eq h.2]

theorem MembersReadable.joinedMembers_eq : ∀ {members : List (LooseText × Json)}, MembersReadable members →
    joinedMembers members = members
  | [], _ => rfl
  | (name, j) :: members, h => by
      rw [joinedMembers, LooseText.joined_of_unjoined h.1, h.2.1.joined_eq, MembersReadable.joinedMembers_eq h.2.2]

end

/-- An object of such values is read as it was written. -/
theorem foundMembers_eq {members : List (LooseText × Json)} (h : Readable (.object members)) :
    foundMembers members = members :=
  object.inj h.joined_eq

/-! ### Words -/

/-- The text does not go on with a character of words. -/
def Stops (ps : List CodePoint) : Prop :=
  ∀ c, ps.head? = some (.char c) → isWordChar c = false

theorem wordOf_append {cs : List Char} {rest : List CodePoint} (hcs : ∀ c ∈ cs, isWordChar c = true)
    (hrest : Stops rest) : wordOf (cs.map .char ++ rest) = cs := by
  induction cs with
  | nil =>
      cases rest with
      | nil => rfl
      | cons p rest =>
          cases p with
          | half k => rfl
          | char c => simp [wordOf, hrest c rfl]
  | cons c cs ih =>
      have hc := hcs c List.mem_cons_self
      have htail := ih fun d hd => hcs d (List.mem_cons_of_mem c hd)
      simp [wordOf, hc, htail]

/-- A word that is a value is read up to its end. -/
theorem scalarFrom_append {cs : List Char} {j : Json} {rest : List CodePoint} (hcs : ∀ c ∈ cs, isWordChar c = true)
    (hrest : Stops rest) (hj : scalar cs = .ok (j, [])) : scalarFrom (cs.map .char ++ rest) = .ok (j, rest) := by
  simp only [scalarFrom, wordOf_append hcs hrest, hj]
  simp

theorem isDigit_eq (c : Char) : Decimal.isDigit c = c.isDigit := by
  rw [Bool.eq_iff_iff]
  simp [Decimal.isDigit, Char.isDigit, UInt32.le_iff_toNat_le]

theorem isWordChar_of_isDigit {c : Char} (h : c.isDigit = true) : isWordChar c = true := by
  simp [isWordChar, Char.isAlphanum, h]

/-- A number but zero does not begin with the digit zero. -/
theorem head?_toDigits {n : Nat} (hn : 0 < n) : (Nat.toDigits 10 n).head? ≠ some '0' := by
  induction n using Nat.base_induction 10 (by decide) with
  | single m hm =>
      have hdigit : ∀ m < 10, 0 < m → Nat.digitChar m ≠ '0' := by decide
      simpa [Nat.toDigits_of_lt_base hm] using hdigit m hm hn
  | digit m k hk hm ih =>
      rw [← Nat.toDigits_append_toDigits (by decide) hm hk]
      obtain ⟨c, r, hc⟩ := List.exists_cons_of_ne_nil (@Nat.toDigits_ne_nil m 10)
      simpa [hc] using ih hm

/-- Digits are read back as the number. -/
theorem natOfDigits_toDigits (n : Nat) : Decimal.natOfDigits (Nat.toDigits 10 n) = n := by
  have h := @Nat.ofDigitChars_ten_toDigits n
  simp only [Nat.ofDigitChars_eq_foldl] at h
  simp only [Decimal.natOfDigits, Nat.mul_comm _ 10]
  exact h

theorem length_toDigits_le {n limit : Nat} (hlimit : 0 < limit) (h : n < Nat.pow 10 limit) :
    (Nat.toDigits 10 n).length ≤ limit :=
  (Nat.length_toDigits_le_iff (by decide) hlimit).2 h

/-- **A number within the limit is read back.** -/
theorem numberFrom_toDigits {n : Nat} (negative : Bool) (h : n < Nat.pow 10 Integer.digitLimit) :
    numberFrom negative (Nat.toDigits 10 n) = .ok (.int (if negative then -n else n), []) := by
  rcases Nat.eq_zero_or_pos n with rfl | hn
  · cases negative <;> rfl
  · have hlength : (Nat.toDigits 10 n).length ≤ Integer.digitLimit := length_toDigits_le (by decide) h
    have hvalue := natOfDigits_toDigits n
    have hdigits : (Nat.toDigits 10 n).takeWhile Decimal.isDigit = Nat.toDigits 10 n :=
      List.takeWhile_eq_self_iff.2 fun c hc => by
        rw [isDigit_eq]
        exact Nat.isDigit_of_mem_toDigits (by decide) (by decide) hc
    have hhead := head?_toDigits hn
    obtain ⟨c, r, hc⟩ := List.exists_cons_of_ne_nil (@Nat.toDigits_ne_nil n 10)
    rw [hc] at hlength hvalue hdigits hhead ⊢
    have hzero : c ≠ '0' := by simpa using hhead
    simpa [numberFrom, hzero, hdigits, exponentIn, hvalue] using hlength

/-- Digits begin with none of the letters and signs with which other words begin. -/
theorem exists_cons_toDigits (n : Nat) :
    ∃ c r, Nat.toDigits 10 n = c :: r ∧ c.isDigit = true ∧ ∀ d ∈ ['n', 't', 'f', 'N', 'I', '-'], c ≠ d := by
  obtain ⟨c, r, hc⟩ := List.exists_cons_of_ne_nil (@Nat.toDigits_ne_nil n 10)
  have hdigit : c.isDigit = true := Nat.isDigit_of_mem_toDigits (by decide) (by decide) (hc ▸ List.mem_cons_self)
  refine ⟨c, r, hc, hdigit, ?_⟩
  rintro d hd rfl
  have hall : ∀ d ∈ ['n', 't', 'f', 'N', 'I', '-'], d.isDigit = false := List.all_iff_forall_prop.1 (by decide)
  rw [hall c hd] at hdigit
  cases hdigit

/-- **A whole number within the limit is read back.** -/
theorem scalar_toText {i : Int} (h : Integer.isWritable i = true) : scalar (Integer.toText i) = .ok (.int i, []) := by
  have hlt : i.natAbs < Nat.pow 10 Integer.digitLimit := of_decide_eq_true h
  cases i with
  | ofNat n =>
      have hread := numberFrom_toDigits false hlt
      obtain ⟨c, r, hc, -, hletter⟩ := exists_cons_toDigits n
      rw [show (Int.ofNat n).natAbs = n from rfl, hc] at hread
      rw [Integer.toText, hc, scalar]
      · simpa using hread
      all_goals simp_all
  | negSucc n =>
      have hread := numberFrom_toDigits true hlt
      obtain ⟨c, r, hc, -, hletter⟩ := exists_cons_toDigits (n + 1)
      rw [Int.natAbs_negSucc, hc] at hread
      rw [Integer.toText, hc, scalar]
      · simpa [Int.negSucc_eq] using hread
      all_goals simp_all

theorem isWordChar_of_mem_toText {i : Int} {c : Char} (h : c ∈ Integer.toText i) : isWordChar c = true := by
  have hdigits : ∀ {n}, c ∈ Nat.toDigits 10 n → isWordChar c = true := fun hc =>
    isWordChar_of_isDigit (Nat.isDigit_of_mem_toDigits (by decide) (by decide) hc)
  cases i with
  | ofNat n => exact hdigits h
  | negSucc n =>
      rcases List.mem_cons.1 h with rfl | h
      · decide
      · exact hdigits h

/-! ### Marks and blanks -/

theorem stops_cons {c : Char} (h : isWordChar c = false) (ps : List CodePoint) : Stops (.char c :: ps) := by
  intro d hd
  obtain rfl : c = d := by simpa using hd
  exact h

theorem skipGap_cons {p : CodePoint} (h : isGap p = false) (ps : List CodePoint) : skipGap (p :: ps) = p :: ps :=
  Text.dropWhile_eq_self (by simp [h])

/-- A text in quotes as code points. -/
theorem map_quotePoints (ps : List CodePoint) :
    (quotePoints ps).map CodePoint.char = .char '"' :: (ps.flatMap pointsOf ++ [.char '"']) := by
  simp only [quotePoints, List.cons_append, List.map_cons, List.map_append, List.map_nil, List.map_flatMap]
  rfl

/-- A value begins with neither a blank nor a closing bracket. -/
theorem render_begins {j : Json} (h : IsExact j) :
    ∃ c r, render j = c :: r ∧ isGap (.char c) = false ∧ c ≠ ']' ∧ c ≠ '}' := by
  have hword : ∀ {cs : List Char}, cs ≠ [] → (∀ c ∈ cs, isWordChar c = true) →
      ∃ c r, cs = c :: r ∧ isGap (.char c) = false ∧ c ≠ ']' ∧ c ≠ '}' := by
    intro cs hne hcs
    obtain ⟨c, r, rfl⟩ := List.exists_cons_of_ne_nil hne
    have hc := hcs c List.mem_cons_self
    refine ⟨c, r, rfl, ?_, ?_, ?_⟩
    · cases hgap : isGap (.char c) with
      | false => rfl
      | true =>
          simp only [isGap, Bool.or_eq_true, beq_iff_eq] at hgap
          rcases hgap with ((rfl | rfl) | rfl) | rfl <;> revert hc <;> decide
    · rintro rfl
      revert hc
      decide
    · rintro rfl
      revert hc
      decide
  cases j with
  | null => exact ⟨'n', _, rfl, by decide, by decide, by decide⟩
  | bool b => cases b <;> exact ⟨_, _, rfl, by decide, by decide, by decide⟩
  | int i => exact hword (Integer.toText_ne_nil i) fun c hc => isWordChar_of_mem_toText hc
  | float x => exact absurd h id
  | text s => exact ⟨'"', _, rfl, by decide, by decide, by decide⟩
  | broken t => exact ⟨'"', _, rfl, by decide, by decide, by decide⟩
  | array items => exact ⟨'[', _, rfl, by decide, by decide, by decide⟩
  | object members => exact ⟨'{', _, rfl, by decide, by decide, by decide⟩

/-! ### Values -/

section Values

variable {fuel : Nat} {rest : List CodePoint}

theorem valueFrom_word (cs : List Char) {j : Json} (hne : cs ≠ []) (hcs : ∀ c ∈ cs, isWordChar c = true)
    (hj : scalar cs = .ok (j, [])) (hrest : Stops rest) (hfuel : cs.length ≤ fuel) :
    valueFrom fuel (cs.map .char ++ rest) = .ok (j, rest) := by
  have hread := scalarFrom_append hcs hrest hj
  obtain ⟨c, r, rfl⟩ := List.exists_cons_of_ne_nil hne
  have hc := hcs c List.mem_cons_self
  have hmark : ∀ d ∈ ['"', '{', '['], c ≠ d := by
    rintro d hd rfl
    have hall : ∀ d ∈ ['"', '{', '['], isWordChar d = false := List.all_iff_forall_prop.1 (by decide)
    rw [hall c hd] at hc
    cases hc
  cases fuel with
  | zero => simp at hfuel
  | succ fuel =>
      rw [List.map_cons, List.cons_append] at hread ⊢
      rw [valueFrom]
      · exact hread
      all_goals simp_all

theorem valueFrom_text (t : LooseText) (hfuel : 0 < fuel) :
    valueFrom fuel ((quotePoints t.points).map .char ++ rest) = .ok (.ofText t.joined, rest) := by
  cases fuel with
  | zero => cases hfuel
  | succ fuel =>
      rw [map_quotePoints, List.cons_append, List.append_assoc, valueFrom, List.singleton_append, textFrom_quoted]
      rfl

/-- Blanks are not skipped in front of a value. -/
theorem skipGap_render {j : Json} (h : IsExact j) (ps : List CodePoint) :
    skipGap ((render j).map .char ++ ps) = (render j).map .char ++ ps := by
  obtain ⟨c, r, hc, hgap, -⟩ := render_begins h
  rw [hc]
  exact skipGap_cons hgap _

/-- The items of an array begin with a value. -/
theorem skipGap_renderItems {j : Json} (h : IsExact j) (items : List Json) (ps : List CodePoint) :
    skipGap ((renderItems (j :: items)).map .char ++ ps) = (renderItems (j :: items)).map .char ++ ps ∧
      ∀ r, (renderItems (j :: items)).map .char ++ ps ≠ .char ']' :: r := by
  have hbegins : ∃ tail, renderItems (j :: items) = render j ++ tail := by
    cases items with
    | nil => exact ⟨[], (List.append_nil _).symm⟩
    | cons k items => exact ⟨_, rfl⟩
  obtain ⟨tail, htail⟩ := hbegins
  obtain ⟨c, r, hc, hgap, hclose, -⟩ := render_begins h
  rw [htail, hc]
  refine ⟨skipGap_cons hgap _, fun r heq => hclose ?_⟩
  cases heq
  rfl

/-- The members of an object begin with a quote. -/
theorem skipGap_renderMembers (m : LooseText × Json) (members : List (LooseText × Json)) (ps : List CodePoint) :
    skipGap ((renderMembers (m :: members)).map .char ++ ps) = (renderMembers (m :: members)).map .char ++ ps ∧
      ∀ r, (renderMembers (m :: members)).map .char ++ ps ≠ .char '}' :: r := by
  have hbegins : ∃ tail, renderMembers (m :: members) = '"' :: tail := by
    cases members with
    | nil => exact ⟨_, rfl⟩
    | cons m' members => exact ⟨_, rfl⟩
  obtain ⟨tail, htail⟩ := hbegins
  rw [htail]
  refine ⟨skipGap_cons (by decide) _, fun r heq => ?_⟩
  cases heq

theorem valueFrom_array {ps : List CodePoint} (hps : skipGap ps = ps) (hopen : ∀ r, ps ≠ .char ']' :: r) :
    valueFrom (fuel + 1) (.char '[' :: ps) = itemsFrom fuel [] ps := by
  rw [valueFrom, hps]
  split
  · next r => exact absurd rfl (hopen r)
  · rfl

theorem valueFrom_object {ps : List CodePoint} (hps : skipGap ps = ps) (hopen : ∀ r, ps ≠ .char '}' :: r) :
    valueFrom (fuel + 1) (.char '{' :: ps) = membersFrom fuel [] ps := by
  rw [valueFrom, hps]
  split
  · next r => exact absurd rfl (hopen r)
  · rfl

theorem itemsFrom_last {j k : Json} (done : List Json)
    (hj : valueFrom fuel ((render j).map .char ++ .char ']' :: rest) = .ok (k, .char ']' :: rest)) :
    itemsFrom (fuel + 1) done ((render j).map .char ++ .char ']' :: rest) =
      .ok (.array (done.reverse ++ [k]), rest) := by
  rw [itemsFrom, hj]
  simp [skipGap_cons (show isGap (.char ']') = false by decide)]

theorem itemsFrom_more {j k : Json} (done : List Json) {ps : List CodePoint} (hps : skipGap ps = ps)
    (hj : valueFrom fuel ((render j).map .char ++ .char ',' :: .char ' ' :: ps) =
      .ok (k, .char ',' :: .char ' ' :: ps)) :
    itemsFrom (fuel + 1) done ((render j).map .char ++ .char ',' :: .char ' ' :: ps) =
      itemsFrom fuel (k :: done) ps := by
  have hblank : skipGap (.char ' ' :: ps) = ps := hps
  rw [itemsFrom, hj]
  simp [skipGap_cons (show isGap (.char ',') = false by decide), hblank]

/-- The text of a member in front of a rest. -/
def memberPoints (name : LooseText) (j : Json) (ps : List CodePoint) : List CodePoint :=
  (quotePoints name.points).map .char ++ .char ':' :: .char ' ' :: ((render j).map .char ++ ps)

theorem membersFrom_last {j k : Json} (name : LooseText) (done : List (LooseText × Json)) (hexact : IsExact j)
    (hj : valueFrom fuel ((render j).map .char ++ .char '}' :: rest) = .ok (k, .char '}' :: rest)) :
    membersFrom (fuel + 1) done (memberPoints name j (.char '}' :: rest)) =
      .ok (.object (Keyed.put done name.joined k), rest) := by
  have hblank : skipGap (.char ' ' :: ((render j).map .char ++ .char '}' :: rest)) =
      (render j).map .char ++ .char '}' :: rest := skipGap_render hexact _
  rw [memberPoints, map_quotePoints, List.cons_append, List.append_assoc, membersFrom, List.singleton_append,
    textFrom_quoted]
  simp [skipGap_cons (show isGap (.char ':') = false by decide), hblank, hj, LooseText.joined,
    skipGap_cons (show isGap (.char '}') = false by decide)]

theorem membersFrom_more {j k : Json} (name : LooseText) (done : List (LooseText × Json)) {ps : List CodePoint}
    (hps : skipGap ps = ps) (hexact : IsExact j)
    (hj : valueFrom fuel ((render j).map .char ++ .char ',' :: .char ' ' :: ps) =
      .ok (k, .char ',' :: .char ' ' :: ps)) :
    membersFrom (fuel + 1) done (memberPoints name j (.char ',' :: .char ' ' :: ps)) =
      membersFrom fuel (Keyed.put done name.joined k) ps := by
  have hblank : skipGap (.char ' ' :: ((render j).map .char ++ .char ',' :: .char ' ' :: ps)) =
      (render j).map .char ++ .char ',' :: .char ' ' :: ps := skipGap_render hexact _
  have hblank' : skipGap (.char ' ' :: ps) = ps := hps
  rw [memberPoints, map_quotePoints, List.cons_append, List.append_assoc, membersFrom, List.singleton_append,
    textFrom_quoted]
  simp [skipGap_cons (show isGap (.char ':') = false by decide), hblank, hj, LooseText.joined,
    skipGap_cons (show isGap (.char ',') = false by decide), hblank']

end Values

mutual

/-- **A value is read back**, whatever follows it. -/
theorem valueFrom_render : ∀ {j : Json} {fuel : Nat} (rest : List CodePoint), IsExact j → Stops rest →
    (render j).length ≤ fuel → valueFrom fuel ((render j).map .char ++ rest) = .ok (joined j, rest)
  | .null, _, _, _, hrest, hfuel =>
      valueFrom_word "null".toList (by decide) (List.all_eq_true.1 (by decide)) rfl hrest hfuel
  | .bool true, _, _, _, hrest, hfuel =>
      valueFrom_word "true".toList (by decide) (List.all_eq_true.1 (by decide)) rfl hrest hfuel
  | .bool false, _, _, _, hrest, hfuel =>
      valueFrom_word "false".toList (by decide) (List.all_eq_true.1 (by decide)) rfl hrest hfuel
  | .int i, _, _, h, hrest, hfuel =>
      valueFrom_word (Integer.toText i) (Integer.toText_ne_nil i) (fun _ => isWordChar_of_mem_toText) (scalar_toText h) hrest
        hfuel
  | .text s, _, _, _, _, hfuel => by
      have hrender : render (.text s) = quotePoints (LooseText.points (.whole s)) :=
        (quotePoints_map_char s.toList).symm
      rw [hrender] at hfuel ⊢
      rw [valueFrom_text (.whole s) (Nat.lt_of_lt_of_le (by simp [quotePoints]) hfuel), LooseText.joined_whole]
      rfl
  | .broken t, _, _, _, _, hfuel =>
      valueFrom_text (.broken t) (Nat.lt_of_lt_of_le (by simp [render, renderScalar, quotePoints]) hfuel)
  | .array [], fuel + 1, rest, _, _, _ => by
      show valueFrom (fuel + 1) (.char '[' :: .char ']' :: rest) = _
      rw [valueFrom, skipGap_cons (by decide)]
      rfl
  | .array (j :: items), fuel + 1, rest, h, _, hfuel => by
      have hshort : (renderItems (j :: items)).length < fuel := by
        simp only [render, List.length_append, List.length_cons, List.length_nil] at hfuel
        omega
      have hread := itemsFrom_render [] rest (List.cons_ne_nil j items) h hshort
      obtain ⟨hgap, hopen⟩ := skipGap_renderItems h.1 items (.char ']' :: rest)
      simp only [render, List.cons_append, List.map_cons, List.map_append, List.map_nil, List.append_assoc,
        List.nil_append]
      rw [valueFrom_array hgap hopen, hread]
      rfl
  | .object [], fuel + 1, rest, _, _, _ => by
      show valueFrom (fuel + 1) (.char '{' :: .char '}' :: rest) = _
      rw [valueFrom, skipGap_cons (by decide)]
      rfl
  | .object (m :: members), fuel + 1, rest, h, _, hfuel => by
      have hshort : (renderMembers (m :: members)).length < fuel := by
        simp only [render, List.length_append, List.length_cons, List.length_nil] at hfuel
        omega
      have hread := membersFrom_render [] rest (List.cons_ne_nil m members) h hshort
      obtain ⟨hgap, hopen⟩ := skipGap_renderMembers m members (.char '}' :: rest)
      simp only [render, List.cons_append, List.map_cons, List.map_append, List.map_nil, List.append_assoc,
        List.nil_append]
      rw [valueFrom_object hgap hopen, hread]
      rfl
  | .array _, 0, _, _, _, hfuel => absurd hfuel (by simp [render])
  | .object _, 0, _, _, _, hfuel => absurd hfuel (by simp [render])

/-- The items of an array are read back, behind those in front. -/
theorem itemsFrom_render : ∀ {items : List Json} (done : List Json) {fuel : Nat} (rest : List CodePoint),
    items ≠ [] → AllExact items → (renderItems items).length < fuel →
    itemsFrom fuel done ((renderItems items).map .char ++ .char ']' :: rest) =
      .ok (.array (done.reverse ++ joinedItems items), rest)
  | [], _, _, _, hne, _, _ => absurd rfl hne
  | _ :: _, _, 0, _, _, _, hfuel => absurd hfuel (Nat.not_lt_zero _)
  | [_], done, _ + 1, _, _, h, hfuel =>
      itemsFrom_last done (valueFrom_render _ h.1 (stops_cons (by decide) _) (Nat.lt_succ_iff.1 hfuel))
  | j :: k :: items, done, fuel + 1, rest, _, h, hfuel => by
      simp only [renderItems, List.length_append, List.length_cons] at hfuel
      have hread := itemsFrom_render (joined j :: done) rest (List.cons_ne_nil k items) h.2 (show _ < fuel by omega)
      obtain ⟨hgap, -⟩ := skipGap_renderItems h.2.1 items (.char ']' :: rest)
      have hj := valueFrom_render
        (.char ',' :: .char ' ' :: ((renderItems (k :: items)).map .char ++ .char ']' :: rest)) h.1
        (stops_cons (by decide) _) (show _ ≤ fuel by omega)
      have hmore := itemsFrom_more done hgap hj
      simp only [renderItems, List.map_cons, List.map_append, List.append_assoc, List.cons_append]
      rw [hmore, hread]
      simp [joinedItems]

/-- The members of an object are read back, and put behind those in front. -/
theorem membersFrom_render : ∀ {members : List (LooseText × Json)} (done : List (LooseText × Json)) {fuel : Nat}
    (rest : List CodePoint), members ≠ [] → MembersExact members → (renderMembers members).length < fuel →
    membersFrom fuel done ((renderMembers members).map .char ++ .char '}' :: rest) =
      .ok (.object (Keyed.putAll done (joinedMembers members)), rest)
  | [], _, _, _, hne, _, _ => absurd rfl hne
  | _ :: _, _, 0, _, _, _, hfuel => absurd hfuel (Nat.not_lt_zero _)
  | [(name, j)], done, fuel + 1, rest, _, h, hfuel => by
      simp only [renderMembers, List.length_append, List.length_cons] at hfuel
      have hj := valueFrom_render (.char '}' :: rest) h.1 (stops_cons (by decide) _) (show _ ≤ fuel by omega)
      have hlast := membersFrom_last name done h.1 hj
      simpa [renderMembers, memberPoints, joinedMembers, Keyed.putAll] using hlast
  | (name, j) :: m :: members, done, fuel + 1, rest, _, h, hfuel => by
      simp only [renderMembers, List.length_append, List.length_cons] at hfuel
      have hread := membersFrom_render (Keyed.put done name.joined (joined j)) rest (List.cons_ne_nil m members) h.2
        (show _ < fuel by omega)
      obtain ⟨hgap, -⟩ := skipGap_renderMembers m members (.char '}' :: rest)
      have hj := valueFrom_render
        (.char ',' :: .char ' ' :: ((renderMembers (m :: members)).map .char ++ .char '}' :: rest))
        h.1 (stops_cons (by decide) _) (show _ ≤ fuel by omega)
      have hmore := membersFrom_more name done hgap h.1 hj
      rw [hread] at hmore
      rw [joinedMembers, Keyed.putAll_cons]
      simpa [renderMembers, memberPoints] using hmore

end

/-! ### Whole texts -/

/-- **A rendered text is read as the value**, with its halves joined. -/
theorem parseChars_render {j : Json} (h : IsExact j) : parseChars (render j) = .ok (joined j) := by
  obtain ⟨c, r, hc, -⟩ := render_begins h
  have hplain : isPlain c = true := plain_render j c (hc ▸ List.mem_cons_self)
  -- plain characters are not the mark of an encoding
  have hmark : parseChars (render j) = parseWhole ((render j).map .char) := by
    rw [hc, parseChars]
    rintro r' ⟨⟩
    revert hplain
    decide
  have hread := @valueFrom_render j (2 * ((render j).map CodePoint.char).length + 2) [] h (fun c hc => by cases hc)
    (by rw [List.length_map]; omega)
  have hgap := skipGap_render h []
  rw [List.append_nil] at hread hgap
  rw [hmark, parseWhole, hgap, hread]
  rfl

end Json

end SophiaBind
