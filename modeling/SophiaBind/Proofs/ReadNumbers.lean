/-
**Numbers that are read can be written.**

A text may have a whole number of so many digits and no more, whether it is read or written. So the whole numbers of
a value that was read from a text can be written to another one; and so can what such a value counts as, be it a
number with a point, which is bounded, or a text of digits, which is limited itself.

Main definitions:

* `Binary64.Bounded` — a number that is not too large, if it is finite,
* `Json.Moderate` — a value whose numbers are not too large.

Main results:

* `Binary64.bounded_ofRatio` — **rounding gives bounded numbers**,
* `Json.moderate_ofEncoded` — **what is read from a text is moderate**,
* `Json.Moderate.isWritable`, `Json.Moderate.toInt` — **it can be written**, and so can what it counts as.
-/

import Mathlib.Algebra.Group.Nat.Defs
import SophiaBind.Proofs.AttemptSteps
import SophiaBind.Proofs.LoggedRows
import SophiaBind.Proofs.Results
import SophiaBind.Json.Encoding

namespace SophiaBind

/-! ### Numbers with a point -/

/-- A number of digits within the limit can be written. -/
theorem Integer.isWritable_of_digits {n count : Nat} (hn : n < 10 ^ count) (hcount : count ≤ digitLimit)
    (negative : Bool) : isWritable (if negative then -(n : Int) else n) = true := by
  refine isWritable_of_lt hcount ?_
  cases negative with
  | true => simpa using hn
  | false => simpa using hn

namespace Binary64

/-- The mantissa and the exponent of a finite number are not too large. -/
def Bounded : Binary64 → Prop
  | .finite _ m e => m ≤ 2 ^ 54 ∧ e ≤ 971
  | _ => True

theorem roundRatio_le (n d : Nat) : roundRatio n d ≤ n / d + 1 := by
  unfold roundRatio
  dsimp only
  split
  · omega
  · split
    · omega
    · split <;> omega

/-- In units of the last place, a ratio has at most 54 binary digits. -/
theorem inUnits_lt {n d : Nat} (hd : d ≠ 0) {e : Int} (he : (n.log2 : Int) - d.log2 - 53 ≤ e) :
    (inUnits n d e).1 < 2 ^ 54 * (inUnits n d e).2 := by
  have hn : n < 2 ^ (n.log2 + 1) := Nat.lt_log2_self
  have hlog : 2 ^ d.log2 ≤ d := Nat.log2_self_le hd
  cases e with
  | ofNat k =>
      have hk : (n.log2 : Int) - d.log2 - 53 ≤ (k : Int) := he
      calc n < 2 ^ (n.log2 + 1) := hn
        _ ≤ 2 ^ (54 + (d.log2 + k)) := Nat.pow_le_pow_right (by decide) (by omega)
        _ = 2 ^ 54 * (2 ^ d.log2 * 2 ^ k) := by rw [Nat.pow_add, Nat.pow_add]
        _ ≤ 2 ^ 54 * (d * 2 ^ k) := Nat.mul_le_mul_left _ (Nat.mul_le_mul_right _ hlog)
  | negSucc k =>
      calc n * 2 ^ (k + 1) < 2 ^ (n.log2 + 1) * 2 ^ (k + 1) := Nat.mul_lt_mul_of_pos_right hn (Nat.pow_pos (by decide))
        _ = 2 ^ (n.log2 + 1 + (k + 1)) := (Nat.pow_add ..).symm
        _ ≤ 2 ^ (54 + d.log2) := Nat.pow_le_pow_right (by decide) (by omega)
        _ = 2 ^ 54 * 2 ^ d.log2 := Nat.pow_add ..
        _ ≤ 2 ^ 54 * d := Nat.mul_le_mul_left _ hlog

/-- **Rounding gives bounded numbers.** -/
theorem bounded_ofRatio (negative : Bool) (n : Nat) {d : Nat} (hd : d ≠ 0) : (ofRatio negative n d).Bounded := by
  unfold ofRatio
  split
  · exact ⟨Nat.zero_le _, by decide⟩
  · have hplace : (n.log2 : Int) - d.log2 - 53 ≤ placeOf n d := by
      unfold placeOf
      dsimp only
      split <;> omega
    have hround : roundRatio (inUnits n d (placeOf n d)).1 (inUnits n d (placeOf n d)).2 ≤ 2 ^ 54 := by
      have hlt := Nat.div_lt_of_lt_mul (Nat.mul_comm .. ▸ inUnits_lt hd hplace)
      exact (roundRatio_le _ _).trans hlt
    dsimp only
    split
    · split
      · trivial
      · exact ⟨show 2 ^ 52 ≤ 2 ^ 54 by decide, by omega⟩
    · split
      · trivial
      · exact ⟨hround, by omega⟩

theorem bounded_ofDecimal (negative : Bool) (digits : Nat) (exponent : Int) :
    (ofDecimal negative digits exponent).Bounded := by
  unfold ofDecimal
  split
  · exact ⟨Nat.zero_le _, by decide⟩
  · split
    · trivial
    · split
      · exact bounded_ofRatio negative _ (by decide)
      · split
        · exact ⟨Nat.zero_le _, by decide⟩
        · exact bounded_ofRatio negative _ (Nat.pow_pos (by decide)).ne'

/-- The integer part of a bounded number can be written. -/
theorem Bounded.isWritable_truncate {x : Binary64} (hx : x.Bounded) {i : Int} (h : x.truncate? = some i) :
    Integer.isWritable i = true := by
  cases x with
  | finite negative m e =>
      obtain ⟨hm, he⟩ := hx
      have hwhole : ∃ k ≤ 971, (magnitude m e).1 / (magnitude m e).2 ≤ 2 ^ (54 + k) := by
        cases e with
        | ofNat k =>
            have hk : (k : Int) ≤ 971 := he
            refine ⟨k, by omega, ?_⟩
            calc m * 2 ^ k / 1 = m * 2 ^ k := Nat.div_one _
              _ ≤ 2 ^ 54 * 2 ^ k := Nat.mul_le_mul_right _ hm
              _ = 2 ^ (54 + k) := (Nat.pow_add ..).symm
        | negSucc k => exact ⟨0, by decide, (Nat.div_le_self _ _).trans hm⟩
      obtain ⟨k, hk, hwhole⟩ := hwhole
      have hlimit : 2 ^ (54 + k) < 10 ^ Integer.digitLimit := by
        have hdigits : Integer.digitLimit = 4300 := rfl
        calc 2 ^ (54 + k) < 2 ^ Integer.digitLimit := Nat.pow_lt_pow_right (by decide) (by omega)
          _ ≤ 10 ^ Integer.digitLimit := Nat.pow_le_pow_left (by decide) _
      cases h
      exact Integer.isWritable_of_digits (hwhole.trans_lt hlimit) (Nat.le_refl _) negative
  | _ => cases h

end Binary64

/-! ### Digits -/

namespace Integer

theorem decimalDigit?_lt {c : Char} {d : Nat} (h : Text.decimalDigit? c = some d) : d < 10 := by
  unfold Text.decimalDigit? at h
  split at h
  · split at h
    · next hrange =>
        cases h
        simp only [Bool.and_eq_true, decide_eq_true_eq] at hrange
        omega
    · cases h
  · obtain ⟨z, hz, rfl⟩ := Option.map_eq_some_iff.1 h
    have hrange := List.find?_some hz
    simp only [Bool.and_eq_true, decide_eq_true_eq] at hrange
    omega

/-- Another digit behind a number. -/
theorem push_lt {n count d : Nat} (hn : n < 10 ^ count) (hd : d < 10) : n * 10 + d < 10 ^ (count + 1) := by
  rw [Nat.pow_succ]
  omega

/-- A number is below the power of its digits. -/
theorem digitsFrom?_lt {cs : List Char} {n count m total : Nat} {rest : List Char} (hn : n < 10 ^ count)
    (h : digitsFrom? n count cs = some (m, total, rest)) : m < 10 ^ total := by
  fun_induction digitsFrom? n count cs with
  | case1 => cases h; exact hn
  | case2 n count c r ih =>
      obtain ⟨d, hd, h⟩ := Option.bind_eq_some_iff.1 h
      exact ih d (push_lt hn (decimalDigit?_lt hd)) h
  | case3 => cases h
  | case4 n count c r _ _ d hd ih => exact ih (push_lt hn (decimalDigit?_lt hd)) h
  | case5 => cases h; exact hn

theorem digits_lt {cs : List Char} {n : Nat} (h : digits cs = .ok n) : n < 10 ^ digitLimit := by
  cases cs with
  | nil => cases h
  | cons c r =>
      rw [digits] at h
      split at h
      · cases h
      · next m count rest hfound =>
          obtain ⟨d, hd, hrest⟩ := Option.bind_eq_some_iff.1 hfound
          have hm : m < 10 ^ count := digitsFrom?_lt (by simpa using decimalDigit?_lt hd) hrest
          split at h
          · cases h
          · next hcount =>
              split at h
              · cases h
                exact hm.trans_le (Nat.pow_le_pow_right (by decide) (Nat.not_lt.1 hcount))
              · cases h

/-- **A whole number that is read from a text can be written.** -/
theorem isWritable_of_read {cs : List Char} {i : Int} (h : read cs = .ok i) : isWritable i = true := by
  unfold read at h
  split at h
  · obtain ⟨_, hk, rfl⟩ := Except.map_eq_ok.1 h
    obtain ⟨n, hn, hkn⟩ := Except.bind_eq_ok.1 hk
    cases hkn
    exact isWritable_of_digits (digits_lt hn) (Nat.le_refl _) true
  all_goals
    obtain ⟨_, hk, rfl⟩ := Except.map_eq_ok.1 h
    obtain ⟨n, hn, hkn⟩ := Except.bind_eq_ok.1 hk
    cases hkn
    exact isWritable_of_digits (digits_lt hn) (Nat.le_refl _) false

end Integer

/-! ### Values -/

namespace Json

mutual

/-- A value whose whole numbers can be written, and whose numbers with a point are bounded. -/
def Moderate : Json → Prop
  | .int i => Integer.isWritable i = true
  | .float x => x.Bounded
  | .array items => AllModerate items
  | .object members => MembersModerate members
  | _ => True

/-- Values all of which are moderate. -/
def AllModerate : List Json → Prop
  | [] => True
  | j :: rest => Moderate j ∧ AllModerate rest

/-- Members all of whose values are moderate. -/
def MembersModerate : List (LooseText × Json) → Prop
  | [] => True
  | (_, j) :: rest => Moderate j ∧ MembersModerate rest

end

theorem allModerate_iff {items : List Json} : AllModerate items ↔ ∀ j ∈ items, Moderate j := by
  induction items with
  | nil => simp [AllModerate]
  | cons j rest ih => simp [AllModerate, ih]

theorem membersModerate_iff {members : List (LooseText × Json)} :
    MembersModerate members ↔ ∀ m ∈ members, Moderate m.2 := by
  induction members with
  | nil => simp [MembersModerate]
  | cons m rest ih => simp [MembersModerate, ih]

mutual

/-- **A moderate value can be written.** -/
theorem Moderate.isWritable : ∀ {j : Json}, Moderate j → isWritable j = true
  | .null, _ => rfl
  | .bool _, _ => rfl
  | .int _, h => h
  | .float _, _ => rfl
  | .text _, _ => rfl
  | .broken _, _ => rfl
  | .array _, h => AllModerate.areWritable h
  | .object _, h => MembersModerate.areWritable h

theorem AllModerate.areWritable : ∀ {items : List Json}, AllModerate items → areWritable items = true
  | [], _ => rfl
  | _ :: _, h => by rw [Json.areWritable, h.1.isWritable, AllModerate.areWritable h.2]; rfl

theorem MembersModerate.areWritable :
    ∀ {members : List (LooseText × Json)}, MembersModerate members → areWritableMembers members = true
  | [], _ => rfl
  | (_, _) :: _, h => by rw [areWritableMembers, h.1.isWritable, MembersModerate.areWritable h.2]; rfl

end

/-- What a moderate value counts as can be written. -/
theorem Moderate.toInt {j : Json} (hj : Moderate j) {i : Int} (h : (Value.ofJson j).toInt = .ok i) :
    Integer.isWritable i = true := by
  have hread : ∀ {cs : List Char} {written : String}, Value.readInt cs written = .ok i →
      Integer.isWritable i = true := by
    intro cs written hi
    unfold Value.readInt at hi
    split at hi
    · next hcs => cases hi; exact Integer.isWritable_of_read hcs
    · cases hi
    · cases hi
  cases j with
  | bool b =>
      cases h
      cases b
      · exact Integer.isWritable_zero
      · exact Integer.isWritable_of_lt (k := 1) (by decide) (by decide)
  | int k =>
      cases h
      exact hj
  | float x =>
      have htruncate : Value.truncate x = .ok i := h
      unfold Value.truncate at htruncate
      split at htruncate
      · next hx => cases htruncate; exact Binary64.Bounded.isWritable_truncate hj hx
      · cases htruncate
  | text s => exact hread h
  | broken t => exact hread h
  | null => cases h
  | array items => cases h
  | object members => cases h

theorem Moderate.lookup? {members : List (LooseText × Json)} (h : Moderate (.object members)) {name : String}
    {v : Json} (hv : Json.lookup? members name = some v) : Moderate v := by
  obtain ⟨before, behind, rfl, -⟩ := List.lookup_eq_some_iff.1 hv
  exact membersModerate_iff.1 h (.whole name, v) (by simp)

/-! ### Reading -/

/-- The number that a run of digits writes is below the power of their count. -/
theorem natOfDigits_lt {cs : List Char} (h : ∀ c ∈ cs, Decimal.isDigit c = true) :
    Decimal.natOfDigits cs < 10 ^ cs.length := by
  induction cs using List.reverseRecOn with
  | nil => decide
  | append_singleton cs c ih =>
      have hc : Decimal.isDigit c = true := h c (by simp)
      have hlt := ih fun d hd => h d (by simp [hd])
      simp only [Decimal.isDigit, Bool.and_eq_true, decide_eq_true_eq] at hc
      rw [Decimal.natOfDigits, List.foldl_append, List.length_append]
      exact Integer.push_lt hlt (show c.toNat - 48 < 10 by omega)

theorem moderate_numberFrom {negative : Bool} {cs rest : List Char} {j : Json}
    (h : numberFrom negative cs = .ok (j, rest)) : Moderate j := by
  unfold numberFrom at h
  extract_lets whole r n at h
  have hwhole : ∀ c ∈ whole, Decimal.isDigit c = true := by
    intro c hc
    unfold whole at hc
    split at hc
    · rw [List.mem_singleton.1 hc]
      decide
    · exact List.mem_takeWhile_imp hc
  split at h
  · cases h
  · split at h
    split at h
    · cases h
      exact Binary64.bounded_ofDecimal _ _ _
    · split at h
      · split at h
        · cases h
        · next hcount =>
            cases h
            exact Integer.isWritable_of_digits (natOfDigits_lt hwhole) (Nat.not_lt.1 hcount) negative
      · cases h
        exact Binary64.bounded_ofDecimal _ _ _

theorem moderate_scalar {word rest : List Char} {j : Json} (h : scalar word = .ok (j, rest)) : Moderate j := by
  unfold scalar at h
  split at h
  all_goals first
    | exact moderate_numberFrom h
    | cases h; trivial

theorem moderate_scalarFrom {ps rest : List CodePoint} {j : Json} (h : scalarFrom ps = .ok (j, rest)) :
    Moderate j := by
  unfold scalarFrom at h
  dsimp only at h
  split at h
  · next hword => cases h; exact moderate_scalar hword
  · cases h

theorem moderate_text (s : String) : Moderate (.text s) :=
  trivial

theorem moderate_zero : Moderate (.int 0) :=
  Integer.isWritable_zero

theorem moderate_ofText (t : LooseText) : Moderate (.ofText t) := by
  cases t <;> trivial

/-- A member that is put among moderate ones. -/
theorem membersModerate_put {members : List (LooseText × Json)} (h : MembersModerate members) (name : LooseText)
    {j : Json} (hj : Moderate j) : MembersModerate (Keyed.put members name j) := by
  induction members with
  | nil => exact ⟨hj, trivial⟩
  | cons m rest ih =>
      obtain ⟨other, k⟩ := m
      rw [Keyed.put]
      split
      · exact ⟨hj, h.2⟩
      · exact ⟨h.1, ih h.2⟩

/-- With some fuel, all that is read is moderate: a value, an object behind moderate members, and an array behind
moderate items. -/
structure ReadsModerate (fuel : Nat) : Prop where
  value : ∀ {ps rest : List CodePoint} {j : Json}, valueFrom fuel ps = .ok (j, rest) → Moderate j
  members : ∀ {done : List (LooseText × Json)} {ps rest : List CodePoint} {j : Json}, MembersModerate done →
    membersFrom fuel done ps = .ok (j, rest) → Moderate j
  items : ∀ {done : List Json} {ps rest : List CodePoint} {j : Json}, AllModerate done →
    itemsFrom fuel done ps = .ok (j, rest) → Moderate j

section Fuel

variable {fuel : Nat} (ih : ReadsModerate fuel) {ps rest : List CodePoint} {j : Json}

include ih

theorem moderate_valueFrom (h : valueFrom (fuel + 1) ps = .ok (j, rest)) : Moderate j := by
  rw [valueFrom.eq_def] at h
  dsimp only at h
  split at h
  · split at h
    · cases h
      exact moderate_ofText _
    · cases h
  · split at h
    · cases h
      trivial
    · exact ih.members (show MembersModerate [] from trivial) h
  · split at h
    · cases h
      trivial
    · exact ih.items (show AllModerate [] from trivial) h
  · exact moderate_scalarFrom h

theorem moderate_membersFrom {done : List (LooseText × Json)} (hdone : MembersModerate done)
    (h : membersFrom (fuel + 1) done ps = .ok (j, rest)) : Moderate j := by
  rw [membersFrom.eq_def] at h
  dsimp only at h
  split at h
  · split at h
    · cases h
    · split at h
      · split at h
        · cases h
        · next v r hvalue =>
            have hput : ∀ name, MembersModerate (Keyed.put done name v) := fun name =>
              membersModerate_put hdone name (ih.value hvalue)
            split at h
            · cases h
              exact hput _
            · exact ih.members (hput _) h
            · cases h
      · cases h
  · cases h

theorem moderate_itemsFrom {done : List Json} (hdone : AllModerate done)
    (h : itemsFrom (fuel + 1) done ps = .ok (j, rest)) : Moderate j := by
  rw [itemsFrom.eq_def] at h
  dsimp only at h
  split at h
  · cases h
  · next v r hvalue =>
      have hcons : AllModerate (v :: done) := ⟨ih.value hvalue, hdone⟩
      split at h
      · cases h
        exact allModerate_iff.2 fun k hk => allModerate_iff.1 hcons k (List.mem_reverse.1 hk)
      · exact ih.items hcons h
      · cases h

end Fuel

/-- All that is read is moderate, wherever the reader stands. -/
theorem readsModerate (fuel : Nat) : ReadsModerate fuel := by
  induction fuel with
  | zero =>
      refine ⟨fun h => ?_, fun _ h => ?_, fun _ h => ?_⟩
      · rw [valueFrom] at h
        cases h
      · rw [membersFrom] at h
        cases h
      · rw [itemsFrom] at h
        cases h
  | succ fuel ih => exact ⟨moderate_valueFrom ih, moderate_membersFrom ih, moderate_itemsFrom ih⟩

theorem moderate_parseWhole {ps : List CodePoint} {j : Json} (h : parseWhole ps = .ok j) : Moderate j := by
  unfold parseWhole at h
  dsimp only at h
  split at h
  · cases h
  · next v r hvalue =>
      split at h
      · cases h
        exact (readsModerate _).value hvalue
      · cases h

/-- **What is read from a text is moderate**, whatever its bytes mean. -/
theorem moderate_ofEncoded {bs : Bytes} {j : Json} (h : ofEncoded bs = .ok j) : Moderate j := by
  obtain ⟨ps, -, hps⟩ := Except.bind_eq_ok.1 h
  cases hparse : parseWhole ps with
  | ok v =>
      rw [hparse] at hps
      cases hps
      exact moderate_parseWhole hparse
  | error e =>
      rw [hparse] at hps
      cases hps

end Json

end SophiaBind
