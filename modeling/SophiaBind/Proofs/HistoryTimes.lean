/-
**The order of times.**

Times that are numbers are ordered by what they are worth, whole numbers, truth values and numbers with a point alike,
and times that are texts by their code points. Rows with such times are sorted. A number and a text, or two objects, or
nothing and anything, cannot be compared: where rows with such times come together, there is no sorting of any of them.

Main definitions:

* `History.value` — what a number is worth,
* `History.Kind`, `History.Alike` — the kinds of times that can be compared, and rows with times of one kind.

Main results:

* `History.numberBelow_iff`, `LooseText.below_iff` — **numbers and texts have an order**,
* `History.sortByTime_ordered` — **rows with times that are numbers, or texts, are sorted**,
* `History.sortByTime_alike` — **rows that are sorted have times of one kind**, and sorting keeps all of them,
* `History.sortByTime_fails` — otherwise two times cannot be compared.
-/

import Mathlib.Data.EReal.Basic
import Mathlib.Data.List.Lex
import SophiaBind.Proofs.HistoryReading
import SophiaBind.Proofs.Sorted

namespace SophiaBind

/-! ### Numbers -/

namespace Binary64

theorem magnitude_pos (m : Nat) (e : Int) : 0 < (magnitude m e).2 := by
  cases e with
  | ofNat k => exact Nat.one_pos
  | negSucc k => exact Nat.pow_pos (by decide)

theorem fraction_pos (negative : Bool) (m : Nat) (e : Int) : 0 < (fraction negative m e).2 :=
  magnitude_pos m e

end Binary64

namespace History

open Binary64

/-- What a finite number is worth. -/
noncomputable def worth (negative : Bool) (m : Nat) (e : Int) : ℝ :=
  (fraction negative m e).1 / (fraction negative m e).2

/-- What a number is worth; what is not a number is worth nothing. -/
noncomputable def value : Int ⊕ Binary64 → EReal
  | .inl i => ((i : ℝ) : EReal)
  | .inr .nan => 0
  | .inr (.infinite negative) => if negative then ⊥ else ⊤
  | .inr (.finite negative m e) => (worth negative m e : EReal)

theorem worth_lt_iff (s t : Bool) (m n : Nat) (e f : Int) :
    worth s m e < worth t n f ↔
      (fraction s m e).1 * (fraction t n f).2 < (fraction t n f).1 * (fraction s m e).2 := by
  have hs : (0 : ℝ) < (fraction s m e).2 := Nat.cast_pos.2 (fraction_pos s m e)
  have ht : (0 : ℝ) < (fraction t n f).2 := Nat.cast_pos.2 (fraction_pos t n f)
  rw [worth, worth, div_lt_div_iff₀ hs ht]
  exact_mod_cast Iff.rfl

theorem int_lt_worth_iff (i : Int) (t : Bool) (n : Nat) (f : Int) :
    (i : ℝ) < worth t n f ↔ i * (fraction t n f).2 < (fraction t n f).1 := by
  have ht : (0 : ℝ) < (fraction t n f).2 := Nat.cast_pos.2 (fraction_pos t n f)
  rw [worth, lt_div_iff₀ ht]
  exact_mod_cast Iff.rfl

theorem worth_lt_int_iff (s : Bool) (m : Nat) (e : Int) (j : Int) :
    worth s m e < (j : ℝ) ↔ (fraction s m e).1 < j * (fraction s m e).2 := by
  have hs : (0 : ℝ) < (fraction s m e).2 := Nat.cast_pos.2 (fraction_pos s m e)
  rw [worth, div_lt_iff₀ hs]
  exact_mod_cast Iff.rfl

/-- **Numbers are ordered by what they are worth.** -/
theorem numberBelow_iff {a b : Int ⊕ Binary64} (ha : a ≠ .inr .nan) (hb : b ≠ .inr .nan) :
    numberBelow a b = true ↔ value a < value b := by
  match a, b with
  | .inr .nan, _ => exact absurd rfl ha
  | _, .inr .nan => exact absurd rfl hb
  | .inl i, .inl j => simp [numberBelow, value]
  | .inl i, .inr (.infinite s) => cases s <;> simp [numberBelow, numberBelow.below, value]
  | .inl i, .inr (.finite s m e) => simp [numberBelow, numberBelow.below, value, int_lt_worth_iff]
  | .inr (.infinite s), .inl j => cases s <;> simp [numberBelow, numberBelow.above, value]
  | .inr (.finite s m e), .inl j => simp [numberBelow, numberBelow.above, value, worth_lt_int_iff]
  | .inr (.infinite s), .inr (.infinite t) => cases s <;> cases t <;> simp [numberBelow, lt, value]
  | .inr (.infinite s), .inr (.finite t n f) => cases s <;> simp [numberBelow, lt, value]
  | .inr (.finite s m e), .inr (.infinite t) => cases t <;> simp [numberBelow, lt, value]
  | .inr (.finite s m e), .inr (.finite t n f) => simp [numberBelow, lt, value, worth_lt_iff]

end History

/-! ### Texts -/

theorem LooseText.pointsBelow_iff (ps qs : List CodePoint) :
    pointsBelow ps qs = true ↔ ps.map CodePoint.toNat < qs.map CodePoint.toNat := by
  induction ps generalizing qs with
  | nil => cases qs <;> simp [pointsBelow]
  | cons p ps ih =>
      cases qs with
      | nil => simp [pointsBelow]
      | cons q qs => simp [pointsBelow, List.cons_lt_cons_iff, ih]

/-- **Texts are ordered by their code points.** -/
theorem LooseText.below_iff (s t : LooseText) :
    s.below t = true ↔ s.points.map CodePoint.toNat < t.points.map CodePoint.toNat :=
  pointsBelow_iff s.points t.points

namespace History

/-! ### Times that are ordered -/

/-- What a time is worth if it is a number. -/
noncomputable def timeValue (t : Json) : EReal :=
  match (Value.ofJson t).asNumber? with
  | some a => value a
  | none => 0

/-- The code points of a time if it is a text. -/
def timePoints (t : Json) : List Nat :=
  match t.text? with
  | some s => s.points.map CodePoint.toNat
  | none => []

theorem asNumber?_of_isNumber {t : Json} (h : isNumber t = true) :
    ∃ a, (Value.ofJson t).asNumber? = some a ∧ a ≠ .inr .nan ∧ t.text? = none := by
  cases t with
  | bool b => exact ⟨_, rfl, nofun, rfl⟩
  | int i => exact ⟨_, rfl, nofun, rfl⟩
  | float x =>
      refine ⟨_, rfl, fun hx => ?_, rfl⟩
      cases hx
      cases h
  | _ => cases h

theorem below_of_numbers {t u : Json} (ht : isNumber t = true) (hu : isNumber u = true) :
    ∃ c, below t u = .ok c ∧ (c = true ↔ timeValue t < timeValue u) := by
  obtain ⟨a, ha, hanan, hatext⟩ := asNumber?_of_isNumber ht
  obtain ⟨b, hb, hbnan, -⟩ := asNumber?_of_isNumber hu
  have hbelow : below t u = .ok (numberBelow a b) := by
    cases t with
    | array items => cases ht
    | _ => rw [below, hatext]; simp only [ha, hb]; nofun
  refine ⟨numberBelow a b, hbelow, ?_⟩
  rw [timeValue, timeValue, ha, hb]
  exact numberBelow_iff hanan hbnan

theorem below_of_texts {t u : Json} (ht : isText t = true) (hu : isText u = true) :
    ∃ c, below t u = .ok c ∧ (c = true ↔ timePoints t < timePoints u) := by
  obtain ⟨s, hs⟩ := Option.isSome_iff_exists.1 ht
  obtain ⟨r, hr⟩ := Option.isSome_iff_exists.1 hu
  have hbelow : below t u = .ok (s.below r) := by
    cases t with
    | array items => cases ht
    | _ => rw [below, hs, hr]; nofun
  refine ⟨s.below r, hbelow, ?_⟩
  rw [timePoints, timePoints, hs, hr]
  exact LooseText.below_iff s r

section Ordered

variable {κ : Type*} [LinearOrder κ] {key : Row → κ} {rows : List Row}

/-- **Rows whose times have an order are sorted** by it, and rows of the same time keep an order that they had. -/
theorem pairwise_mergeSort_notAfter
    (h : ∀ a ∈ rows, ∀ b ∈ rows, ∃ c, below (time a) (time b) = .ok c ∧ (c = true ↔ key a < key b))
    {R : Row → Row → Prop} (hrows : rows.Pairwise R) :
    (rows.mergeSort notAfter).Pairwise fun a b => below (time b) (time a) = .ok false ∧
      (below (time a) (time b) = .ok false → R a b) := by
  have hsame : rows.mergeSort notAfter = rows.mergeSort fun a b => decide (key a ≤ key b) := by
    have hmap := @List.map_mergeSort _ _ notAfter (fun a b => decide (key a ≤ key b)) id rows fun a ha b hb => by
      obtain ⟨c, hc, hlt⟩ := h b hb a ha
      rw [notAfter, hc, Bool.eq_iff_iff, decide_eq_true_iff, id, id, ← not_lt, ← hlt]
      cases c <;> simp
    simpa only [List.map_id] using hmap
  have hmem : ∀ {a}, a ∈ rows.mergeSort (fun a b => decide (key a ≤ key b)) → a ∈ rows := fun ha =>
    (List.mergeSort_perm rows _).mem_iff.1 ha
  rw [hsame]
  refine (pairwise_mergeSort_stable (fun a b c hab hbc => ?_) (fun a b => ?_) hrows).imp_of_mem
    fun {a b} ha hb hab => ?_
  · exact decide_eq_true (le_trans (of_decide_eq_true hab) (of_decide_eq_true hbc))
  · simpa using le_total (key a) (key b)
  · obtain ⟨c, hc, hback⟩ := h b (hmem hb) a (hmem ha)
    obtain ⟨d, hd, hfront⟩ := h a (hmem ha) b (hmem hb)
    rw [hc, hd]
    refine ⟨congrArg Except.ok (Bool.eq_false_iff.2 fun hc => ?_), fun heq => hab.2 (decide_eq_true ?_)⟩
    · exact not_lt.2 (of_decide_eq_true hab.1) (hback.1 hc)
    · exact not_lt.1 fun hlt => Bool.eq_false_iff.1 (Except.ok.inj heq) (hfront.2 hlt)

end Ordered

/-- **Rows with times that are numbers, or texts, are sorted**: all of them, by their times, and those of the same time
keep an order that they had. -/
theorem sortByTime_ordered {rows : List Row}
    (h : (rows.map time).all isNumber = true ∨ (rows.map time).all isText = true) :
    ∃ order, sortByTime rows = .ok order ∧ order.Perm rows ∧ ∀ R : Row → Row → Prop, rows.Pairwise R →
      order.Pairwise fun a b =>
        below (time b) (time a) = .ok false ∧ (below (time a) (time b) = .ok false → R a b) := by
  refine ⟨rows.mergeSort notAfter, ?_, List.mergeSort_perm rows _, fun R hrows => ?_⟩
  · rw [sortByTime, if_pos (by simpa only [Bool.or_eq_true] using h)]
  · simp only [List.all_map, List.all_eq_true, Function.comp_apply] at h
    rcases h with h | h
    · exact pairwise_mergeSort_notAfter (fun a ha b hb => below_of_numbers (h a ha) (h b hb)) hrows
    · exact pairwise_mergeSort_notAfter (fun a ha b hb => below_of_texts (h a ha) (h b hb)) hrows

/-! ### Times that can be compared -/

/-- The kinds of times that can be compared among themselves. -/
inductive Kind where
  | number
  | text
  | array
  deriving DecidableEq, Repr

/-- The kind of a time, if it can be compared at all. -/
def kind? : Json → Option Kind
  | .bool _ | .int _ | .float _ => some .number
  | .text _ | .broken _ => some .text
  | .array _ => some .array
  | .null | .object _ => none

/-- Rows with times of one kind. -/
def Alike (a b : Row) : Prop :=
  ∃ k, kind? (time a) = some k ∧ kind? (time b) = some k

theorem kind?_of_below {t u : Json} {b : Bool} (h : below t u = .ok b) :
    ∃ k, kind? t = some k ∧ kind? u = some k := by
  cases t <;> cases u <;> first | exact ⟨_, rfl, rfl⟩ | cases h

theorem links_alike : Sorting.Links (fun a b => below (time a) (time b)) Alike where
  compared h := kind?_of_below h
  symm := fun ⟨k, ha, hb⟩ => ⟨k, hb, ha⟩
  trans := fun ⟨k, ha, hb⟩ ⟨_, hb', hc⟩ => ⟨k, ha, Option.some.inj (hb'.symm.trans hb) ▸ hc⟩

mutual

/-- Times fail to be compared only as two kinds do. -/
theorem below_error : ∀ {t u : Json} {e : Fault}, below t u = .error e → ∃ k l, e = .incomparable k l
  | t, u, e, h => by
      rw [below.eq_def] at h
      split at h
      · exact belowAll_error h
      · split at h
        · cases h
        · split at h
          · cases h
          · cases h
            exact ⟨_, _, rfl⟩

theorem belowAll_error : ∀ {xs ys : List Json} {e : Fault}, belowAll xs ys = .error e →
    ∃ k l, e = .incomparable k l
  | [], ys, e, h => by
      rw [belowAll] at h
      cases h
  | x :: xs, [], e, h => by
      rw [belowAll] at h
      cases h
  | x :: xs, y :: ys, e, h => by
      rw [belowAll] at h
      split at h
      · exact belowAll_error h
      · exact below_error h

end

/-- Sorting ends with all rows, whose times are of one kind, or in the fault of two times that cannot be compared. -/
theorem sortByTime_ends (rows : List Row) :
    (∃ order, sortByTime rows = .ok order ∧ order.Perm rows ∧ rows.Pairwise Alike) ∨
    ∃ k l, sortByTime rows = .error (.incomparable k l) := by
  have hends : Sorting.Ends (fun a b => below (time a) (time b)) (fun order => order.Perm rows ∧ rows.Pairwise Alike)
      (sortByTime rows) := by
    unfold sortByTime
    dsimp only
    split
    · next hall =>
        refine ⟨List.mergeSort_perm rows notAfter, List.pairwise_of_forall_mem_list fun a ha b hb => ?_⟩
        simp only [Bool.or_eq_true, List.all_map, List.all_eq_true, Function.comp_apply] at hall
        rcases hall with hall | hall
        · obtain ⟨c, hc, -⟩ := below_of_numbers (hall a ha) (hall b hb)
          exact kind?_of_below hc
        · obtain ⟨c, hc, -⟩ := below_of_texts (hall a ha) (hall b hb)
          exact kind?_of_below hc
    · exact Sorting.ends_sort links_alike rows
  cases hsort : sortByTime rows with
  | ok order =>
      rw [hsort] at hends
      exact .inl ⟨order, rfl, hends⟩
  | error e =>
      rw [hsort] at hends
      obtain ⟨a, b, he⟩ := hends
      obtain ⟨k, l, rfl⟩ := below_error he
      exact .inr ⟨k, l, rfl⟩

/-- **Rows that are sorted have times of one kind**, and sorting keeps all of them. -/
theorem sortByTime_alike {rows order : List Row} (h : sortByTime rows = .ok order) :
    order.Perm rows ∧ rows.Pairwise Alike := by
  rcases sortByTime_ends rows with ⟨order', hsort, hall⟩ | ⟨k, l, hsort⟩
  · cases h.symm.trans hsort
    exact hall
  · cases h.symm.trans hsort

/-- Rows with times of several kinds, or of none, are not sorted. -/
theorem sortByTime_fails {rows : List Row} (h : ¬rows.Pairwise Alike) :
    ∃ k l, sortByTime rows = .error (.incomparable k l) := by
  rcases sortByTime_ends rows with ⟨order, -, -, hall⟩ | hfails
  · exact absurd hall h
  · exact hfails

end History

end SophiaBind
