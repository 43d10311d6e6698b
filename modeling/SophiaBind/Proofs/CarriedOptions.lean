/-
**Options that values carry.**

What is passed beyond the parameters of a function never reaches the contract; the last two of these values may
carry options of the call. They are read one on top of the other, the last one first, and each of them at once
for all of the options. So it is not plain that the result is the same as if each option were looked for by
itself: in the last but one, then in the last, then in the base. The reason is that reading a value replaces what
it carries and nothing else, whatever it is read on top of.

A figure of zero is an amount to nobody, but a life time and a gas limit like any other; and a gas limit alone
does not make a value a carrier.

Main definitions:

* `Arguments.figure?` — the integer that a value has under a name,
* `Arguments.Carried`, `Arguments.carried` — what a value carries of each option,
* `Arguments.carriedAt` — what the values at the end carry, counted from the last,
* `Arguments.IsCarrier` — a value whose figures are integers.

Main results:

* `Arguments.optionsOf?_eq` — **reading a value replaces what it carries**,
* `Arguments.split_eq` — values of the end, one over the other,
* `Arguments.split_each` — **each option by itself**.
-/

import SophiaBind.Arguments

namespace SophiaBind

/-- A value that no integer is read from unless it is one: texts, bytes and floating point numbers are not plain. -/
def Value.isPlain : Value → Bool
  | .float _ | .text _ | .broken _ | .bytes _ => false
  | _ => true

namespace Arguments

/-! ### What a value carries -/

/-- The integer that a value has under a name, if it has one. -/
def figure? (v : Value) (name : String) : Option Int :=
  match field? v name with
  | some (.int i) => some i
  | _ => none

/-- What is carried of each option, if anything. -/
structure Carried where
  amount : Option (Given Int) := none
  ttl : Option Int := none
  gas : Option (Option Int) := none

/-- What is carried by figures: an amount if the amount, or failing that the value, is an integer and not zero; a
life time if that is an integer; and a gas limit if that is an integer and one of the others is carried. -/
def carriedByFigures (v : Value) : Carried :=
  let amount := ((figure? v "amount").filter (· ≠ 0)).or ((figure? v "value").filter (· ≠ 0))
  let ttl := figure? v "ttl"
  let gas := if amount.isSome || ttl.isSome then figure? v "gas" else none
  { amount := amount.map .value, ttl, gas := gas.map some }

/-- What a value carries: options carry all that they hold, any other value what its figures say. -/
def carried : Value → Carried
  | .options o => { amount := some o.amount, ttl := some o.ttl, gas := some o.gas }
  | v => carriedByFigures v

/-- What is carried, over a base for the rest. -/
def Carried.over (c : Carried) (base : CallOptions) : CallOptions where
  amount := c.amount.getD base.amount
  ttl := c.ttl.getD base.ttl
  gas := c.gas.getD base.gas

/-- What the value at a place carries, counted from the last; where there is no value there is nothing. -/
def carriedAt (extras : List Value) (place : Nat) : Carried :=
  (extras.reverse[place]?).elim {} carried

/-- A value that may be read for options: what it has under the names of figures is an integer, or is read as
none. -/
def IsCarrier (v : Value) : Prop :=
  ∀ name ∈ ["amount", "value", "ttl", "gas"], (field? v name).all Value.isPlain = true

instance (v : Value) : Decidable (IsCarrier v) :=
  inferInstanceAs (Decidable (∀ name ∈ ["amount", "value", "ttl", "gas"], (field? v name).all Value.isPlain = true))

/-! ### Reading one value -/

/-- A field that is plain is read as the integer that it is, or as none. -/
theorem integerField?_eq {v : Value} {name : String} (h : (field? v name).all Value.isPlain = true) :
    integerField? v name = .ok (figure? v name) := by
  unfold integerField? figure?
  cases hfield : field? v name with
  | none => rfl
  | some w =>
      rw [hfield] at h
      cases w with
      | float _ | text _ | broken _ | bytes _ => cases h
      | null | bool _ | int _ | tuple _ | list _ | map _ | record _ | options _ | keypair _ => rfl

/-- The amount of a carrier is under either of two names. -/
theorem amountOf_eq {v : Value} (h : IsCarrier v) :
    ∃ amount, amountOf v = .ok amount ∧
      amount.filter (· ≠ 0) = ((figure? v "amount").filter (· ≠ 0)).or ((figure? v "value").filter (· ≠ 0)) := by
  have hamount := integerField?_eq (h "amount" (by simp))
  have hvalue := integerField?_eq (h "value" (by simp))
  unfold amountOf
  rw [hamount, hvalue]
  cases figure? v "amount" with
  | none => exact ⟨_, rfl, rfl⟩
  | some a =>
      by_cases ha : a = 0
      · subst ha
        exact ⟨_, rfl, rfl⟩
      · have hkept : (some a).filter (· ≠ 0) = some a := Option.filter_some_pos (decide_eq_true ha)
        refine ⟨some a, ?_, by rw [hkept, Option.some_or]⟩
        -- only zero has a branch of its own
        dsimp only [bind, Except.bind]
        split
        · next heq => exact absurd (Option.some.inj heq) ha
        · next heq => cases heq
        · next heq => exact congrArg Except.ok heq.symm

/-- Options with some fields replaced are what is new over the old ones. -/
theorem change_eq_over (base : CallOptions) (amount ttl gas : Option Int) :
    base.change amount ttl gas =
      ({ amount := amount.map .value, ttl, gas := gas.map some } : Carried).over base := by
  cases gas <;> rfl

/-- **Reading a value replaces what it carries** and nothing else. -/
theorem optionsOf?_eq {v : Value} (h : IsCarrier v) (base : CallOptions) :
    ∃ read, optionsOf? v base = .ok read ∧ read.getD base = (carried v).over base := by
  obtain ⟨read, hamount, hfilter⟩ := amountOf_eq h
  have httl := integerField?_eq (h "ttl" (by simp))
  have hgas := integerField?_eq (h "gas" (by simp))
  unfold optionsOf?
  split
  · exact ⟨_, rfl, rfl⟩
  · next hother =>
      have hcarried : carried v = carriedByFigures v := by
        unfold carried
        split
        · exact absurd rfl (hother _)
        · rfl
      rw [hcarried, carriedByFigures, hamount, httl, hgas]
      dsimp only [bind, Except.bind]
      rw [hfilter]
      generalize ((figure? v "amount").filter (· ≠ 0)).or ((figure? v "value").filter (· ≠ 0)) = amount
      generalize figure? v "ttl" = ttl
      cases hnone : amount.isNone && ttl.isNone with
      | true =>
          -- a gas limit alone is carried by nobody
          rw [Bool.and_eq_true, Option.isNone_iff_eq_none, Option.isNone_iff_eq_none] at hnone
          obtain ⟨rfl, rfl⟩ := hnone
          exact ⟨none, rfl, rfl⟩
      | false =>
          have hsome : (amount.isSome || ttl.isSome) = true := by
            rw [← Bool.not_eq_false', Bool.not_or, Option.not_isSome, Option.not_isSome, hnone]
          rw [hsome]
          exact ⟨_, rfl, change_eq_over base amount ttl (figure? v "gas")⟩

/-! ### Reading the values at the end -/

/-- Values are read one on top of the other, the last one first. -/
theorem readCarriers_eq {extras : List Value} (h : ∀ v ∈ extras, IsCarrier v) (base : CallOptions) :
    readCarriers base extras = .ok (extras.foldl (fun options v => (carried v).over options) base) := by
  induction extras generalizing base with
  | nil => rfl
  | cons v extras ih =>
      obtain ⟨read, hread, hover⟩ := optionsOf?_eq (h v (by simp)) base
      have hrest := ih (fun w hw => h w (by simp [hw])) ((carried v).over base)
      rw [readCarriers, hread, List.foldl_cons, ← hrest, ← hover]
      rfl

/-- **The last two values beyond the parameters are read**, the last but one over the last over the base. -/
theorem split_eq {declared : Nat} {args : List Value}
    (h : ∀ v ∈ (args.drop declared).reverse.take 2, IsCarrier v) (base : CallOptions) :
    split declared args base =
      .ok (args.take declared,
        (carriedAt (args.drop declared) 1).over ((carriedAt (args.drop declared) 0).over base)) := by
  unfold split carriedAt
  dsimp only
  rw [← List.take_reverse, readCarriers_eq h]
  -- of the values beyond the parameters there are none, one, or two and others
  match (args.drop declared).reverse with
  | [] => rfl
  | [last] => rfl
  | last :: second :: others => rfl

/-- **Each option by itself** is that of the last but one of the values beyond the parameters if it carries it,
else that of the last if that carries it, else that of the base; where nothing is beyond the parameters the
options are the base. What else is beyond the parameters does not matter, and nothing of it is among the
arguments. -/
theorem split_each (declared : Nat) (args : List Value) (base : CallOptions)
    (h : ∀ v ∈ (args.drop declared).reverse.take 2, IsCarrier v) :
    let second := carriedAt (args.drop declared) 1
    let last := carriedAt (args.drop declared) 0
    split declared args base =
        .ok (args.take declared,
          { amount := (second.amount.or last.amount).getD base.amount
            ttl := (second.ttl.or last.ttl).getD base.ttl
            gas := (second.gas.or last.gas).getD base.gas }) ∧
      (args.length ≤ declared → split declared args base = .ok (args, base)) := by
  intro second last
  have hsplit := split_eq h base
  constructor
  · rw [hsplit, Option.getD_or, Option.getD_or, Option.getD_or]
    rfl
  · intro hshort
    rw [hsplit, List.drop_eq_nil_of_le hshort, List.take_of_length_le hshort]
    rfl

/-- A map with an amount of zero, a value, and a life time of zero, in front of options without a gas limit and
behind a text. -/
theorem split_each_zeros :
    let args : List Value := [.int 5, .text "7",
      .map [(.text "amount", .int 0), (.text "value", .int (-3)), (.text "ttl", .int 0)],
      .options { amount := .value 8, ttl := 4, gas := none }]
    let base : CallOptions := { amount := .value 1, ttl := 2, gas := some 6 }
    (∀ v ∈ (args.drop 1).reverse.take 2, IsCarrier v) ∧
      split 1 args base = .ok ([.int 5], { amount := .value (-3), ttl := 0, gas := none }) := by
  intro args base
  have hcarriers : ∀ v ∈ (args.drop 1).reverse.take 2, IsCarrier v := by decide
  exact ⟨hcarriers, (split_each 1 args base hcarriers).1⟩

end Arguments

end SophiaBind
