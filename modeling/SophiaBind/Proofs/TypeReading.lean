/-
**Reading types without fuel.**

The readers of `TypeTree.typeFrom` carry fuel, which bounds their recursion and says nothing about types.
Every reader consumes at least one character, so fuel of three units for each character is never used up.
This module takes the fuel away: `readType`, `readList` and `readMembers` satisfy the recursive equations
of the readers as they stand.

Main definitions:

* `TypeTree.readType`, `TypeTree.readList`, `TypeTree.readMembers`.

Main results:

* `TypeTree.length_lt_of_readers` — what a reader leaves is shorter than what it was given,
* `TypeTree.readers_eq_of_le` — **enough fuel is as good as more**,
* `TypeTree.readType_of_open`, `TypeTree.readType_of_bare_name`, `TypeTree.readType_of_name`,
  `TypeTree.readList_of_close`, `TypeTree.readList_of_member`, `TypeTree.readMembers_of_comma`,
  `TypeTree.readMembers_of_close` — the equations of the readers, by what the text begins with.
-/

import SophiaBind.TypeTree.Parser

namespace SophiaBind

theorem Text.length_trimStart_le (cs : List Char) : (Text.trimStart cs).length ≤ cs.length :=
  (List.dropWhile_suffix _).length_le

namespace TypeTree

/-! ### What is left -/

/-- What follows a name is shorter than the text that begins with it. -/
theorem length_dropWhile_lt_of_takeWhile_ne_nil {p : Char → Bool} {cs : List Char}
    (h : cs.takeWhile p ≠ []) : (cs.dropWhile p).length < cs.length := by
  have hs := congrArg List.length (List.takeWhile_append_dropWhile (p := p) (l := cs))
  have hp := List.length_pos_iff.2 h
  rw [List.length_append] at hs
  omega

theorem length_lt_of_typeFrom {fuel : Nat}
    (hlist : ∀ {cs ts r}, listFrom fuel cs = .ok (ts, r) → r.length < cs.length)
    {cs r : List Char} {t : TypeTree} (h : typeFrom (fuel + 1) cs = .ok (t, r)) :
    r.length < cs.length := by
  have hle := Text.length_trimStart_le cs
  rw [typeFrom] at h
  split at h
  -- a list alone, and then a name with a list behind it or without
  · next r₁ hcs =>
      rw [hcs, List.length_cons] at hle
      split at h
      · next items r₂ hl =>
          cases h
          have := hlist hl
          omega
      · cases h
  · dsimp only at h
    split at h
    · cases h
    · next hname =>
        have hlt := length_dropWhile_lt_of_takeWhile_ne_nil hname
        have hle₂ := Text.length_trimStart_le ((Text.trimStart cs).dropWhile isNameChar)
        split at h
        · next r₁ hcs =>
            rw [hcs, List.length_cons] at hle₂
            split at h
            · cases h
            · next args r₂ hl =>
                have := hlist hl
                split at h
                · cases h
                  omega
                · cases h
        · cases h
          omega

theorem length_lt_of_listFrom {fuel : Nat}
    (hmembers : ∀ {cs ts r}, membersFrom fuel cs = .ok (ts, r) → r.length < cs.length)
    {cs r : List Char} {ts : List TypeTree} (h : listFrom (fuel + 1) cs = .ok (ts, r)) :
    r.length < cs.length := by
  have hle := Text.length_trimStart_le cs
  rw [listFrom] at h
  split at h
  · next hcs =>
      cases h
      rw [hcs, List.length_cons] at hle
      omega
  · have := hmembers h
    omega

theorem length_lt_of_membersFrom {fuel : Nat}
    (htype : ∀ {cs t r}, typeFrom fuel cs = .ok (t, r) → r.length < cs.length)
    (hmembers : ∀ {cs ts r}, membersFrom fuel cs = .ok (ts, r) → r.length < cs.length)
    {cs r : List Char} {ts : List TypeTree} (h : membersFrom (fuel + 1) cs = .ok (ts, r)) :
    r.length < cs.length := by
  rw [membersFrom] at h
  split at h
  · cases h
  · next t r₁ ht =>
      have hlt := htype ht
      have hle := Text.length_trimStart_le r₁
      split at h
      · next r₂ hr =>
          rw [hr, List.length_cons] at hle
          split at h
          · next rest r₃ hm =>
              cases h
              have := hmembers hm
              omega
          · cases h
      · next r₂ hr =>
          cases h
          rw [hr, List.length_cons] at hle
          omega
      · cases h

/-- **What a reader leaves is shorter than what it was given.** -/
theorem length_lt_of_readers (fuel : Nat) :
    (∀ {cs t r}, typeFrom fuel cs = .ok (t, r) → r.length < cs.length) ∧
    (∀ {cs ts r}, listFrom fuel cs = .ok (ts, r) → r.length < cs.length) ∧
    (∀ {cs ts r}, membersFrom fuel cs = .ok (ts, r) → r.length < cs.length) := by
  induction fuel with
  | zero =>
      refine ⟨?_, ?_, ?_⟩
      · intro cs t r h; simp [typeFrom] at h
      · intro cs ts r h; simp [listFrom] at h
      · intro cs ts r h; simp [membersFrom] at h
  | succ fuel ih =>
      -- each reader calls the others with one unit less
      obtain ⟨htype, hlist, hmembers⟩ := ih
      exact ⟨length_lt_of_typeFrom hlist, length_lt_of_listFrom hmembers,
        length_lt_of_membersFrom htype hmembers⟩

/-! ### Enough fuel -/

theorem typeFrom_eq_of_le {f g : Nat} (hlist : ∀ cs, 3 * cs.length + 3 ≤ f → listFrom f cs = listFrom g cs)
    {cs : List Char} (h : 3 * cs.length + 1 ≤ f + 1) : typeFrom (f + 1) cs = typeFrom (g + 1) cs := by
  have hle := Text.length_trimStart_le cs
  rw [typeFrom, typeFrom]
  split
  · next r hcs =>
      rw [hcs, List.length_cons] at hle
      rw [hlist r (by omega)]
  · dsimp only
    split
    · rfl
    · next hname =>
        have hlt := length_dropWhile_lt_of_takeWhile_ne_nil hname
        have hle₂ := Text.length_trimStart_le ((Text.trimStart cs).dropWhile isNameChar)
        split
        · next r hcs =>
            rw [hcs, List.length_cons] at hle₂
            rw [hlist r (by omega)]
        · rfl

theorem listFrom_eq_of_le {f g : Nat}
    (hmembers : ∀ cs, 3 * cs.length + 2 ≤ f → membersFrom f cs = membersFrom g cs)
    {cs : List Char} (h : 3 * cs.length + 3 ≤ f + 1) : listFrom (f + 1) cs = listFrom (g + 1) cs := by
  have hle := Text.length_trimStart_le cs
  rw [listFrom, listFrom]
  split
  · rfl
  · exact hmembers _ (by omega)

theorem membersFrom_eq_of_le {f g : Nat} (htype : ∀ cs, 3 * cs.length + 1 ≤ f → typeFrom f cs = typeFrom g cs)
    (hmembers : ∀ cs, 3 * cs.length + 2 ≤ f → membersFrom f cs = membersFrom g cs)
    {cs : List Char} (h : 3 * cs.length + 2 ≤ f + 1) : membersFrom (f + 1) cs = membersFrom (g + 1) cs := by
  rw [membersFrom, membersFrom, ← htype cs (by omega)]
  split
  · rfl
  · next t r ht =>
      have hlt := (length_lt_of_readers f).1 ht
      have hle := Text.length_trimStart_le r
      split
      · next r₁ hr =>
          rw [hr, List.length_cons] at hle
          rw [hmembers r₁ (by omega)]
      · rfl
      · rfl

/-- **Enough fuel is as good as more.** -/
theorem readers_eq_of_le (f : Nat) : ∀ g, f ≤ g →
    (∀ cs, 3 * cs.length + 1 ≤ f → typeFrom f cs = typeFrom g cs) ∧
    (∀ cs, 3 * cs.length + 3 ≤ f → listFrom f cs = listFrom g cs) ∧
    (∀ cs, 3 * cs.length + 2 ≤ f → membersFrom f cs = membersFrom g cs) := by
  induction f with
  | zero =>
      intro g _
      refine ⟨?_, ?_, ?_⟩ <;> intro cs h <;> omega
  | succ f ih =>
      intro g hg
      -- there is more fuel on the other side, so that both readers make a step
      obtain ⟨g, rfl⟩ : ∃ g', g = g' + 1 := ⟨g - 1, by omega⟩
      obtain ⟨htype, hlist, hmembers⟩ := ih g (by omega)
      exact ⟨fun _ h => typeFrom_eq_of_le hlist h, fun _ h => listFrom_eq_of_le hmembers h,
        fun _ h => membersFrom_eq_of_le htype hmembers h⟩

/-! ### Readers without fuel -/

/-- Reads a type. -/
def readType (cs : List Char) : Reading TypeTree :=
  typeFrom (3 * cs.length + 1) cs

/-- Reads a list behind its opening parenthesis. -/
def readList (cs : List Char) : Reading (List TypeTree) :=
  listFrom (3 * cs.length + 3) cs

/-- Reads the members of a list from a type on. -/
def readMembers (cs : List Char) : Reading (List TypeTree) :=
  membersFrom (3 * cs.length + 2) cs

theorem typeFrom_eq_readType {fuel : Nat} {cs : List Char} (h : 3 * cs.length + 1 ≤ fuel) :
    typeFrom fuel cs = readType cs :=
  ((readers_eq_of_le _ fuel h).1 cs (Nat.le_refl _)).symm

theorem listFrom_eq_readList {fuel : Nat} {cs : List Char} (h : 3 * cs.length + 3 ≤ fuel) :
    listFrom fuel cs = readList cs :=
  ((readers_eq_of_le _ fuel h).2.1 cs (Nat.le_refl _)).symm

theorem membersFrom_eq_readMembers {fuel : Nat} {cs : List Char} (h : 3 * cs.length + 2 ≤ fuel) :
    membersFrom fuel cs = readMembers cs :=
  ((readers_eq_of_le _ fuel h).2.2 cs (Nat.le_refl _)).symm

/-! ### The equations of the readers -/

/-- A list alone is a tuple. -/
theorem readType_of_open {cs r : List Char} (h : Text.trimStart cs = '(' :: r) :
    readType cs = (readList r).map fun (items, left) => (.tuple items, left) := by
  have hle := Text.length_trimStart_le cs
  rw [h, List.length_cons] at hle
  rw [readType, typeFrom]
  split
  · next r₁ hcs =>
      obtain rfl : r₁ = r := by rw [h] at hcs; cases hcs; rfl
      rw [listFrom_eq_readList (by omega)]
      cases readList r₁ <;> rfl
  · next hno => exact absurd h (hno r)

section Name

variable {cs : List Char} (hname : (Text.trimStart cs).takeWhile isNameChar ≠ [])

include hname

/-- A name without a list behind it is a type of its own. -/
theorem readType_of_bare_name
    (h : ∀ r, Text.trimStart ((Text.trimStart cs).dropWhile isNameChar) ≠ '(' :: r) :
    readType cs = .ok (.primitive (String.ofList ((Text.trimStart cs).takeWhile isNameChar)),
      Text.trimStart ((Text.trimStart cs).dropWhile isNameChar)) := by
  rw [readType, typeFrom]
  split
  · next r hcs =>
      rw [hcs] at hname
      exact absurd rfl hname
  · dsimp only
    rw [if_neg hname]
    split
    · next r hr => exact absurd hr (h r)
    · rfl

/-- A name with a list behind it is constructed from that list. -/
theorem readType_of_name {r : List Char}
    (h : Text.trimStart ((Text.trimStart cs).dropWhile isNameChar) = '(' :: r) :
    readType cs = (readList r).bind fun (args, left) =>
      (construct ((Text.trimStart cs).takeWhile isNameChar) args left.length).map fun t => (t, left) := by
  have hle := Text.length_trimStart_le cs
  have hle₂ := Text.length_trimStart_le ((Text.trimStart cs).dropWhile isNameChar)
  have hlt := length_dropWhile_lt_of_takeWhile_ne_nil hname
  rw [h, List.length_cons] at hle₂
  rw [readType, typeFrom]
  split
  · next r hcs =>
      rw [hcs] at hname
      exact absurd rfl hname
  · dsimp only
    rw [if_neg hname]
    split
    · next r₁ hr =>
        obtain rfl : r₁ = r := by rw [h] at hr; cases hr; rfl
        rw [listFrom_eq_readList (by omega)]
        cases readList r₁ with
        | error e => rfl
        | ok a =>
            dsimp only [Except.bind]
            cases construct ((Text.trimStart cs).takeWhile isNameChar) a.1 a.2.length <;> rfl
    · next hno => exact absurd h (hno r)

end Name

/-- A list that is closed at once has no members. -/
theorem readList_of_close {cs r : List Char} (h : Text.trimStart cs = ')' :: r) :
    readList cs = .ok ([], r) := by
  rw [readList, listFrom]
  split
  · next r₁ hcs => rw [h] at hcs; cases hcs; rfl
  · next hno => exact absurd h (hno r)

/-- A list that is not closed at once has members. -/
theorem readList_of_member {cs : List Char} (h : ∀ r, Text.trimStart cs ≠ ')' :: r) :
    readList cs = readMembers (Text.trimStart cs) := by
  have hle := Text.length_trimStart_le cs
  rw [readList, listFrom]
  split
  · next r hcs => exact absurd hcs (h r)
  · exact membersFrom_eq_readMembers (by omega)

/-- Behind a comma there are more members. -/
theorem readMembers_of_comma {cs r s : List Char} {t : TypeTree} (ht : readType cs = .ok (t, r))
    (h : Text.trimStart r = ',' :: s) :
    readMembers cs = (readMembers s).map fun (rest, left) => (t :: rest, left) := by
  -- the members behind the comma are fewer characters, for which there is fuel enough
  have hlt := (length_lt_of_readers _).1 ht
  have hle := Text.length_trimStart_le r
  rw [h, List.length_cons] at hle
  rw [readMembers, membersFrom, typeFrom_eq_readType (by omega), ht]
  dsimp only
  split
  · next s₁ hr =>
      obtain rfl : s₁ = s := by rw [h] at hr; cases hr; rfl
      rw [membersFrom_eq_readMembers (by omega)]
      cases readMembers s₁ <;> rfl
  · next s₁ hr => rw [h] at hr; cases hr
  · next hno _ => exact absurd h (hno s)

/-- A closing parenthesis ends the members. -/
theorem readMembers_of_close {cs r s : List Char} {t : TypeTree} (ht : readType cs = .ok (t, r))
    (h : Text.trimStart r = ')' :: s) : readMembers cs = .ok ([t], s) := by
  rw [readMembers, membersFrom, typeFrom_eq_readType (by omega), ht]
  dsimp only
  split
  · next s₁ hr => rw [h] at hr; cases hr
  · next s₁ hr => rw [h] at hr; cases hr; rfl
  · next hno => exact absurd h (hno s)

/-- A type behind which nothing is left is the type of the whole text. -/
theorem parse_of_readType {text : String} {t : TypeTree} (h : readType text.toList = .ok (t, [])) :
    parse text = .ok t := by
  rw [parse, parseChars, typeFrom_eq_readType (by omega), h]
  rfl

end TypeTree

end SophiaBind
