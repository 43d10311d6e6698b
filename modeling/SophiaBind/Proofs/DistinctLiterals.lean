/-
**Literals tell values apart.**

A literal that is built of numbers, truth values and brackets can be read from left to right. Its first
character says what kind of value it is. A number or a truth value is a word, which ends where a comma or a closing
bracket follows. What stands within brackets ends with the closing one, and a comma in front of it says that
there is more. So a literal says both which value it stands for and where it ends, whatever follows it,
and different values never have the same literal.

Main definitions:

* `Value.Ends` — a text with which no literal goes on,
* `Value.Tells` — a text that says what it stands for and where it ends.

Main results:

* `Integer.toText_injective` — different numbers have different texts,
* `Value.Tells.joined` — parts with commas between, in brackets, can be told apart if each of them can,
* `Value.tells_literalChars` — **a literal says which value it stands for and where it ends**,
* `Value.literal_ne` — **different values have different literals.**
-/

import SophiaBind.Proofs.ArgumentText
import SophiaBind.Proofs.JsonReading

namespace SophiaBind

open TypeTree (joinCommas joinCommas_eq_flatMap)
open Json (isWordChar isWordChar_of_mem_toText)

/-! ### Whole numbers -/

namespace Integer

theorem toDigits_injective : Function.Injective (Nat.toDigits 10) :=
  Function.LeftInverse.injective Json.natOfDigits_toDigits

theorem toDigits_ne_minus (m : Nat) (cs : List Char) : Nat.toDigits 10 m ≠ '-' :: cs := by
  obtain ⟨c, r, hc, -, hsign⟩ := Json.exists_cons_toDigits m
  rw [hc]
  exact fun h => hsign '-' (by decide) (List.cons.inj h).1

/-- **Different numbers have different texts.** -/
theorem toText_injective : Function.Injective toText := by
  intro i j h
  cases i with
  | ofNat m =>
      cases j with
      | ofNat n => exact congrArg Int.ofNat (toDigits_injective h)
      | negSucc n => exact absurd h (toDigits_ne_minus m _)
  | negSucc m =>
      cases j with
      | ofNat n => exact absurd h.symm (toDigits_ne_minus n _)
      | negSucc n =>
          have hsucc : m + 1 = n + 1 := toDigits_injective (List.cons.inj h).2
          exact congrArg Int.negSucc (Nat.succ.inj hsucc)

end Integer

namespace Value

/-! ### Where a literal ends -/

/-- The marks in front of which a literal ends. -/
def endMarks : List Char :=
  [',', ')', ']', '}']

/-- A text with which no literal goes on: there is none, or it begins with one of these marks. -/
def Ends (cs : List Char) : Prop :=
  ∀ c ∈ cs.head?, c ∈ endMarks

@[simp] theorem ends_nil : Ends [] :=
  nofun

@[simp] theorem ends_cons {c : Char} {cs : List Char} : Ends (c :: cs) ↔ c ∈ endMarks := by
  simp [Ends]

theorem isWordChar_of_mem_endMarks {c : Char} (h : c ∈ endMarks) : isWordChar c = false := by
  have hall : ∀ d ∈ endMarks, isWordChar d = false := List.all_iff_forall_prop.1 (by decide)
  exact hall c h

/-- Words are told apart where both of them end. -/
theorem word_append_inj {cs ds r s : List Char} (hcs : ∀ c ∈ cs, isWordChar c = true) (hds : ∀ d ∈ ds, isWordChar d = true)
    (hr : Ends r) (hs : Ends s) (h : cs ++ r = ds ++ s) : cs = ds ∧ r = s := by
  obtain ⟨htake, hdrop⟩ := Text.span_append hcs fun c hc => isWordChar_of_mem_endMarks (hr c hc)
  obtain ⟨htake', hdrop'⟩ := Text.span_append hds fun c hc => isWordChar_of_mem_endMarks (hs c hc)
  rw [h] at htake hdrop
  exact ⟨htake.symm.trans htake', hdrop.symm.trans hdrop'⟩

/-! ### Parts in brackets -/

section Joined

variable {α : Type} {write : α → List Char} {good : α → Prop}

/-- What is written for `x` says that it is `x`, among what is `good`, and where it ends. -/
def Tells (write : α → List Char) (good : α → Prop) (x : α) : Prop :=
  ∀ ⦃y : α⦄ ⦃r s : List Char⦄, good y → Ends r → Ends s → write x ++ r = write y ++ s → x = y ∧ r = s

/-- Parts with a comma in front of each, up to a closing bracket. -/
theorem Tells.flatMap {xs ys : List α} {close : Char} {r s : List Char} (hxs : ∀ x ∈ xs, Tells write good x)
    (hys : ∀ y ∈ ys, good y) (hclose : close ∈ endMarks) (hcomma : close ≠ ',')
    (h : (xs.map write).flatMap (',' :: ·) ++ close :: r = (ys.map write).flatMap (',' :: ·) ++ close :: s) :
    xs = ys ∧ r = s := by
  -- behind each part stands a comma or the closing bracket, so that the part ends there
  have hends : ∀ (zs : List α) (t : List Char), Ends ((zs.map write).flatMap (',' :: ·) ++ close :: t) := by
    intro zs t
    cases zs with
    | nil => simpa using hclose
    | cons z zs => simp [endMarks]
  induction xs generalizing ys with
  | nil =>
      cases ys with
      | nil => exact ⟨rfl, (List.cons.inj h).2⟩
      | cons y ys => exact absurd (List.cons.inj h).1 hcomma
  | cons x xs ih =>
      cases ys with
      | nil => exact absurd (List.cons.inj h).1.symm hcomma
      | cons y ys =>
          obtain ⟨hx, hxs⟩ := List.forall_mem_cons.1 hxs
          obtain ⟨hy, hys⟩ := List.forall_mem_cons.1 hys
          simp only [List.map_cons, List.flatMap_cons, List.cons_append, List.append_assoc, List.cons.injEq,
            true_and] at h
          obtain ⟨hxy, hrest⟩ := hx hy (hends xs r) (hends ys s) h
          obtain ⟨htails, hrest⟩ := ih hxs hys hrest
          exact ⟨by rw [hxy, htails], hrest⟩

/-- **Parts with commas between can be told apart** up to the closing bracket if each of them can, and if none
begins like what stands behind the last one. -/
theorem Tells.joined {xs ys : List α} {close : Char} {r s : List Char} (hxs : ∀ x ∈ xs, Tells write good x)
    (hgood : ∀ x ∈ xs, good x) (hys : ∀ y ∈ ys, good y) (hclose : close ∈ endMarks) (hcomma : close ≠ ',')
    (hbegins : ∀ x, good x → ∃ c cs, write x = c :: cs ∧ c ∉ endMarks)
    (h : joinCommas (xs.map write) ++ close :: r = joinCommas (ys.map write) ++ close :: s) :
    xs = ys ∧ r = s := by
  -- a comma in front of all makes the first part one like the others
  have hfront : ∀ (z : α) (zs : List α) (t : List Char),
      ',' :: (joinCommas ((z :: zs).map write) ++ t) = ((z :: zs).map write).flatMap (',' :: ·) ++ t := by
    intro z zs t
    simp [joinCommas_eq_flatMap]
  have hempty : ∀ {z zs t t'}, good z → close :: t ≠ joinCommas ((z :: zs).map write) ++ close :: t' := by
    intro z zs t t' hz heq
    obtain ⟨c, cs, hc, hmark⟩ := hbegins z hz
    rw [List.map_cons, joinCommas_eq_flatMap, hc] at heq
    exact hmark ((List.cons.inj heq).1 ▸ hclose)
  cases xs with
  | nil =>
      cases ys with
      | nil => exact ⟨rfl, (List.cons.inj h).2⟩
      | cons y ys => exact absurd h (hempty (hys y List.mem_cons_self))
  | cons x xs =>
      cases ys with
      | nil => exact absurd h.symm (hempty (hgood x List.mem_cons_self))
      | cons y ys =>
          refine Tells.flatMap hxs hys hclose hcomma ?_
          rw [← hfront, ← hfront, h]

end Joined

/-! ### Literals -/

/-- The bracket with which a literal begins, if it is not a word. -/
def bracket? : Value → Option Char
  | .tuple _ => some '('
  | .list _ => some '['
  | .map _ => some '{'
  | _ => none

theorem tuple_append (items : List Value) (r : List Char) :
    (Value.tuple items).literalChars ++ r = '(' :: (joinCommas (items.map literalChars) ++ ')' :: r) := by
  rw [literalChars, literalItems_eq, List.append_assoc]
  rfl

theorem list_append (items : List Value) (r : List Char) :
    (Value.list items).literalChars ++ r = '[' :: (joinCommas (items.map literalChars) ++ ']' :: r) := by
  rw [literalChars, literalItems_eq, List.append_assoc]
  rfl

theorem map_append (entries : List (Value × Value)) (r : List Char) :
    (Value.map entries).literalChars ++ r = '{' :: (joinCommas (entries.map entryChars) ++ '}' :: r) := by
  rw [literalChars, literalEntries_eq, List.append_assoc]
  rfl

section Composed

variable {v w : Value}

theorem isWordChar_of_mem_literalChars {c : Char} (hv : Composed v) (hword : v.bracket? = none)
    (hc : c ∈ v.literalChars) : isWordChar c = true := by
  cases hv with
  | bool b =>
      have hall : ∀ c ∈ (Value.bool b).literalChars, isWordChar c = true := by
        cases b <;> exact List.all_iff_forall_prop.1 (by decide)
      exact hall c hc
  | int i => exact isWordChar_of_mem_toText hc
  | tuple _ => cases hword
  | list _ => cases hword
  | map _ => cases hword

/-- The first character of a literal is the bracket, if there is one, and otherwise a character of a word. -/
theorem exists_cons_literalChars (hv : Composed v) :
    ∃ c cs, v.literalChars = c :: cs ∧ c ∉ endMarks ∧ v.bracket? = if isWordChar c then none else some c := by
  have hword : v.bracket? = none →
      ∃ c cs, v.literalChars = c :: cs ∧ c ∉ endMarks ∧ v.bracket? = if isWordChar c then none else some c := by
    intro hnone
    obtain ⟨c, cs, hchars⟩ := List.exists_cons_of_ne_nil (trim_literalChars hv).1
    have hc := isWordChar_of_mem_literalChars hv hnone (hchars ▸ List.mem_cons_self)
    exact ⟨c, cs, hchars, fun hmark => by simp [isWordChar_of_mem_endMarks hmark] at hc, by simp [hnone, hc]⟩
  cases hv with
  | bool _ => exact hword rfl
  | int _ => exact hword rfl
  | tuple _ => exact ⟨'(', _, rfl, by decide, rfl⟩
  | list _ => exact ⟨'[', _, rfl, by decide, rfl⟩
  | map _ => exact ⟨'{', _, rfl, by decide, rfl⟩

/-- Literals that begin alike are of one kind. -/
theorem bracket?_eq_of_append_eq {r s : List Char} (hv : Composed v) (hw : Composed w)
    (h : v.literalChars ++ r = w.literalChars ++ s) : v.bracket? = w.bracket? := by
  obtain ⟨c, cs, hc, -, hv⟩ := exists_cons_literalChars hv
  obtain ⟨d, ds, hd, -, hw⟩ := exists_cons_literalChars hw
  rw [hc, hd] at h
  rw [hv, hw, (List.cons.inj h).1]

/-- Words that stand for different values differ. -/
theorem word_inj (hv : Composed v) (hw : Composed w) (hvword : v.bracket? = none) (hwword : w.bracket? = none)
    (h : v.literalChars = w.literalChars) : v = w := by
  -- the letters of a truth value are not all among those of numbers
  have hmixed : ∀ (b : Bool) (i : Int), (Value.bool b).literalChars ≠ (Value.int i).literalChars := by
    intro b i heq
    have hnumeric : ∀ c ∈ (Value.bool b).literalChars, Decimal.isNumeric c = true := fun c hc =>
      Integer.isNumeric_of_mem (show c ∈ (Value.int i).literalChars from heq ▸ hc)
    cases b with
    | true => exact absurd (hnumeric 't' (by decide)) (by decide)
    | false => exact absurd (hnumeric 'l' (by decide)) (by decide)
  cases hv with
  | bool b =>
      cases hw with
      | bool c =>
          have hnames : ∀ b c : Bool, (Value.bool b).literalChars = (Value.bool c).literalChars → b = c := by decide
          exact congrArg Value.bool (hnames b c h)
      | int j => exact absurd h (hmixed b j)
      | _ => cases hwword
  | int i =>
      cases hw with
      | bool c => exact absurd h.symm (hmixed c i)
      | int j => exact congrArg Value.int (Integer.toText_injective h)
      | _ => cases hwword
  | _ => cases hvword

theorem tells_word (hv : Composed v) (hword : v.bracket? = none) : Tells literalChars Composed v := by
  intro w r s hw hr hs h
  have hword' : w.bracket? = none := (bracket?_eq_of_append_eq hv hw h).symm.trans hword
  obtain ⟨hsame, hrest⟩ := word_append_inj (fun c => isWordChar_of_mem_literalChars hv hword)
    (fun c => isWordChar_of_mem_literalChars hw hword') hr hs h
  exact ⟨word_inj hv hw hword hword' hsame, hrest⟩

/-- The parts of a literal begin with none of the marks that end one. -/
theorem begins_literalChars (v : Value) (hv : Composed v) : ∃ c cs, v.literalChars = c :: cs ∧ c ∉ endMarks := by
  obtain ⟨c, cs, hc, hmark, -⟩ := exists_cons_literalChars hv
  exact ⟨c, cs, hc, hmark⟩

/-- An entry can be told apart if its key and its value can. -/
theorem tells_entryChars {e : Value × Value} (hkey : Tells literalChars Composed e.1)
    (hvalue : Tells literalChars Composed e.2) : Tells entryChars (fun e => Composed e.1 ∧ Composed e.2) e := by
  intro f r s hf hr hs h
  simp only [entryChars, List.cons_append, List.append_assoc, List.cons.injEq, true_and] at h
  obtain ⟨hkeys, h⟩ := hkey hf.1 (by simp [endMarks]) (by simp [endMarks]) h
  simp only [List.cons.injEq, true_and] at h
  obtain ⟨hvalues, hrest⟩ := hvalue hf.2 hr hs h
  exact ⟨Prod.ext hkeys hvalues, hrest⟩

/-- **A literal says which value it stands for and where it ends.** -/
theorem tells_literalChars (hv : Composed v) : Tells literalChars Composed v := by
  induction hv with
  | bool b => exact tells_word (.bool b) rfl
  | int i => exact tells_word (.int i) rfl
  | tuple hitems ih =>
      intro w r s hw hr hs h
      have hkind := bracket?_eq_of_append_eq (.tuple hitems) hw h
      cases hw with
      | tuple hothers =>
          rw [tuple_append, tuple_append] at h
          obtain ⟨hsame, hrest⟩ :=
            Tells.joined ih hitems hothers (by decide) (by decide) begins_literalChars (List.cons.inj h).2
          exact ⟨congrArg Value.tuple hsame, hrest⟩
      | _ => cases hkind
  | list hitems ih =>
      intro w r s hw hr hs h
      have hkind := bracket?_eq_of_append_eq (.list hitems) hw h
      cases hw with
      | list hothers =>
          rw [list_append, list_append] at h
          obtain ⟨hsame, hrest⟩ :=
            Tells.joined ih hitems hothers (by decide) (by decide) begins_literalChars (List.cons.inj h).2
          exact ⟨congrArg Value.list hsame, hrest⟩
      | _ => cases hkind
  | map hkeys hvalues ihkeys ihvalues =>
      intro w r s hw hr hs h
      have hkind := bracket?_eq_of_append_eq (.map hkeys hvalues) hw h
      cases hw with
      | map hkeys' hvalues' =>
          rw [map_append, map_append] at h
          have hentries := fun e he => tells_entryChars (ihkeys e he) (ihvalues e he)
          obtain ⟨hsame, hrest⟩ := Tells.joined hentries (fun e he => ⟨hkeys e he, hvalues e he⟩)
            (fun e he => ⟨hkeys' e he, hvalues' e he⟩) (by decide) (by decide)
            (fun e _ => ⟨'[', _, rfl, by decide⟩) (List.cons.inj h).2
          exact ⟨congrArg Value.map hsame, hrest⟩
      | _ => cases hkind

/-- **Different values have different literals.** -/
theorem literal_ne (hv : Composed v) (hw : Composed w) (hne : v ≠ w) : v.literal ≠ w.literal := by
  intro h
  have hchars : v.literalChars ++ [] = w.literalChars ++ [] := by
    rw [String.ofList_injective h]
  exact hne (tells_literalChars hv hw ends_nil ends_nil hchars).1

end Composed

/-- A map in a list, with a tuple as its key. -/
def keyedBy (key : Value) : Value :=
  .list [.map [(.tuple [key], .list [])], .tuple [], .int (-1)]

theorem composed_keyedBy {key : Value} (h : Composed key) : Composed (keyedBy key) := by
  simp [keyedBy, h]

theorem literal_ne_true_one :
    Composed (keyedBy (.bool true)) ∧ Composed (keyedBy (.int 1)) ∧ keyedBy (.bool true) ≠ keyedBy (.int 1) ∧
      (keyedBy (.bool true)).literal = "[\x7b[(true)] = []\x7d,(),-1]" ∧
      (keyedBy (.bool true)).literal ≠ (keyedBy (.int 1)).literal := by
  have hne : keyedBy (.bool true) ≠ keyedBy (.int 1) := by simp [keyedBy]
  exact ⟨composed_keyedBy (.bool true), composed_keyedBy (.int 1), hne, rfl,
    literal_ne (composed_keyedBy (.bool true)) (composed_keyedBy (.int 1)) hne⟩

end Value

end SophiaBind
