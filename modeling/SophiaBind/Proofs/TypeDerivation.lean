/-
**The reader of types accepts its grammar**, and nothing else.

What a reader takes off a text is spelled by the tokens of a derivation whose type it gives. In the other
direction a text that spells the tokens of a regular derivation is read as the type of that derivation, by
induction on the derivation; blanks may be left over behind it, and a name alone must not be followed by an
opening parenthesis, which would make it the name of a list. A derivation is known by its type, so that no
text has two.

Main results:

* `TypeTree.spells_of_readers` — **what is read is derived**,
* `TypeTree.readType_of_spells`, `TypeTree.readList_of_spells`, `TypeTree.readMembers_of_spells` — **what is
  derived is read**,
* `TypeTree.parse_accepts_grammar` — a text is read as the type of its only derivation, or else refused.
-/

import Mathlib.Data.List.TakeWhile
import SophiaBind.Proofs.TypeGrammar
import SophiaBind.Proofs.TypeReading

namespace SophiaBind.TypeTree

open TypeTree.Derivation

/-- A name and a list are constructed unless the list is that of a map and does not have two members. -/
theorem construct_eq_ok {name : String} {args : List TypeTree} {left : Nat} {t : TypeTree} :
    construct name.toList args left = .ok t ↔
      (name = "map" → args.length = 2) ∧ treeOf name args = t := by
  have hne : ∀ {s : String}, name ≠ s → name.toList ≠ s.toList := fun h he => h (String.toList_inj.1 he)
  unfold construct treeOf
  by_cases hlist : name = "list"
  · subst hlist
    simp
  · rw [if_neg (hne hlist), if_neg hlist]
    by_cases hmap : name = "map"
    · subst hmap
      rw [if_pos rfl, if_pos rfl]
      split
      · simp
      · next hno =>
          simp only [reduceCtorEq, forall_const, false_iff, not_and]
          intro hlength
          obtain ⟨key, value, rfl⟩ := List.length_eq_two.1 hlength
          exact absurd rfl (hno key value)
    · rw [if_neg (hne hmap), if_neg hmap, String.ofList_toList]
      simp [hmap]

/-! ### What is read is derived -/

/-- The name at the beginning of a text. -/
theorem isName_takeWhile {cs : List Char} (h : cs.takeWhile isNameChar ≠ []) :
    IsName (String.ofList (cs.takeWhile isNameChar)) := by
  refine ⟨by rwa [String.toList_ofList], fun c hc => ?_⟩
  rw [String.toList_ofList] at hc
  exact List.mem_takeWhile_imp hc

/-- A name that is taken off a text is followed by what is left. -/
theorem spells_takeWhile {cs rest : List Char} {ts : List Token}
    (hname : (Text.trimStart cs).takeWhile isNameChar ≠ [])
    (h : Spells ((Text.trimStart cs).dropWhile isNameChar) ts rest) :
    Spells cs (.name (String.ofList ((Text.trimStart cs).takeWhile isNameChar)) :: ts) rest := by
  have hspells := Spells.name (isName_takeWhile hname) (fun _ => Text.not_of_mem_head?_dropWhile) h
  rw [String.toList_ofList, List.takeWhile_append_dropWhile] at hspells
  exact hspells.of_trimStart

theorem spells_of_typeFrom {fuel : Nat}
    (hlist : ∀ {cs ts r}, listFrom fuel cs = .ok (ts, r) →
      ∃ ds, AllRegular ds ∧ trees ds = ts ∧ Spells cs (tokensBehind ds) r)
    {cs r : List Char} {t : TypeTree} (h : typeFrom (fuel + 1) cs = .ok (t, r)) :
    ∃ d : Derivation, d.Regular ∧ d.tree = t ∧ Spells cs d.tokens r := by
  rw [typeFrom] at h
  split at h
  -- a list alone, and then a name with a list behind it or without
  · next r₁ hcs =>
      split at h
      · next items r₂ hl =>
          cases h
          obtain ⟨ds, hregular, rfl, hspells⟩ := hlist hl
          exact ⟨.alone ds, hregular, rfl, Spells.of_trimStart (hcs ▸ .mark .opening hspells)⟩
      · cases h
  · dsimp only at h
    split at h
    · cases h
    · next hname =>
        split at h
        · next r₁ hcs =>
            split at h
            · cases h
            · next args r₂ hl =>
                obtain ⟨ds, hregular, rfl, hspells⟩ := hlist hl
                split at h
                · next t' hconstruct =>
                    cases h
                    rw [← @String.toList_ofList ((Text.trimStart cs).takeWhile isNameChar)] at hconstruct
                    obtain ⟨hmap, htree⟩ := construct_eq_ok.1 hconstruct
                    rw [length_trees] at hmap
                    exact ⟨.named _ ds, ⟨hmap, hregular⟩, htree,
                      spells_takeWhile hname (Spells.of_trimStart (hcs ▸ .mark .opening hspells))⟩
                · cases h
        · cases h
          exact ⟨.bare _, trivial, rfl, spells_takeWhile hname (Spells.of_trimStart (.done _))⟩

theorem spells_of_listFrom {fuel : Nat}
    (hmembers : ∀ {cs ts r}, membersFrom fuel cs = .ok (ts, r) →
      ∃ ds, AllRegular ds ∧ trees ds = ts ∧ Spells cs (tokensBehind ds) r)
    {cs r : List Char} {ts : List TypeTree} (h : listFrom (fuel + 1) cs = .ok (ts, r)) :
    ∃ ds, AllRegular ds ∧ trees ds = ts ∧ Spells cs (tokensBehind ds) r := by
  rw [listFrom] at h
  split at h
  · next r₁ hcs =>
      cases h
      exact ⟨[], trivial, rfl, Spells.of_trimStart (hcs ▸ .mark .closing (.done _))⟩
  · obtain ⟨ds, hregular, htrees, hspells⟩ := hmembers h
    exact ⟨ds, hregular, htrees, hspells.of_trimStart⟩

theorem spells_of_membersFrom {fuel : Nat}
    (htype : ∀ {cs t r}, typeFrom fuel cs = .ok (t, r) →
      ∃ d : Derivation, d.Regular ∧ d.tree = t ∧ Spells cs d.tokens r)
    (hmembers : ∀ {cs ts r}, membersFrom fuel cs = .ok (ts, r) →
      ∃ ds, ds ≠ [] ∧ AllRegular ds ∧ trees ds = ts ∧ Spells cs (tokensBehind ds) r)
    {cs r : List Char} {ts : List TypeTree} (h : membersFrom (fuel + 1) cs = .ok (ts, r)) :
    ∃ ds, ds ≠ [] ∧ AllRegular ds ∧ trees ds = ts ∧ Spells cs (tokensBehind ds) r := by
  rw [membersFrom] at h
  split at h
  · cases h
  · next t r₁ ht =>
      obtain ⟨d, hregular, rfl, hspells⟩ := htype ht
      split at h
      · next r₂ hr =>
          split at h
          · next rest r₃ hm =>
              cases h
              obtain ⟨ds, hne, hds, rfl, hrest⟩ := hmembers hm
              obtain ⟨e, es, rfl⟩ := List.exists_cons_of_ne_nil hne
              exact ⟨d :: e :: es, List.cons_ne_nil _ _, ⟨hregular, hds⟩, rfl,
                hspells.append (Spells.of_trimStart (hr ▸ .mark .comma hrest))⟩
          · cases h
      · next r₂ hr =>
          cases h
          exact ⟨[d], List.cons_ne_nil _ _, ⟨hregular, trivial⟩, rfl,
            hspells.append (Spells.of_trimStart (hr ▸ .mark .closing (.done _)))⟩
      · cases h

/-- **What is read is derived.** -/
theorem spells_of_readers (fuel : Nat) :
    (∀ {cs t r}, typeFrom fuel cs = .ok (t, r) →
      ∃ d : Derivation, d.Regular ∧ d.tree = t ∧ Spells cs d.tokens r) ∧
    (∀ {cs ts r}, listFrom fuel cs = .ok (ts, r) →
      ∃ ds, AllRegular ds ∧ trees ds = ts ∧ Spells cs (tokensBehind ds) r) ∧
    (∀ {cs ts r}, membersFrom fuel cs = .ok (ts, r) →
      ∃ ds, ds ≠ [] ∧ AllRegular ds ∧ trees ds = ts ∧ Spells cs (tokensBehind ds) r) := by
  induction fuel with
  | zero =>
      refine ⟨?_, ?_, ?_⟩
      · intro cs t r h; simp [typeFrom] at h
      · intro cs ts r h; simp [listFrom] at h
      · intro cs ts r h; simp [membersFrom] at h
  | succ fuel ih =>
      obtain ⟨htype, hlist, hmembers⟩ := ih
      refine ⟨spells_of_typeFrom hlist, spells_of_listFrom fun h => ?_, spells_of_membersFrom htype hmembers⟩
      obtain ⟨ds, -, hds⟩ := hmembers h
      exact ⟨ds, hds⟩

/-! ### What is derived is read -/

/-- A type does not begin with a closing parenthesis. -/
theorem ne_close_of_spells {d : Derivation} {cs rest : List Char} {ts : List Token}
    (h : Spells cs (d.tokens ++ ts) rest) (r : List Char) : Text.trimStart cs ≠ ')' :: r := by
  have hname : ∀ {name us}, Spells cs (.name name :: us) rest → Text.trimStart cs ≠ ')' :: r := by
    intro name us h he
    obtain ⟨r', hname, hcs, -, -⟩ := h.name_inv
    obtain ⟨c, r'', hc, hchar⟩ := hname.exists_cons
    rw [hcs, hc] at he
    cases he
    exact absurd hchar (by decide)
  cases d with
  | bare name => exact hname h
  | named name members => exact hname h
  | alone members =>
      obtain ⟨r', hcs, -⟩ := Spells.mark_inv h
      rw [hcs]
      intro he
      cases he

mutual

/-- **What is derived is read** as its type, with blanks at most left in front of the rest. -/
theorem readType_of_spells : ∀ {d : Derivation} {cs rest : List Char}, d.Regular → Spells cs d.tokens rest →
    (∀ r, Text.trimStart rest ≠ '(' :: r) →
    ∃ left, readType cs = .ok (d.tree, left) ∧ Text.trimStart left = Text.trimStart rest
  | .bare name, cs, rest, _, h, hrest => by
      obtain ⟨r, hname, hcs, hend, hr⟩ := h.name_inv
      have hspan := Text.span_append hname.2 hend
      have hread := @readType_of_bare_name cs
      rw [hcs, hspan.1, hspan.2, hr.nil_inv, String.ofList_toList] at hread
      exact ⟨_, hread hname.1 hrest, Text.trimStart_trimStart rest⟩
  | .named name members, cs, rest, hd, h, _ => by
      obtain ⟨r, hname, hcs, hend, hr⟩ := h.name_inv
      obtain ⟨s, hopen, hs⟩ := hr.mark_inv
      obtain ⟨left, hlist, hleft⟩ := readList_of_spells hd.2 hs
      have hconstruct : construct name.toList (trees members) left.length = .ok (treeOf name (trees members)) := by
        rw [construct_eq_ok, length_trees]
        exact ⟨hd.1, rfl⟩
      have hspan := Text.span_append hname.2 hend
      have hread := @readType_of_name cs
      rw [hcs, hspan.1, hspan.2] at hread
      refine ⟨left, ?_, hleft⟩
      rw [hread hname.1 hopen, hlist]
      simp only [Except.bind, hconstruct, Except.map, tree]
  | .alone members, cs, rest, hd, h, _ => by
      obtain ⟨s, hopen, hs⟩ := h.mark_inv
      obtain ⟨left, hlist, hleft⟩ := readList_of_spells hd hs
      refine ⟨left, ?_, hleft⟩
      rw [readType_of_open hopen, hlist]
      rfl

/-- **A list that is derived is read.** -/
theorem readList_of_spells : ∀ {ds : List Derivation} {cs rest : List Char}, AllRegular ds →
    Spells cs (tokensBehind ds) rest →
    ∃ left, readList cs = .ok (trees ds, left) ∧ Text.trimStart left = Text.trimStart rest
  | [], cs, rest, _, h => by
      obtain ⟨r, hclose, hr⟩ := h.mark_inv
      exact ⟨r, readList_of_close hclose, hr.nil_inv⟩
  | d :: ds, cs, rest, hds, h => by
      have hne : tokensBehind (d :: ds) ≠ [] := by
        cases d <;> simp [tokensBehind, tokens]
      rw [readList_of_member (ne_close_of_spells h)]
      exact readMembers_of_spells hds (List.cons_ne_nil d ds) (h.trimStart hne)

/-- **The members of a list that is derived are read.** -/
theorem readMembers_of_spells : ∀ {ds : List Derivation} {cs rest : List Char}, AllRegular ds → ds ≠ [] →
    Spells cs (tokensBehind ds) rest →
    ∃ left, readMembers cs = .ok (trees ds, left) ∧ Text.trimStart left = Text.trimStart rest
  | [], _, _, _, hne, _ => absurd rfl hne
  | [d], cs, rest, hds, _, h => by
      obtain ⟨mid, hd, hmid⟩ := Spells.split h
      obtain ⟨r, hclose, hr⟩ := hmid.mark_inv
      obtain ⟨left, hread, hleft⟩ := readType_of_spells hds.1 hd (by rw [hclose]; exact fun _ he => by cases he)
      exact ⟨r, readMembers_of_close hread (hleft.trans hclose), hr.nil_inv⟩
  | d :: e :: es, cs, rest, hds, _, h => by
      obtain ⟨mid, hd, hmid⟩ := Spells.split h
      obtain ⟨r, hcomma, hr⟩ := hmid.mark_inv
      obtain ⟨left, hread, hleft⟩ := readType_of_spells hds.1 hd (by rw [hcomma]; exact fun _ he => by cases he)
      obtain ⟨left', hmembers, hleft'⟩ := readMembers_of_spells hds.2 (List.cons_ne_nil e es) hr
      refine ⟨left', ?_, hleft'⟩
      rw [readMembers_of_comma hread (hleft.trans hcomma), hmembers]
      rfl

end

/-! ### Whole texts -/

/-- A text is read as a type if nothing but blanks is left behind it. -/
theorem parse_eq_ok {text : String} {t : TypeTree} :
    parse text = .ok t ↔ ∃ left, readType text.toList = .ok (t, left) ∧ Text.trimStart left = [] := by
  rw [parse, parseChars, typeFrom_eq_readType (by omega)]
  cases hread : readType text.toList with
  | error e => simp
  | ok a =>
      obtain ⟨t', left⟩ := a
      dsimp only
      cases hleft : Text.trimStart left with
      | nil => simp [hleft]
      | cons c r =>
          dsimp only
          constructor
          · intro h
            cases h
          · rintro ⟨left', he, hnil⟩
            cases he
            rw [hleft] at hnil
            cases hnil

theorem parse_eq_ok_iff_derives {text : String} {t : TypeTree} :
    parse text = .ok t ↔ ∃ d : Derivation, d.Derives text ∧ d.tree = t := by
  rw [parse_eq_ok]
  constructor
  · rintro ⟨left, hread, hleft⟩
    obtain ⟨d, hregular, htree, hspells⟩ := (spells_of_readers _).1 hread
    have hblanks : Spells left [] [] := Spells.of_trimStart (hleft ▸ .done [])
    have hwhole := hspells.append hblanks
    rw [List.append_nil] at hwhole
    exact ⟨d, ⟨hregular, hwhole⟩, htree⟩
  · rintro ⟨d, ⟨hregular, hspells⟩, rfl⟩
    exact readType_of_spells hregular hspells (by intro r h; cases h)

/-- Whatever is refused is refused at a place of the text. -/
theorem parse_eq_error {text : String} {f : Fault} (h : parse text = .error f) :
    ∃ position reason, f = .malformedType text position reason ∧ position ≤ text.length := by
  have hplace : ∀ {complaint position}, parseChars text.toList = .error (complaint, position) →
      position ≤ text.length := by
    intro complaint position he
    rw [parseChars] at he
    rw [← String.length_toList]
    split at he
    · cases he
      omega
    · split at he
      · cases he
      · cases he
        omega
  rw [parse] at h
  cases hchars : parseChars text.toList with
  | ok t => rw [hchars] at h; cases h
  | error e =>
      obtain ⟨complaint, position⟩ := e
      rw [hchars] at h
      cases h
      exact ⟨position, complaint.message, rfl, hplace hchars⟩

/-- **A text is read as the type of its only derivation**; without one it is refused, at a place of the text. -/
theorem parse_accepts_grammar (text : String) :
    (∀ t, parse text = .ok t ↔ ∃ d : Derivation, d.Derives text ∧ d.tree = t) ∧
    (∀ d e : Derivation, d.Derives text → e.Derives text → d = e) ∧
    ((¬∃ d : Derivation, d.Derives text) →
      ∃ position reason, parse text = .error (.malformedType text position reason) ∧ position ≤ text.length) := by
  refine ⟨fun t => parse_eq_ok_iff_derives, fun d e hd he => ?_, fun hno => ?_⟩
  · have hread : parse text = .ok d.tree := parse_eq_ok_iff_derives.2 ⟨d, hd, rfl⟩
    have hread' : parse text = .ok e.tree := parse_eq_ok_iff_derives.2 ⟨e, he, rfl⟩
    exact eq_of_tree_eq hd.1 he.1 (Except.ok.inj (hread.symm.trans hread'))
  · cases h : parse text with
    | ok t =>
        obtain ⟨d, hd, -⟩ := parse_eq_ok_iff_derives.1 h
        exact absurd ⟨d, hd⟩ hno
    | error f =>
        obtain ⟨position, reason, rfl, hposition⟩ := parse_eq_error h
        exact ⟨position, reason, rfl, hposition⟩

/-- Whether a result is the map of `a` to the empty tuple. -/
def isMapOfA : Except Fault TypeTree → Bool
  | .ok (.map (.primitive key) (.tuple [])) => key == "a"
  | _ => false

theorem eq_of_isMapOfA {result : Except Fault TypeTree} (h : isMapOfA result = true) :
    result = .ok (.map (.primitive "a") (.tuple [])) := by
  unfold isMapOfA at h
  split at h
  · rw [eq_of_beq h]
  · cases h

/-- A map with blanks between its tokens, and a list that lacks a member. -/
theorem parse_accepts_grammar_map :
    (∃ d : Derivation, d.Derives " map\t(a ,\u00a0( ))" ∧ d.tree = .map (.primitive "a") (.tuple [])) ∧
    (¬∃ d : Derivation, d.Derives "(a,,b)") ∧
    ∃ position reason, parse "(a,,b)" = .error (.malformedType "(a,,b)" position reason) ∧
      position ≤ "(a,,b)".length := by
  have hread : parse " map\t(a ,\u00a0( ))" = .ok (.map (.primitive "a") (.tuple [])) :=
    eq_of_isMapOfA (by decide +kernel)
  have hfails : (parse "(a,,b)").isOk = false := by decide +kernel
  have hrefused : ¬∃ d : Derivation, d.Derives "(a,,b)" := by
    rintro ⟨d, hd⟩
    rw [((parse_accepts_grammar "(a,,b)").1 d.tree).2 ⟨d, hd, rfl⟩] at hfails
    cases hfails
  exact ⟨((parse_accepts_grammar _).1 _).1 hread, hrefused, (parse_accepts_grammar "(a,,b)").2.2 hrefused⟩

end SophiaBind.TypeTree
