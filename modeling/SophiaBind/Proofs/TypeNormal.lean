/-
**What the text of a type keeps of the type.**

Two kinds of types have the same text as others. A record is written as the tuple of its fields' types,
where a record with fields that is itself a field is written without its parentheses; and a constructor
applied to nothing is written as its name. The normal form of a type is the tree that the text shows:
records are tuples, with the fields of nested records in their places, and nothing is applied to nothing.

Main definitions:

* `TypeTree.norm` — the normal form,
* `TypeTree.Plain` — types without records and without constructors applied to nothing,
* `TypeTree.Named` — types whose names can be read.

Main results:

* `TypeTree.render_norm` — **a type and its normal form have the same text**,
* `TypeTree.plain_norm`, `TypeTree.norm_eq_self` — normal forms are the plain types,
* `TypeTree.Named.norm` — normal forms have the names of the type.
-/

import SophiaBind.TypeTree.Parser

namespace SophiaBind.TypeTree

/-! ### Normal forms -/

mutual

/-- The tree that the text of a type shows. -/
def norm : TypeTree → TypeTree
  | .primitive name => .primitive name
  | .list items => .list (normAll items)
  | .tuple items => .tuple (normAll items)
  | .record fields => .tuple (normFields fields)
  | .map key value => .map (norm key) (norm value)
  | .applied name [] => .primitive name
  | .applied name (arg :: args) => .applied name (normAll (arg :: args))

/-- The normal form of each type. -/
def normAll : List TypeTree → List TypeTree
  | [] => []
  | t :: rest => norm t :: normAll rest

/-- The normal forms of the fields' types; a record with fields has those of its fields instead. -/
def normFields : List (String × TypeTree) → List TypeTree
  | [] => []
  | (_, .record (f :: fs)) :: rest => normFields (f :: fs) ++ normFields rest
  | (_, t) :: rest => norm t :: normFields rest

end

mutual

/-- A type without records and without constructors applied to nothing. -/
def Plain : TypeTree → Prop
  | .primitive _ => True
  | .list items => AllPlain items
  | .tuple items => AllPlain items
  | .record _ => False
  | .map key value => Plain key ∧ Plain value
  | .applied _ args => args ≠ [] ∧ AllPlain args

/-- Plain types. -/
def AllPlain : List TypeTree → Prop
  | [] => True
  | t :: rest => Plain t ∧ AllPlain rest

end

/-- A name that can be read: not empty, and of name characters only. -/
def IsName (name : String) : Prop :=
  name.toList ≠ [] ∧ ∀ c ∈ name.toList, isNameChar c = true

mutual

/-- A type whose names can be read, and which applies neither `list` nor `map` as if they were constructors
like others. -/
def Named : TypeTree → Prop
  | .primitive name => IsName name
  | .list items => AllNamed items
  | .tuple items => AllNamed items
  | .record fields => FieldsNamed fields
  | .map key value => Named key ∧ Named value
  | .applied name args => IsName name ∧ name ≠ "list" ∧ name ≠ "map" ∧ AllNamed args

/-- Types whose names can be read. -/
def AllNamed : List TypeTree → Prop
  | [] => True
  | t :: rest => Named t ∧ AllNamed rest

/-- Fields whose types have names that can be read; the fields' own names do not show. -/
def FieldsNamed : List (String × TypeTree) → Prop
  | [] => True
  | (_, t) :: rest => Named t ∧ FieldsNamed rest

end

/-! ### Fields -/

/-- A record with fields within a record stands for its fields. -/
theorem normFields_of_filled (name : String) {t : TypeTree} (rest : List (String × TypeTree))
    (h : t.isFilledRecord = true) :
    ∃ f fs, t = .record (f :: fs) ∧ normFields ((name, t) :: rest) = normFields (f :: fs) ++ normFields rest := by
  cases t with
  | record fields =>
      cases fields with
      | nil => simp [isFilledRecord] at h
      | cons f fs => exact ⟨f, fs, rfl, by rw [normFields]⟩
  | _ => simp [isFilledRecord] at h

/-- Any other field stands for itself. -/
theorem normFields_of_not_filled {name : String} {t : TypeTree} (rest : List (String × TypeTree))
    (h : t.isFilledRecord = false) : normFields ((name, t) :: rest) = norm t :: normFields rest := by
  cases t with
  | record fields =>
      cases fields with
      | nil => rw [normFields]; simp
      | cons f fs => simp [isFilledRecord] at h
  | _ => rw [normFields]; simp

theorem normFields_ne_nil : ∀ {fields : List (String × TypeTree)}, fields ≠ [] → normFields fields ≠ []
  | [], h => absurd rfl h
  | (name, t) :: rest, _ => by
      cases hf : t.isFilledRecord with
      | true =>
          obtain ⟨f, fs, rfl, he⟩ := normFields_of_filled name rest hf
          rw [he]
          have : normFields (f :: fs) ≠ [] := normFields_ne_nil (List.cons_ne_nil f fs)
          simp [this]
      | false =>
          rw [normFields_of_not_filled rest hf]
          exact List.cons_ne_nil _ _

/-! ### Normal forms are plain -/

theorem allPlain_append {ts us : List TypeTree} (hts : AllPlain ts) (hus : AllPlain us) :
    AllPlain (ts ++ us) := by
  induction ts with
  | nil => exact hus
  | cons t rest ih => exact ⟨hts.1, ih hts.2⟩

mutual

/-- A normal form has neither records nor constructors applied to nothing. -/
theorem plain_norm : ∀ t : TypeTree, Plain (norm t)
  | .primitive _ => trivial
  | .list items => by rw [norm]; exact allPlain_normAll items
  | .tuple items => by rw [norm]; exact allPlain_normAll items
  | .record fields => by rw [norm]; exact allPlain_normFields fields
  | .map key value => by rw [norm]; exact ⟨plain_norm key, plain_norm value⟩
  | .applied _ [] => trivial
  | .applied _ (arg :: args) => by
      rw [norm]
      exact ⟨by simp [normAll], allPlain_normAll (arg :: args)⟩

theorem allPlain_normAll : ∀ ts : List TypeTree, AllPlain (normAll ts)
  | [] => trivial
  | t :: rest => ⟨plain_norm t, allPlain_normAll rest⟩

theorem allPlain_normFields : ∀ fields : List (String × TypeTree), AllPlain (normFields fields)
  | [] => trivial
  | (name, t) :: rest => by
      have hrest := allPlain_normFields rest
      cases hf : t.isFilledRecord with
      | true =>
          obtain ⟨f, fs, rfl, he⟩ := normFields_of_filled name rest hf
          rw [he]
          exact allPlain_append (allPlain_normFields (f :: fs)) hrest
      | false =>
          rw [normFields_of_not_filled rest hf]
          exact ⟨plain_norm t, hrest⟩

end

mutual

/-- A plain type is its own normal form. -/
theorem norm_eq_self : ∀ {t : TypeTree}, Plain t → norm t = t
  | .primitive _, _ => rfl
  | .list items, h => by rw [norm, normAll_eq_self (show AllPlain items from h)]
  | .tuple items, h => by rw [norm, normAll_eq_self (show AllPlain items from h)]
  | .map key value, h => by rw [norm, norm_eq_self h.1, norm_eq_self h.2]
  | .applied _ [], h => absurd rfl h.1
  | .applied _ (arg :: args), h => by rw [norm, normAll_eq_self h.2]

theorem normAll_eq_self : ∀ {ts : List TypeTree}, AllPlain ts → normAll ts = ts
  | [], _ => rfl
  | t :: rest, h => by rw [normAll, norm_eq_self h.1, normAll_eq_self h.2]

end

/-! ### Normal forms keep the names -/

theorem allNamed_append {ts us : List TypeTree} (hts : AllNamed ts) (hus : AllNamed us) :
    AllNamed (ts ++ us) := by
  induction ts with
  | nil => exact hus
  | cons t rest ih => exact ⟨hts.1, ih hts.2⟩

mutual

/-- The names of a normal form are names of the type. -/
theorem Named.norm : ∀ {t : TypeTree}, Named t → Named t.norm
  | .primitive _, h => h
  | .list items, h => by rw [TypeTree.norm]; exact AllNamed.normAll (show AllNamed items from h)
  | .tuple items, h => by rw [TypeTree.norm]; exact AllNamed.normAll (show AllNamed items from h)
  | .record fields, h => by rw [TypeTree.norm]; exact FieldsNamed.normFields (show FieldsNamed fields from h)
  | .map key value, h => by rw [TypeTree.norm]; exact ⟨Named.norm h.1, Named.norm h.2⟩
  | .applied _ [], h => h.1
  | .applied _ (arg :: args), h => by
      rw [TypeTree.norm]
      exact ⟨h.1, h.2.1, h.2.2.1, AllNamed.normAll h.2.2.2⟩

theorem AllNamed.normAll : ∀ {ts : List TypeTree}, AllNamed ts → AllNamed (normAll ts)
  | [], _ => trivial
  | t :: rest, h => ⟨Named.norm h.1, AllNamed.normAll h.2⟩

theorem FieldsNamed.normFields : ∀ {fields : List (String × TypeTree)}, FieldsNamed fields →
    AllNamed (normFields fields)
  | [], _ => trivial
  | (name, t) :: rest, h => by
      have hrest := FieldsNamed.normFields h.2
      cases hf : t.isFilledRecord with
      | true =>
          obtain ⟨f, fs, rfl, he⟩ := normFields_of_filled name rest hf
          rw [he]
          exact allNamed_append (FieldsNamed.normFields (show FieldsNamed (f :: fs) from h.1)) hrest
      | false =>
          rw [normFields_of_not_filled rest hf]
          exact ⟨Named.norm h.1, hrest⟩

end

/-! ### Normal forms keep the text -/

theorem joinCommas_cons (part : List Char) {rest : List (List Char)} (h : rest ≠ []) :
    joinCommas (part :: rest) = part ++ ',' :: joinCommas rest := by
  cases rest with
  | nil => exact absurd rfl h
  | cons q rest => rfl

theorem joinCommas_eq_flatMap (part : List Char) (parts : List (List Char)) :
    joinCommas (part :: parts) = part ++ parts.flatMap (',' :: ·) := by
  induction parts generalizing part with
  | nil => simp [joinCommas]
  | cons q parts ih => rw [joinCommas_cons part (List.cons_ne_nil q parts), ih q, List.flatMap_cons, List.cons_append]

/-- Joining adds nothing but commas. -/
theorem mem_joinCommas {c : Char} (hc : c ≠ ',') (parts : List (List Char)) :
    c ∈ joinCommas parts ↔ ∃ part ∈ parts, c ∈ part := by
  induction parts with
  | nil => simp [joinCommas]
  | cons part rest ih =>
      cases rest with
      | nil => simp [joinCommas]
      | cons q rest =>
          rw [joinCommas_cons part (List.cons_ne_nil q rest), List.mem_append, List.mem_cons, ih]
          simp [hc]

/-- Joining some parts first changes nothing. -/
theorem joinCommas_append {ps : List (List Char)} (hps : ps ≠ []) (qs : List (List Char)) :
    joinCommas (ps ++ qs) = joinCommas (joinCommas ps :: qs) := by
  induction ps with
  | nil => exact absurd rfl hps
  | cons p ps ih =>
      cases ps with
      | nil => rfl
      | cons p' ps =>
          have hne : p' :: ps ++ qs ≠ [] := List.cons_ne_nil _ _
          rw [List.cons_append, joinCommas_cons p hne, ih (List.cons_ne_nil _ _),
            joinCommas_cons p (List.cons_ne_nil p' ps)]
          cases qs with
          | nil => rfl
          | cons q qs =>
              rw [joinCommas_cons _ (List.cons_ne_nil q qs), joinCommas_cons _ (List.cons_ne_nil q qs)]
              simp

theorem renderAll_append (ts us : List TypeTree) : renderAll (ts ++ us) = renderAll ts ++ renderAll us := by
  induction ts with
  | nil => rfl
  | cons t rest ih => rw [List.cons_append, renderAll_cons, renderAll_cons, ih, List.cons_append]

theorem renderAll_ne_nil {ts : List TypeTree} (h : ts ≠ []) : renderAll ts ≠ [] := by
  cases ts with
  | nil => exact absurd rfl h
  | cons t rest => exact List.cons_ne_nil _ _

theorem stripParens_parens (cs : List Char) : stripParens ('(' :: (cs ++ [')'])) = cs := by
  simp [stripParens]

/-- A record with fields within a record loses exactly its own parentheses. -/
theorem renderFields_of_filled (name : String) (f : String × TypeTree) (fs rest : List (String × TypeTree)) :
    renderFields ((name, .record (f :: fs)) :: rest) =
      joinCommas (renderFields (f :: fs)) :: renderFields rest := by
  have hf : isFilledRecord (.record (f :: fs)) = true := rfl
  rw [renderFields_cons name (.record (f :: fs)) rest, if_pos hf, renderChars_record, List.cons_append,
    stripParens_parens]

theorem renderFields_of_not_filled (name : String) {t : TypeTree} (rest : List (String × TypeTree))
    (h : t.isFilledRecord = false) :
    renderFields ((name, t) :: rest) = renderChars t :: renderFields rest := by
  rw [renderFields_cons, h]
  rfl

mutual

theorem renderChars_norm : ∀ t : TypeTree, renderChars (norm t) = renderChars t
  | .primitive _ => rfl
  | .list items => by rw [norm, renderChars_list, renderChars_list, renderAll_normAll items]
  | .tuple items => by rw [norm, renderChars_tuple, renderChars_tuple, renderAll_normAll items]
  | .record fields => by rw [norm, renderChars_tuple, renderChars_record, joinCommas_renderAll_normFields fields]
  | .map key value => by rw [norm, renderChars_map, renderChars_map, renderChars_norm key, renderChars_norm value]
  | .applied _ [] => rfl
  | .applied name (arg :: args) => by
      have hne : normAll (arg :: args) ≠ [] := by simp [normAll]
      rw [norm, renderChars_applied name hne, renderChars_applied name (List.cons_ne_nil arg args),
        renderAll_normAll (arg :: args)]

theorem renderAll_normAll : ∀ ts : List TypeTree, renderAll (normAll ts) = renderAll ts
  | [] => rfl
  | t :: rest => by rw [normAll, renderAll_cons, renderAll_cons, renderChars_norm t, renderAll_normAll rest]

/-- The fields of a nested record take the place of its text without parentheses. -/
theorem joinCommas_renderAll_normFields : ∀ fields : List (String × TypeTree),
    joinCommas (renderAll (normFields fields)) = joinCommas (renderFields fields)
  | [] => rfl
  | (name, t) :: rest => by
      have hrest := joinCommas_renderAll_normFields rest
      -- a comma follows a part if and only if there are more fields, on both sides
      have hcons : ∀ part, joinCommas (part :: renderAll (normFields rest)) =
          joinCommas (part :: renderFields rest) := by
        intro part
        cases rest with
        | nil => rfl
        | cons f fs =>
            have hne := renderAll_ne_nil (normFields_ne_nil (List.cons_ne_nil f fs))
            have hne' : renderFields (f :: fs) ≠ [] := List.cons_ne_nil _ _
            rw [joinCommas_cons part hne, hrest, joinCommas_cons part hne']
      cases hf : t.isFilledRecord with
      | true =>
          obtain ⟨f, fs, rfl, he⟩ := normFields_of_filled name rest hf
          have hne := renderAll_ne_nil (normFields_ne_nil (List.cons_ne_nil f fs))
          rw [he, renderAll_append, joinCommas_append hne, joinCommas_renderAll_normFields (f :: fs), hcons,
            renderFields_of_filled]
      | false =>
          rw [normFields_of_not_filled rest hf, renderAll_cons, hcons, renderChars_norm t,
            renderFields_of_not_filled name rest hf]

end

/-- **A type and its normal form have the same text.** -/
theorem render_norm (t : TypeTree) : render (norm t) = render t := by
  rw [render, renderChars_norm, render]

end SophiaBind.TypeTree
