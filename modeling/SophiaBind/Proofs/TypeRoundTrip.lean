/-
**Reading a type's text gives its normal form.**

The text of a plain type is read back as that type, by induction on the type along the constructors and
the lists of the readers: a name ends where a comma, a closing parenthesis or the text's end follows, and
behind every member stands exactly one of the first two. Any other type has the text of its normal form,
which is plain.

Main results:

* `TypeTree.readType_renderChars`, `TypeTree.readMembers_parens` — **a plain type is read back**, whatever
  follows it,
* `TypeTree.parse_render` — **reading what was rendered gives the normal form**, which is the type itself
  for plain types.
-/

import SophiaBind.Proofs.Characters
import SophiaBind.Proofs.Spans
import SophiaBind.Proofs.TypeNormal
import SophiaBind.Proofs.TypeReading

namespace SophiaBind.TypeTree

/-! ### Beginnings and ends -/

/-- A text that is read from its first character on, and that does not close a list. -/
def Begins (cs : List Char) : Prop :=
  ∃ c r, cs = c :: r ∧ Text.isBlank c = false ∧ c ≠ ')'

/-- A text at which a type ends. -/
def Ends (cs : List Char) : Prop :=
  ∀ c r, cs = c :: r → c = ',' ∨ c = ')'

theorem Begins.append {cs : List Char} (h : Begins cs) (ds : List Char) : Begins (cs ++ ds) := by
  obtain ⟨c, r, rfl, hb, hc⟩ := h
  exact ⟨c, r ++ ds, rfl, hb, hc⟩

theorem trimStart_cons {c : Char} (h : Text.isBlank c = false) (r : List Char) :
    Text.trimStart (c :: r) = c :: r :=
  Text.trimStart_eq_self (by simp [h])

theorem Begins.trimStart {cs : List Char} (h : Begins cs) : Text.trimStart cs = cs := by
  obtain ⟨c, r, rfl, hb, -⟩ := h
  exact trimStart_cons hb r

theorem Begins.ne_close {cs : List Char} (h : Begins cs) (r : List Char) : cs ≠ ')' :: r := by
  obtain ⟨c, r', rfl, -, hc⟩ := h
  intro he
  cases he
  exact hc rfl

theorem Ends.trimStart {cs : List Char} (h : Ends cs) : Text.trimStart cs = cs := by
  cases cs with
  | nil => rfl
  | cons c r =>
      refine trimStart_cons ?_ r
      rcases h c r rfl with rfl | rfl <;> decide

theorem Ends.not_isNameChar {cs : List Char} (h : Ends cs) : ∀ c ∈ cs.head?, isNameChar c = false := by
  intro c hc
  obtain ⟨r, rfl⟩ := List.head?_eq_some_iff.1 hc
  rcases h c r rfl with rfl | rfl <;> decide

/-! ### Names -/

section Name

variable {name : String} (hname : IsName name)

include hname

theorem begins_of_isName : Begins name.toList := by
  obtain ⟨hne, hall⟩ := hname
  obtain ⟨c, r, hc⟩ := List.exists_cons_of_ne_nil hne
  have hchar := hall c (by rw [hc]; exact List.mem_cons_self)
  refine ⟨c, r, hc, isBlank_of_isNameChar hchar, ?_⟩
  rintro rfl
  revert hchar
  decide

/-- A name is the longest run of name characters if none follows. -/
theorem spans_name (rest : List Char) (h : ∀ c ∈ rest.head?, isNameChar c = false) :
    (name.toList ++ rest).takeWhile isNameChar = name.toList ∧
      (name.toList ++ rest).dropWhile isNameChar = rest :=
  Text.span_append hname.2 h

/-- A name is read where a type ends. -/
theorem readType_name {rest : List Char} (h : Ends rest) :
    readType (name.toList ++ rest) = .ok (.primitive name, rest) := by
  have htrim : Text.trimStart (name.toList ++ rest) = name.toList ++ rest :=
    ((begins_of_isName hname).append rest).trimStart
  have hspan := spans_name hname rest h.not_isNameChar
  have hno : ∀ r, rest ≠ '(' :: r := by
    intro r hr
    have := h '(' r hr
    revert this
    decide
  have hread := @readType_of_bare_name (name.toList ++ rest)
  rw [htrim, hspan.1, hspan.2, h.trimStart, String.ofList_toList] at hread
  exact hread hname.1 hno

/-- A name and the list behind it are read. -/
theorem readType_name_list {body rest : List Char} {args : List TypeTree} {t : TypeTree}
    (hargs : readList body = .ok (args, rest)) (ht : construct name.toList args rest.length = .ok t) :
    readType (name.toList ++ '(' :: body) = .ok (t, rest) := by
  have htrim : Text.trimStart (name.toList ++ '(' :: body) = name.toList ++ '(' :: body :=
    ((begins_of_isName hname).append _).trimStart
  have hspan := spans_name hname ('(' :: body) fun c hc => by
    cases hc
    decide
  have hread := @readType_of_name (name.toList ++ '(' :: body)
  rw [htrim, hspan.1, hspan.2] at hread
  rw [hread hname.1 (trimStart_cons (by decide) body), hargs]
  simp only [Except.bind, ht, Except.map]

end Name

/-- Whether a text is a name can be computed. -/
theorem isName_of_all {name : String} (hne : name.toList ≠ []) (h : name.toList.all isNameChar = true) :
    IsName name :=
  ⟨hne, List.all_eq_true.1 h⟩

theorem isName_list : IsName "list" := isName_of_all (by decide) (by decide)

theorem isName_map : IsName "map" := isName_of_all (by decide) (by decide)

/-- A named constructor other than `list` and `map` is an application. -/
theorem construct_applied {name : String} (hlist : name ≠ "list") (hmap : name ≠ "map")
    (args : List TypeTree) (left : Nat) : construct name.toList args left = .ok (.applied name args) := by
  have hl : name.toList ≠ "list".toList := fun h => hlist (String.toList_inj.1 h)
  have hm : name.toList ≠ "map".toList := fun h => hmap (String.toList_inj.1 h)
  unfold construct
  rw [if_neg hl, if_neg hm, String.ofList_toList]

/-! ### Lists -/

theorem ends_comma (cs : List Char) : Ends (',' :: cs) := by
  intro c r h
  cases h
  exact .inl rfl

theorem ends_close (cs : List Char) : Ends (')' :: cs) := by
  intro c r h
  cases h
  exact .inr rfl

theorem readList_of_begins {cs : List Char} (h : Begins cs) : readList cs = readMembers cs := by
  have hread := @readList_of_member cs
  rw [h.trimStart] at hread
  exact hread h.ne_close

/-- The last member is read. -/
theorem readMembers_last {part rest : List Char} {t : TypeTree}
    (ht : readType (part ++ ')' :: rest) = .ok (t, ')' :: rest)) :
    readMembers (part ++ ')' :: rest) = .ok ([t], rest) :=
  readMembers_of_close ht (trimStart_cons (by decide) rest)

/-- A member before others is read. -/
theorem readMembers_cons {part more rest : List Char} {t : TypeTree} {ts : List TypeTree}
    (ht : readType (part ++ ',' :: more) = .ok (t, ',' :: more)) (hts : readMembers more = .ok (ts, rest)) :
    readMembers (part ++ ',' :: more) = .ok (t :: ts, rest) := by
  rw [readMembers_of_comma ht (trimStart_cons (by decide) more), hts]
  rfl

/-! ### Types -/

/-- The text of a list in parentheses. -/
def parens (ts : List TypeTree) (rest : List Char) : List Char :=
  joinCommas (renderAll ts) ++ ')' :: rest

theorem renderChars_tuple_append (items : List TypeTree) (rest : List Char) :
    renderChars (.tuple items) ++ rest = '(' :: parens items rest := by
  simp [renderChars_tuple, parens]

theorem renderChars_list_append (items : List TypeTree) (rest : List Char) :
    renderChars (.list items) ++ rest = "list".toList ++ '(' :: parens items rest := by
  simp [renderChars_list, parens]

theorem renderChars_map_append (key value : TypeTree) (rest : List Char) :
    renderChars (.map key value) ++ rest = "map".toList ++ '(' :: parens [key, value] rest := by
  simp [renderChars_map, parens, renderAll, joinCommas]

theorem renderChars_applied_append (name : String) {args : List TypeTree} (h : args ≠ []) (rest : List Char) :
    renderChars (.applied name args) ++ rest = name.toList ++ '(' :: parens args rest := by
  rw [renderChars_applied name h]
  simp [parens]

theorem parens_cons (t : TypeTree) {ts : List TypeTree} (h : ts ≠ []) (rest : List Char) :
    parens (t :: ts) rest = renderChars t ++ ',' :: parens ts rest := by
  rw [parens, parens, renderAll_cons, joinCommas_cons _ (renderAll_ne_nil h), List.append_assoc, List.cons_append]

theorem begins_renderChars {t : TypeTree} (hp : Plain t) (hn : Named t) (rest : List Char) :
    Begins (renderChars t ++ rest) := by
  cases t with
  | primitive name => exact (begins_of_isName hn).append rest
  | list items => rw [renderChars_list_append]; exact (begins_of_isName isName_list).append _
  | tuple items => exact ⟨'(', _, renderChars_tuple_append items rest, by decide, by decide⟩
  | record fields => exact absurd hp id
  | map key value => rw [renderChars_map_append]; exact (begins_of_isName isName_map).append _
  | applied name args =>
      rw [renderChars_applied_append name hp.1]
      exact (begins_of_isName hn.1).append _

theorem begins_parens {ts : List TypeTree} (h : ts ≠ []) (hp : AllPlain ts) (hn : AllNamed ts)
    (rest : List Char) : Begins (parens ts rest) := by
  cases ts with
  | nil => exact absurd rfl h
  | cons t ts =>
      cases ts with
      | nil => exact begins_renderChars hp.1 hn.1 _
      | cons u us =>
          rw [parens_cons t (List.cons_ne_nil u us)]
          exact begins_renderChars hp.1 hn.1 _

/-- A list in parentheses is read if its members are. -/
theorem readList_parens {ts : List TypeTree} (hp : AllPlain ts) (hn : AllNamed ts) (rest : List Char)
    (h : ts ≠ [] → readMembers (parens ts rest) = .ok (ts, rest)) :
    readList (parens ts rest) = .ok (ts, rest) := by
  by_cases hts : ts = []
  · subst hts
    exact readList_of_close (trimStart_cons (by decide) rest)
  · rw [readList_of_begins (begins_parens hts hp hn rest), h hts]

mutual

/-- **A plain type is read back**, where a type ends. -/
theorem readType_renderChars : ∀ {t : TypeTree} {rest : List Char}, Plain t → Named t → Ends rest →
    readType (renderChars t ++ rest) = .ok (t, rest)
  | .primitive _, _, _, hn, hr => readType_name hn hr
  | .list items, rest, hp, hn, _ => by
      have hitems := readList_parens hp hn rest fun h => readMembers_parens hp hn h
      rw [renderChars_list_append]
      exact readType_name_list isName_list hitems rfl
  | .tuple items, rest, hp, hn, _ => by
      have hitems := readList_parens hp hn rest fun h => readMembers_parens hp hn h
      rw [renderChars_tuple_append, readType_of_open (trimStart_cons (by decide) _), hitems]
      rfl
  | .map key value, rest, hp, hn, _ => by
      -- the text is that of a list of two behind the name
      have hkey := readType_renderChars hp.1 hn.1 (ends_comma (parens [value] rest))
      have hvalue := readType_renderChars hp.2 hn.2 (ends_close rest)
      have hboth : readMembers (parens [key, value] rest) = .ok ([key, value], rest) := by
        rw [parens_cons key (List.cons_ne_nil value [])]
        exact readMembers_cons hkey (readMembers_last hvalue)
      have hitems := @readList_parens [key, value] ⟨hp.1, hp.2, trivial⟩ ⟨hn.1, hn.2, trivial⟩ rest
        fun _ => hboth
      rw [renderChars_map_append]
      exact readType_name_list isName_map hitems rfl
  | .applied name args, rest, hp, hn, _ => by
      have hargs := readList_parens hp.2 hn.2.2.2 rest fun h => readMembers_parens hp.2 hn.2.2.2 h
      rw [renderChars_applied_append name hp.1]
      exact readType_name_list hn.1 hargs (construct_applied hn.2.1 hn.2.2.1 args rest.length)

/-- **The members of a list are read back.** -/
theorem readMembers_parens : ∀ {ts : List TypeTree} {rest : List Char}, AllPlain ts → AllNamed ts → ts ≠ [] →
    readMembers (parens ts rest) = .ok (ts, rest)
  | [], _, _, _, h => absurd rfl h
  | [t], rest, hp, hn, _ => readMembers_last (readType_renderChars hp.1 hn.1 (ends_close rest))
  | t :: u :: us, rest, hp, hn, _ => by
      have ht := readType_renderChars hp.1 hn.1 (ends_comma (parens (u :: us) rest))
      have hrest := @readMembers_parens (u :: us) rest hp.2 hn.2 (List.cons_ne_nil u us)
      rw [parens_cons t (List.cons_ne_nil u us)]
      exact readMembers_cons ht hrest

end

/-- A plain type's text is read as that type. -/
theorem parse_render_of_plain {t : TypeTree} (hp : Plain t) (hn : Named t) : parse (render t) = .ok t := by
  have hread := @readType_renderChars t [] hp hn (by intro c r h; cases h)
  rw [List.append_nil] at hread
  refine parse_of_readType ?_
  rw [render, String.toList_ofList, hread]

/-- **Reading what was rendered gives the normal form**, which has the same text, and which is the type
itself if that has neither records nor constructors applied to nothing. -/
theorem parse_render (t : TypeTree) (h : Named t) :
    parse (render t) = .ok (norm t) ∧ (Plain t → parse (render t) = .ok t) ∧ render (norm t) = render t := by
  have hread : parse (render t) = .ok (norm t) := by
    rw [← render_norm t]
    exact parse_render_of_plain (plain_norm t) h.norm
  refine ⟨hread, fun hp => ?_, render_norm t⟩
  rw [hread, norm_eq_self hp]

/-- A record with a record, an empty record and a constructor applied to nothing within it. -/
def nestedRecord : TypeTree :=
  .record [("a", .primitive "int"),
    ("b", .record [("c", .record []), ("d", .applied "option" [.map (.primitive "address") (.applied "hash" [])])])]

theorem parse_render_nestedRecord :
    Named nestedRecord ∧ nestedRecord.render = "(int,(),option(map(address,hash)))" ∧
    parse nestedRecord.render =
      .ok (.tuple [.primitive "int", .tuple [],
        .applied "option" [.map (.primitive "address") (.primitive "hash")]]) := by
  have hint : IsName "int" := isName_of_all (by decide) (by decide)
  have haddress : IsName "address" := isName_of_all (by decide) (by decide)
  have hhash : IsName "hash" := isName_of_all (by decide) (by decide)
  have hoption : IsName "option" := isName_of_all (by decide) (by decide)
  have hmap : Named (.map (.primitive "address") (.applied "hash" [])) :=
    ⟨haddress, hhash, by decide, by decide, trivial⟩
  have hn : Named nestedRecord :=
    ⟨hint, ⟨trivial, ⟨hoption, by decide, by decide, hmap, trivial⟩, trivial⟩, trivial⟩
  refine ⟨hn, by decide, ?_⟩
  rw [(parse_render nestedRecord hn).1]
  simp [nestedRecord, norm, normAll, normFields]

end SophiaBind.TypeTree
