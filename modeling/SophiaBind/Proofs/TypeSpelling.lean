/-
**What is left of a text that is read as a type and written again.**

A text spells the tokens of a derivation with blanks between, and the text of the derived type is that of its
tokens, but for one thing: a constructor applied to nothing is written as its name, so that an empty list
behind a name is lost. Only `list` keeps it, which is a type of its own.

Main definitions:

* `TypeTree.Token.chars`, `TypeTree.charsOf` — the text of tokens without blanks,
* `TypeTree.dropEmptyLists` — a text without the empty lists behind names other than `list`.

Main results:

* `TypeTree.Spells.squeeze_eq` — **a text without its blanks is that of its tokens**,
* `TypeTree.dropEmptyListsFrom_tokens` — **the tokens of a derivation and the text of its type**,
* `TypeTree.render_of_parse` — a text that is read and written again is left without blanks and without empty
  lists behind names.
-/

import SophiaBind.Proofs.Results
import SophiaBind.Proofs.TypeDerivation
import SophiaBind.Proofs.TypeRoundTrip

namespace SophiaBind.TypeTree

open TypeTree.Derivation

/-! ### The text of tokens -/

/-- The text of a token. -/
def Token.chars : Token → List Char
  | .name s => s.toList
  | .mark m => [m.char]

/-- The text of tokens, without blanks between. -/
def charsOf (ts : List Token) : List Char :=
  ts.flatMap Token.chars

theorem charsOf_cons (t : Token) (ts : List Token) : charsOf (t :: ts) = t.chars ++ charsOf ts :=
  List.flatMap_cons

theorem charsOf_append (ts us : List Token) : charsOf (ts ++ us) = charsOf ts ++ charsOf us :=
  List.flatMap_append

theorem squeeze_cons_of_blank {c : Char} (h : Text.isBlank c = true) (cs : List Char) :
    Text.squeeze (c :: cs) = Text.squeeze cs :=
  List.filter_cons_of_neg (by simp [h])

theorem squeeze_append_of_forall {cs : List Char} (h : ∀ c ∈ cs, Text.isBlank c = false) (ds : List Char) :
    Text.squeeze (cs ++ ds) = cs ++ Text.squeeze ds := by
  rw [Text.squeeze, List.filter_append, List.filter_eq_self.2 fun c hc => by simp [h c hc], Text.squeeze]

/-- **A text without its blanks is that of its tokens**, and of the rest. -/
theorem Spells.squeeze_eq {cs rest : List Char} {ts : List Token} (h : Spells cs ts rest) :
    Text.squeeze cs = charsOf ts ++ Text.squeeze rest := by
  induction h with
  | done rest => rfl
  | blank hc _ ih => rw [squeeze_cons_of_blank hc, ih]
  | mark m _ ih =>
      have hmark : ∀ c ∈ [m.char], Text.isBlank c = false := by simp [m.not_isBlank]
      rw [← List.singleton_append, squeeze_append_of_forall hmark, ih, charsOf_cons, List.append_assoc, Token.chars]
  | name hname _ _ ih =>
      rw [squeeze_append_of_forall fun c hc => isBlank_of_isNameChar (hname.2 c hc), ih, charsOf_cons,
        List.append_assoc, Token.chars]

/-- The names among the tokens of a text are names. -/
theorem Spells.isName {cs rest : List Char} {ts : List Token} (h : Spells cs ts rest) {name : String}
    (hname : .name name ∈ ts) : IsName name := by
  induction h with
  | done _ => cases hname
  | blank _ _ ih => exact ih hname
  | mark m _ ih => exact ih ((List.mem_cons.1 hname).resolve_left (by simp))
  | name hisName _ _ ih =>
      rcases List.mem_cons.1 hname with he | hname
      · obtain rfl := Token.name.inj he
        exact hisName
      · exact ih hname

/-! ### Empty lists behind names -/

/-- Drops the empty lists behind names other than `list`; `name` holds the characters of names directly in front of
the text, last one first. -/
def dropEmptyListsFrom (name : List Char) : List Char → List Char
  | '(' :: ')' :: r =>
    if name = [] ∨ name.reverse = "list".toList then '(' :: ')' :: dropEmptyListsFrom [] r
    else dropEmptyListsFrom [] r
  | c :: r => c :: dropEmptyListsFrom (if isNameChar c then c :: name else []) r
  | [] => []

/-- A text without the empty lists behind names other than `list`. -/
def dropEmptyLists (cs : List Char) : List Char :=
  dropEmptyListsFrom [] cs

section Characters

variable {name cs rest : List Char} {c : Char}

theorem dropEmptyListsFrom_cons (h : ∀ r, c = '(' → cs ≠ ')' :: r) :
    dropEmptyListsFrom name (c :: cs) = c :: dropEmptyListsFrom (if isNameChar c then c :: name else []) cs := by
  rw [dropEmptyListsFrom]
  exact fun r hc => h r hc

theorem dropEmptyListsFrom_opening (h : ∀ r, cs ≠ ')' :: r) :
    dropEmptyListsFrom name ('(' :: cs) = '(' :: dropEmptyListsFrom [] cs :=
  dropEmptyListsFrom_cons fun r _ => h r

/-- Behind a mark other than an opening parenthesis there is no name in front. -/
theorem dropEmptyListsFrom_ends (h : Ends (c :: cs)) :
    dropEmptyListsFrom name (c :: cs) = c :: dropEmptyListsFrom [] cs := by
  have hmark := h c cs rfl
  have hne : c ≠ '(' := by rcases hmark with rfl | rfl <;> decide
  have hchar : isNameChar c = false := by rcases hmark with rfl | rfl <;> decide
  rw [dropEmptyListsFrom_cons fun r hc => absurd hc hne, hchar]
  rfl

theorem Ends.dropEmptyListsFrom_eq (h : Ends cs) : dropEmptyListsFrom name cs = dropEmptyListsFrom [] cs := by
  cases cs with
  | nil => rfl
  | cons c cs => rw [dropEmptyListsFrom_ends h, dropEmptyListsFrom_ends h]

theorem dropEmptyListsFrom_name (h : ∀ c ∈ cs, isNameChar c = true) :
    dropEmptyListsFrom name (cs ++ rest) = cs ++ dropEmptyListsFrom (cs.reverse ++ name) rest := by
  induction cs generalizing name with
  | nil => rfl
  | cons c cs ih =>
      have hc := h c List.mem_cons_self
      have hne : c ≠ '(' := by
        rintro rfl
        revert hc
        decide
      have hrest := @ih (c :: name) fun d hd => h d (List.mem_cons_of_mem c hd)
      rw [List.cons_append, dropEmptyListsFrom_cons fun r he => absurd he hne, if_pos hc, hrest]
      simp

/-- A text in which no name has an empty list behind it stays as it is. -/
theorem dropEmptyListsFrom_eq_self (h : ∀ c, isNameChar c = true → ¬[c, '(', ')'] <:+: cs)
    (hname : name ≠ [] → ¬['(', ')'] <+: cs) : dropEmptyListsFrom name cs = cs := by
  induction cs generalizing name with
  | nil => rfl
  | cons c cs ih =>
      have hrest : ∀ d, isNameChar d = true → ¬[d, '(', ')'] <:+: cs := fun d hd hin =>
        h d hd (List.infix_cons hin)
      by_cases hempty : ['(', ')'] <+: c :: cs
      · -- an empty list without a name in front
        obtain ⟨rfl, r, rfl⟩ : c = '(' ∧ ∃ r, cs = ')' :: r := by
          obtain ⟨r, hr⟩ := hempty
          exact ⟨(List.cons.inj hr).1.symm, r, (List.cons.inj hr).2.symm⟩
        obtain rfl : name = [] := by
          by_contra hne
          exact hname hne hempty
        have hclose : Ends (')' :: r) := fun d s he => .inr (List.cons.inj he).1.symm
        have hbehind := ih hrest fun hne => absurd rfl hne
        rw [dropEmptyListsFrom_ends hclose] at hbehind
        rw [dropEmptyListsFrom, if_pos (.inl rfl), (List.cons.inj hbehind).2]
      · have hne : ∀ r, c = '(' → cs ≠ ')' :: r := by
          rintro r rfl rfl
          exact hempty ⟨r, rfl⟩
        rw [dropEmptyListsFrom_cons hne, ih hrest]
        intro hname' hbegins
        cases hc : isNameChar c with
        | true => exact h c hc (List.cons_prefix_cons.2 ⟨rfl, hbegins⟩).isInfix
        | false => rw [hc] at hname'; exact hname' rfl

end Characters

/-! ### The text of a derived type -/

/-- A name with a list is written as such, but a name other than `list` with an empty list as the name alone. -/
theorem renderChars_treeOf {name : String} {members : List TypeTree} (h : name = "map" → members.length = 2) :
    renderChars (treeOf name members) =
      if members = [] ∧ name ≠ "list" then name.toList
      else name.toList ++ '(' :: (joinCommas (renderAll members) ++ [')']) := by
  rcases treeOf_cases h with ⟨rfl, ht⟩ | ⟨key, value, rfl, rfl, ht⟩ | ⟨hlist, -, ht⟩
  · rw [ht, renderChars_list, if_neg (by simp)]
    simp
  · rw [ht, renderChars_map, if_neg (by simp)]
    simp [renderAll, joinCommas]
  · rw [ht]
    cases members with
    | nil => rw [if_pos ⟨rfl, hlist⟩]; rfl
    | cons t ts =>
        rw [renderChars_applied name (List.cons_ne_nil t ts), if_neg (by simp)]
        simp

/-- What a derivation derives does not begin with a closing parenthesis. -/
theorem charsOf_tokens_ne_close {d : Derivation} (hnames : ∀ name, .name name ∈ d.tokens → IsName name)
    (rest r : List Char) : charsOf d.tokens ++ rest ≠ ')' :: r := by
  have hname : ∀ {name ts}, IsName name → charsOf (.name name :: ts) ++ rest ≠ ')' :: r := by
    intro name ts hname he
    obtain ⟨c, s, hc, hchar⟩ := hname.exists_cons
    rw [charsOf_cons, Token.chars, hc] at he
    obtain rfl := (List.cons.inj he).1
    revert hchar
    decide
  cases d with
  | bare name => exact hname (hnames name List.mem_cons_self)
  | named name members => exact hname (hnames name List.mem_cons_self)
  | alone members =>
      intro he
      cases (List.cons.inj he).1

/-- Behind a member stands a comma or the end of the list. -/
theorem ends_tokensAfter (ds : List Derivation) (rest : List Char) : Ends (charsOf (tokensAfter ds) ++ rest) := by
  intro c r he
  cases ds with
  | nil => exact .inr (List.cons.inj he).1.symm
  | cons d ds => exact .inl (List.cons.inj he).1.symm

theorem charsOf_tokensBehind_ne_close {d : Derivation} {ds : List Derivation}
    (hnames : ∀ name, .name name ∈ tokensBehind (d :: ds) → IsName name) (rest r : List Char) :
    charsOf (tokensBehind (d :: ds)) ++ rest ≠ ')' :: r := by
  rw [tokensBehind, charsOf_append, List.append_assoc]
  exact charsOf_tokens_ne_close (fun name hname => hnames name (List.mem_append_left _ hname)) _ r

mutual

/-- **The tokens of a derivation are the text of its type** but for empty lists behind names. -/
theorem dropEmptyListsFrom_tokens : ∀ {d : Derivation}, d.Regular → (∀ name, .name name ∈ d.tokens → IsName name) →
    ∀ {rest : List Char}, Ends rest →
    dropEmptyListsFrom [] (charsOf d.tokens ++ rest) = renderChars d.tree ++ dropEmptyListsFrom [] rest
  | .bare name, _, hnames, rest, hrest => by
      have hname := hnames name List.mem_cons_self
      rw [tokens, charsOf_cons, Token.chars, List.append_assoc, dropEmptyListsFrom_name hname.2]
      exact congrArg (name.toList ++ ·) hrest.dropEmptyListsFrom_eq
  | .named name [], hd, hnames, rest, _ => by
      have hname := hnames name List.mem_cons_self
      have hchars : charsOf (tokens (.named name [])) ++ rest = name.toList ++ '(' :: ')' :: rest := by
        simp [tokens, tokensBehind, charsOf, Token.chars, Mark.char]
      rw [hchars, dropEmptyListsFrom_name hname.2, dropEmptyListsFrom, List.append_nil, List.reverse_reverse, tree,
        trees, renderChars_treeOf (length_trees [] ▸ hd.1)]
      by_cases hlist : name = "list"
      · subst hlist
        rfl
      · have hkept : ¬(name.toList.reverse = [] ∨ name.toList = "list".toList) := by
          rintro (hnil | he)
          · exact hname.1 (List.reverse_eq_nil_iff.1 hnil)
          · exact hlist (String.toList_inj.1 he)
        rw [if_neg hkept, if_pos ⟨rfl, hlist⟩]
  | .named name (d :: ds), hd, hnames, rest, _ => by
      have hname := hnames name List.mem_cons_self
      have hinner : ∀ other, .name other ∈ tokensBehind (d :: ds) → IsName other := fun other hother =>
        hnames other (List.mem_cons_of_mem _ (List.mem_cons_of_mem _ hother))
      have hmembers := @dropEmptyListsFrom_tokensBehind (d :: ds) hd.2 hinner rest
      rw [tokens, charsOf_cons, charsOf_cons, Token.chars, Token.chars, List.append_assoc,
        dropEmptyListsFrom_name hname.2, Mark.char, List.singleton_append, List.cons_append,
        dropEmptyListsFrom_opening (charsOf_tokensBehind_ne_close hinner rest), hmembers, tree,
        renderChars_treeOf (length_trees (d :: ds) ▸ hd.1), if_neg (by simp [trees])]
      simp
  | .alone [], _, _, rest, _ => rfl
  | .alone (d :: ds), hd, hnames, rest, _ => by
      have hinner : ∀ other, .name other ∈ tokensBehind (d :: ds) → IsName other := fun other hother =>
        hnames other (List.mem_cons_of_mem _ hother)
      have hmembers := @dropEmptyListsFrom_tokensBehind (d :: ds) hd hinner rest
      rw [tokens, charsOf_cons, Token.chars, Mark.char, List.singleton_append, List.cons_append,
        dropEmptyListsFrom_opening (charsOf_tokensBehind_ne_close hinner rest), hmembers, tree, renderChars_tuple]
      simp

/-- The members of a list, up to its closing parenthesis. -/
theorem dropEmptyListsFrom_tokensBehind : ∀ {ds : List Derivation}, AllRegular ds →
    (∀ name, .name name ∈ tokensBehind ds → IsName name) → ∀ {rest : List Char},
    dropEmptyListsFrom [] (charsOf (tokensBehind ds) ++ rest) =
      joinCommas (renderAll (trees ds)) ++ ')' :: dropEmptyListsFrom [] rest
  | [], _, _, rest => dropEmptyListsFrom_ends fun c r he => .inr (List.cons.inj he).1.symm
  | d :: ds, hds, hnames, rest => by
      have hfirst := dropEmptyListsFrom_tokens hds.1 (fun name hname => hnames name (List.mem_append_left _ hname))
        (ends_tokensAfter ds rest)
      have hnamesAfter : ∀ name, .name name ∈ tokensAfter ds → IsName name := fun name hname =>
        hnames name (List.mem_append_right _ hname)
      have hbehind := @dropEmptyListsFrom_tokensAfter ds hds.2 hnamesAfter rest
      rw [tokensBehind, charsOf_append, List.append_assoc, hfirst, hbehind, trees, renderAll_cons,
        joinCommas_eq_flatMap, List.append_assoc]

/-- The members behind the first one. -/
theorem dropEmptyListsFrom_tokensAfter : ∀ {ds : List Derivation}, AllRegular ds →
    (∀ name, .name name ∈ tokensAfter ds → IsName name) → ∀ {rest : List Char},
    dropEmptyListsFrom [] (charsOf (tokensAfter ds) ++ rest) =
      (renderAll (trees ds)).flatMap (',' :: ·) ++ ')' :: dropEmptyListsFrom [] rest
  | [], _, _, rest => dropEmptyListsFrom_ends fun c r he => .inr (List.cons.inj he).1.symm
  | d :: ds, hds, hnames, rest => by
      have hcomma : Ends (',' :: (charsOf d.tokens ++ (charsOf (tokensAfter ds) ++ rest))) := fun c r he =>
        .inl (List.cons.inj he).1.symm
      have hfirst := dropEmptyListsFrom_tokens hds.1
        (fun name hname => hnames name (List.mem_cons_of_mem _ (List.mem_append_left _ hname)))
        (ends_tokensAfter ds rest)
      have hnamesAfter : ∀ name, .name name ∈ tokensAfter ds → IsName name := fun name hname =>
        hnames name (List.mem_cons_of_mem _ (List.mem_append_right _ hname))
      have hbehind := @dropEmptyListsFrom_tokensAfter ds hds.2 hnamesAfter rest
      rw [tokensAfter, charsOf_cons, Token.chars, Mark.char, charsOf_append, List.singleton_append, List.cons_append,
        List.append_assoc, dropEmptyListsFrom_ends hcomma, hfirst, hbehind, trees, renderAll_cons, List.flatMap_cons]
      simp

end

/-! ### Reading and writing again -/

/-- **A text that is read and written again** is left without its blanks, and without the empty lists behind names
other than `list`; where no name has an empty list behind it, nothing but the blanks is lost. -/
theorem render_of_parse {text : String} {t : TypeTree} (h : parse text = .ok t) :
    t.render = String.ofList (dropEmptyLists (Text.squeeze text.toList)) ∧
      ((∀ c, isNameChar c = true → ¬[c, '(', ')'] <:+: Text.squeeze text.toList) →
        t.render = String.ofList (Text.squeeze text.toList)) := by
  obtain ⟨d, ⟨hregular, hspells⟩, rfl⟩ := parse_eq_ok_iff_derives.1 h
  have hsqueeze : Text.squeeze text.toList = charsOf d.tokens ++ [] := hspells.squeeze_eq
  have hend : Ends [] := fun c r he => by cases he
  have htokens := dropEmptyListsFrom_tokens hregular (fun name hname => hspells.isName hname) hend
  have hrender : d.tree.render = String.ofList (dropEmptyLists (Text.squeeze text.toList)) := by
    rw [dropEmptyLists, hsqueeze, htokens, dropEmptyListsFrom, List.append_nil, render]
  refine ⟨hrender, fun hnone => ?_⟩
  rw [hrender, dropEmptyLists, dropEmptyListsFrom_eq_self hnone fun hne => absurd rfl hne]

/-- A map with an application to nothing, an empty list and an empty tuple in it; and one without empty lists. -/
theorem render_of_parse_map :
    (∃ t, parse " map( a( ) , (list( ),b.c,( )))" = .ok t ∧ t.render = "map(a,(list(),b.c,()))" ∧
      t.render = String.ofList (dropEmptyLists (Text.squeeze " map( a( ) , (list( ),b.c,( )))".toList))) ∧
    ∃ t, parse "map(a ,\tlist(b) )" = .ok t ∧
      t.render = String.ofList (Text.squeeze "map(a ,\tlist(b) )".toList) := by
  have hfirst : (parse " map( a( ) , (list( ),b.c,( )))").toOption.map render = some "map(a,(list(),b.c,()))" := by
    decide +kernel
  have hsecond : (parse "map(a ,\tlist(b) )").toOption.map render = some "map(a,list(b))" := by decide +kernel
  have hnone : ¬['(', ')'] <:+: Text.squeeze "map(a ,\tlist(b) )".toList := by decide +kernel
  obtain ⟨t, ht, hrender⟩ := Option.map_eq_some_iff.1 hfirst
  obtain ⟨u, hu, -⟩ := Option.map_eq_some_iff.1 hsecond
  have ht := Except.eq_ok_of_toOption ht
  have hu := Except.eq_ok_of_toOption hu
  exact ⟨⟨t, ht, hrender, (render_of_parse ht).1⟩, u, hu,
    (render_of_parse hu).2 fun c _ hwithin => hnone ((List.suffix_cons c _).isInfix.trans hwithin)⟩

/-- **More than blanks may be lost**: an empty list behind a name. -/
theorem render_of_parse_loses :
    ∃ t, parse "foo()" = .ok t ∧ t.render = "foo" ∧ t.render ≠ String.ofList (Text.squeeze "foo()".toList) := by
  have hread : (parse "foo()").toOption.map render = some "foo" := by decide +kernel
  obtain ⟨t, ht, hrender⟩ := Option.map_eq_some_iff.1 hread
  refine ⟨t, Except.eq_ok_of_toOption ht, hrender, ?_⟩
  rw [hrender]
  decide +kernel

end SophiaBind.TypeTree
