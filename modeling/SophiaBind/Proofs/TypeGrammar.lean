/-
**The grammar of types**, apart from its reader.

A text is first a row of tokens with blanks between, where a name goes on as far as it can. A derivation is
a tree of the rules

    T ::= name | name L | L        L ::= '(' ')' | '(' T (',' T)* ')'

and what it derives is the row of its tokens. A list behind the name `map` has two members; derivations that
keep to this are regular, and each of them derives a type.

Main definitions:

* `TypeTree.Token`, `TypeTree.Spells` — tokens, and the texts that spell them in front of a rest,
* `TypeTree.Derivation`, `TypeTree.Derivation.tokens` — derivations, and what they derive,
* `TypeTree.Derivation.Regular`, `TypeTree.Derivation.tree` — the regular ones, and their types,
* `TypeTree.Derivation.Derives` — a regular derivation of a whole text.

Main results:

* `TypeTree.Spells.append`, `TypeTree.Spells.split` — tokens are spelled one behind the other,
* `TypeTree.Spells.mark_inv`, `TypeTree.Spells.name_inv` — **what the first token says of a text**,
* `TypeTree.Derivation.eq_of_tree_eq` — **a regular derivation is known by its type**.
-/

import Mathlib.Data.List.Basic
import SophiaBind.Proofs.Characters
import SophiaBind.Proofs.Spans
import SophiaBind.Proofs.TypeNormal

namespace SophiaBind.TypeTree

/-! ### Tokens -/

/-- The marks between names. -/
inductive Mark where
  | opening
  | closing
  | comma
  deriving DecidableEq, Repr

/-- The character of a mark. -/
def Mark.char : Mark → Char
  | .opening => '('
  | .closing => ')'
  | .comma => ','

/-- A token of a type's text. -/
inductive Token where
  | name (name : String)
  | mark (m : Mark)
  deriving DecidableEq, Repr

/-- A text spells tokens in front of a rest, with blanks wherever a token begins or the rest. A name is followed by
no character of names, so that it goes on as far as it can. -/
inductive Spells : List Char → List Token → List Char → Prop
  | done (rest : List Char) : Spells rest [] rest
  | blank {c : Char} {cs rest : List Char} {ts : List Token} :
      Text.isBlank c = true → Spells cs ts rest → Spells (c :: cs) ts rest
  | mark (m : Mark) {cs rest : List Char} {ts : List Token} :
      Spells cs ts rest → Spells (m.char :: cs) (.mark m :: ts) rest
  | name {name : String} {cs rest : List Char} {ts : List Token} :
      IsName name → (∀ c ∈ cs.head?, isNameChar c = false) → Spells cs ts rest →
      Spells (name.toList ++ cs) (.name name :: ts) rest

theorem Mark.not_isBlank (m : Mark) : Text.isBlank m.char = false := by
  cases m <;> decide

/-- A name begins with a character of names. -/
theorem IsName.exists_cons {name : String} (h : IsName name) :
    ∃ c r, name.toList = c :: r ∧ isNameChar c = true := by
  obtain ⟨c, r, hc⟩ := List.exists_cons_of_ne_nil h.1
  exact ⟨c, r, hc, h.2 c (hc ▸ List.mem_cons_self)⟩

theorem IsName.trimStart_append {name : String} (h : IsName name) (cs : List Char) :
    Text.trimStart (name.toList ++ cs) = name.toList ++ cs := by
  obtain ⟨c, r, hc, hchar⟩ := h.exists_cons
  refine Text.trimStart_eq_self fun d hd => ?_
  rw [hc] at hd
  obtain rfl : c = d := by simpa using hd
  exact isBlank_of_isNameChar hchar

namespace Spells

variable {cs mid rest : List Char} {ts us : List Token}

/-- **Tokens are spelled one behind the other.** -/
theorem append (h : Spells cs ts mid) (h' : Spells mid us rest) : Spells cs (ts ++ us) rest := by
  induction h with
  | done _ => exact h'
  | blank hc _ ih => exact .blank hc (ih h')
  | mark m _ ih => exact .mark m (ih h')
  | name hname hend _ ih => exact .name hname hend (ih h')

theorem split (h : Spells cs (ts ++ us) rest) : ∃ mid, Spells cs ts mid ∧ Spells mid us rest := by
  generalize hvs : ts ++ us = vs at h
  induction h generalizing ts with
  | done rest =>
      obtain ⟨rfl, rfl⟩ := List.append_eq_nil_iff.1 hvs
      exact ⟨rest, .done rest, .done rest⟩
  | blank hc _ ih =>
      obtain ⟨mid, hts, hus⟩ := ih hvs
      exact ⟨mid, .blank hc hts, hus⟩
  | @mark m cs rest vs h ih =>
      cases ts with
      | nil =>
          obtain rfl : us = .mark m :: vs := hvs
          exact ⟨_, .done _, .mark m h⟩
      | cons t ts =>
          obtain ⟨rfl, hrest⟩ := List.cons.inj hvs
          obtain ⟨mid, hts, hus⟩ := ih hrest
          exact ⟨mid, .mark m hts, hus⟩
  | @name name cs rest vs hname hend h ih =>
      cases ts with
      | nil =>
          obtain rfl : us = .name name :: vs := hvs
          exact ⟨_, .done _, .name hname hend h⟩
      | cons t ts =>
          obtain ⟨rfl, hrest⟩ := List.cons.inj hvs
          obtain ⟨mid, hts, hus⟩ := ih hrest
          exact ⟨mid, .name hname hend hts, hus⟩

/-- Between no tokens there are blanks alone. -/
theorem nil_inv (h : Spells cs [] rest) : Text.trimStart cs = Text.trimStart rest := by
  generalize hts : ([] : List Token) = ts at h
  induction h with
  | done _ => rfl
  | blank hc _ ih => rw [Text.trimStart, List.dropWhile_cons_of_pos hc]; exact ih hts
  | mark _ _ _ => cases hts
  | name _ _ _ _ => cases hts

/-- **A mark is the first character of the text.** -/
theorem mark_inv {m : Mark} (h : Spells cs (.mark m :: ts) rest) :
    ∃ r, Text.trimStart cs = m.char :: r ∧ Spells r ts rest := by
  generalize hvs : Token.mark m :: ts = vs at h
  induction h with
  | done _ => cases hvs
  | blank hc _ ih => rw [Text.trimStart, List.dropWhile_cons_of_pos hc]; exact ih hvs
  | mark n h _ =>
      cases hvs
      exact ⟨_, Text.trimStart_eq_self (by simp [Mark.not_isBlank]), h⟩
  | name _ _ _ _ => cases hvs

/-- **A name is the longest one that the text begins with.** -/
theorem name_inv {name : String} (h : Spells cs (.name name :: ts) rest) :
    ∃ r, IsName name ∧ Text.trimStart cs = name.toList ++ r ∧ (∀ c ∈ r.head?, isNameChar c = false) ∧
      Spells r ts rest := by
  generalize hvs : Token.name name :: ts = vs at h
  induction h with
  | done _ => cases hvs
  | blank hc _ ih => rw [Text.trimStart, List.dropWhile_cons_of_pos hc]; exact ih hvs
  | mark _ _ _ => cases hvs
  | name hname hend h _ =>
      cases hvs
      exact ⟨_, hname, hname.trimStart_append _, hend, h⟩

/-- Blanks in front do not matter, if there is a token behind them or the rest is at its beginning. -/
theorem of_trimStart (h : Spells (Text.trimStart cs) ts rest) : Spells cs ts rest := by
  induction cs with
  | nil => exact h
  | cons c cs ih =>
      cases hc : Text.isBlank c with
      | true =>
          rw [Text.trimStart, List.dropWhile_cons_of_pos hc] at h
          exact .blank hc (ih h)
      | false =>
          rwa [Text.trimStart, List.dropWhile_cons_of_neg (by simp [hc])] at h

theorem trimStart (h : Spells cs ts rest) (hts : ts ≠ []) : Spells (Text.trimStart cs) ts rest := by
  cases ts with
  | nil => exact absurd rfl hts
  | cons t ts =>
      cases t with
      | mark m =>
          obtain ⟨r, hcs, hr⟩ := h.mark_inv
          exact hcs ▸ .mark m hr
      | name name =>
          obtain ⟨r, hname, hcs, hend, hr⟩ := h.name_inv
          exact hcs ▸ .name hname hend hr

end Spells

/-! ### Derivations -/

/-- A derivation: a name, a name with a list, or a list alone. -/
inductive Derivation where
  | bare (name : String)
  | named (name : String) (members : List Derivation)
  | alone (members : List Derivation)

namespace Derivation

mutual

/-- What a derivation derives. -/
def tokens : Derivation → List Token
  | .bare name => [.name name]
  | .named name members => .name name :: .mark .opening :: tokensBehind members
  | .alone members => .mark .opening :: tokensBehind members

/-- What stands behind the opening parenthesis of a list. -/
def tokensBehind : List Derivation → List Token
  | [] => [.mark .closing]
  | d :: ds => tokens d ++ tokensAfter ds

/-- What stands behind a member of a list. -/
def tokensAfter : List Derivation → List Token
  | [] => [.mark .closing]
  | d :: ds => .mark .comma :: (tokens d ++ tokensAfter ds)

end

mutual

/-- Every list behind the name `map` has two members. -/
def Regular : Derivation → Prop
  | .bare _ => True
  | .named name members => (name = "map" → members.length = 2) ∧ AllRegular members
  | .alone members => AllRegular members

/-- Regular derivations. -/
def AllRegular : List Derivation → Prop
  | [] => True
  | d :: ds => Regular d ∧ AllRegular ds

end

/-- The type of a name with a list of types. -/
def treeOf (name : String) (members : List TypeTree) : TypeTree :=
  if name = "list" then .list members
  else if name = "map" then
    match members with
    | [key, value] => .map key value
    | members => .applied name members
  else .applied name members

mutual

/-- The type that a derivation derives. -/
def tree : Derivation → TypeTree
  | .bare name => .primitive name
  | .named name members => treeOf name (trees members)
  | .alone members => .tuple (trees members)

/-- The types of the members of a list. -/
def trees : List Derivation → List TypeTree
  | [] => []
  | d :: ds => tree d :: trees ds

end

/-- A regular derivation derives a text that spells its tokens. -/
def Derives (d : Derivation) (text : String) : Prop :=
  d.Regular ∧ Spells text.toList d.tokens []

theorem length_trees (ds : List Derivation) : (trees ds).length = ds.length := by
  induction ds with
  | nil => rfl
  | cons d ds ih => rw [trees, List.length_cons, ih, List.length_cons]

/-- A list behind the name `map` is a map of two members, and behind any other name but `list` an application. -/
theorem treeOf_cases {name : String} {members : List TypeTree} (h : name = "map" → members.length = 2) :
    (name = "list" ∧ treeOf name members = .list members) ∨
      (∃ key value, name = "map" ∧ members = [key, value] ∧ treeOf name members = .map key value) ∨
      (name ≠ "list" ∧ name ≠ "map" ∧ treeOf name members = .applied name members) := by
  by_cases hlist : name = "list"
  · exact .inl ⟨hlist, by unfold treeOf; rw [if_pos hlist]⟩
  · by_cases hmap : name = "map"
    · obtain ⟨key, value, rfl⟩ := List.length_eq_two.1 (h hmap)
      exact .inr (.inl ⟨key, value, hmap, rfl, by unfold treeOf; rw [if_neg hlist, if_pos hmap]⟩)
    · exact .inr (.inr ⟨hlist, hmap, by unfold treeOf; rw [if_neg hlist, if_neg hmap]⟩)

/-- The name and the members can be told from the type. -/
theorem treeOf_inj {name name' : String} {members members' : List TypeTree}
    (h : name = "map" → members.length = 2) (h' : name' = "map" → members'.length = 2)
    (he : treeOf name members = treeOf name' members') : name = name' ∧ members = members' := by
  rcases treeOf_cases h with ⟨rfl, ht⟩ | ⟨key, value, rfl, rfl, ht⟩ | ⟨-, -, ht⟩ <;>
    rcases treeOf_cases h' with ⟨rfl, ht'⟩ | ⟨key', value', rfl, rfl, ht'⟩ | ⟨-, -, ht'⟩ <;>
    rw [ht, ht'] at he <;> cases he <;> exact ⟨rfl, rfl⟩

/-- A name with a list is neither a name alone nor a list alone. -/
theorem treeOf_ne {name : String} {members : List TypeTree} (h : name = "map" → members.length = 2) :
    (∀ other, treeOf name members ≠ .primitive other) ∧ ∀ items, treeOf name members ≠ .tuple items := by
  rcases treeOf_cases h with ⟨-, ht⟩ | ⟨key, value, -, -, ht⟩ | ⟨-, -, ht⟩
  · simp [ht]
  · simp [ht]
  · simp [ht]

mutual

/-- **A regular derivation is known by its type.** -/
theorem eq_of_tree_eq : ∀ {d e : Derivation}, d.Regular → e.Regular → d.tree = e.tree → d = e
  | .bare _, .bare _, _, _, h => by cases h; rfl
  | .alone ds, .alone es, hd, he, h => by
      rw [eq_of_trees_eq hd he (TypeTree.tuple.inj h)]
  | .named name ds, .named other es, hd, he, h => by
      obtain ⟨rfl, hds⟩ := treeOf_inj (length_trees ds ▸ hd.1) (length_trees es ▸ he.1) h
      rw [eq_of_trees_eq hd.2 he.2 hds]
  | .named _ ds, .bare other, hd, _, h => absurd h ((treeOf_ne (length_trees ds ▸ hd.1)).1 other)
  | .named _ ds, .alone es, hd, _, h => absurd h ((treeOf_ne (length_trees ds ▸ hd.1)).2 (trees es))
  | .bare other, .named _ es, _, he, h => absurd h.symm ((treeOf_ne (length_trees es ▸ he.1)).1 other)
  | .alone ds, .named _ es, _, he, h => absurd h.symm ((treeOf_ne (length_trees es ▸ he.1)).2 (trees ds))
  | .bare _, .alone _, _, _, h => by cases h
  | .alone _, .bare _, _, _, h => by cases h

theorem eq_of_trees_eq : ∀ {ds es : List Derivation}, AllRegular ds → AllRegular es → trees ds = trees es →
    ds = es
  | [], [], _, _, _ => rfl
  | [], _ :: _, _, _, h => by cases h
  | _ :: _, [], _, _, h => by cases h
  | d :: ds, e :: es, hd, he, h => by
      obtain ⟨hfirst, hrest⟩ := List.cons.inj h
      rw [eq_of_tree_eq hd.1 he.1 hfirst, eq_of_trees_eq hd.2 he.2 hrest]

end

end Derivation

end SophiaBind.TypeTree
