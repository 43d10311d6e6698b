/-
**Resolving paths, with links and without.**

The nesting of links is bounded by their number, since none is entered within itself; so the fuel with which paths are
resolved is never used up. Without links a path is resolved by its components alone. What cannot be resolved is a path
with a link that leads round, or one that cannot be handed to the system.

Main definition:

* `LinkedTree.Unresolvable` — the faults of paths that cannot be resolved.

Main results:

* `LinkedTree.real_eq_real`, `LinkedTree.real_of_lt` — **the fuel does not matter** if there is more of it than links
  to be entered,
* `LinkedTree.resolve_eq_error` — what a path that cannot be resolved fails with,
* `LinkedTree.resolve_of_no_links` — **without links all paths can be resolved**, if they can be handed to the system.
-/

import Mathlib.Data.List.Basic
import SophiaBind.LinkedTree

namespace SophiaBind

/-! ### Components -/

theorem Path.mem_of_mem_splitSlashes {cs part : List Char} {c : Char} (hpart : part ∈ splitSlashes cs) (hc : c ∈ part) :
    c ∈ cs := by
  fun_induction splitSlashes cs generalizing part with
  | case1 =>
      obtain rfl := List.mem_singleton.1 hpart
      exact hc
  | case2 r ih =>
      rcases List.mem_cons.1 hpart with rfl | hpart
      · cases hc
      · exact List.mem_cons_of_mem _ (ih hpart hc)
  | case3 d r _ hnil ih =>
      obtain rfl := List.mem_singleton.1 hpart
      obtain rfl := List.mem_singleton.1 hc
      exact List.mem_cons_self
  | case4 d r _ first rest hparts ih =>
      rw [hparts] at ih
      rcases List.mem_cons.1 hpart with rfl | hpart
      · rcases List.mem_cons.1 hc with rfl | hc
        · exact List.mem_cons_self
        · exact List.mem_cons_of_mem _ (ih List.mem_cons_self hc)
      · exact List.mem_cons_of_mem _ (ih (List.mem_cons_of_mem _ hpart) hc)

/-- The characters of a path's components stand in its text. -/
theorem Path.mem_of_mem_parts {s part : String} {c : Char} (hpart : part ∈ (ofString s).parts) (hc : c ∈ part.toList) :
    c ∈ s.toList := by
  obtain ⟨cs, hcs, rfl⟩ := List.mem_map.1 hpart
  rw [String.toList_ofList] at hc
  exact mem_of_mem_splitSlashes (List.mem_filter.1 hcs).1 hc

namespace LinkedTree

/-! ### Nested links -/

section Nesting

variable {links : List (Location × Path)}

/-- Only links that are there are followed. -/
theorem straighten_congr {onward onward' : Location → Location → Path → Except Obstacle Location}
    (h : ∀ here l p, links.lookup here = some p → onward here l p = onward' here l p) (l : Location)
    (parts : List String) : straighten links onward l parts = straighten links onward' l parts := by
  induction parts generalizing l with
  | nil => rfl
  | cons part rest ih =>
      rw [straighten, straighten]
      split
      · split
        · exact ih _
        · cases hlink : links.lookup (l ++ [part]) with
          | none => exact ih _
          | some p =>
              dsimp only
              rw [h _ _ _ hlink]
              cases onward' (l ++ [part]) l p with
              | ok m => exact ih m
              | error obstacle => cases obstacle <;> rfl
      · rfl

/-- The links that can still be entered. -/
def enterable (links : List (Location × Path)) (within : List Location) : List Location :=
  (links.map Prod.fst).filter fun l => !within.contains l

/-- A link that is entered cannot be entered again. -/
theorem length_enterable_lt {within : List Location} {here : Location} {p : Path} (hlink : links.lookup here = some p)
    (hnew : here ∉ within) : (enterable links (here :: within)).length < (enterable links within).length := by
  have hmem : here ∈ enterable links within := by
    obtain ⟨front, behind, rfl, -⟩ := List.lookup_eq_some_iff.1 hlink
    simp [enterable, hnew]
  have hagain : enterable links (here :: within) = (enterable links within).filter fun l => l ≠ here := by
    rw [enterable, enterable, List.filter_filter]
    refine List.filter_congr fun l _ => ?_
    simp
  rw [hagain]
  exact List.length_filter_lt_length_iff_exists.2 ⟨here, hmem, by simp⟩

/-- **The fuel does not matter** if there is more of it than links to be entered. -/
theorem real_eq_real {fuel fuel' : Nat} {within : List Location} (h : (enterable links within).length < fuel)
    (h' : (enterable links within).length < fuel') (l : Location) (parts : List String) :
    real links fuel within l parts = real links fuel' within l parts := by
  induction fuel generalizing fuel' within l parts with
  | zero => exact absurd h (Nat.not_lt_zero _)
  | succ fuel ih =>
      obtain ⟨fuel', rfl⟩ : ∃ k, fuel' = k + 1 := ⟨fuel' - 1, by omega⟩
      rw [real, real]
      refine straighten_congr (fun here l p hlink => ?_) l parts
      split
      · rfl
      · next hnew =>
          have hlt := length_enterable_lt hlink hnew
          exact ih (by omega) (by omega) _ _

/-- **No path needs more fuel** than there are links. -/
theorem real_of_lt {fuel : Nat} (h : links.length < fuel) (l : Location) (parts : List String) :
    real links fuel [] l parts = real links (links.length + 1) [] l parts := by
  have hle : (enterable links []).length ≤ links.length :=
    Nat.le_trans (List.length_filter_le _ _) (Nat.le_of_eq (List.length_map Prod.fst))
  exact real_eq_real (by omega) (by omega) l parts

end Nesting

/-! ### What can be resolved -/

/-- The faults of paths that cannot be resolved: a link leads round, or a component cannot be handed to the system. -/
def Unresolvable (f : Fault) : Prop :=
  (∃ path, f = .linkLoop path) ∨ f = .badPath "embedded null byte"

variable {t : LinkedTree} {home : Location} {p : Path}

theorem resolve_eq_error {f : Fault} (h : t.resolve home p = .error f) : Unresolvable f := by
  rw [resolve] at h
  split at h
  · cases h
  · cases h
    exact .inr rfl
  · split at h
    · split at h
      · cases h
        exact .inl ⟨_, rfl⟩
      · cases h
    · cases h
      exact .inr rfl

/-- A link leads round where the system is led round as well. -/
theorem resolve_eq_linkLoop {l : Location}
    (hround : real t.links (t.links.length + 1) [] [] (setsOut home p ++ p.parts) = .error (.round l))
    (husable : l.all isUsable = true) (hmany : t.locate l = .error .tooManyLinks) :
    t.resolve home p = .error (.linkLoop (FileTree.pathOf l).toString) := by
  rw [resolve, hround]
  dsimp only
  rw [if_pos husable, hmany]

/-- A component that cannot be handed to the system is met on the way. -/
theorem resolve_eq_badPath
    (h : real t.links (t.links.length + 1) [] [] (setsOut home p ++ p.parts) = .error .nullByte) :
    t.resolve home p = .error (.badPath "embedded null byte") := by
  rw [resolve, h]

/-- Components without links are taken one by one. -/
theorem straighten_nil {onward : Location → Location → Path → Except Obstacle Location} {parts : List String}
    (h : ∀ part ∈ parts, isUsable part = true) (l : Location) :
    straighten [] onward l parts = .ok (FileTree.lexically l parts) := by
  induction parts generalizing l with
  | nil => rfl
  | cons part rest ih =>
      obtain ⟨hpart, hrest⟩ := List.forall_mem_cons.1 h
      rw [straighten, if_pos hpart, FileTree.lexically, List.foldl_cons]
      split
      · exact ih hrest _
      · exact ih hrest _

/-- Nothing is named on the way but what components name. -/
theorem mem_lexically {l : Location} {parts : List String} {name : String}
    (h : name ∈ FileTree.lexically l parts) : name ∈ l ∨ name ∈ parts := by
  induction parts generalizing l with
  | nil => exact .inl h
  | cons part rest ih =>
      rw [FileTree.lexically, List.foldl_cons] at h
      rcases ih h with hl | hrest
      · split at hl
        · exact .inl (List.dropLast_subset l hl)
        · rcases List.mem_append.1 hl with hl | hpart
          · exact .inl hl
          · exact .inr (List.mem_cons.2 (.inl (List.mem_singleton.1 hpart)))
      · exact .inr (List.mem_cons_of_mem part hrest)

/-- **Without links all paths can be resolved**, if they can be handed to the system. -/
theorem resolve_of_no_links (hlinks : t.links = []) (hhome : ∀ part ∈ home, isUsable part = true)
    (hp : ∀ part ∈ p.parts, isUsable part = true) :
    ∃ l, t.resolve home p = .ok l ∧ ∀ part ∈ l, isUsable part = true := by
  have hall : ∀ part ∈ setsOut home p ++ p.parts, isUsable part = true := by
    intro part hpart
    rcases List.mem_append.1 hpart with hpart | hpart
    · rw [setsOut] at hpart
      split at hpart
      · exact hhome part hpart
      · cases hpart
    · exact hp part hpart
  refine ⟨FileTree.lexically [] (setsOut home p ++ p.parts), ?_, fun part hpart => ?_⟩
  · rw [resolve, hlinks, real, straighten_nil hall]
  · exact hall part ((mem_lexically hpart).resolve_left List.not_mem_nil)

/-! ### What can be read -/

/-- What can be read is the content of a file of the tree. -/
theorem exists_entry_of_contentAt? {l : Location} {content : Bytes} (h : t.contentAt? l = some content) :
    ∃ m, t.files.entryAt? m = some (.file content) := by
  rw [contentAt?] at h
  split at h
  · cases h
  · next m _ =>
      split at h
      · next hentry =>
          cases h
          exact ⟨m, hentry⟩
      · cases h

end LinkedTree

end SophiaBind
