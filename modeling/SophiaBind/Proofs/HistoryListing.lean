/-
**Listing the files of a history.**

Below the directory of a history, each run has its file of attempts in a directory of its own. These files are listed
by the names of their runs, whatever else is there.

Main definitions:

* `History.runUnder`, `History.runsBelow` — the runs that have a file of attempts,
* `History.actionsOf` — the path of such a file.

Main results:

* `History.mem_runsBelow` — what a run's name stands for,
* `History.inChildren_located` — **the files of attempts are listed** in the order of the names of their runs.
-/

import Mathlib.Data.List.Perm.Basic
import SophiaBind.History
import SophiaBind.Proofs.FileCases

namespace SophiaBind.History

theorem relative?_eq_some {l m : Location} {parts : List String} :
    FileTree.relative? l m = some parts ↔ m = l ++ parts ∧ parts ≠ [] := by
  rw [FileTree.relative?]
  by_cases hfront : l.isPrefixOf m = true
  · obtain ⟨more, rfl⟩ := List.isPrefixOf_iff_prefix.1 hfront
    cases more with
    | nil => simp
    | cons part more =>
        rw [if_pos (by simp [hfront]), List.drop_left]
        constructor
        · rintro ⟨⟩
          exact ⟨rfl, List.cons_ne_nil part more⟩
        · rintro ⟨h, -⟩
          exact congrArg some (List.append_cancel_left h)
  · have hno : ∀ parts, m ≠ l ++ parts := fun parts h =>
      hfront (List.isPrefixOf_iff_prefix.2 ⟨parts, h.symm⟩)
    simp [hfront, hno]

/-! ### Runs -/

/-- The name of the run whose attempts are at a location below another, if there is one. -/
def runUnder (l m : Location) : Option String :=
  match FileTree.relative? l m with
  | some [name, file] => if file = "actions.jsonl" then some name else none
  | _ => none

theorem runUnder_eq_some {l m : Location} {name : String} :
    runUnder l m = some name ↔ m = l ++ [name, "actions.jsonl"] := by
  constructor
  · intro h
    unfold runUnder at h
    split at h
    · next name' file hrelative =>
        split at h
        · next hfile =>
            cases h
            rw [(relative?_eq_some.1 hrelative).1, hfile]
        · cases h
    · cases h
  · rintro rfl
    have hrelative : FileTree.relative? l (l ++ [name, "actions.jsonl"]) = some [name, "actions.jsonl"] :=
      relative?_eq_some.2 ⟨rfl, by simp⟩
    rw [runUnder, hrelative]
    rfl

/-- The names of the runs that have files of attempts below a location. -/
def runsBelow (t : FileTree) (l : Location) : List String :=
  (t.entries.map Prod.fst).filterMap (runUnder l)

theorem mem_runsBelow {t : FileTree} {l : Location} {name : String} :
    name ∈ runsBelow t l ↔ t.entryAt? (l ++ [name, "actions.jsonl"]) ≠ none := by
  have hne : l ++ [name, "actions.jsonl"] ≠ [] := by simp
  rw [FileTree.entryAt?, if_neg hne, Ne, Keyed.lookup_eq_none_iff, not_not, runsBelow, List.mem_filterMap]
  constructor
  · rintro ⟨m, hm, hname⟩
    exact runUnder_eq_some.1 hname ▸ hm
  · exact fun hm => ⟨_, hm, runUnder_eq_some.2 rfl⟩

/-! ### Paths -/

/-- The file of the attempts of a run. -/
def actionsOf (base : Path) (name : String) : Path :=
  (base.child name).child "actions.jsonl"

theorem partsPrecede_append (xs ys zs : List String) :
    Path.partsPrecede (xs ++ ys) (xs ++ zs) = Path.partsPrecede ys zs := by
  induction xs with
  | nil => rfl
  | cons x xs ih => simp [Path.partsPrecede, ih]

/-- Files of attempts are listed by the names of their runs. -/
theorem precedes_actionsOf (base : Path) (name other : String) :
    (actionsOf base name).precedes (actionsOf base other) = decide (name ≤ other) := by
  have hparts : ∀ name, (actionsOf base name).anchor :: (actionsOf base name).parts =
      (base.anchor :: base.parts) ++ [name, "actions.jsonl"] := fun name => by
    simp [actionsOf, Path.child]
  have hfile : Path.partsPrecede ["actions.jsonl"] ["actions.jsonl"] = true := by decide
  rw [Path.precedes, hparts, hparts, partsPrecede_append, Path.partsPrecede, hfile, Bool.and_true, Bool.eq_iff_iff]
  simp only [Bool.or_eq_true, decide_eq_true_eq, beq_iff_eq, Std.le_iff_lt_or_eq]

/-- **The files of attempts are listed** in the order of the names of their runs. -/
theorem inChildren_located {base : Path} {l : Location} {w : World} (hp : Files.isUsable base = true)
    (hl : w.files.locate w.home base = .ok l) (hbase : w.files.entryAt? l = some .directory) :
    (Files.inChildren "actions.jsonl" base).runIn w =
      (.ok (((runsBelow w.files l).mergeSort fun name other => decide (name ≤ other)).map (actionsOf base)), w) := by
  have hbelow : (Files.entriesBelow base).runIn w = (.ok (w.files.below l), w) := by
    rw [Files.entriesBelow, App.runIn_bind_ok (Files.find_located hp hl), hbase]
    dsimp only
    rw [App.runIn_bind_ok (App.runIn_get w), App.runIn_bind_ok (Files.locate_eq_ok.2 ⟨hp, hl, rfl⟩)]
    rfl
  have hsort : ((runsBelow w.files l).mergeSort fun name other => decide (name ≤ other)).map (actionsOf base) =
      ((runsBelow w.files l).map (actionsOf base)).mergeSort Path.precedes :=
    List.map_mergeSort fun name _ other _ => (precedes_actionsOf base name other).symm
  rw [Files.inChildren, App.runIn_bind_ok hbelow, App.runIn_pure, hsort]
  refine congrArg (fun paths => (Except.ok (List.mergeSort paths Path.precedes), w)) ?_
  rw [runsBelow, FileTree.below, List.filterMap_filterMap, List.filterMap_map, List.map_filterMap]
  refine List.filterMap_congr fun e _ => ?_
  obtain ⟨m, e⟩ := e
  simp only [Function.comp_apply, runUnder]
  cases hrelative : FileTree.relative? l m with
  | none => rfl
  | some parts =>
      rcases parts with _ | ⟨name, _ | ⟨file, _ | ⟨part, parts⟩⟩⟩
      · rfl
      · rfl
      · by_cases hfile : file = "actions.jsonl"
        · simp [hfile, actionsOf, Path.child]
        · simp [hfile]
      · rfl

end SophiaBind.History
