/-
**The directory of a run.**

The name of a run keeps what its id has of letters, digits and three other characters, so it is one component of a
path. Two such components lead elsewhere: a single point stays, a double point goes up. They are the names of the ids
that are a single or a double point themselves and of no others. Every other log writes only into a directory of its
own, directly below that of the histories.

Main definitions:

* `History.InRun`, `History.StaysInRun` — the changes in the directory of one run,
* `History.runLog` — the log of an id,
* `History.Confined` — a log that writes into its own directory.

Main results:

* `History.sanitize_eq_iff` — **the names of points are those of points**,
* `History.confined` — **a log writes into its own directory**, unless its id is a point or two.
-/

import SophiaBind.Proofs.FilesInside

namespace SophiaBind.History

/-! ### Names -/

/-- What is left has its full length only if nothing is cut off. -/
theorem take_eq_iff {α : Type} {cs ds : List α} {k : Nat} (h : ds.length < k) : cs.take k = ds ↔ cs = ds := by
  constructor
  · intro htake
    have hlength := congrArg List.length htake
    rw [List.length_take] at hlength
    have hshort : cs.length ≤ k := by omega
    rwa [List.take_of_length_le hshort] at htake
  · rintro rfl
    exact List.take_of_length_le h.le

/-- Points are kept, and no other character becomes one. -/
theorem map_keeps_eq_iff {cs ds : List Char} (hpoints : ∀ c ∈ ds, c = '.') :
    (cs.map fun c => if keeps c then c else '_') = ds ↔ cs = ds := by
  have hpoint : ∀ c, (if keeps c then c else '_') = '.' ↔ c = '.' := by
    intro c
    constructor
    · intro hc
      split at hc
      · exact hc
      · cases hc
    · rintro rfl
      rfl
  induction cs generalizing ds with
  | nil => exact Iff.rfl
  | cons c cs ih =>
      cases ds with
      | nil => exact iff_of_false (List.cons_ne_nil _ _) (List.cons_ne_nil _ _)
      | cons d ds =>
          obtain ⟨hd, hrest⟩ := List.forall_mem_cons.1 hpoints
          have hbehind : (cs.map fun c => if keeps c then c else '_') = ds ↔ cs = ds := ih hrest
          rw [List.map_cons, List.cons.injEq, List.cons.injEq, hd]
          exact and_congr (hpoint c) hbehind

/-- **The names of points are those of points.** -/
theorem sanitize_eq_iff {name : String} (hpoints : ∀ c ∈ name.toList, c = '.') (hshort : name.toList.length < 120)
    {id : String} : sanitize id = name ↔ id = name := by
  rw [← String.toList_inj, toList_sanitize, take_eq_iff hshort, map_keeps_eq_iff hpoints, String.toList_inj]

theorem sanitize_ne_empty {id : String} (h : id ≠ "") : sanitize id ≠ "" := by
  intro hname
  obtain ⟨c, cs, hcs⟩ := List.exists_cons_of_ne_nil (mt String.toList_eq_nil_iff.1 h)
  obtain ⟨rest, hrest⟩ := sanitize_cons hcs
  rw [hname] at hrest
  cases hrest

/-! ### Logs that stay inside -/

/-- **Changes in the directory of one run**: no directory goes, directories come at most on the way to that of the
run, and everything else that comes, goes or changes stands directly in it, under one of some names. -/
structure InRun (home : Location) (base : Path) (name : String) (files : List String) (t t' : FileTree) : Prop where
  keeps : t.Keeps t'
  changed : ∀ m, t'.entryAt? m ≠ t.entryAt? m →
    (t.entryAt? m = none ∧ t'.entryAt? m = some .directory ∧
      ∃ k, t'.locate home ((base.child name).upTo k) = .ok m) ∨
    ∃ l, ∃ file ∈ files, t'.locate home base = .ok l ∧ m = l ++ [name, file]

/-- A computation that makes no changes of files but those in the directory of one run, and otherwise only talks. -/
def StaysInRun {α : Type} (base : Path) (name : String) (files : List String) (x : App α) (w : World) : Prop :=
  ∃ r t talk, x.runIn w = (r, { w.withTalk talk with files := t }) ∧ InRun w.home base name files w.files t

/-- The log of an id. -/
def runLog (base : Path) (id : String) : Log :=
  ⟨sanitize id, base.child (sanitize id)⟩

/-- **A log that writes into its own directory**, when it is opened and whenever something is written to it. -/
structure Confined (base : Path) (id : String) : Prop where
  opens : ∀ w, StaysInRun base (sanitize id) [".hostname"] (Log.open_ base (some id)) w
  log : ∀ w log w', (Log.open_ base (some id)).runIn w = (.ok log, w') → log = runLog base id
  records : ∀ w entry, StaysInRun base (sanitize id) ["actions.jsonl"] ((runLog base id).record entry) w
  describes : ∀ w members, StaysInRun base (sanitize id)
    ["run_metadata.json", Files.temporaryName "run_metadata.json" w.process] ((runLog base id).writeMetadata members) w

section Confined

variable {base : Path} {id : String} (hne : id ≠ "") (hstays : id ≠ ".") (hdown : id ≠ "..")

theorem sanitize_ne_point (hstays : id ≠ ".") : sanitize id ≠ "." :=
  mt (sanitize_eq_iff (List.all_iff_forall_prop.1 (by decide)) (by decide)).1 hstays

theorem sanitize_ne_points (hdown : id ≠ "..") : sanitize id ≠ ".." :=
  mt (sanitize_eq_iff (List.all_iff_forall_prop.1 (by decide)) (by decide)).1 hdown

include hne hdown in
/-- The directory of a run is directly below that of the histories. -/
theorem staysInRun_of_staysInside {α : Type} {x : App α} {w : World} {files : List String}
    (h : App.StaysInside (base.child (sanitize id)) files x w) : StaysInRun base (sanitize id) files x w := by
  obtain ⟨r, t, talk, hrun, hinside⟩ := h
  refine ⟨r, t, talk, hrun, hinside.keeps, fun m hm => (hinside.changed m hm).imp_right ?_⟩
  rintro ⟨k, file, hfile, hk, rfl⟩
  obtain ⟨l, hl, rfl, -⟩ := FileTree.locate_of_child (sanitize_ne_points hdown) (sanitize_ne_empty hne) hk
  exact ⟨l, file, hfile, hl, List.append_assoc _ _ _⟩

include hne

/-- Opening a log under an id that is given. -/
theorem open_eq_openNamed (w : World) :
    (Log.open_ base (some id)).runIn w = (openNamed base (sanitize id) w.host).runIn w := by
  have hchosen : chosenId (some id) w = id := if_neg hne
  rw [open_eq, hchosen]

include hstays

theorem root_eq : base.append (Path.ofString (sanitize id)) = base.child (sanitize id) :=
  append_sanitize base hne (sanitize_ne_point hstays)

theorem eq_runLog {w w' : World} {log : Log} (h : (Log.open_ base (some id)).runIn w = (.ok log, w')) :
    log = runLog base id := by
  rw [open_eq_openNamed hne, openNamed, root_eq hne hstays] at h
  obtain ⟨_, _, -, hbehind⟩ := App.runIn_bind_eq_ok h
  obtain ⟨_, _, -, hlog⟩ := App.runIn_bind_eq_ok hbehind
  cases hlog
  rfl

theorem staysInside_open (w : World) :
    App.StaysInside (base.child (sanitize id)) [".hostname"] (Log.open_ base (some id)) w := by
  suffices h : App.StaysInside (base.child (sanitize id)) [".hostname"] (openNamed base (sanitize id) w.host) w by
    rwa [App.StaysInside, open_eq_openNamed hne]
  rw [openNamed, root_eq hne hstays]
  refine .bind Files.staysInside_makeDirectories fun _ files t _ => ?_
  refine .bind ?_ fun _ _ _ _ => .pure _
  refine .tryCatch (Files.staysInside_writeText (List.mem_singleton.2 rfl) (by decide) (by decide) _)
    fun e files' t' => ?_
  split
  · exact .pure _
  · exact .throw _

include hdown

/-- **A log writes into its own directory.** -/
theorem confined : Confined base id where
  opens w := staysInRun_of_staysInside hne hdown (staysInside_open hne hstays w)
  log w log w' h := eq_runLog hne hstays h
  records w entry := by
    refine staysInRun_of_staysInside hne hdown ?_
    refine .get ?_
    dsimp only
    split
    · exact Files.staysInside_appendText (List.mem_singleton.2 rfl) (by decide) (by decide) _
    · exact .throw _
  describes w members := by
    refine staysInRun_of_staysInside hne hdown ?_
    exact Files.staysInside_replaceJson List.mem_cons_self (by decide) (by decide)
      (List.mem_cons_of_mem _ (List.mem_singleton.2 rfl)) _

end Confined

end SophiaBind.History
