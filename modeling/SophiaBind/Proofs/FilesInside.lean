/-
**Changes inside one directory.**

Work in a directory makes it first, with the directories above it that are missing. Beyond that only what stands
directly in it changes, and only under a few names: nothing that lies elsewhere or deeper comes or goes, and no
directory goes away. Each computation on files is of this kind where it works on a path with one more component than
that of the directory, and so is one computation behind another.

Main definitions:

* `Path.upTo` — the first components of a path,
* `FileTree.Inside` — the changes that stay inside the directory of a path,
* `App.StaysInside` — a computation that makes no others.

Main results:

* `FileTree.Inside.trans` — **changes inside a directory add up**,
* `Files.staysInside_makeDirectories`, `Files.staysInside_writeText`, `Files.staysInside_appendText`,
  `Files.staysInside_replaceJson` — **work in a directory stays inside**.
-/

import SophiaBind.Proofs.OpenedLog

namespace SophiaBind

/-! ### Paths -/

namespace Path

/-- The first components of a path. -/
def upTo (p : Path) (k : Nat) : Path :=
  { p with parts := p.parts.take k }

theorem upTo_length (p : Path) : p.upTo p.parts.length = p := by
  rw [upTo, List.take_length]

/-- What is above the first components are fewer of them. -/
theorem exists_parent_upTo (p : Path) (k : Nat) : ∃ j, (p.upTo k).parent = p.upTo j := by
  refine ⟨min ((p.parts.take k).length - 1) k, ?_⟩
  rw [parent, upTo, upTo, List.dropLast_eq_take, List.take_take]

@[simp] theorem parent_child (p : Path) (name : String) : (p.child name).parent = p := by
  simp [child, parent]

@[simp] theorem name_child (p : Path) (name : String) : (p.child name).name = name := by
  simp [child, Path.name]

end Path

/-! ### Trees -/

namespace FileTree

variable {t t' t'' : FileTree} {home l m : Location} {p root : Path} {names : List String} {file : String}

theorem not_directory_of_none (h : t.entryAt? m = none) : t.entryAt? m ≠ some .directory := by
  rw [h]
  decide

theorem not_directory_of_entry {e : Entry} (h : t.entryAt? m = some e) (he : e ≠ .directory) :
    t.entryAt? m ≠ some .directory := by
  rw [h]
  exact fun heq => he (Option.some.inj heq)

/-- **Changes inside the directory of a path**: no directory goes, directories come at most on the way there, and
everything else that comes, goes or changes stands directly in the directory, under one of some names. -/
structure Inside (home : Location) (root : Path) (names : List String) (t t' : FileTree) : Prop where
  keeps : t.Keeps t'
  changed : ∀ m, t'.entryAt? m ≠ t.entryAt? m →
    (t.entryAt? m = none ∧ t'.entryAt? m = some .directory ∧ ∃ k, t'.locate home (root.upTo k) = .ok m) ∨
      ∃ l, ∃ file ∈ names, t'.locate home root = .ok l ∧ m = l ++ [file]

namespace Inside

theorem refl (home : Location) (root : Path) (names : List String) (t : FileTree) : Inside home root names t t :=
  ⟨.refl t, fun _ h => absurd rfl h⟩

/-- **Changes inside a directory add up.** -/
theorem trans (h : Inside home root names t t') (h' : Inside home root names t' t'') :
    Inside home root names t t'' := by
  refine ⟨h.keeps.trans h'.keeps, fun m hm => ?_⟩
  by_cases hfirst : t'.entryAt? m = t.entryAt? m
  · rw [← hfirst] at hm ⊢
    exact h'.changed m hm
  · -- what led there before goes on to lead there
    rcases h.changed m hfirst with ⟨hnone, hdirectory, k, hk⟩ | ⟨l, file, hfile, hl, rfl⟩
    · exact .inl ⟨hnone, h'.keeps m hdirectory, k, locate_of_keeps h'.keeps hk⟩
    · exact .inr ⟨l, file, hfile, locate_of_keeps h'.keeps hl, rfl⟩

/-- A directory on the way. -/
theorem putDirectory {k : Nat} (hm : t.locate home (root.upTo k) = .ok m) (hnone : t.entryAt? m = none) :
    Inside home root names t (t.put m .directory) := by
  have hnot := not_directory_of_none hnone
  refine ⟨keeps_put hnot _, fun m' hm' => ?_⟩
  have heq : m' = m := by
    by_contra hne
    exact hm' (entryAt?_put_of_ne t hne _)
  subst heq
  exact .inl ⟨hnone, entryAt?_put_self t (ne_nil_of_entryAt? hnot) _, k, locate_put hnot hm⟩

/-- A file of one of the names. -/
theorem putFile (hfile : file ∈ names) (hup : file ≠ "..") (hne : file ≠ "")
    (hm : t.locate home (root.child file) = .ok m) (hnot : t.entryAt? m ≠ some .directory) (e : Entry) :
    Inside home root names t (t.put m e) := by
  have hkeeps := keeps_put hnot e
  obtain ⟨l, hl, rfl, -⟩ := locate_of_child hup hne hm
  refine ⟨hkeeps, fun m' hm' => .inr ⟨l, file, hfile, locate_of_keeps hkeeps hl, ?_⟩⟩
  by_contra hne'
  exact hm' (entryAt?_put_of_ne t hne' _)

/-- A file of one of the names goes. -/
theorem removeFile (hfile : file ∈ names) (hup : file ≠ "..") (hne : file ≠ "")
    (hm : t.locate home (root.child file) = .ok m) (hnot : t.entryAt? m ≠ some .directory) :
    Inside home root names t (t.remove m) := by
  have hkeeps := keeps_remove hnot
  obtain ⟨l, hl, rfl, -⟩ := locate_of_child hup hne hm
  refine ⟨hkeeps, fun m' hm' => .inr ⟨l, file, hfile, locate_of_keeps hkeeps hl, ?_⟩⟩
  exact ((t.entryAt?_remove _ m').resolve_left hm').1

/-- The way to a directory that is there are directories, so a path that leads on the way later leads there
already. -/
theorem directory_on_way {k : Nat} (hl : t.locate home root = .ok l) (hdirectory : t.entryAt? l = some .directory)
    (hkeeps : t.Keeps t') (hm : t'.locate home (root.upTo k) = .ok m) : t.entryAt? m = some .directory := by
  obtain ⟨-, hway⟩ := locate_eq_ok_iff.1 hl
  obtain ⟨-, hpart⟩ := locate_eq_ok_iff.1 hm
  rw [← List.take_append_drop k root.parts] at hway
  obtain ⟨m', hfront, hbehind⟩ := follow_append_eq_ok.1 hway
  obtain rfl : m' = m := Except.ok.inj ((follow_of_keeps hkeeps hfront).symm.trans hpart)
  -- either the way ends there, or it goes on from there
  cases hrest : root.parts.drop k with
  | nil =>
      rw [hrest, follow] at hbehind
      rw [Except.ok.inj hbehind, hdirectory]
  | cons part rest =>
      rw [hrest] at hbehind
      exact directory_of_follow hbehind

/-- If the directory is there, then only what stands in it comes, goes or changes. -/
theorem changed_there (h : Inside home root names t t') (hl : t.locate home root = .ok l)
    (hdirectory : t.entryAt? l = some .directory) (hm : t'.entryAt? m ≠ t.entryAt? m) :
    ∃ file ∈ names, m = l ++ [file] := by
  rcases h.changed m hm with ⟨hnone, -, k, hk⟩ | ⟨l', file, hfile, hl', rfl⟩
  · rw [directory_on_way hl hdirectory h.keeps hk] at hnone
    cases hnone
  · obtain rfl : l = l' := Except.ok.inj ((locate_of_keeps h.keeps hl).symm.trans hl')
    exact ⟨file, hfile, rfl⟩

end Inside

end FileTree

/-! ### Computations -/

namespace App

variable {α β : Type}

/-- A computation that makes no changes of files but those inside a directory, and otherwise only talks. -/
def StaysInside (root : Path) (names : List String) (x : App α) (w : World) : Prop :=
  ∃ r files t, x.runIn w = (r, { w.withTalk t with files := files }) ∧ w.files.Inside w.home root names files

namespace StaysInside

variable {root : Path} {names : List String} {w : World} {x : App α}

/-- A computation that leaves the world as it is. -/
theorem of_eq {r : Except Fault α} (h : x.runIn w = (r, w)) : StaysInside root names x w :=
  ⟨r, w.files, w.talk, h, .refl _ _ _ _⟩

/-- A computation that only changes files. -/
theorem of_files {r : Except Fault α} {files : FileTree} (h : x.runIn w = (r, { w with files := files }))
    (hinside : w.files.Inside w.home root names files) : StaysInside root names x w :=
  ⟨r, files, w.talk, h, hinside⟩

theorem pure (a : α) : StaysInside root names (pure a) w :=
  .of_eq rfl

theorem throw (f : Fault) : StaysInside root names (throw f : App α) w :=
  .of_eq rfl

theorem report (e : Event) : StaysInside root names (report e) w :=
  ⟨.ok (), w.files, w.talk.told e, rfl, .refl _ _ _ _⟩

theorem get {f : World → App α} (h : StaysInside root names (f w) w) : StaysInside root names (get >>= f) w := by
  obtain ⟨r, files, t, hrun, hinside⟩ := h
  exact ⟨r, files, t, by rw [runIn_bind_ok (runIn_get w), hrun], hinside⟩

theorem bind {f : α → App β} (hx : StaysInside root names x w)
    (hf : ∀ a files t, x.runIn w = (.ok a, { w.withTalk t with files := files }) →
      StaysInside root names (f a) { w.withTalk t with files := files }) :
    StaysInside root names (x >>= f) w := by
  obtain ⟨r, files, t, hrun, hinside⟩ := hx
  cases r with
  | error e => exact ⟨.error e, files, t, runIn_bind_error hrun f, hinside⟩
  | ok a =>
      obtain ⟨r', files', t', hrun', hinside'⟩ := hf a files t hrun
      exact ⟨r', files', t', (runIn_bind_ok hrun f).trans hrun', hinside.trans hinside'⟩

theorem tryCatch {handler : Fault → App α} (hx : StaysInside root names x w)
    (hh : ∀ e files t, StaysInside root names (handler e) { w.withTalk t with files := files }) :
    StaysInside root names (tryCatch x handler) w := by
  obtain ⟨r, files, t, hrun, hinside⟩ := hx
  cases r with
  | ok a => exact ⟨.ok a, files, t, by rw [runIn_tryCatch, hrun], hinside⟩
  | error e =>
      obtain ⟨r', files', t', hrun', hinside'⟩ := hh e files t
      refine ⟨r', files', t', ?_, hinside.trans hinside'⟩
      rw [runIn_tryCatch, hrun]
      exact hrun'

end StaysInside

end App

namespace Files

open App

variable {root : Path} {names : List String} {w : World} {file other : String}

/-! ### Directories -/

theorem staysInside_ensureDirectory (k : Nat) : StaysInside root names (ensureDirectory (root.upTo k)) w := by
  rcases ensureDirectory_cases (root.upTo k) w with ⟨e, hrun, -⟩ | ⟨m, hm, ⟨hnone, hrun⟩ | ⟨-, hrun⟩⟩
  · exact .of_eq hrun
  · exact .of_files hrun (.putDirectory hm hnone)
  · exact .of_eq hrun

/-- The directories above are those of fewer components, so all that are made are on the way. -/
theorem staysInside_makeDirectoriesFrom (fuel k : Nat) :
    StaysInside root names (makeDirectoriesFrom fuel (root.upTo k)) w := by
  induction fuel generalizing k w with
  | zero => exact staysInside_ensureDirectory k
  | succ fuel ih =>
      refine .tryCatch (staysInside_ensureDirectory k) fun e files t => ?_
      split
      · obtain ⟨j, hj⟩ := root.exists_parent_upTo k
        rw [hj]
        exact .bind (ih j) fun _ _ _ _ => staysInside_ensureDirectory k
      · exact .throw _

theorem staysInside_makeDirectories : StaysInside root names (makeDirectories root) w := by
  have h := @staysInside_makeDirectoriesFrom root names w root.parts.length root.parts.length
  rwa [root.upTo_length] at h

/-! ### Files -/

section Files

variable (hfile : file ∈ names) (hup : file ≠ "..") (hne : file ≠ "")

include hfile hup hne

theorem staysInside_writeText (s : String) : StaysInside root names (writeText (root.child file) s) w := by
  obtain ⟨r, files, hrun, rfl | ⟨l, content, hl, hopens, rfl⟩⟩ := writeText_cases (root.child file) s w
  · exact .of_eq hrun
  · exact .of_files hrun (.putFile hfile hup hne hl (FileTree.not_directory_of_opens hopens) _)

theorem staysInside_appendText (s : String) : StaysInside root names (appendText (root.child file) s) w := by
  rcases appendText_cases (root.child file) s w with ⟨e, hrun⟩ | ⟨l, -, hl, hopens, ⟨e, hrun⟩ | hrun⟩
  · exact .of_eq hrun
  · exact .of_files hrun (.putFile hfile hup hne hl (FileTree.not_directory_of_opens hopens) _)
  · exact .of_files hrun (.putFile hfile hup hne hl (FileTree.not_directory_of_opens hopens) _)

theorem staysInside_delete : StaysInside root names (delete (root.child file)) w := by
  rcases delete_cases (root.child file) w with ⟨hrun, -⟩ | ⟨l, e, hl, hentry, he, hrun⟩
  · exact .of_eq hrun
  · exact .of_files hrun (.removeFile hfile hup hne hl (FileTree.not_directory_of_entry hentry he))

/-- A file that is renamed goes under one of the names and comes under another. -/
theorem staysInside_rename (hother : other ∈ names) (hup' : other ≠ "..") (hne' : other ≠ "") :
    StaysInside root names (rename (root.child other) (root.child file)) w := by
  rcases rename_cases (root.child other) (root.child file) w with
    ⟨e, hrun, -⟩ | ⟨source, target, e, -, hl, -, hl', hfound, he, hnot, hrun⟩
  · exact .of_eq hrun
  · have hsource := FileTree.not_directory_of_entry hfound he
    have htarget := FileTree.not_directory_of_keeps (w.files.keeps_of_remove source) hnot
    have hremoved := FileTree.Inside.removeFile hother hup' hne' hl hsource
    have hput := FileTree.Inside.putFile hfile hup hne
      (FileTree.locate_of_keeps (FileTree.keeps_remove hsource) hl') htarget e
    exact .of_files hrun (hremoved.trans hput)

end Files

/-- The name of the temporary file beside a file. -/
def temporaryName (file : String) (process : Nat) : String :=
  file ++ ".tmp." ++ toString process

theorem temporaryName_ne (file : String) (process : Nat) :
    temporaryName file process ≠ ".." ∧ temporaryName file process ≠ "" := by
  have hlong : 5 ≤ (temporaryName file process).length := by
    have hending : ".tmp.".length = 5 := rfl
    rw [temporaryName, String.length_append, String.length_append, hending]
    omega
  constructor
  · intro h
    rw [h] at hlong
    exact absurd hlong (by decide)
  · intro h
    rw [h] at hlong
    exact absurd hlong (by decide)

theorem temporary_child (root : Path) (file : String) (process : Nat) :
    temporary (root.child file) process = root.child (temporaryName file process) := by
  rw [temporary, Path.name_child, Path.withName]
  simp [Path.child, temporaryName]

/-- **Replacing a file** changes it and the temporary file beside it. -/
theorem staysInside_replaceJson (hfile : file ∈ names) (hup : file ≠ "..") (hne : file ≠ "")
    (htemporary : temporaryName file w.process ∈ names) (j : Json) :
    StaysInside root names (replaceJson (root.child file) j) w := by
  obtain ⟨hup', hne'⟩ := temporaryName_ne file w.process
  unfold replaceJson
  split
  · unfold replaceText
    rw [Path.parent_child, Path.name_child]
    refine .bind staysInside_makeDirectories fun _ files t _ => ?_
    rw [if_neg hne]
    refine .get ?_
    have hprocess : ({ w.withTalk t with files := files } : World).process = w.process := rfl
    dsimp only
    rw [hprocess, temporary_child]
    refine .tryCatch ?_ fun e files' t' => ?_
    · refine .bind (staysInside_writeText htemporary hup' hne' _) fun _ _ _ _ => ?_
      exact staysInside_rename hfile hup hne htemporary hup' hne'
    · -- the temporary file goes if the system failed
      have hdelete : ∀ {w' : World}, StaysInside root names (delete (root.child (temporaryName file w.process))) w' :=
        staysInside_delete htemporary hup' hne'
      split
      · refine .bind (.report _) fun _ _ _ _ => ?_
        exact .bind hdelete fun _ _ _ _ => .throw _
      · exact .throw _
  · exact .throw _

end Files

end SophiaBind
