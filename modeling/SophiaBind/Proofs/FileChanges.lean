/-
**Changes of files.**

A path is followed through directories only, so it leads where it led while directories stay, and a file that is
written at its end is found there again. What a computation on files does depends on the files and on what the
system refuses, never on talk; and opening a log keeps the contents of all files but the one that it writes itself.

Main definitions:

* `FileTree.contentAt` — the content of the file at a location, empty if there is none,
* `FileTree.Keeps` — all directories stay directories,
* `FileTree.KeepsBut` — the contents of all files stay but those of a name,
* `App.OnFiles` — a computation on files alone.

Main results:

* `FileTree.locate_eq_ok_iff` — a path leads where its components do,
* `FileTree.locate_of_keeps` — **a path that leads somewhere goes on to lead there**,
* `FileTree.getLast?_of_locate` — a location ends in its path's last component,
* `History.Log.onFiles_open_` — **opening a log is a change of files alone**, and keeps the recorded attempts.
-/

import SophiaBind.Proofs.Talk

namespace SophiaBind

/-! ### Trees -/

namespace FileTree

/-- The content of the file at a location, empty if there is none that may be opened. -/
def contentAt (t : FileTree) (l : Location) : Bytes :=
  match t.entryAt? l with
  | some (.file content) => content
  | _ => []

/-- A file can be opened at a location, or made there. -/
def opens (t : FileTree) (l : Location) : Bool :=
  match t.entryAt? l with
  | none | some (.file _) => true
  | some (.locked _) | some .directory => false

theorem not_directory_of_opens {t : FileTree} {l : Location} (h : t.opens l = true) :
    t.entryAt? l ≠ some .directory := by
  intro hentry
  rw [opens, hentry] at h
  cases h

theorem entryAt?_put_self (t : FileTree) {l : Location} (hl : l ≠ []) (e : Entry) :
    (t.put l e).entryAt? l = some e := by
  rw [entryAt?, if_neg hl, put]
  exact Keyed.lookup_put_self t.entries l e

theorem entryAt?_put_of_ne (t : FileTree) {l m : Location} (h : m ≠ l) (e : Entry) :
    (t.put l e).entryAt? m = t.entryAt? m := by
  rw [entryAt?, entryAt?, put]
  split
  · rfl
  · exact Keyed.lookup_put_of_ne t.entries e h

/-- The root is a directory. -/
theorem ne_nil_of_entryAt? {t : FileTree} {l : Location} (h : t.entryAt? l ≠ some .directory) : l ≠ [] := by
  rintro rfl
  exact h rfl

/-- All directories stay directories. -/
def Keeps (t t' : FileTree) : Prop :=
  ∀ l, t.entryAt? l = some .directory → t'.entryAt? l = some .directory

theorem Keeps.refl (t : FileTree) : t.Keeps t :=
  fun _ hl => hl

theorem Keeps.trans {t t' t'' : FileTree} (h : t.Keeps t') (h' : t'.Keeps t'') : t.Keeps t'' :=
  fun l hl => h' l (h l hl)

/-- What is put where no directory stands leaves all directories. -/
theorem keeps_put {t : FileTree} {l : Location} (h : t.entryAt? l ≠ some .directory) (e : Entry) :
    t.Keeps (t.put l e) := by
  intro m hm
  have hne : m ≠ l := by
    rintro rfl
    exact h hm
  rw [entryAt?_put_of_ne t hne, hm]

/-- A path goes on from directories alone, so files that come and go do not turn it aside. -/
theorem follow_of_keeps {t t' : FileTree} (hkeeps : t.Keeps t') {l m : Location} {parts : List String}
    (h : t.follow m parts = .ok l) : t'.follow m parts = .ok l := by
  induction parts generalizing m with
  | nil => exact h
  | cons part rest ih =>
      rw [follow] at h ⊢
      cases hm : t.entryAt? m with
      | none => rw [hm] at h; cases h
      | some e =>
          cases e with
          | file content | locked content => rw [hm] at h; cases h
          | directory =>
              rw [hm] at h
              rw [hkeeps m hm]
              dsimp only at h ⊢
              split at h
              · cases h
              · next hshort =>
                  rw [if_neg hshort]
                  split at h
                  · next hup => rw [if_pos hup]; exact ih h
                  · next hdown => rw [if_neg hdown]; exact ih h

/-- A path leads where its components do, if it is not too long. -/
theorem locate_eq_ok_iff {t : FileTree} {home l : Location} {p : Path} :
    t.locate home p = .ok l ↔
      p.toString.utf8ByteSize ≤ longestPath ∧ t.follow (if p.anchor = "" then home else []) p.parts = .ok l := by
  unfold locate
  split
  · next hlong => exact iff_of_false nofun fun h => absurd h.1 (Nat.not_le.2 hlong)
  · next hshort => exact (and_iff_right (Nat.not_lt.1 hshort)).symm

/-- **A path that leads somewhere goes on to lead there** while directories stay. -/
theorem locate_of_keeps {t t' : FileTree} (hkeeps : t.Keeps t') {home l : Location} {p : Path}
    (h : t.locate home p = .ok l) : t'.locate home p = .ok l := by
  rw [locate_eq_ok_iff] at h ⊢
  exact ⟨h.1, follow_of_keeps hkeeps h.2⟩

/-- A file that is written is found again. -/
theorem locate_put {t : FileTree} {home l : Location} {p : Path} {e : Entry}
    (hl : t.entryAt? l ≠ some .directory) (h : t.locate home p = .ok l) : (t.put l e).locate home p = .ok l :=
  locate_of_keeps (keeps_put hl e) h

theorem follow_append {t : FileTree} {l m : Location} {parts : List String} {part : String} (hpart : part ≠ "..")
    (h : t.follow m (parts ++ [part]) = .ok l) : l.getLast? = some part := by
  induction parts generalizing m with
  | nil =>
      rw [List.nil_append, follow] at h
      split at h
      · cases h
      · cases h
      · cases h
      · rw [if_neg hpart] at h
        split at h
        · cases h
        · cases h
          simp
  | cons first rest ih =>
      rw [List.cons_append, follow] at h
      split at h
      · cases h
      · cases h
      · cases h
      · split at h
        · cases h
        · split at h
          · exact ih h
          · exact ih h

/-- A location ends in its path's last component. -/
theorem getLast?_of_locate {t : FileTree} {home l : Location} {p : Path} {name : String} (hname : name ≠ "..")
    (h : t.locate home (p.child name) = .ok l) : l.getLast? = some name :=
  follow_append hname (locate_eq_ok_iff.1 h).2

/-- The contents of all files stay, but those of files with a name. -/
def KeepsBut (name : String) (t t' : FileTree) : Prop :=
  ∀ l : Location, l.getLast? ≠ some name → t'.contentAt l = t.contentAt l

theorem KeepsBut.refl (name : String) (t : FileTree) : t.KeepsBut name t :=
  fun _ _ => rfl

theorem KeepsBut.trans {name : String} {t t' t'' : FileTree} (h : t.KeepsBut name t')
    (h' : t'.KeepsBut name t'') : t.KeepsBut name t'' :=
  fun l hl => (h' l hl).trans (h l hl)

/-- A directory is made where nothing stands. -/
theorem keepsBut_putDirectory {t : FileTree} {l : Location} (h : t.entryAt? l = none) (name : String) :
    t.KeepsBut name (t.put l .directory) := by
  intro m _
  unfold contentAt
  by_cases hm : m = l
  · subst hm
    rw [entryAt?_put_self t (ne_nil_of_entryAt? (by rw [h]; decide)), h]
  · rw [entryAt?_put_of_ne t hm]

/-- A file with the name is written. -/
theorem keepsBut_putFile {t : FileTree} {l : Location} {name : String} (h : l.getLast? = some name) (e : Entry) :
    t.KeepsBut name (t.put l e) := by
  intro m hm
  have hne : m ≠ l := by
    rintro rfl
    exact hm h
  rw [contentAt, entryAt?_put_of_ne t hne]
  rfl

end FileTree

/-! ### Computations on files -/

namespace App

variable {α β : Type}

/-- In a world with any talk, the computation has the same result and changes the files in the same way, and
nothing else; it keeps all contents but those of files with a name. -/
def OnFiles (name : String) (x : App α) (w : World) : Prop :=
  ∃ r files, w.files.KeepsBut name files ∧ ∀ t, x.runIn (w.withTalk t) = (r, { w.withTalk t with files := files })

namespace OnFiles

variable {name : String} {w : World}

theorem pure (a : α) : OnFiles name (pure a) w :=
  ⟨.ok a, w.files, .refl name w.files, fun _ => rfl⟩

theorem throw (f : Fault) : OnFiles name (throw f : App α) w :=
  ⟨.error f, w.files, .refl name w.files, fun _ => rfl⟩

theorem ofExcept (e : Except Fault α) : OnFiles name (ofExcept e) w :=
  ⟨e, w.files, .refl name w.files, fun _ => runIn_ofExcept e _⟩

/-- What is asked of the world must not be its talk. -/
theorem get {f : World → App α} (htalk : ∀ t, f (w.withTalk t) = f w) (h : OnFiles name (f w) w) :
    OnFiles name (get >>= f) w := by
  obtain ⟨r, files, hkeeps, hrun⟩ := h
  refine ⟨r, files, hkeeps, fun t => ?_⟩
  rw [runIn_bind_ok (runIn_get _), htalk]
  exact hrun t

theorem put {l : Location} {e : Entry} (h : w.files.KeepsBut name (w.files.put l e)) :
    OnFiles name (Files.put l e) w :=
  ⟨.ok (), w.files.put l e, h, fun _ => rfl⟩

theorem bind {x : App α} {f : α → App β} (hx : OnFiles name x w)
    (hf : ∀ a files, x.runIn w = (.ok a, { w with files := files }) →
      OnFiles name (f a) { w with files := files }) :
    OnFiles name (x >>= f) w := by
  obtain ⟨r, files, hkeeps, hrun⟩ := hx
  cases r with
  | error fault => exact ⟨.error fault, files, hkeeps, fun t => runIn_bind_error (hrun t) f⟩
  | ok a =>
      obtain ⟨r', files', hkeeps', hrun'⟩ := hf a files (hrun w.talk)
      exact ⟨r', files', hkeeps.trans hkeeps', fun t => (runIn_bind_ok (hrun t) f).trans (hrun' t)⟩

theorem tryCatch {x : App α} {handler : Fault → App α} (hx : OnFiles name x w)
    (hh : ∀ e files, OnFiles name (handler e) { w with files := files }) :
    OnFiles name (tryCatch x handler) w := by
  obtain ⟨r, files, hkeeps, hrun⟩ := hx
  cases r with
  | ok a => exact ⟨.ok a, files, hkeeps, fun t => by rw [runIn_tryCatch, hrun t]⟩
  | error fault =>
      obtain ⟨r', files', hkeeps', hrun'⟩ := hh fault files
      exact ⟨r', files', hkeeps.trans hkeeps', fun t => by rw [runIn_tryCatch, hrun t]; exact hrun' t⟩

end OnFiles

end App

namespace Files

open App

variable {name : String} {w : World}

theorem onFiles_locate (p : Path) : OnFiles name (locate p) w := by
  unfold locate
  split
  · refine .get (fun _ => rfl) ?_
    split
    · exact .pure _
    · exact .throw _
  · exact .throw _

theorem onFiles_find (p : Path) : OnFiles name (find p) w := by
  unfold find
  split
  · refine .get (fun _ => rfl) ?_
    split
    · exact .pure _
    · exact .throw _
    · exact .pure _
  · exact .pure _

theorem onFiles_permit (action : FileAction) (p : Path) (target : Option String) :
    OnFiles name (permit action p target) w := by
  refine .get (fun _ => rfl) ?_
  split
  · exact .throw _
  · exact .pure _

/-- A path that is located is usable and leads there; the world stays as it is. -/
theorem locate_eq_ok {p : Path} {l : Location} {w' : World} :
    (locate p).runIn w = (.ok l, w') ↔ isUsable p = true ∧ w.files.locate w.home p = .ok l ∧ w' = w := by
  unfold locate
  split
  · next hp =>
      rw [runIn_bind_ok (runIn_get w)]
      split
      · next m hm => simp [hp, hm, eq_comm]
      · next cause hc => simp [hc]
  · next hp => simp [hp]

theorem permit_eq_ok {action : FileAction} {p : Path} {target : Option String} {w' : World} :
    (permit action p target).runIn w = (.ok (), w') ↔ w.refuses action = false ∧ w' = w := by
  unfold permit
  rw [runIn_bind_ok (runIn_get w)]
  split
  · next h => simp [h]
  · next h => simp [h, eq_comm]

/-- A file can be opened where its path leads if nothing else stands there and the system does not refuse it. -/
theorem openFile_ok {p : Path} {l : Location} (hp : isUsable p = true) (hl : w.files.locate w.home p = .ok l)
    (hfile : w.files.opens l = true) (hopen : w.refuses (.openFile l) = false) :
    (openFile p).runIn w = (.ok (l, w.files.contentAt l), w) := by
  have hpermit : (permit (.openFile l) p).runIn w = (.ok (), w) := permit_eq_ok.2 ⟨hopen, rfl⟩
  rw [openFile, runIn_bind_ok (locate_eq_ok.2 ⟨hp, hl, rfl⟩), runIn_bind_ok (runIn_get w), FileTree.contentAt]
  rw [FileTree.opens] at hfile
  cases hentry : w.files.entryAt? l with
  | none =>
      dsimp only
      rw [runIn_bind_ok hpermit]
      rfl
  | some e =>
      cases e with
      | locked | directory => rw [hentry] at hfile; cases hfile
      | file content =>
          dsimp only
          rw [runIn_bind_ok hpermit]
          rfl

/-- A file that is opened is where its path leads. -/
theorem locate_of_openFile {p : Path} {opened : Location × Bytes} {w' : World}
    (h : (openFile p).runIn w = (.ok opened, w')) : w.files.locate w.home p = .ok opened.1 := by
  rw [openFile, runIn_bind] at h
  cases hloc : (locate p).runIn w with
  | mk r w'' =>
      rw [hloc] at h
      cases r with
      | error e => cases h
      | ok l =>
          obtain ⟨-, hl, rfl⟩ := locate_eq_ok.1 hloc
          dsimp only at h
          rw [runIn_bind_ok (runIn_get _)] at h
          suffices l = opened.1 by rw [← this]; exact hl
          split at h
          · cases h
          · cases h
          · rw [runIn_bind] at h
            split at h
            · cases h; rfl
            · cases h
          · rw [runIn_bind] at h
            split at h
            · cases h; rfl
            · cases h

theorem onFiles_openFile (p : Path) : OnFiles name (openFile p) w := by
  refine .bind (onFiles_locate p) fun l files _ => .get (fun _ => rfl) ?_
  split
  · exact .throw _
  · exact .throw _
  · exact .bind (onFiles_permit _ _ _) fun _ _ _ => .pure _
  · exact .bind (onFiles_permit _ _ _) fun _ _ _ => .pure _

/-- Writing a file changes the contents of files with its name only. -/
theorem onFiles_writeText {p : Path} (hname : name ≠ "..") (s : LooseText) :
    OnFiles name (writeText (p.child name) s) w := by
  refine .bind (onFiles_openFile _) fun opened files hopen => ?_
  -- the file is made empty before it is written, both under its name
  obtain ⟨l, content⟩ := opened
  have hl : l.getLast? = some name := FileTree.getLast?_of_locate hname (locate_of_openFile hopen)
  refine .bind (.put (FileTree.keepsBut_putFile hl _)) fun _ _ _ => ?_
  refine .bind (.ofExcept _) fun _ _ _ => ?_
  refine .bind (onFiles_permit _ _ _) fun _ _ _ => ?_
  exact .put (FileTree.keepsBut_putFile hl _)

theorem onFiles_makeDirectory (p : Path) : OnFiles name (makeDirectory p) w := by
  refine .bind (onFiles_locate p) fun l files _ => .get (fun _ => rfl) ?_
  split
  · exact .throw _
  · next hnone =>
      refine .bind (onFiles_permit _ _ _) fun _ files' hpermit => ?_
      rw [(permit_eq_ok.1 hpermit).2]
      exact .put (FileTree.keepsBut_putDirectory hnone name)

theorem onFiles_isDirectory (p : Path) : OnFiles name (isDirectory p) w :=
  .bind (onFiles_find p) fun _ _ _ => .pure _

theorem onFiles_ensureDirectory (p : Path) : OnFiles name (ensureDirectory p) w := by
  refine .tryCatch (onFiles_makeDirectory p) fun e files => ?_
  split
  · exact .throw _
  · refine .bind (onFiles_isDirectory p) fun found _ _ => ?_
    split
    · exact .pure _
    · exact .throw _
  · exact .throw _

theorem onFiles_makeDirectoriesFrom (fuel : Nat) (p : Path) : OnFiles name (makeDirectoriesFrom fuel p) w := by
  induction fuel generalizing p w with
  | zero => exact onFiles_ensureDirectory p
  | succ fuel ih =>
      refine .tryCatch (onFiles_ensureDirectory p) fun e files => ?_
      split
      · exact .bind (ih p.parent) fun _ _ _ => onFiles_ensureDirectory p
      · exact .throw _

end Files

namespace History.Log

open App

/-- **Opening a log is a change of files alone**, and keeps the recorded attempts. -/
theorem onFiles_open_ (base : Path) (runId : Option String) (w : World) :
    OnFiles ".hostname" (open_ base runId) w := by
  refine .get (fun _ => rfl) ?_
  refine .bind (Files.onFiles_makeDirectoriesFrom _ _) fun _ _ _ => ?_
  refine .bind ?_ fun _ _ _ => .pure _
  refine .tryCatch ?_ fun e files => ?_
  · exact Files.onFiles_writeText (by decide) _
  · split
    · exact .pure _
    · exact .throw _

end History.Log

end SophiaBind
