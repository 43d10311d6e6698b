/-
**A log with its metadata can be appended to.**

A log that was opened has its directory. Where the metadata of the run was then put into it, a path leads to the file
of the attempts beside it, whose name is shorter; no directory has come or gone. So attempts can be recorded unless
that file itself is in the way or the system refuses it.

Main definitions:

* `World.MayWrite` — a path at which nothing hinders writing.

Main results:

* `FileTree.locate_of_child` — a path that leads somewhere leads there through the directory above,
* `FileTree.locate_sibling` — **a path leads to what lies beside**,
* `Files.replaceJson_ok` — replacing a file leaves all directories,
* `History.Log.appendable_of_metadata` — **attempts can be recorded once the metadata is there**.
-/

import SophiaBind.Proofs.OtherServices
import SophiaBind.Proofs.Sessions

namespace SophiaBind

/-! ### Paths -/

namespace Path

/-- What a name adds to a path is its own length, and that of the sign in front of it if something is there. -/
theorem utf8ByteSize_intercalate (parts : List String) (name : String) :
    ("/".intercalate (parts ++ [name])).utf8ByteSize =
      ("/".intercalate parts).utf8ByteSize + (if parts = [] then 0 else 1) + name.utf8ByteSize := by
  induction parts with
  | nil => simp
  | cons part rest ih =>
      have hsign : "/".utf8ByteSize = 1 := rfl
      cases rest with
      | nil =>
          rw [List.singleton_append, String.intercalate_cons_cons, String.intercalate_singleton,
            String.intercalate_singleton, String.utf8ByteSize_append, String.utf8ByteSize_append, hsign,
            if_neg (List.cons_ne_nil _ _)]
      | cons next rest =>
          rw [if_neg (List.cons_ne_nil _ _)] at ih ⊢
          rw [List.cons_append] at ih
          rw [List.cons_append, List.cons_append, String.intercalate_cons_cons, String.intercalate_cons_cons]
          simp only [String.utf8ByteSize_append, ih]
          omega

theorem utf8ByteSize_child (p : Path) (name : String) :
    (p.child name).toString.utf8ByteSize = p.anchor.utf8ByteSize +
      (("/".intercalate p.parts).utf8ByteSize + (if p.parts = [] then 0 else 1) + name.utf8ByteSize) := by
  have hwritten : (p.child name).toString = p.anchor ++ "/".intercalate (p.parts ++ [name]) :=
    if_neg (by simp [child])
  rw [hwritten, String.utf8ByteSize_append, utf8ByteSize_intercalate]

/-- A shorter name makes a shorter path. -/
theorem toString_child_le (p : Path) {a b : String} (hab : b.utf8ByteSize ≤ a.utf8ByteSize) :
    (p.child b).toString.utf8ByteSize ≤ (p.child a).toString.utf8ByteSize := by
  rw [utf8ByteSize_child, utf8ByteSize_child]
  omega

/-- A path with one more component is not shorter, also than the point that is written for no component. -/
theorem toString_le_child (p : Path) {name : String} (hname : name ≠ "") :
    p.toString.utf8ByteSize ≤ (p.child name).toString.utf8ByteSize := by
  have hpos : name.utf8ByteSize ≠ 0 := mt String.utf8ByteSize_eq_zero_iff.1 hname
  have hpoint : ".".utf8ByteSize = 1 := rfl
  rw [utf8ByteSize_child, Path.toString]
  split
  · omega
  · rw [String.utf8ByteSize_append]
    omega

end Path

/-! ### Trees -/

namespace FileTree

variable {t : FileTree} {home l : Location}

theorem entryAt?_remove_self (t : FileTree) {l : Location} (hl : l ≠ []) : (t.remove l).entryAt? l = none := by
  rw [entryAt?, if_neg hl, remove, List.lookup_eq_none_iff]
  intro e he
  have hne : e.1 ≠ l := of_decide_eq_true (List.mem_filter.1 he).2
  simpa using hne.symm

theorem entryAt?_remove_of_ne (t : FileTree) {l m : Location} (hm : m ≠ l) :
    (t.remove l).entryAt? m = t.entryAt? m := by
  unfold entryAt?
  split
  · rfl
  · rw [remove]
    dsimp only
    induction t.entries with
    | nil => rfl
    | cons e rest ih =>
        obtain ⟨k, entry⟩ := e
        by_cases hk : k = l
        · have hmk : (m == k) = false := by simpa [hk] using hm
          rw [List.filter_cons_of_neg (by simpa using hk), ih, List.lookup_cons, hmk]
        · rw [List.filter_cons_of_pos (by simpa using hk), List.lookup_cons, List.lookup_cons, ih]

theorem entryAt?_remove (t : FileTree) (l m : Location) :
    (t.remove l).entryAt? m = t.entryAt? m ∨ m = l ∧ (t.remove l).entryAt? m = none := by
  by_cases hm : m = l
  · subst hm
    by_cases hroot : m = []
    · rw [hroot]
      exact .inl rfl
    · exact .inr ⟨rfl, t.entryAt?_remove_self hroot⟩
  · exact .inl (t.entryAt?_remove_of_ne hm)

/-- A file that is put somewhere makes no directory. -/
theorem keeps_of_putFile (t : FileTree) (l : Location) (content : Bytes) : (t.put l (.file content)).Keeps t := by
  intro m hm
  by_cases hml : m = l
  · subst hml
    by_cases hroot : m = []
    · rw [hroot]
      rfl
    · rw [entryAt?_put_self t hroot] at hm
      cases hm
  · rwa [entryAt?_put_of_ne t hml] at hm

/-- A file that is taken away leaves all directories. -/
theorem keeps_remove (h : t.entryAt? l ≠ some .directory) : t.Keeps (t.remove l) := by
  intro m hm
  rcases t.entryAt?_remove l m with hsame | ⟨rfl, -⟩
  · rw [hsame, hm]
  · exact absurd hm h

/-- Where a file can be opened, one can be opened after a file was put somewhere. -/
theorem opens_putFile (h : t.opens l = true) (m : Location) (content : Bytes) :
    (t.put m (.file content)).opens l = true := by
  by_cases hlm : l = m
  · subst hlm
    rw [opens, entryAt?_put_self t (ne_nil_of_entryAt? (not_directory_of_opens h))]
  · rwa [opens, entryAt?_put_of_ne t hlm]

/-- So it is after something was taken away. -/
theorem opens_remove (h : t.opens l = true) (m : Location) : (t.remove m).opens l = true := by
  rcases t.entryAt?_remove m l with hsame | ⟨-, hnone⟩
  · rwa [opens, hsame]
  · rw [opens, hnone]

theorem keeps_of_remove (t : FileTree) (l : Location) : (t.remove l).Keeps t := by
  intro m hm
  rcases t.entryAt?_remove l m with hsame | ⟨-, hnone⟩
  · rwa [hsame] at hm
  · rw [hnone] at hm
    cases hm

/-- What is no directory is none after it was taken away. -/
theorem not_directory_of_keeps {t' : FileTree} (h : t'.Keeps t) (hl : t.entryAt? l ≠ some .directory) :
    t'.entryAt? l ≠ some .directory :=
  fun hdirectory => hl (h l hdirectory)

/-- A path that leads somewhere leads there through the directory above. -/
theorem locate_of_child {p : Path} {name : String} (hup : name ≠ "..") (hne : name ≠ "")
    (h : t.locate home (p.child name) = .ok l) :
    ∃ m, t.locate home p = .ok m ∧ l = m ++ [name] ∧ t.entryAt? m = some .directory := by
  obtain ⟨hshort, hfollow⟩ := locate_eq_ok_iff.1 h
  obtain ⟨m, hway, -⟩ := follow_append_eq_ok.1 hfollow
  have hm : t.locate home p = .ok m := locate_eq_ok_iff.2 ⟨(p.toString_le_child hne).trans hshort, hway⟩
  obtain ⟨hl, hdirectory, -⟩ := (locate_child hup hm).1 h
  exact ⟨m, hm, hl, hdirectory⟩

/-- **A path leads to what lies beside**, if the name is not longer. -/
theorem locate_sibling {p : Path} {a b : String} (ha : a ≠ "..") (hne : a ≠ "") (hb : b ≠ "..")
    (hab : b.utf8ByteSize ≤ a.utf8ByteSize) (h : t.locate home (p.child a) = .ok l) :
    ∃ m, t.locate home (p.child b) = .ok (m ++ [b]) := by
  obtain ⟨m, hm, -, hdirectory⟩ := locate_of_child ha hne h
  obtain ⟨-, -, hname, hpath⟩ := (locate_child ha hm).1 h
  exact ⟨m, (locate_child hb hm).2 ⟨rfl, hdirectory, hab.trans hname, (p.toString_child_le hab).trans hpath⟩⟩

end FileTree

/-! ### Replacing files -/

/-- What ends well with a handler that never does ends well without it. -/
theorem App.runIn_tryCatch_eq_ok {α : Type} {x : App α} {handler : Fault → App α} {w w' : World} {a : α}
    (h : (tryCatch x handler).runIn w = (.ok a, w'))
    (hhandler : ∀ e w₁ b w₂, (handler e).runIn w₁ = (.ok b, w₂) → False) : x.runIn w = (.ok a, w') := by
  rw [runIn_tryCatch] at h
  cases hx : x.runIn w with
  | mk result w₁ =>
      rw [hx] at h
      cases result with
      | ok b => exact h
      | error e => exact (hhandler e w₁ a w' h).elim

namespace Files

open App

variable {w w' : World} {p : Path}

/-- A directory that is made is there. -/
theorem ensureDirectory_ok (h : (ensureDirectory p).runIn w = (.ok (), w')) :
    ∃ l, w'.files.locate w'.home p = .ok l ∧ w'.files.entryAt? l = some .directory := by
  rcases ensureDirectory_cases p w with ⟨e, hrun, -⟩ | ⟨l, hl, ⟨hentry, hrun⟩ | ⟨hentry, hrun⟩⟩
  · rw [hrun] at h
    cases h
  · rw [hrun] at h
    cases h
    have hnone : w.files.entryAt? l ≠ some .directory := by
      rw [hentry]
      decide
    exact ⟨l, FileTree.locate_put hnone hl, FileTree.entryAt?_put_self _ (FileTree.ne_nil_of_entryAt? hnone) _⟩
  · rw [hrun] at h
    cases h
    exact ⟨l, hl, hentry⟩

/-- **A directory that is made with those above it is there.** -/
theorem makeDirectories_ok (h : (makeDirectories p).runIn w = (.ok (), w')) :
    ∃ l, w'.files.locate w'.home p = .ok l ∧ w'.files.entryAt? l = some .directory := by
  unfold makeDirectories at h
  cases hfuel : p.parts.length with
  | zero =>
      rw [hfuel] at h
      exact ensureDirectory_ok h
  | succ fuel =>
      rw [hfuel, makeDirectoriesFrom, runIn_tryCatch] at h
      cases hensure : (ensureDirectory p).runIn w with
      | mk result w₁ =>
          rw [hensure] at h
          cases result with
          | ok _ =>
              cases h
              exact ensureDirectory_ok hensure
          | error e =>
              dsimp only at h
              split at h
              · obtain ⟨_, w₂, -, hagain⟩ := runIn_bind_eq_ok h
                exact ensureDirectory_ok hagain
              · cases h

/-- Nothing is made of a directory that is there. -/
theorem makeDirectories_there {l : Location} (hl : w.files.locate w.home p = .ok l)
    (hentry : w.files.entryAt? l = some .directory) (h : (makeDirectories p).runIn w = (.ok (), w')) : w' = w := by
  rw [makeDirectories, makeDirectoriesFrom_located _ hl] at h
  rcases ensureDirectory_cases p w with ⟨e, hrun, -⟩ | ⟨m, hm, ⟨hnone, hrun⟩ | ⟨-, hrun⟩⟩
  · rw [hrun] at h
    cases h
  · rw [hl] at hm
    cases hm
    rw [hentry] at hnone
    cases hnone
  · rw [hrun] at h
    cases h
    rfl

/-- The directories are the same, files can be opened where they could be, and a path leads somewhere. -/
structure Replaced (p : Path) (w w' : World) : Prop where
  usable : isUsable p = true
  located : ∃ l, w.files.locate w.home p = .ok l
  files : ∃ files, w' = { w with files := files } ∧ w.files.Keeps files ∧
    ∀ l, w.files.opens l = true → files.opens l = true

/-- Renaming replaces a file by another one that can be opened. -/
theorem rename_ok {q : Path} {source : Location} {content : Bytes} (hsource : w.files.locate w.home p = .ok source)
    (hfile : w.files.entryAt? source = some (.file content)) (h : (rename p q).runIn w = (.ok (), w')) :
    Replaced q w w' := by
  rcases rename_cases p q w with ⟨e, hrun, -⟩ | ⟨source', target, e, -, hsource', husable, hl, hfound, -, hnot, hrun⟩
  · rw [hrun] at h
    cases h
  · rw [hrun] at h
    cases h
    obtain rfl := Except.ok.inj (hsource.symm.trans hsource')
    obtain rfl := Option.some.inj (hfile.symm.trans hfound)
    have hgone : w.files.entryAt? source ≠ some .directory := by
      rw [hfound]
      exact fun he => by cases he
    have hfree := FileTree.not_directory_of_keeps (w.files.keeps_of_remove source) hnot
    exact ⟨husable, ⟨target, hl⟩, _, rfl, (FileTree.keeps_remove hgone).trans (FileTree.keeps_put hfree _),
      fun l hopens => FileTree.opens_putFile (FileTree.opens_remove hopens source) target content⟩

/-- A file that is written under another name and renamed. -/
theorem writeAndRename_ok {q : Path} {s : LooseText}
    (h : (do writeText q s; rename q p : App Unit).runIn w = (.ok (), w')) : Replaced p w w' := by
  obtain ⟨_, w₁, hwrite, hrename⟩ := runIn_bind_eq_ok h
  rcases writeText_ends q s w with ⟨e, hrun, -⟩ | ⟨k, -, hq, hk, ⟨e, hrun, -⟩ | ⟨content, -, hrun⟩⟩
  · cases hrun.symm.trans hwrite
  · cases hrun.symm.trans hwrite
  · rw [hrun] at hwrite
    cases hwrite
    have hnot := FileTree.not_directory_of_opens hk
    have hwritten := w.files.entryAt?_put_self (FileTree.ne_nil_of_entryAt? hnot) (.file content)
    obtain ⟨husable, ⟨l, hl⟩, files', rfl, hkeeps, hopens⟩ :=
      rename_ok (FileTree.locate_put hnot hq) hwritten hrename
    exact ⟨husable, ⟨l, FileTree.locate_of_keeps (w.files.keeps_of_putFile k content) hl⟩, _, rfl,
      (FileTree.keeps_put hnot _).trans hkeeps,
      fun m hm => hopens m (FileTree.opens_putFile hm k content)⟩

/-- **Replacing a file** in a directory that is there leaves all directories. -/
theorem replaceText_ok {s : LooseText} {m : Location} (hm : w.files.locate w.home p.parent = .ok m)
    (hentry : w.files.entryAt? m = some .directory) (h : (replaceText p s).runIn w = (.ok (), w')) :
    Replaced p w w' := by
  rw [replaceText] at h
  obtain ⟨_, w₁, hmake, hbehind⟩ := runIn_bind_eq_ok h
  obtain rfl := makeDirectories_there hm hentry hmake
  dsimp only at hbehind
  split at hbehind
  · obtain ⟨_, _, hthrow, -⟩ := runIn_bind_eq_ok hbehind
    cases hthrow
  · rw [runIn_bind_ok (runIn_get _)] at hbehind
    -- whatever fails in between is not mended
    have hbody := runIn_tryCatch_eq_ok hbehind fun e w₂ b w₃ hhandled => by
      split at hhandled
      · obtain ⟨_, _, -, hdelete⟩ := runIn_bind_eq_ok hhandled
        obtain ⟨_, _, -, hthrow⟩ := runIn_bind_eq_ok hdelete
        cases hthrow
      · cases hhandled
    exact writeAndRename_ok hbody

theorem replaceJson_ok {j : Json} {m : Location} (hm : w.files.locate w.home p.parent = .ok m)
    (hentry : w.files.entryAt? m = some .directory) (h : (replaceJson p j).runIn w = (.ok (), w')) :
    j.isWritable = true ∧ Replaced p w w' := by
  unfold replaceJson at h
  split at h
  · next hj => exact ⟨hj, replaceText_ok hm hentry h⟩
  · cases h

end Files

/-! ### Logs -/

/-- Nothing hinders writing where a path leads: a file can be opened there, and the system does not refuse it. -/
def World.MayWrite (w : World) (p : Path) : Prop :=
  ∀ l, w.files.locate w.home p = .ok l →
    w.files.opens l = true ∧ w.refuses (.openFile l) = false ∧ w.refuses (.writeFile l) = false

namespace History.Log

variable {w w₁ w₂ : World} {log : Log}

/-- A log that was opened has its directory. -/
theorem located_of_open {base : Path} {runId : Option String} (h : (Log.open_ base runId).runIn w = (.ok log, w₁)) :
    ∃ m, w₁.files.locate w₁.home log.root = .ok m ∧ w₁.files.entryAt? m = some .directory := by
  rw [open_eq] at h
  generalize sanitize (chosenId runId w) = name at h
  rw [openNamed] at h
  obtain ⟨_, w₂, hmake, hbehind⟩ := App.runIn_bind_eq_ok h
  obtain ⟨m, hm, hentry⟩ := Files.makeDirectories_ok hmake
  obtain ⟨_, w₃, hmark, hlog⟩ := App.runIn_bind_eq_ok hbehind
  cases hlog
  -- the mark of the host is a file, whether it was written or not
  obtain ⟨r, files, hwrite, hfiles⟩ :=
    Files.writeText_cases ((base.append (Path.ofString name)).append (Path.ofString ".hostname")) w.host w₂
  have hkeeps : w₂.files.Keeps files := by
    rcases hfiles with rfl | ⟨l, content, -, hl, rfl⟩
    · exact .refl _
    · exact FileTree.keeps_put (FileTree.not_directory_of_opens hl) _
  have hroot := FileTree.locate_of_keeps hkeeps hm
  have hthere := hkeeps m hentry
  rw [App.runIn_tryCatch, hwrite] at hmark
  cases r with
  | ok _ =>
      cases hmark
      exact ⟨m, hroot, hthere⟩
  | error e =>
      dsimp only at hmark
      split at hmark
      · cases hmark
        exact ⟨m, hroot, hthere⟩
      · cases hmark

/-- **Attempts can be recorded once the metadata is there**, unless something hinders writing them. -/
theorem appendable_of_metadata {base : Path} {runId : Option String} {members : List (LooseText × Json)}
    (hopen : (Log.open_ base runId).runIn w = (.ok log, w₁)) (hfree : w₁.MayWrite log.actionsFile)
    (hmetadata : (log.writeMetadata members).runIn w₁ = (.ok (), w₂)) :
    (Json.object (Keyed.putAll [("run_id", .text log.runId)] members)).isWritable = true ∧
      (∃ files, w₂ = { w₁ with files := files }) ∧ ∃ l, log.Appendable w₂ l := by
  obtain ⟨m, hm, hentry⟩ := located_of_open hopen
  have hfile : log.metadataFile = log.root.child "run_metadata.json" := rfl
  have hactions : log.actionsFile = log.root.child "actions.jsonl" := rfl
  have hparent : log.metadataFile.parent = log.root := by simp [hfile, Path.child, Path.parent]
  obtain ⟨hwritable, husable, ⟨k, hk⟩, files, rfl, hkeeps, hopenable⟩ :=
    Files.replaceJson_ok (hparent.symm ▸ hm) hentry hmetadata
  rw [hfile] at husable hk
  obtain ⟨m', hl⟩ := FileTree.locate_sibling (b := "actions.jsonl") (by decide) (by decide) (by decide) (by decide) hk
  obtain ⟨hfile', hopens, hwrites⟩ := hfree _ hl
  have husable' : Files.isUsable (log.root.child "actions.jsonl") = true := by
    refine List.all_eq_true.2 fun part hpart => ?_
    rcases List.mem_append.1 hpart with hpart | hpart
    · exact List.all_eq_true.1 husable part (List.mem_append_left _ hpart)
    · rw [List.mem_singleton.1 hpart]
      decide
  exact ⟨hwritable, ⟨files, rfl⟩, _, husable', FileTree.locate_of_keeps hkeeps hl,
    hopenable _ hfile', hopens, hwrites⟩

end History.Log

end SophiaBind
