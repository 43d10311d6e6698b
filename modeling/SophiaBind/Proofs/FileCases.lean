/-
**The ways in which work on files can end.**

A path leads where its components lead one after the other. Each computation on files either fails and leaves what
was there, or does what it is for; the lemmas of this module list the cases, one lemma for each computation, so that
no proof opens them again.

Main results:

* `FileTree.follow_append_eq_ok` — components lead on from where the first of them lead,
* `FileTree.locate_child` — a path with one more component leads into a directory,
* `Files.appendText_cases`, `Files.writeText_ends`, `Files.writeText_cases` — what writing does,
* `Files.rename_cases`, `Files.delete_cases` — what renaming and deleting do,
* `Files.makeDirectories_child` — **a directory below one that is located** is made at most with that one.
-/

import SophiaBind.Proofs.FileChanges
import SophiaBind.Proofs.KeyedLists
import SophiaBind.Proofs.Results

namespace SophiaBind

namespace FileTree

variable {t : FileTree} {home l m : Location} {p : Path}

theorem put_put (t : FileTree) (l : Location) (a b : Entry) : (t.put l a).put l b = t.put l b :=
  congrArg FileTree.mk (Keyed.put_put t.entries l a b)

/-! ### Paths with one more component -/

theorem follow_append_eq (t : FileTree) (m : Location) (parts more : List String) :
    t.follow m (parts ++ more) = (t.follow m parts).bind fun l => t.follow l more := by
  induction parts generalizing m with
  | nil => rfl
  | cons part rest ih =>
      rw [List.cons_append, follow, follow]
      cases t.entryAt? m with
      | none => rfl
      | some e =>
          cases e with
          | file content | locked content => rfl
          | directory =>
              dsimp only
              split
              · rfl
              · split
                · exact ih _
                · exact ih _

/-- Components lead somewhere if the first of them do and the others lead on from there. -/
theorem follow_append_eq_ok {parts more : List String} :
    t.follow home (parts ++ more) = .ok l ↔ ∃ m, t.follow home parts = .ok m ∧ t.follow m more = .ok l := by
  rw [follow_append_eq]
  exact Except.bind_eq_ok

/-- A way goes on from directories only. -/
theorem directory_of_follow {part : String} {rest : List String} (h : t.follow m (part :: rest) = .ok l) :
    t.entryAt? m = some .directory := by
  rw [follow] at h
  cases hentry : t.entryAt? m with
  | none =>
      rw [hentry] at h
      cases h
  | some e =>
      cases e with
      | file content | locked content =>
          rw [hentry] at h
          cases h
      | directory => rfl

/-- A path with one more component leads into a directory. -/
theorem locate_child {name : String} (hname : name ≠ "..") (hm : t.locate home p = .ok m) :
    t.locate home (p.child name) = .ok l ↔
      l = m ++ [name] ∧ t.entryAt? m = some .directory ∧ name.utf8ByteSize ≤ longestName ∧
        (p.child name).toString.utf8ByteSize ≤ longestPath := by
  have hparts : (p.child name).parts = p.parts ++ [name] := rfl
  have hanchor : (p.child name).anchor = p.anchor := rfl
  rw [locate_eq_ok_iff, hparts, hanchor, follow_append_eq, (locate_eq_ok_iff.1 hm).2]
  simp only [Except.bind, follow]
  cases hentry : t.entryAt? m with
  | none => simp
  | some e =>
      cases e with
      | file content | locked content => simp
      | directory =>
          dsimp only
          split
          · next hlong =>
              constructor
              · rintro ⟨-, h⟩
                cases h
              · rintro ⟨-, -, hpart, -⟩
                exact absurd hpart (Nat.not_le.2 hlong)
          · next hfits => simp [Nat.not_lt.1 hfits, eq_comm, and_comm]

end FileTree

namespace Files

open App

variable {w : World} {p : Path}

/-! ### Places -/

/-- The fault of a path of which a part is missing. -/
def SaysAbsent (e : Fault) : Prop :=
  ∃ f : FileFault, e = .file f ∧ f.cause = .absent

theorem not_saysAbsent {cause : FileCause} {path : String} {target : Option String} (h : cause ≠ .absent) :
    ¬SaysAbsent (.file { cause, path, target }) := by
  rintro ⟨f, hf, hcause⟩
  cases hf
  exact h hcause

/-- A path leads somewhere, or it is said why it does not. -/
theorem locate_cases (p : Path) (w : World) :
    (∃ e, (locate p).runIn w = (.error e, w) ∧ (SaysAbsent e → w.files.locate w.home p = .error .absent)) ∨
    ∃ l, isUsable p = true ∧ w.files.locate w.home p = .ok l := by
  by_cases hp : isUsable p = true
  · cases hl : w.files.locate w.home p with
    | ok l => exact .inr ⟨l, hp, rfl⟩
    | error cause =>
        refine .inl ⟨.file { cause, path := p.toString }, ?_, ?_⟩
        · rw [locate, if_pos hp, runIn_bind_ok (runIn_get w), hl]
          rfl
        · rintro ⟨f, hf, hcause⟩
          cases hf
          exact congrArg Except.error hcause
  · refine .inl ⟨.badPath "embedded null byte", ?_, ?_⟩
    · rw [locate, if_neg hp]
      rfl
    · rintro ⟨f, hf, -⟩
      cases hf

/-- What a path leads to is found. -/
theorem find_located {l : Location} (hp : isUsable p = true) (hl : w.files.locate w.home p = .ok l) :
    (find p).runIn w = (.ok (w.files.entryAt? l), w) := by
  rw [find, if_pos hp, runIn_bind_ok (runIn_get w), hl]
  rfl

theorem isDirectory_located {l : Location} (hp : isUsable p = true) (hl : w.files.locate w.home p = .ok l) :
    (isDirectory p).runIn w = (.ok (decide (w.files.entryAt? l = some .directory)), w) := by
  rw [isDirectory, runIn_bind_ok (find_located hp hl)]
  cases w.files.entryAt? l with
  | none => rfl
  | some e => cases e <;> rfl

/-- Whether a path leads to a directory is asked in vain, or answered. -/
theorem isDirectory_cases (p : Path) (w : World) :
    (∃ e, (isDirectory p).runIn w = (.error e, w) ∧ ¬SaysAbsent e) ∨
    (isDirectory p).runIn w = (.ok false, w) ∨
    ∃ l, w.files.locate w.home p = .ok l ∧ w.files.entryAt? l = some .directory ∧
      (isDirectory p).runIn w = (.ok true, w) := by
  by_cases hp : isUsable p = true
  · cases hl : w.files.locate w.home p with
    | error cause =>
        by_cases hlong : cause = .nameTooLong
        · refine .inl ⟨.file { cause := .nameTooLong, path := p.toString }, ?_, not_saysAbsent (by decide)⟩
          rw [isDirectory, find, if_pos hp, runIn_bind, runIn_bind_ok (runIn_get w), hl, hlong]
          rfl
        · right
          left
          rw [isDirectory, find, if_pos hp, runIn_bind, runIn_bind_ok (runIn_get w), hl]
          cases cause <;> first | rfl | exact absurd rfl hlong
    | ok l =>
        have hask := isDirectory_located hp hl
        by_cases hentry : w.files.entryAt? l = some .directory
        · exact .inr (.inr ⟨l, rfl, hentry, by rw [hask, decide_eq_true hentry]⟩)
        · exact .inr (.inl (by rw [hask, decide_eq_false hentry]))
  · right
    left
    rw [isDirectory, find, if_neg hp]
    rfl

/-! ### Writing -/

theorem put_eq (l : Location) (e : Entry) (w : World) :
    (put l e).runIn w = (.ok (), { w with files := w.files.put l e }) := rfl

/-- The system refuses, or it does not. -/
theorem permit_cases (action : FileAction) (p : Path) (target : Option String) (w : World) :
    (permit action p target).runIn w = (.error (.file { cause := .refused, path := p.toString, target }), w) ∨
    (permit action p target).runIn w = (.ok (), w) := by
  cases hrefused : w.refuses action with
  | false => exact .inr (permit_eq_ok.2 ⟨hrefused, rfl⟩)
  | true =>
      left
      rw [permit, runIn_bind_ok (runIn_get w), if_pos hrefused]
      rfl

/-- A path that leads nowhere is a failure of the system, unless it cannot even be handed to it. -/
theorem isWriteFailure_of_locate {e : Fault} {w' : World} (h : (locate p).runIn w = (.error e, w')) :
    e.isWriteFailure = isUsable p := by
  unfold locate at h
  split at h
  · next hp =>
      rw [runIn_bind_ok (runIn_get w)] at h
      split at h
      · cases h
      · cases h
        exact hp.symm
  · next hp =>
      cases h
      exact (Bool.eq_false_iff.2 hp).symm

/-- A file is opened, or nothing happens. -/
theorem openFile_cases (p : Path) (w : World) :
    (∃ e, (openFile p).runIn w = (.error e, w) ∧ e.isWriteFailure = isUsable p) ∨
    ∃ l, isUsable p = true ∧ w.files.locate w.home p = .ok l ∧ w.files.opens l = true ∧
      (openFile p).runIn w = (.ok (l, w.files.contentAt l), w) := by
  rcases locate_cases p w with ⟨e, hlocate, -⟩ | ⟨l, hp, hl⟩
  · exact .inl ⟨e, runIn_bind_error hlocate _, isWriteFailure_of_locate hlocate⟩
  have hlocate := locate_eq_ok.2 ⟨hp, hl, rfl⟩
  rcases permit_cases (.openFile l) p none w with hpermit | hpermit
  · left
    rw [openFile, runIn_bind_ok hlocate, runIn_bind_ok (runIn_get w)]
    split
    · exact ⟨_, rfl, hp.symm⟩
    · exact ⟨_, rfl, hp.symm⟩
    · exact ⟨_, runIn_bind_error hpermit _, hp.symm⟩
    · exact ⟨_, runIn_bind_error hpermit _, hp.symm⟩
  · cases hopens : w.files.opens l with
    | true => exact .inr ⟨l, hp, hl, hopens, openFile_ok hp hl hopens (permit_eq_ok.1 hpermit).1⟩
    | false =>
        left
        rw [openFile, runIn_bind_ok hlocate, runIn_bind_ok (runIn_get w)]
        rw [FileTree.opens] at hopens
        split
        · exact ⟨_, rfl, hp.symm⟩
        · exact ⟨_, rfl, hp.symm⟩
        · next hentry => rw [hentry] at hopens; cases hopens
        · next hentry => rw [hentry] at hopens; cases hopens

/-- Writing a file fails before it is opened, or leaves an empty file, or makes the text its content. -/
theorem writeText_ends (p : Path) (s : LooseText) (w : World) :
    (∃ e, (writeText p s).runIn w = (.error e, w) ∧ e.isWriteFailure = isUsable p) ∨
    ∃ l, isUsable p = true ∧ w.files.locate w.home p = .ok l ∧ w.files.opens l = true ∧
      ((∃ e, (writeText p s).runIn w = (.error e, { w with files := w.files.put l (.file []) }) ∧
          e.isWriteFailure = true) ∨
        ∃ content, bytesOf s = .ok content ∧
          (writeText p s).runIn w = (.ok (), { w with files := w.files.put l (.file content) })) := by
  rcases openFile_cases p w with ⟨e, hopen, he⟩ | ⟨l, hp, hl, hfile, hopen⟩
  · exact .inl ⟨e, runIn_bind_error hopen _, he⟩
  · refine .inr ⟨l, hp, hl, hfile, ?_⟩
    rw [writeText, runIn_bind_ok hopen]
    dsimp only
    rw [runIn_bind_ok (put_eq l _ w)]
    cases s with
    | broken t => exact .inl ⟨.notEncodable t, rfl, rfl⟩
    | whole s =>
        rw [bytesOf, runIn_bind_ok (runIn_ofExcept _ _)]
        rcases permit_cases (.writeFile l) p none { w with files := w.files.put l (.file []) } with hpermit | hpermit
        · exact .inl ⟨_, runIn_bind_error hpermit _, rfl⟩
        · refine .inr ⟨Utf8.encode s.toList, rfl, ?_⟩
          rw [runIn_bind_ok hpermit, put_eq]
          dsimp only
          rw [w.files.put_put l]

/-- Writing a file leaves what was there, or there is some content at the end of the path. -/
theorem writeText_cases (p : Path) (s : LooseText) (w : World) :
    ∃ r files, (writeText p s).runIn w = (r, { w with files := files }) ∧
      (files = w.files ∨ ∃ l content, w.files.locate w.home p = .ok l ∧ w.files.opens l = true ∧
        files = w.files.put l (.file content)) := by
  rcases writeText_ends p s w with ⟨e, hrun, -⟩ | ⟨l, -, hl, hfile, ⟨e, hrun, -⟩ | ⟨content, -, hrun⟩⟩
  · exact ⟨.error e, w.files, hrun, .inl rfl⟩
  · exact ⟨.error e, _, hrun, .inr ⟨l, [], hl, hfile, rfl⟩⟩
  · exact ⟨.ok (), _, hrun, .inr ⟨l, content, hl, hfile, rfl⟩⟩

/-- Appending leaves what was there, or makes a file that is not there, or puts the text behind the content. -/
theorem appendText_cases (p : Path) (s : String) (w : World) :
    (∃ e, (appendText p s).runIn w = (.error e, w)) ∨
    ∃ l, isUsable p = true ∧ w.files.locate w.home p = .ok l ∧ w.files.opens l = true ∧
      ((∃ e, (appendText p s).runIn w = (.error e, { w with files := w.files.put l (.file (w.files.contentAt l)) })) ∨
        (appendText p s).runIn w =
          (.ok (), { w with files := w.files.put l (.file (w.files.contentAt l ++ Utf8.encode s.toList)) })) := by
  rcases openFile_cases p w with ⟨e, hopen, -⟩ | ⟨l, hp, hl, hfile, hopen⟩
  · exact .inl ⟨e, runIn_bind_error hopen _⟩
  · refine .inr ⟨l, hp, hl, hfile, ?_⟩
    rw [appendText, runIn_bind_ok hopen]
    dsimp only
    rw [runIn_bind_ok (put_eq l _ w)]
    rcases permit_cases (.writeFile l) p none { w with files := w.files.put l (.file (w.files.contentAt l)) } with
      hpermit | hpermit
    · exact .inl ⟨_, runIn_bind_error hpermit _⟩
    · right
      rw [runIn_bind_ok hpermit, put_eq]
      dsimp only
      rw [w.files.put_put l]

/-! ### Renaming and deleting -/

/-- Renaming leaves what was there, or a file goes from where one path leads to where the other does. -/
theorem rename_cases (p q : Path) (w : World) :
    (∃ e, (rename p q).runIn w = (.error e, w) ∧
      (isUsable p = true → isUsable q = true → e.isWriteFailure = true)) ∨
    ∃ source target e, isUsable p = true ∧ w.files.locate w.home p = .ok source ∧
      isUsable q = true ∧ w.files.locate w.home q = .ok target ∧
      w.files.entryAt? source = some e ∧ e ≠ .directory ∧ w.files.entryAt? target ≠ some .directory ∧
      (rename p q).runIn w = (.ok (), { w with files := (w.files.remove source).put target e }) := by
  rcases locate_cases p w with ⟨e, hlocate, -⟩ | ⟨source, hp, hsource⟩
  · exact .inl ⟨e, runIn_bind_error hlocate _, fun hp _ => (isWriteFailure_of_locate hlocate).trans hp⟩
  have hfrom := locate_eq_ok.2 ⟨hp, hsource, rfl⟩
  rcases locate_cases q w with ⟨e, hlocate, -⟩ | ⟨target, hq, htarget⟩
  · refine .inl ⟨e, ?_, fun _ hq => (isWriteFailure_of_locate hlocate).trans hq⟩
    rw [rename, runIn_bind_ok hfrom]
    exact runIn_bind_error hlocate _
  rw [rename, runIn_bind_ok hfrom, runIn_bind_ok (locate_eq_ok.2 ⟨hq, htarget, rfl⟩)]
  dsimp only
  split
  · exact .inl ⟨_, runIn_bind_error (runIn_throw _ w) _, fun _ _ => rfl⟩
  · rw [runIn_bind_ok (runIn_get w)]
    split
    · exact .inl ⟨_, rfl, fun _ _ => rfl⟩
    · exact .inl ⟨_, rfl, fun _ _ => rfl⟩
    · exact .inl ⟨_, rfl, fun _ _ => rfl⟩
    · next e hfile hfound hnot =>
        rcases permit_cases (.rename source target) p (some q.toString) w with hpermit | hpermit
        · exact .inl ⟨_, runIn_bind_error hpermit _, fun _ _ => rfl⟩
        · exact .inr ⟨source, target, e, hp, hsource, hq, htarget, hfound, hfile, hnot, runIn_bind_ok hpermit _⟩

/-- Deleting finds no file and leaves what is there, or takes the file away that the path leads to. -/
theorem delete_cases (p : Path) (w : World) :
    ((delete p).runIn w = (.ok (), w) ∧
      ∀ l e, w.files.locate w.home p = .ok l → w.files.entryAt? l = some e → e = .directory) ∨
    ∃ l e, w.files.locate w.home p = .ok l ∧ w.files.entryAt? l = some e ∧ e ≠ .directory ∧
      (delete p).runIn w = (.ok (), { w with files := w.files.remove l }) := by
  rw [delete, runIn_bind_ok (runIn_get w)]
  cases hl : w.files.locate w.home p with
  | error cause => exact .inl ⟨rfl, fun l e h => by cases h⟩
  | ok l =>
      dsimp only
      cases hentry : w.files.entryAt? l with
      | none =>
          refine .inl ⟨rfl, fun m e hm he => ?_⟩
          cases hm
          cases hentry.symm.trans he
      | some entry =>
          cases entry with
          | directory =>
              refine .inl ⟨rfl, fun m e hm he => ?_⟩
              cases hm
              exact Option.some.inj (he.symm.trans hentry)
          | file content | locked content => exact .inr ⟨l, _, rfl, hentry, nofun, rfl⟩

/-! ### Directories -/

/-- A directory is made where nothing stands, or nothing happens. -/
theorem makeDirectory_cases (p : Path) (w : World) :
    (∃ e, (makeDirectory p).runIn w = (.error e, w) ∧ (SaysAbsent e → w.files.locate w.home p = .error .absent)) ∨
    ∃ l, w.files.locate w.home p = .ok l ∧ w.files.entryAt? l = none ∧
      (makeDirectory p).runIn w = (.ok (), { w with files := w.files.put l .directory }) := by
  rcases locate_cases p w with ⟨e, hlocate, habsent⟩ | ⟨l, hp, hl⟩
  · exact .inl ⟨e, runIn_bind_error hlocate _, habsent⟩
  rw [makeDirectory, runIn_bind_ok (locate_eq_ok.2 ⟨hp, hl, rfl⟩), runIn_bind_ok (runIn_get w)]
  cases hentry : w.files.entryAt? l with
  | some e => exact .inl ⟨_, rfl, fun h => absurd h (not_saysAbsent (by decide))⟩
  | none =>
      dsimp only
      rcases permit_cases (.makeDirectory l) p none w with hpermit | hpermit
      · exact .inl ⟨_, runIn_bind_error hpermit _, fun h => absurd h (not_saysAbsent (by decide))⟩
      · refine .inr ⟨l, hl, hentry, ?_⟩
        rw [runIn_bind_ok hpermit, put_eq]

/-- A directory is there behind the attempt, or nothing happens. -/
theorem ensureDirectory_cases (p : Path) (w : World) :
    (∃ e, (ensureDirectory p).runIn w = (.error e, w) ∧ (SaysAbsent e → w.files.locate w.home p = .error .absent)) ∨
    ∃ l, w.files.locate w.home p = .ok l ∧
      ((w.files.entryAt? l = none ∧
          (ensureDirectory p).runIn w = (.ok (), { w with files := w.files.put l .directory })) ∨
        (w.files.entryAt? l = some .directory ∧ (ensureDirectory p).runIn w = (.ok (), w))) := by
  rcases makeDirectory_cases p w with ⟨e, hmake, habsent⟩ | ⟨l, hl, hentry, hmake⟩
  · rw [ensureDirectory, runIn_tryCatch, hmake]
    dsimp only
    split
    · exact .inl ⟨_, rfl, habsent⟩
    · rcases isDirectory_cases p w with ⟨e', hask, hnot⟩ | hask | ⟨l, hl, hentry, hask⟩
      · exact .inl ⟨e', runIn_bind_error hask _, fun h => absurd h hnot⟩
      · rw [runIn_bind_ok hask]
        exact .inl ⟨_, rfl, habsent⟩
      · rw [runIn_bind_ok hask]
        exact .inr ⟨l, hl, .inr ⟨hentry, rfl⟩⟩
    · exact .inl ⟨_, rfl, habsent⟩
  · refine .inr ⟨l, hl, .inl ⟨hentry, ?_⟩⟩
    rw [ensureDirectory, runIn_tryCatch, hmake]

/-- Where a path leads somewhere, the directories on its way are there. -/
theorem makeDirectoriesFrom_located (fuel : Nat) {p : Path} {l : Location}
    (hl : w.files.locate w.home p = .ok l) :
    (makeDirectoriesFrom fuel p).runIn w = (ensureDirectory p).runIn w := by
  cases fuel with
  | zero => rfl
  | succ fuel =>
      rw [makeDirectoriesFrom, runIn_tryCatch]
      rcases ensureDirectory_cases p w with ⟨e, hensure, habsent⟩ | ⟨l', -, ⟨-, hensure⟩ | ⟨-, hensure⟩⟩
      · rw [hensure]
        dsimp only
        split
        · next path target =>
            have hmissing := habsent ⟨⟨.absent, path, target⟩, rfl, rfl⟩
            rw [hl] at hmissing
            cases hmissing
        · rfl
      · rw [hensure]
      · rw [hensure]

section Below

variable {I : FileTree → Prop} {l : Location} {name : String} (hname : name ≠ "..")
  (hlocated : ∀ t, I t → t.locate w.home p = .ok l)
  (hput : ∀ t m, I t → t.entryAt? m = none → m = l ∨ m = l ++ [name] → I (t.put m .directory))

include hname hlocated hput

/-- A directory below one that is located is there if making it succeeds, and nothing else is put. -/
theorem ensureDirectory_child {t : FileTree} (h : I t) :
    ∃ r files, (ensureDirectory (p.child name)).runIn { w with files := t } = (r, { w with files := files }) ∧
      I files ∧ (r = .ok () → files.locate w.home (p.child name) = .ok (l ++ [name]) ∧
        files.entryAt? (l ++ [name]) = some .directory) := by
  rcases ensureDirectory_cases (p.child name) { w with files := t } with
    ⟨e, hrun, -⟩ | ⟨m, hm, ⟨hentry, hrun⟩ | ⟨hentry, hrun⟩⟩
  · exact ⟨.error e, t, hrun, h, fun he => by cases he⟩
  · obtain ⟨rfl, -⟩ := (FileTree.locate_child hname (hlocated t h)).1 hm
    have hnone : t.entryAt? (l ++ [name]) ≠ some .directory := by
      rw [hentry]
      decide
    exact ⟨.ok (), _, hrun, hput t _ h hentry (.inr rfl), fun _ =>
      ⟨FileTree.locate_put hnone hm, FileTree.entryAt?_put_self t (by simp) _⟩⟩
  · obtain ⟨rfl, -⟩ := (FileTree.locate_child hname (hlocated t h)).1 hm
    exact ⟨.ok (), t, hrun, h, fun _ => ⟨hm, hentry⟩⟩

/-- **A directory below one that is located** is made at most with that one: what putting these directories keeps
is kept, and the directory is there if that succeeds. -/
theorem makeDirectories_child (h : I w.files) :
    ∃ r files, (makeDirectories (p.child name)).runIn w = (r, { w with files := files }) ∧ I files ∧
      (r = .ok () → files.locate w.home (p.child name) = .ok (l ++ [name]) ∧
        files.entryAt? (l ++ [name]) = some .directory) := by
  have hparts : (p.child name).parts.length = p.parts.length + 1 := by simp [Path.child]
  have hparent : (p.child name).parent = p := by simp [Path.child, Path.parent]
  obtain ⟨r, files, hrun, hI, hthere⟩ := ensureDirectory_child hname hlocated hput h
  rw [makeDirectories, hparts, makeDirectoriesFrom, runIn_tryCatch, hrun]
  cases r with
  | ok _ => exact ⟨.ok (), files, rfl, hI, fun _ => hthere rfl⟩
  | error e =>
      dsimp only
      split
      · -- the directory above is missing, and made first
        rw [hparent, runIn_bind, makeDirectoriesFrom_located _ (hlocated files hI)]
        rcases ensureDirectory_cases p { w with files := files } with
          ⟨e', hup, -⟩ | ⟨m, hm, ⟨hentry, hup⟩ | ⟨hentry, hup⟩⟩
        · rw [hup]
          exact ⟨.error e', files, rfl, hI, fun he => by cases he⟩
        · rw [hlocated files hI] at hm
          cases hm
          rw [hup]
          exact ensureDirectory_child hname hlocated hput (hput files l hI hentry (.inl rfl))
        · rw [hup]
          exact ensureDirectory_child hname hlocated hput hI
      · exact ⟨.error _, files, rfl, hI, fun he => by cases he⟩

end Below

end Files

end SophiaBind
