/-
**Recording attempts.**

A deployer opens its log at the first use and keeps it. Where that works and the file of the attempts can be
written, each entry is one more line of the file; what was there before stays, and the next entry can be
recorded as well.

Main definitions:

* `History.Log.Appendable` — a log whose file of the attempts can be written,
* `Deployer.Records` — a deployer that can record its next attempt,
* `History.Log.Appends` — an entry is one more line of the file.

Main results:

* `History.Log.line_eq` — **an entry is one line**,
* `History.Log.record_ok` — **recording appends the line**,
* `Deployer.Records.record` — a deployer that can record does so, whatever was talked before.
-/

import SophiaBind.Proofs.FileChanges
import SophiaBind.Proofs.JsonLine

namespace SophiaBind

/-! ### Appending -/

/-- A tree with bytes behind the content of the file at a location. The file is made first if it is new. -/
def FileTree.appended (t : FileTree) (l : Location) (bs : Bytes) : FileTree :=
  (t.put l (.file (t.contentAt l))).put l (.file (t.contentAt l ++ bs))

theorem FileTree.entryAt?_appended (t : FileTree) {l : Location} (hl : l ≠ []) (bs : Bytes) :
    (t.appended l bs).entryAt? l = some (.file (t.contentAt l ++ bs)) :=
  entryAt?_put_self _ hl _

theorem FileTree.locate_appended {t : FileTree} {home l : Location} {p : Path}
    (hl : t.entryAt? l ≠ some .directory) (h : t.locate home p = .ok l) (bs : Bytes) :
    (t.appended l bs).locate home p = .ok l := by
  have hmade : (t.put l (.file (t.contentAt l))).entryAt? l ≠ some .directory := by
    rw [entryAt?_put_self t (ne_nil_of_entryAt? hl)]
    exact fun he => by cases he
  exact locate_put hmade (locate_put hl h)

/-- **Appending** puts a text behind the content of a file. -/
theorem Files.appendText_ok {w : World} {p : Path} {l : Location} (hp : isUsable p = true)
    (hl : w.files.locate w.home p = .ok l) (hfile : w.files.opens l = true)
    (hopen : w.refuses (.openFile l) = false) (hwrite : w.refuses (.writeFile l) = false) (s : String) :
    (appendText p s).runIn w = (.ok (), { w with files := w.files.appended l (Utf8.encode s.toList) }) := by
  have hput : (put l (.file (w.files.contentAt l))).runIn w =
      (.ok (), { w with files := w.files.put l (.file (w.files.contentAt l)) }) := rfl
  have hpermit : (permit (.writeFile l) p).runIn { w with files := w.files.put l (.file (w.files.contentAt l)) } =
      (.ok (), { w with files := w.files.put l (.file (w.files.contentAt l)) }) := permit_eq_ok.2 ⟨hwrite, rfl⟩
  rw [appendText, App.runIn_bind_ok (openFile_ok hp hl hfile hopen)]
  dsimp only
  rw [App.runIn_bind_ok hput, App.runIn_bind_ok hpermit]
  rfl

namespace History.Log

/-! ### Lines -/

/-- **An entry is one line**: nothing in it ends a line but the line feed behind it. -/
theorem line_eq (j : Json) : ∃ text, (line j).toList = text ++ ['\n'] ∧ '\n' ∉ text :=
  ⟨j.sorted.render, String.toList_ofList, Json.newline_not_mem_render j.sorted⟩

/-- A log whose file of the attempts is at a location and can be written, if it is there. -/
structure Appendable (log : Log) (w : World) (l : Location) : Prop where
  usable : Files.isUsable log.actionsFile = true
  located : w.files.locate w.home log.actionsFile = .ok l
  file : w.files.opens l = true
  opens : w.refuses (.openFile l) = false
  writes : w.refuses (.writeFile l) = false

/-- An entry is one more line of the file of the attempts, behind what a world has in it. -/
def Appends (log : Log) (entry : List (LooseText × Json)) (l : Location) (w : World) (files : FileTree) : Prop :=
  files.locate w.home log.actionsFile = .ok l ∧
    ∃ text, (line (log.row w.clock entry)).toList = text ++ ['\n'] ∧ '\n' ∉ text ∧
      files.entryAt? l = some (.file (w.files.contentAt l ++ Utf8.encode (text ++ ['\n'])))

/-- **Recording appends the line**, and leaves the log ready for the next one. -/
theorem record_ok {log : Log} {w : World} {l : Location} (h : log.Appendable w l)
    {entry : List (LooseText × Json)} (hrow : (log.row w.clock entry).isWritable = true) :
    ∃ files, (log.record entry).runIn w = (.ok (), { w with files := files }) ∧ log.Appends entry l w files ∧
      log.Appendable { w with files := files } l := by
  have hnot := FileTree.not_directory_of_opens h.file
  have hne : l ≠ [] := FileTree.ne_nil_of_entryAt? hnot
  have hlocated := FileTree.locate_appended hnot h.located (Utf8.encode (line (log.row w.clock entry)).toList)
  have hentry := w.files.entryAt?_appended hne (Utf8.encode (line (log.row w.clock entry)).toList)
  obtain ⟨text, hline, hone⟩ := line_eq (log.row w.clock entry)
  refine ⟨_, ?_, ⟨hlocated, text, hline, hone, hline ▸ hentry⟩, ⟨h.usable, hlocated, ?_, h.opens, h.writes⟩⟩
  · rw [record, App.runIn_bind_ok (App.runIn_get w), if_pos hrow]
    exact Files.appendText_ok h.usable h.located h.file h.opens h.writes _
  · rw [FileTree.opens, hentry]

end History.Log

/-! ### Deployers -/

namespace Deployer

theorem onFiles_openLog (d : Deployer) (w : World) : App.OnFiles ".hostname" d.openLog w := by
  unfold openLog
  split
  · exact .pure _
  · exact History.Log.onFiles_open_ _ _ w

/-- A deployer that can record its next attempt in a log: the log is given or can be opened, and the file of the
attempts can then be written at a location. -/
def Records (d : Deployer) (log : History.Log) (l : Location) (w : World) : Prop :=
  Integer.isWritable w.clock = true ∧ ∃ w', d.openLog.runIn w = (.ok log, w') ∧ log.Appendable w' l

/-- An entry that can be written in decimal. -/
theorem isWritable_row {log : History.Log} {time : Int} {entry : List (LooseText × Json)}
    (htime : Integer.isWritable time = true) (hentry : Json.areWritableMembers entry = true) :
    (log.row time entry).isWritable = true := by
  simp [History.Log.row, Json.isWritable, Json.areWritableMembers, htime, hentry]

/-- The location of the attempts is none that opening a log writes to. -/
theorem getLast?_of_appendable {log : History.Log} {w : World} {l : Location} (h : log.Appendable w l) :
    l.getLast? ≠ some ".hostname" := by
  have hpath : log.actionsFile = log.root.child "actions.jsonl" := rfl
  have hlast := FileTree.getLast?_of_locate (by decide) (hpath ▸ h.located)
  rw [hlast]
  decide

/-- Opening the log does the same whatever was talked before: the file of the attempts is as it was, and can be
written. -/
theorem Records.opens {d : Deployer} {log : History.Log} {l : Location} {w : World} (h : d.Records log l w)
    (t : Talk) :
    ∃ opened, d.openLog.runIn (w.withTalk t) = (.ok log, { w.withTalk t with files := opened }) ∧
      log.Appendable { w.withTalk t with files := opened } l ∧ opened.contentAt l = w.files.contentAt l := by
  obtain ⟨-, w', hopen, happend⟩ := h
  obtain ⟨r, opened, hkeeps, hrun⟩ := d.onFiles_openLog w
  have hopened := hrun w.talk
  rw [World.withTalk_talk, hopen] at hopened
  cases hopened
  exact ⟨opened, hrun t, ⟨happend.usable, happend.located, happend.file, happend.opens, happend.writes⟩,
    hkeeps l (getLast?_of_appendable happend)⟩

/-- Talk does not get in the way of recording. -/
theorem Records.withTalk {d : Deployer} {log : History.Log} {l : Location} {w : World} (h : d.Records log l w)
    (t : Talk) : d.Records log l (w.withTalk t) := by
  obtain ⟨opened, hopen, happend, -⟩ := h.opens t
  exact ⟨h.1, _, hopen, happend⟩

/-- **A deployer that can record does so**, whatever was talked before: its log is opened if it is not, the entry
is one more line, and the next attempt can be recorded in the same log. -/
theorem Records.record {d : Deployer} {log : History.Log} {l : Location} {w : World} (h : d.Records log l w)
    (t : Talk) {entry : List (LooseText × Json)} (hentry : Json.areWritableMembers entry = true) :
    ∃ opened files, d.openLog.runIn (w.withTalk t) = (.ok log, { w.withTalk t with files := opened }) ∧
      (log.record entry).runIn { w.withTalk t with files := opened } =
        (.ok (), { w.withTalk t with files := files }) ∧
      log.Appends entry l w files ∧
      ∀ (d' : Deployer) (t' : Talk), d'.log = some log →
        d'.Records log l ({ w with files := files }.withTalk t') := by
  obtain ⟨opened, hopen, happend, hkeeps⟩ := h.opens t
  obtain ⟨files, hrecord, ⟨hlocated, text, hline, hone, hcontent⟩, hready⟩ :=
    History.Log.record_ok happend (isWritable_row h.1 hentry)
  refine ⟨opened, files, hopen, hrecord, ⟨hlocated, text, hline, hone, ?_⟩, fun d' t' hd' =>
    ⟨h.1, World.withTalk { w with files := files } t', ?_, ?_⟩⟩
  · rw [hcontent]
    exact congrArg (fun content => some (Entry.file (content ++ _))) hkeeps
  · rw [openLog, hd']
    rfl
  · exact ⟨hready.usable, hready.located, hready.file, hready.opens, hready.writes⟩

/-- An entry with a number that is too long is not written. -/
theorem record_of_too_long (log : History.Log) {entry : List (LooseText × Json)}
    (h : Json.areWritableMembers entry = false) (w : World) :
    (log.record entry).runIn w = (.error .tooLongNumber, w) := by
  have hrow : (log.row w.clock entry).isWritable = false := by
    simp [History.Log.row, Json.isWritable, Json.areWritableMembers, h]
  rw [History.Log.record, App.runIn_bind_ok (App.runIn_get w), if_neg (by simp [hrow])]
  rfl

end Deployer

end SophiaBind
