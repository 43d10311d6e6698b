/-
**Attempts that are found.**

A log writes into a directory of its own below that of the histories, and there the files of attempts are looked for.
So every attempt that a log records stands in a file that is read with the history. If all these files hold whole
lines, no number of too many digits and no times but numbers, then so they do behind each call of the log, and what
was recorded is read. None of this holds for the two ids that are a single or a double point: what is logged under
them lies in the directory of the histories or above it, where nothing is looked for.

Main definitions:

* `History.Sound` — a directory of histories in which everything can be read,
* `History.LogCall`, `History.Log.performAll` — calls of one log,
* `History.LogSession.Holds` — what was recorded stands in its file,
* `History.Found` — what is recorded is found.

Main results:

* `History.Sound.append` — **rows are more lines**, and everything can still be read,
* `History.LogSession.Holds.perform`, `History.LogSession.Holds.read` — one call, and what is read then,
* `History.confined_and_found` — **what is logged stays inside and is found**, unless the id is a point or two.
-/

import SophiaBind.Proofs.RunDirectories
import SophiaBind.Proofs.StoredHistory

namespace SophiaBind.History

/-! ### Histories that can be read -/

/-- Where the attempts of a run are, below the directory of the histories. -/
def attemptsAt (l : Location) (name : String) : Location :=
  l ++ [name, "actions.jsonl"]

/-- **A directory of histories in which everything can be read**, if it is there: a path leads to each file of
attempts, and these hold whole lines of text, no number of too many digits, and valid rows of times that are numbers.
-/
structure Sound (home : Location) (base : Path) (l : Location) (t : FileTree) : Prop where
  usable : Files.isUsable base = true
  located : t.locate home base = .ok l
  leads : ∀ name, t.entryAt? (attemptsAt l name) ≠ none →
    Files.isUsable (actionsOf base name) = true ∧ t.locate home (actionsOf base name) = .ok (attemptsAt l name)
  texts : ∀ name, t.entryAt? (attemptsAt l name) ≠ some .directory →
    ∃ cs, t.contentAt (attemptsAt l name) = Utf8.encode cs ∧ Text.Whole cs
  short : ∀ name, ∀ line ∈ linesAt t (attemptsAt l name), digitsOver? line = none
  times : ∀ name, ∀ row ∈ validOn (linesAt t (attemptsAt l name)), isNumber (time row) = true

theorem linesAt_congr {t t' : FileTree} {m : Location} (h : t'.entryAt? m = t.entryAt? m) :
    linesAt t' m = linesAt t m := by
  rw [linesAt, linesAt, h]

theorem linesAt_of_content {t : FileTree} {m : Location} {cs : List Char} (hnot : t.entryAt? m ≠ some .directory)
    (hcontent : t.contentAt m = Utf8.encode cs) : linesAt t m = Text.lines cs := by
  rw [FileTree.contentAt] at hcontent
  rw [linesAt]
  have hempty : [] = Utf8.encode cs → [] = Text.lines cs := fun hnil => by
    have hdecode : Utf8.decode [] = .ok cs := by
      rw [hnil]
      exact Utf8.decode_encode cs
    cases hdecode
    rfl
  cases hentry : t.entryAt? m with
  | none =>
      rw [hentry] at hcontent
      exact hempty hcontent
  | some e =>
      cases e with
      | directory => exact absurd hentry hnot
      | locked content =>
          rw [hentry] at hcontent
          exact hempty hcontent
      | file content =>
          rw [hentry] at hcontent
          dsimp only at hcontent ⊢
          rw [hcontent, Files.textOf_encode]
          dsimp only
          rw [String.toList_ofList, Text.lines_normalizeNewlines]

theorem contentAt_put {t : FileTree} {m : Location} (hnot : t.entryAt? m ≠ some .directory) (content : Bytes) :
    (t.put m (.file content)).contentAt m = content := by
  rw [FileTree.contentAt, t.entryAt?_put_self (FileTree.ne_nil_of_entryAt? hnot)]

theorem linesAt_put {t : FileTree} {m : Location} (hnot : t.entryAt? m ≠ some .directory) (cs : List Char) :
    linesAt (t.put m (.file (Utf8.encode cs))) m = Text.lines cs :=
  linesAt_of_content
    (FileTree.not_directory_of_entry (t.entryAt?_put_self (FileTree.ne_nil_of_entryAt? hnot) _) nofun)
    (contentAt_put hnot _)

/-- Rows behind whole lines are one more line each. -/
theorem lines_append_rows {cs : List Char} (hwhole : Text.Whole cs) (rows : List Logged) :
    Text.lines (cs ++ Files.renderedLines (rows.map Logged.written)) =
      Text.lines cs ++ rows.map fun r => lineOf r.written := by
  have hplain : ∀ cs ∈ (rows.map Logged.written).map fun row => Json.render (.object row), Json.Plain cs := by
    intro cs hcs
    obtain ⟨row, -, rfl⟩ := List.mem_map.1 hcs
    exact Json.plain_render _
  rw [Text.lines_append hwhole, Files.renderedLines, Text.lines_plain hplain, List.map_map]
  rfl

theorem mem_validOn {lines : List (List Char)} {row : Row} :
    row ∈ validOn lines ↔ (∃ line ∈ lines, rowOn line = some row) ∧ isValidRow row = true := by
  rw [validOn, List.mem_filter, List.mem_filterMap]

theorem attemptsAt_inj {l : Location} {name other : String} (h : attemptsAt l name = attemptsAt l other) :
    name = other := by
  simpa [attemptsAt] using h

namespace Sound

variable {home l : Location} {base : Path} {t t' : FileTree} {name : String}

/-- Nothing matters but the files of attempts, and that no directory goes. -/
theorem of_same (h : Sound home base l t) (hkeeps : t.Keeps t')
    (hsame : ∀ name, t'.entryAt? (attemptsAt l name) = t.entryAt? (attemptsAt l name)) : Sound home base l t' where
  usable := h.usable
  located := FileTree.locate_of_keeps hkeeps h.located
  leads name hname := by
    rw [hsame] at hname
    obtain ⟨husable, hl⟩ := h.leads name hname
    exact ⟨husable, FileTree.locate_of_keeps hkeeps hl⟩
  texts name hname := by
    rw [hsame] at hname
    rw [FileTree.contentAt, hsame]
    exact h.texts name hname
  short name := by
    rw [linesAt_congr (hsame name)]
    exact h.short name
  times name := by
    rw [linesAt_congr (hsame name)]
    exact h.times name

/-- What is put elsewhere does not matter. -/
theorem put (h : Sound home base l t) {m : Location} {e : Entry} (hnot : t.entryAt? m ≠ some .directory)
    (hm : ∀ name, m ≠ attemptsAt l name) : Sound home base l (t.put m e) :=
  h.of_same (FileTree.keeps_put hnot e) fun name => FileTree.entryAt?_put_of_ne t (Ne.symm (hm name)) e

/-- The lines of rows that can be written are read as these rows, which are of times that are numbers. -/
theorem line_of_writable {r : Logged} (h : (Json.object r.row).isWritable = true) :
    rowOn (lineOf r.written) = some r.found ∧ digitsOver? (lineOf r.written) = none ∧
      isNumber (time r.found) = true := by
  obtain ⟨hrow, hdigits⟩ := rowOn_lineOf (Logged.isExact_written h)
  refine ⟨hrow, hdigits, ?_⟩
  rw [r.isReadAs_found.time_eq]
  rfl

/-- **What is put under one name** is whole lines of text, with no number of too many digits and valid rows of times
that are numbers; the others are as they were. -/
theorem put_text (h : Sound home base l t) (hnot : t.entryAt? (attemptsAt l name) ≠ some .directory)
    (husable : Files.isUsable (actionsOf base name) = true)
    (hl : t.locate home (actionsOf base name) = .ok (attemptsAt l name)) {cs : List Char} (hwhole : Text.Whole cs)
    (hshort : ∀ line ∈ Text.lines cs, digitsOver? line = none)
    (htimes : ∀ row ∈ validOn (Text.lines cs), isNumber (time row) = true) :
    Sound home base l (t.put (attemptsAt l name) (.file (Utf8.encode cs))) := by
  have hkeeps := FileTree.keeps_put hnot (.file (Utf8.encode cs))
  have hlines := linesAt_put hnot cs
  have hother : ∀ other, other ≠ name →
      (t.put (attemptsAt l name) (.file (Utf8.encode cs))).entryAt? (attemptsAt l other) =
        t.entryAt? (attemptsAt l other) := fun other hne =>
    FileTree.entryAt?_put_of_ne t (fun heq => hne (attemptsAt_inj heq)) _
  refine ⟨h.usable, FileTree.locate_of_keeps hkeeps h.located, fun other hfound => ?_, fun other hfile => ?_,
    fun other => ?_, fun other => ?_⟩
  · by_cases hname : other = name
    · rw [hname]
      exact ⟨husable, FileTree.locate_of_keeps hkeeps hl⟩
    · rw [hother other hname] at hfound
      obtain ⟨husable', hl'⟩ := h.leads other hfound
      exact ⟨husable', FileTree.locate_of_keeps hkeeps hl'⟩
  · by_cases hname : other = name
    · rw [hname]
      exact ⟨cs, contentAt_put hnot _, hwhole⟩
    · rw [hother other hname] at hfile
      rw [FileTree.contentAt, hother other hname]
      exact h.texts other hfile
  · by_cases hname : other = name
    · rw [hname, hlines]
      exact hshort
    · rw [linesAt_congr (hother other hname)]
      exact h.short other
  · by_cases hname : other = name
    · rw [hname, hlines]
      exact htimes
    · rw [linesAt_congr (hother other hname)]
      exact h.times other

/-- **Rows are more lines** of the file under their name, and everything can still be read. -/
theorem append (h : Sound home base l t) (hnot : t.entryAt? (attemptsAt l name) ≠ some .directory)
    (husable : Files.isUsable (actionsOf base name) = true)
    (hl : t.locate home (actionsOf base name) = .ok (attemptsAt l name)) {rows : List Logged}
    (hrows : ∀ r ∈ rows, (Json.object r.row).isWritable = true) {content : Bytes}
    (hcontent : content = t.contentAt (attemptsAt l name) ++ Files.renderedRows (rows.map Logged.written)) :
    Sound home base l (t.put (attemptsAt l name) (.file content)) ∧
      linesAt (t.put (attemptsAt l name) (.file content)) (attemptsAt l name) =
        linesAt t (attemptsAt l name) ++ rows.map fun r => lineOf r.written := by
  obtain ⟨cs, hcs, hwhole⟩ := h.texts name hnot
  -- the text of the file is the old one with the lines of the rows behind it
  have htext : content = Utf8.encode (cs ++ Files.renderedLines (rows.map Logged.written)) := by
    rw [hcontent, hcs, Utf8.encode_append]
    rfl
  have hlines : Text.lines (cs ++ Files.renderedLines (rows.map Logged.written)) =
      linesAt t (attemptsAt l name) ++ rows.map fun r => lineOf r.written := by
    rw [lines_append_rows hwhole, linesAt_of_content hnot hcs]
  have hwhole' : Text.Whole (cs ++ Files.renderedLines (rows.map Logged.written)) :=
    hwhole.append (Text.whole_joined _)
  rw [htext, linesAt_put hnot, hlines]
  refine ⟨h.put_text hnot husable hl hwhole' (fun line hline => ?_) fun row hrow => ?_, rfl⟩
  · rw [hlines] at hline
    rcases List.mem_append.1 hline with hold | hnew
    · exact h.short name line hold
    · obtain ⟨r, hr, rfl⟩ := List.mem_map.1 hnew
      exact (line_of_writable (hrows r hr)).2.1
  · rw [hlines, validOn_append] at hrow
    rcases List.mem_append.1 hrow with hold | hnew
    · exact h.times name row hold
    · obtain ⟨⟨line, hline, hread⟩, -⟩ := mem_validOn.1 hnew
      obtain ⟨r, hr, rfl⟩ := List.mem_map.1 hline
      obtain ⟨hwritten, -, htime⟩ := line_of_writable (hrows r hr)
      rw [hwritten] at hread
      exact Option.some.inj hread ▸ htime

/-- The directory of a run is made, and everything can still be read: what is put is no file of attempts. -/
theorem makeDirectories {w : World} (h : Sound w.home base l w.files) (hname : name ≠ "..") :
    ∃ r files, (Files.makeDirectories (base.child name)).runIn w = (r, { w with files := files }) ∧
      Sound w.home base l files ∧
      (r = .ok () → files.locate w.home (base.child name) = .ok (l ++ [name]) ∧
        files.entryAt? (l ++ [name]) = some .directory) := by
  refine Files.makeDirectories_child hname (fun t ht => ht.located) (fun t m ht hm hplace => ?_) h
  refine ht.put (FileTree.not_directory_of_none hm) fun other => ?_
  rcases hplace with rfl | rfl <;> simp [attemptsAt]

/-- So is the mark of the host, whether it is written or not. -/
theorem writeMark {w : World} (h : Sound w.home base l w.files)
    (hroot : w.files.locate w.home (base.child name) = .ok (l ++ [name])) :
    ∃ r files, (Files.writeText ((base.child name).child ".hostname") w.host).runIn w = (r, { w with files := files }) ∧
      Sound w.home base l files ∧ w.files.Keeps files := by
  obtain ⟨r, files, hwrite, rfl | ⟨m, content, hm, hopens, rfl⟩⟩ :=
    Files.writeText_cases ((base.child name).child ".hostname") w.host w
  · exact ⟨r, w.files, hwrite, h, .refl _⟩
  · obtain ⟨rfl, -⟩ := (FileTree.locate_child (by decide) hroot).1 hm
    have hnot := FileTree.not_directory_of_opens hopens
    exact ⟨r, _, hwrite, h.put hnot fun other => by simp [attemptsAt], FileTree.keeps_put hnot _⟩

/-- The files of attempts hold text, so what they hold is read line by line. -/
def stored (h : Sound home base l t) (hdirectory : t.entryAt? l = some .directory) (w : World) :
    Stored { w with files := t, home := home } base where
  location := l
  usable := h.usable
  located := h.located
  directory := hdirectory
  textual name hname := by
    obtain ⟨husable, hl⟩ := h.leads name (mem_runsBelow.1 hname)
    refine ⟨husable, hl, fun content hcontent => ?_⟩
    have hfile : t.entryAt? (attemptsAt l name) = some (.file content) := hcontent
    obtain ⟨cs, hcs, -⟩ := h.texts name (FileTree.not_directory_of_entry hfile nofun)
    rw [FileTree.contentAt, hfile] at hcs
    exact ⟨_, hcs ▸ Files.textOf_encode cs⟩

theorem mem_lines_stored (h : Sound home base l t) (hdirectory : t.entryAt? l = some .directory) (w : World)
    {line : List Char} :
    line ∈ (h.stored hdirectory w).lines ↔ ∃ name, line ∈ linesAt t (attemptsAt l name) := by
  constructor
  · intro hline
    obtain ⟨name, -, hname⟩ := List.mem_flatMap.1 hline
    exact ⟨name, hname⟩
  · rintro ⟨name, hname⟩
    refine List.mem_flatMap.2 ⟨name, (List.mergeSort_perm _ _).mem_iff.2 (mem_runsBelow.2 fun hnone => ?_), hname⟩
    -- a file that is not there has no lines
    have habsent : t.entryAt? (attemptsAt l name) = none := hnone
    rw [linesAt, habsent] at hname
    cases hname

/-- **Everything is read**: all valid rows that stand in the files, if the directory is there. -/
theorem read (h : Sound home base l t) (hdirectory : t.entryAt? l = some .directory) (w : World) :
    ∃ order w', (History.read base).runIn { w with files := t, home := home } = (.ok order, w') ∧
      ∀ name, ∀ row ∈ validOn (linesAt t (attemptsAt l name)), row ∈ order := by
  have hmem := @mem_lines_stored home l base t h hdirectory w
  have hdigits : (h.stored hdirectory w).lines.findSome? digitsOver? = none :=
    List.findSome?_eq_none_iff.2 fun line hline => by
      obtain ⟨name, hname⟩ := hmem.1 hline
      exact h.short name line hname
  have htimes : ((h.stored hdirectory w).rows.map time).all isNumber = true := by
    rw [List.all_map]
    refine List.all_eq_true.2 fun row hrow => ?_
    obtain ⟨⟨line, hline, hread⟩, hvalid⟩ := mem_validOn.1 hrow
    obtain ⟨name, hname⟩ := hmem.1 hline
    exact h.times name row (mem_validOn.2 ⟨⟨line, hname, hread⟩, hvalid⟩)
  obtain ⟨talk, hread⟩ := (h.stored hdirectory w).reads
  obtain ⟨order, hsort, hperm, -⟩ := sortByTime_ordered (.inl htimes)
  refine ⟨order, _, hread.trans (congrArg (·, _) ?_), fun name row hrow => hperm.mem_iff.2 ?_⟩
  · rw [unlessOver, hdigits]
    exact hsort
  · obtain ⟨⟨line, hline, hread⟩, hvalid⟩ := mem_validOn.1 hrow
    exact mem_validOn.2 ⟨⟨line, hmem.2 ⟨name, hline⟩, hread⟩, hvalid⟩

end Sound

/-- An empty directory of histories can be read, also if it is missing. -/
theorem EmptyBase.sound (b : EmptyBase) : Sound b.home b.path b.location b.files := by
  have hkept := Kept.empty b
  have hempty : ∀ name, b.files.contentAt (attemptsAt b.location name) = Utf8.encode [] := hkept.content
  have hlines : ∀ name, linesAt b.files (attemptsAt b.location name) = [] := fun name =>
    linesAt_of_content (FileTree.not_directory_of_opens (hkept.opens name)) (hempty name)
  refine ⟨b.usable, b.located, fun name hname => ?_, fun name _ => ⟨[], hempty name, Text.whole_nil⟩,
    fun name line hline => ?_, fun name row hrow => ?_⟩
  · have hleads := hkept.leads name hname
    exact ⟨hleads.usable, hleads.located⟩
  · rw [hlines name] at hline
    cases hline
  · rw [hlines name] at hrow
    cases hrow

/-! ### Calls of one log -/

/-- A call of a log: an attempt is recorded, or what is known about the run is written. -/
inductive LogCall where
  | record (entry : FlatEntry)
  | describe (members : List (LooseText × Json))

/-- The files, and the rows of the calls that recorded them. -/
structure LogSession where
  files : FileTree
  logged : List Logged

namespace Log

/-- Carries out a call in a world of its own, in which the files are those of the session. -/
def perform (log : Log) (home : Location) (s : LogSession) (w : World) : LogCall → LogSession
  | .record entry =>
    match (log.record entry.members).runIn { w with files := s.files, home := home } with
    | (.ok _, w') => ⟨w'.files, s.logged ++ [⟨w.clock, log.runId, entry⟩]⟩
    | (.error _, w') => ⟨w'.files, s.logged⟩
  | .describe members =>
    ⟨((log.writeMetadata members).runIn { w with files := s.files, home := home }).2.files, s.logged⟩

/-- Carries out calls, one after the other. -/
def performAll (log : Log) (home : Location) (files : FileTree) (calls : List (World × LogCall)) : LogSession :=
  calls.foldl (fun s c => log.perform home s c.1 c.2) ⟨files, []⟩

end Log

/-- **What a log records is found**: its file is among those that are read with the history; and where everything in
the directory of the histories can be read, so can all valid rows that the log recorded since it was opened. -/
structure Found (base : Path) (id : String) : Prop where
  listed : ∀ w w' entry, ((runLog base id).record entry).runIn w = (.ok (), w') →
    ∃ paths, (Files.inChildren "actions.jsonl" base).runIn w' = (.ok paths, w') ∧
      (runLog base id).actionsFile ∈ paths
  read : ∀ w w' log l, Sound w.home base l w.files → (Log.open_ base (some id)).runIn w = (.ok log, w') →
    ∀ (calls : List (World × LogCall)) (u : World), ∃ order u',
      (read base).runIn { u with files := (log.performAll w.home w'.files calls).files, home := w.home } =
        (.ok order, u') ∧
      ∀ r ∈ (log.performAll w.home w'.files calls).logged, r.isValid = true → ∃ row ∈ order, r.IsReadAs row

section Calls

variable {base : Path} {id : String} (hne : id ≠ "") (hstays : id ≠ ".") (hdown : id ≠ "..")

/-- The path of the attempts of a run leads to them, through the directory of the histories. -/
structure LeadsToAttempts (base : Path) (id : String) (w : World) (l : Location) : Prop where
  usable : Files.isUsable (actionsOf base (sanitize id)) = true
  located : w.files.locate w.home (actionsOf base (sanitize id)) = .ok (attemptsAt l (sanitize id))
  base : w.files.locate w.home base = .ok l
  directory : w.files.entryAt? l = some .directory
  file : w.files.entryAt? (attemptsAt l (sanitize id)) ≠ some .directory

/-- A world with more behind the attempts of a run. -/
def withMore (w : World) (m : Location) (more : Bytes) : World :=
  { w with files := w.files.put m (.file (w.files.contentAt m ++ more)) }

include hne hdown in
/-- **Recording an entry** adds its line to the attempts of the run, or fails and adds none. -/
theorem runLog_record_cases (entry : List (LooseText × Json)) (w : World) :
    (∃ e, ((runLog base id).record entry).runIn w = (.error e, w)) ∨
    ∃ l, LeadsToAttempts base id w l ∧ ((runLog base id).row w.clock entry).isWritable = true ∧
      ((∃ e, ((runLog base id).record entry).runIn w = (.error e, withMore w (attemptsAt l (sanitize id)) [])) ∨
        ((runLog base id).record entry).runIn w = (.ok (), withMore w (attemptsAt l (sanitize id))
          (Utf8.encode (Log.line ((runLog base id).row w.clock entry)).toList))) := by
  rw [Log.record, App.runIn_bind_ok (App.runIn_get w)]
  by_cases hrow : ((runLog base id).row w.clock entry).isWritable = true
  · rw [if_pos hrow]
    have hactions : (runLog base id).actionsFile = actionsOf base (sanitize id) := rfl
    rw [hactions]
    rcases Files.appendText_cases (actionsOf base (sanitize id))
      (Log.line ((runLog base id).row w.clock entry)) w with ⟨e, hfail⟩ | ⟨m, husable, hm, hfile, hdone⟩
    · exact .inl ⟨e, hfail⟩
    · obtain ⟨k, hk, rfl, -⟩ := FileTree.locate_of_child (by decide) (by decide) hm
      obtain ⟨l, hl, rfl, hdirectory⟩ :=
        FileTree.locate_of_child (sanitize_ne_points hdown) (sanitize_ne_empty hne) hk
      have heq : l ++ [sanitize id] ++ ["actions.jsonl"] = attemptsAt l (sanitize id) := List.append_assoc _ _ _
      rw [heq] at hm hfile hdone
      refine .inr ⟨l, ⟨husable, hm, hl, hdirectory, FileTree.not_directory_of_opens hfile⟩, hrow, hdone.imp_left ?_⟩
      rintro ⟨e, hfail⟩
      exact ⟨e, by rw [hfail, withMore, List.append_nil]⟩
  · rw [if_neg hrow]
    exact .inl ⟨_, rfl⟩

include hne hdown in
/-- The file of a row that is recorded is looked for. -/
theorem actionsFile_listed {w w' : World} {entry : List (LooseText × Json)}
    (h : ((runLog base id).record entry).runIn w = (.ok (), w')) :
    ∃ paths, (Files.inChildren "actions.jsonl" base).runIn w' = (.ok paths, w') ∧
      (runLog base id).actionsFile ∈ paths := by
  rcases runLog_record_cases hne hdown entry w with ⟨e, hfail⟩ | ⟨l, hleads, -, ⟨e, hfail⟩ | hdone⟩
  · rw [h] at hfail
    cases hfail
  · rw [h] at hfail
    cases hfail
  · rw [h] at hdone
    obtain ⟨-, rfl⟩ := Prod.mk.inj hdone
    have husable : Files.isUsable base = true := List.all_eq_true.2 fun part hpart =>
      List.all_eq_true.1 hleads.usable part (List.mem_append_left _ (List.mem_append_left _ hpart))
    generalize Utf8.encode (Log.line ((runLog base id).row w.clock entry)).toList = more
    have hkeeps : w.files.Keeps (withMore w (attemptsAt l (sanitize id)) more).files :=
      FileTree.keeps_put hleads.file _
    have hbase : (withMore w (attemptsAt l (sanitize id)) more).files.locate w.home base = .ok l :=
      FileTree.locate_of_keeps hkeeps hleads.base
    have hthere : (withMore w (attemptsAt l (sanitize id)) more).files.entryAt? (attemptsAt l (sanitize id)) ≠ none := by
      rw [withMore, FileTree.entryAt?_put_self _ (FileTree.ne_nil_of_entryAt? hleads.file)]
      exact Option.some_ne_none _
    refine ⟨_, inChildren_located husable hbase (hkeeps l hleads.directory), List.mem_map_of_mem ?_⟩
    exact (List.mergeSort_perm _ _).mem_iff.2 (mem_runsBelow.2 hthere)

/-- Everything can be read, the directory of the run is there, and what was recorded stands in its file. -/
structure LogSession.Holds (home : Location) (base : Path) (id : String) (l : Location) (s : LogSession) : Prop where
  sound : Sound home base l s.files
  root : s.files.locate home (base.child (sanitize id)) = .ok (l ++ [sanitize id])
  directory : s.files.entryAt? (l ++ [sanitize id]) = some .directory
  found : ∀ r ∈ s.logged, r.isValid = true → r.found ∈ validOn (linesAt s.files (attemptsAt l (sanitize id)))

namespace LogSession.Holds

variable {home l : Location} {s : LogSession}

/-- Rows that are recorded stand in the file, behind those that were there. -/
theorem append (h : s.Holds home base id l) {w : World} (hfiles : w.files = s.files) (hhome : w.home = home)
    (hleads : LeadsToAttempts base id w l) {rows : List Logged}
    (hrows : ∀ r ∈ rows, (Json.object r.row).isWritable = true) {more : Bytes}
    (hmore : more = Files.renderedRows (rows.map Logged.written)) :
    LogSession.Holds home base id l ⟨(withMore w (attemptsAt l (sanitize id)) more).files, s.logged ++ rows⟩ := by
  obtain ⟨husable, hlocated, -, -, hfile⟩ := hleads
  rw [hfiles] at hlocated hfile
  rw [hhome] at hlocated
  rw [withMore, hfiles]
  dsimp only
  obtain ⟨hsound, hlines⟩ := h.sound.append hfile husable hlocated hrows (congrArg _ hmore)
  have hkeeps := FileTree.keeps_put hfile (.file (s.files.contentAt (attemptsAt l (sanitize id)) ++ more))
  refine ⟨hsound, FileTree.locate_of_keeps hkeeps h.root, hkeeps _ h.directory, fun r hr hvalid => ?_⟩
  dsimp only
  rw [hlines, validOn_append]
  rcases List.mem_append.1 hr with hold | hnew
  · exact List.mem_append_left _ (h.found r hold hvalid)
  · refine List.mem_append_right _ (mem_validOn.2 ⟨⟨lineOf r.written, List.mem_map_of_mem hnew, ?_⟩, ?_⟩)
    · exact (Sound.line_of_writable (hrows r hnew)).1
    · rw [isValidRow_found, hvalid]

include hne hdown in
theorem perform_record (h : s.Holds home base id l) (w : World) (entry : FlatEntry) :
    ((runLog base id).perform home s w (.record entry)).Holds home base id l := by
  unfold Log.perform
  dsimp only
  rcases @runLog_record_cases base id hne hdown entry.members { w with files := s.files, home := home } with
    ⟨e, hfail⟩ | ⟨l', hleads, hrow, hdone⟩
  · rw [hfail]
    exact h
  · obtain rfl : l' = l := Except.ok.inj (hleads.base.symm.trans h.sound.located)
    rcases hdone with ⟨e, hfail⟩ | hdone
    · -- the file may have been made, with no line in it
      have hnone := @append base id home l' s h _ rfl rfl hleads [] (List.forall_mem_nil _) [] rfl
      rw [List.append_nil] at hnone
      rw [hfail]
      exact hnone
    · have hsame : (runLog base id).row w.clock entry.members =
          .object (Logged.row ⟨w.clock, sanitize id, entry⟩) := rfl
      have hline : Utf8.encode (Log.line (.object (Logged.row ⟨w.clock, sanitize id, entry⟩))).toList =
          Files.renderedRows [Logged.written ⟨w.clock, sanitize id, entry⟩] := by
        rw [Logged.toList_line]
        simp [Files.renderedRows, Files.renderedLines]
      dsimp only at hrow hdone
      rw [hsame] at hrow hdone
      rw [hdone]
      exact h.append rfl rfl hleads (List.forall_mem_singleton.2 hrow) hline

/-- The attempts are none of the files of what is known about the run. -/
theorem attempts_not_metadata (process : Nat) :
    "actions.jsonl" ∉ ["run_metadata.json", Files.temporaryName "run_metadata.json" process] := by
  intro h
  rcases List.mem_cons.1 h with hmetadata | htemporary
  · exact absurd hmetadata (by decide)
  · have hchars := congrArg String.toList (List.mem_singleton.1 htemporary)
    rw [Files.temporaryName, String.toList_append, String.toList_append] at hchars
    cases hchars

/-- What is known about the run is written beside the attempts. -/
theorem perform_describe (h : s.Holds home base id l) (w : World) (members : List (LooseText × Json)) :
    ((runLog base id).perform home s w (.describe members)).Holds home base id l := by
  unfold Log.perform
  dsimp only
  obtain ⟨r, files, talk, hrun, hinside⟩ : App.StaysInside (base.child (sanitize id))
      ["run_metadata.json", Files.temporaryName "run_metadata.json" w.process]
      ((runLog base id).writeMetadata members) { w with files := s.files, home := home } :=
    Files.staysInside_replaceJson List.mem_cons_self (by decide) (by decide)
      (List.mem_cons_of_mem _ (List.mem_singleton.2 rfl)) _
  rw [hrun]
  have hsame : ∀ name, files.entryAt? (attemptsAt l name) = s.files.entryAt? (attemptsAt l name) := by
    intro name
    by_contra hchanged
    obtain ⟨file, hfile, heq⟩ := hinside.changed_there h.root h.directory hchanged
    have hlast : "actions.jsonl" = file := by
      have hboth := congrArg List.getLast? heq
      simpa [attemptsAt] using hboth
    exact attempts_not_metadata w.process (hlast ▸ hfile)
  refine ⟨h.sound.of_same hinside.keeps hsame, FileTree.locate_of_keeps hinside.keeps h.root,
    hinside.keeps _ h.directory, fun r hr hvalid => ?_⟩
  dsimp only
  rw [linesAt_congr (hsame _)]
  exact h.found r hr hvalid

theorem perform (hne : id ≠ "") (hdown : id ≠ "..") (h : s.Holds home base id l) (w : World) (c : LogCall) :
    ((runLog base id).perform home s w c).Holds home base id l := by
  cases c with
  | record entry => exact h.perform_record hne hdown w entry
  | describe members => exact h.perform_describe w members

theorem foldl_perform (hne : id ≠ "") (hdown : id ≠ "..") (h : s.Holds home base id l)
    (calls : List (World × LogCall)) :
    (calls.foldl (fun s c => (runLog base id).perform home s c.1 c.2) s).Holds home base id l := by
  induction calls generalizing s with
  | nil => exact h
  | cons c calls ih => exact ih (h.perform hne hdown c.1 c.2)

/-- What a call keeps, all calls keep. -/
theorem performAll (hne : id ≠ "") (hdown : id ≠ "..") {files : FileTree}
    (h : LogSession.Holds home base id l ⟨files, []⟩) (calls : List (World × LogCall)) :
    ((runLog base id).performAll home files calls).Holds home base id l :=
  h.foldl_perform hne hdown calls

/-- **What was recorded is read.** -/
theorem read (hne : id ≠ "") (hdown : id ≠ "..") (h : s.Holds home base id l) (w : World) :
    ∃ order w', (History.read base).runIn { w with files := s.files, home := home } = (.ok order, w') ∧
      ∀ r ∈ s.logged, r.isValid = true → ∃ row ∈ order, r.IsReadAs row := by
  obtain ⟨l', hl, hl', hbase⟩ :=
    FileTree.locate_of_child (sanitize_ne_points hdown) (sanitize_ne_empty hne) h.root
  obtain rfl : l' = l := Except.ok.inj (hl.symm.trans h.sound.located)
  obtain ⟨order, w', hread, hrows⟩ := h.sound.read hbase w
  exact ⟨order, w', hread, fun r hr hvalid => ⟨r.found, hrows _ _ (h.found r hr hvalid), r.isReadAs_found⟩⟩

/-- A log that is opened has recorded nothing yet, and everything can still be read. -/
theorem of_open (hne : id ≠ "") (hstays : id ≠ ".") (hdown : id ≠ "..") {w w' : World} {log : Log}
    (h : Sound w.home base l w.files) (hopen : (Log.open_ base (some id)).runIn w = (.ok log, w')) :
    LogSession.Holds w.home base id l ⟨w'.files, []⟩ := by
  obtain ⟨r, files, hmake, hsound, hthere⟩ := h.makeDirectories (sanitize_ne_points hdown)
  rw [open_eq_openNamed hne, openNamed, root_eq hne hstays] at hopen
  obtain ⟨_, w₂, hmade, hbehind⟩ := App.runIn_bind_eq_ok hopen
  obtain ⟨rfl, rfl⟩ := Prod.mk.inj (hmake.symm.trans hmade)
  obtain ⟨hroot, hdirectory⟩ := hthere rfl
  obtain ⟨_, w₃, hmark, hlog⟩ := App.runIn_bind_eq_ok hbehind
  cases hlog
  obtain ⟨r, files', hwrite, hmarked, hkeeps⟩ :=
    @Sound.writeMark l base (sanitize id) { w with files := files } hsound hroot
  have hend : w' = { w with files := files' } := by
    have hpath : (base.child (sanitize id)).append (Path.ofString ".hostname") =
        (base.child (sanitize id)).child ".hostname" := rfl
    rw [hpath, App.runIn_tryCatch, hwrite] at hmark
    -- a mark that cannot be written is no fault
    cases r with
    | ok _ => exact (Prod.mk.inj hmark).2.symm
    | error e =>
        dsimp only at hmark
        split at hmark
        · exact (Prod.mk.inj hmark).2.symm
        · cases hmark
  rw [hend]
  exact ⟨hmarked, FileTree.locate_of_keeps hkeeps hroot, hkeeps _ hdirectory, List.forall_mem_nil _⟩

end LogSession.Holds

include hne hstays hdown in
/-- **What a log records is found.** -/
theorem found : Found base id where
  listed _ _ _ h := actionsFile_listed hne hdown h
  read w w' log l h hopen calls u := by
    obtain rfl := eq_runLog hne hstays hopen
    have hstart := LogSession.Holds.of_open hne hstays hdown h hopen
    exact (hstart.performAll hne hdown calls).read hne hdown u

end Calls

/-- **What is logged stays inside and is found.** Whatever the directory of the histories is and whatever the id, if
it is neither empty nor a single or a double point: a log writes only into one directory directly below that of the
histories, and what it records is found there. -/
theorem confined_and_found (base : Path) {id : String} (hne : id ≠ "") (hstays : id ≠ ".") (hdown : id ≠ "..") :
    Confined base id ∧ Found base id :=
  ⟨confined hne hstays hdown, found hne hstays hdown⟩

/-- An attempt that is recorded in the log of an id when nothing is there yet. -/
def firstAttempt : List (World × LogCall) :=
  [({ clock := 1 }, .record Session.doneEntry)]

theorem confined_and_found_evil :
    sanitize "../evil run" = ".._evil_run" ∧ Confined historyBase "../evil run" ∧
      ∃ log w' order u', (Log.open_ historyBase (some "../evil run")).runIn {} = (.ok log, w') ∧
        (log.performAll [] w'.files firstAttempt).logged.map (fun r => (r.time, r.runId, r.isValid)) =
          [(1, ".._evil_run", true)] ∧
        (read historyBase).runIn { files := (log.performAll [] w'.files firstAttempt).files } = (.ok order, u') ∧
        order ≠ [] := by
  obtain ⟨hconfined, hfound⟩ := confined_and_found historyBase (by decide : "../evil run" ≠ "") (by decide) (by decide)
  have hlogged : ((runLog historyBase "../evil run").performAll []
      ((Log.open_ historyBase (some "../evil run")).runIn {}).2.files firstAttempt).logged.map
        (fun r => (r.time, r.runId, r.isValid)) = [(1, ".._evil_run", true)] := by decide +kernel
  obtain ⟨w', hopen⟩ := App.eq_ok_of_toOption (x := Log.open_ historyBase (some "../evil run")) (w := {})
    (a := runLog historyBase "../evil run") (by decide +kernel)
  rw [hopen] at hlogged
  obtain ⟨order, u', hread, hrows⟩ := hfound.read {} w' _ ["history"] Session.missingBase.sound hopen firstAttempt {}
  obtain ⟨r, rest, hr, hone, -⟩ := List.map_eq_cons_iff.1 hlogged
  have hvalid : r.isValid = true := (Prod.mk.inj (Prod.mk.inj hone).2).2
  obtain ⟨row, hrow, -⟩ := hrows r (hr ▸ List.mem_cons_self) hvalid
  exact ⟨by decide +kernel, hconfined, _, w', order, u', hopen, hlogged, hread, List.ne_nil_of_mem hrow⟩

/-! ### Points -/

/-- An attempt that is recorded in the log of an id, and what is read then. -/
def recordAndRead (id : String) : App (List Row) := do
  let log ← Log.open_ historyBase (some id)
  log.record Session.doneEntry.members
  read historyBase

/-- What changes nearer to the directory of the histories than the files of a run, and is no directory. -/
theorem not_inRun {home m l : Location} {base : Path} {t t' : FileTree} (hfile : t'.entryAt? m ≠ some .directory)
    (hchanged : t'.entryAt? m ≠ t.entryAt? m) (hl : t'.locate home base = .ok l) (hnear : m.length < l.length + 2)
    (name : String) (files : List String) : ¬InRun home base name files t t' := by
  intro h
  rcases h.changed m hchanged with ⟨-, hdirectory, -⟩ | ⟨l', file, -, hl', rfl⟩
  · exact hfile hdirectory
  · obtain rfl : l = l' := Except.ok.inj (hl.symm.trans hl')
    rw [List.length_append] at hnear
    exact absurd hnear (Nat.lt_irrefl _)

/-- The ids that are points, and where the attempts are that are recorded under them. -/
def strayPlaces : List (String × Location) :=
  [(".", ["history", "actions.jsonl"]), ("..", ["actions.jsonl"])]

/-- Nothing is read, and a file has come in the directory of the histories or above it. -/
theorem read_of_mem_strayPlaces : ∀ e ∈ strayPlaces,
    ((recordAndRead e.1).runIn {}).1.toOption.map List.length = some 0 ∧
      ((recordAndRead e.1).runIn {}).2.files.locate [] historyBase = .ok ["history"] ∧
      ((recordAndRead e.1).runIn {}).2.files.entryAt? e.2 ≠ some .directory ∧
      ((recordAndRead e.1).runIn {}).2.files.entryAt? e.2 ≠ ({} : FileTree).entryAt? e.2 ∧
      e.2.length < ["history"].length + 2 := by
  decide +kernel

/-- **Two points lead out of the directory of the histories, and one stays in it**: what is logged under these ids is
in no directory of a run, and is not found. -/
theorem points_not_confined :
    problems Session.doneEntry.members = [] ∧
      ∀ id ∈ [".", ".."], ∃ w', (recordAndRead id).runIn {} = (.ok [], w') ∧
        ∀ name files, ¬InRun [] historyBase name files {} w'.files := by
  refine ⟨by decide +kernel, fun id hid => ?_⟩
  have hmem : id ∈ strayPlaces.map Prod.fst := hid
  obtain ⟨e, he, hplace⟩ := List.mem_map.1 hmem
  obtain ⟨hrows, hbase, hnot, hchanged, hnear⟩ := read_of_mem_strayPlaces e he
  rw [hplace] at hrows hbase hnot hchanged
  obtain ⟨rows, hrows, hlength⟩ := Option.map_eq_some_iff.1 hrows
  obtain rfl := List.length_eq_zero_iff.1 hlength
  obtain ⟨w', hrun⟩ := App.eq_ok_of_toOption hrows
  rw [hrun] at hbase hnot hchanged
  exact ⟨w', hrun, not_inRun hnot hchanged hbase hnear⟩

end SophiaBind.History
