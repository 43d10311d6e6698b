/-
**Sessions**: the calls by which histories are kept below one directory.

Logs are opened and entries recorded in any order, each call in a world of its own: its clock, and what the system
refuses to it. The files go on from call to call. Whatever happens, each file of attempts holds exactly the rows that
were recorded under the name of its run, in that order, and a call that fails leaves all rows.

Main definitions:

* `History.EmptyBase`, `History.RunId` — where histories are kept, and the ids of runs with a directory there,
* `History.Call`, `History.Session`, `History.Session.perform`, `History.Session.run`,
* `History.Kept` — the files that hold what was logged.

Main results:

* `History.Kept.put`, `History.Kept.append` — **what is put elsewhere loses no rows**, and a row is one more line,
* `History.open_kept`, `History.record_cases` — **what a call does**,
* `History.record_unhindered` — an entry is recorded where nothing hinders that,
* `History.Session.holds_run` — **the files hold what was logged**, whatever was called.
-/

import SophiaBind.Proofs.FileCases
import SophiaBind.Proofs.LoggedRows
import SophiaBind.Proofs.PlainLines
import SophiaBind.Proofs.Recording

namespace SophiaBind.History

/-! ### Calls -/

/-- A directory with nothing in it, to which a path leads. It may be missing if only it is. -/
structure EmptyBase where
  path : Path
  home : Location
  files : FileTree
  location : Location
  usable : Files.isUsable path = true
  located : files.locate home path = .ok location
  notFile : ∀ e, files.entryAt? location = some e → e = .directory
  empty : files.below location = []

/-- The id of a run, whose name leads neither up nor nowhere. -/
structure RunId where
  id : String
  stays : sanitize id ≠ "."
  down : sanitize id ≠ ".."

/-- A call: a log is opened, under an id or a fresh one, or an entry is recorded in the log that was opened as the
`k`-th. -/
inductive Call where
  | open_ (id : Option RunId)
  | record (k : Nat) (entry : FlatEntry)

/-- The files, the logs that were opened, and the rows of the calls that recorded them, in the order of the calls. -/
structure Session where
  files : FileTree
  logs : List Log
  logged : List Logged

namespace Session

/-- The world of a call: the files are those of the session. -/
def world (b : EmptyBase) (s : Session) (w : World) : World :=
  { w with files := s.files, home := b.home }

/-- Carries out a call. -/
def perform (b : EmptyBase) (s : Session) (w : World) : Call → Session
  | .open_ id =>
    match (Log.open_ b.path (id.map RunId.id)).runIn (s.world b w) with
    | (.ok log, w') => { s with files := w'.files, logs := s.logs ++ [log] }
    | (.error _, w') => { s with files := w'.files }
  | .record k entry =>
    match s.logs[k]? with
    | none => s
    | some log =>
      match (log.record entry.members).runIn (s.world b w) with
      | (.ok _, w') => { s with files := w'.files, logged := s.logged ++ [⟨w.clock, log.runId, entry⟩] }
      | (.error _, w') => { s with files := w'.files }

/-- Carries out calls, one after the other, from a base on. -/
def run (b : EmptyBase) (calls : List (World × Call)) : Session :=
  calls.foldl (fun s c => s.perform b c.1 c.2) ⟨b.files, [], []⟩

end Session

/-! ### Names of runs -/

theorem toList_sanitize (s : String) :
    (sanitize s).toList = (s.toList.map fun c => if keeps c then c else '_').take 120 :=
  String.toList_ofList

/-- The characters of a name are kept, or underscores. -/
theorem keeps_of_mem_sanitize {s : String} {c : Char} (h : c ∈ (sanitize s).toList) : keeps c = true := by
  rw [toList_sanitize] at h
  obtain ⟨d, -, hd⟩ := List.mem_map.1 (List.mem_of_mem_take h)
  split at hd
  · next hkeeps => exact hd ▸ hkeeps
  · subst hd
    decide

/-- A name begins with what its id begins with. -/
theorem sanitize_cons {s : String} {c : Char} {cs : List Char} (h : s.toList = c :: cs) :
    ∃ rest, (sanitize s).toList = (if keeps c then c else '_') :: rest := by
  rw [toList_sanitize, h]
  exact ⟨_, rfl⟩

theorem splitSlashes_of_not_mem {cs : List Char} (h : '/' ∉ cs) : Path.splitSlashes cs = [cs] := by
  induction cs with
  | nil => rfl
  | cons c cs ih =>
      obtain ⟨hc, hcs⟩ := not_or.1 (mt List.mem_cons.2 h)
      rw [Path.splitSlashes]
      · rw [ih hcs]
      · rintro rfl
        exact hc rfl

/-- A name without slashes is a path of one component. -/
theorem ofString_of_not_mem {s : String} (hslash : '/' ∉ s.toList) (hne : s ≠ "") (hpoint : s ≠ ".") :
    Path.ofString s = { parts := [s] } := by
  obtain ⟨c, cs, hcs⟩ := List.exists_cons_of_ne_nil (mt String.toList_eq_nil_iff.1 hne)
  have hanchor : Path.anchorOf s.toList = "" := by
    rw [hcs] at hslash ⊢
    have hfirst : c ≠ '/' := fun h => hslash (h ▸ List.mem_cons_self)
    rw [Path.anchorOf]
    all_goals simp_all
  have hpoint' : s.toList ≠ ['.'] := fun h => hpoint (String.toList_inj.1 h)
  rw [Path.ofString, hanchor, splitSlashes_of_not_mem hslash]
  simp [hne, hpoint']

/-- **The name of a run is a path of one component.** -/
theorem append_sanitize (p : Path) {s : String} (hs : s ≠ "") (hstays : sanitize s ≠ ".") :
    p.append (Path.ofString (sanitize s)) = p.child (sanitize s) := by
  obtain ⟨c, cs, hcs⟩ := List.exists_cons_of_ne_nil (mt String.toList_eq_nil_iff.1 hs)
  obtain ⟨rest, hname⟩ := sanitize_cons hcs
  have hslash : '/' ∉ (sanitize s).toList := fun hmem => absurd (keeps_of_mem_sanitize hmem) (by decide)
  have hne : sanitize s ≠ "" := by
    intro h
    rw [h] at hname
    cases hname
  rw [ofString_of_not_mem hslash hne hstays]
  rfl

/-- The id under which a log is opened: a fresh one if none is given. -/
def chosenId (runId : Option String) (w : World) : String :=
  match runId with
  | some id => if id = "" then freshRunId "deploy" w else id
  | none => freshRunId "deploy" w

theorem exists_cons_freshRunId (w : World) : ∃ cs, (freshRunId "deploy" w).toList = 'd' :: cs := by
  simp [freshRunId, String.toList_append]

/-- A fresh id leads neither up nor nowhere. -/
theorem proper_freshRunId (w : World) :
    freshRunId "deploy" w ≠ "" ∧ sanitize (freshRunId "deploy" w) ≠ "." ∧
      sanitize (freshRunId "deploy" w) ≠ ".." := by
  obtain ⟨cs, hcs⟩ := exists_cons_freshRunId w
  obtain ⟨rest, hname⟩ := sanitize_cons hcs
  rw [show (if keeps 'd' then 'd' else '_') = 'd' by decide] at hname
  refine ⟨?_, ?_, ?_⟩
  · intro h
    rw [h] at hcs
    cases hcs
  · intro h
    rw [h] at hname
    cases hname
  · intro h
    rw [h] at hname
    cases hname

/-- So does an id that is chosen. -/
theorem proper_chosenId (id : Option RunId) (w : World) :
    chosenId (id.map RunId.id) w ≠ "" ∧ sanitize (chosenId (id.map RunId.id) w) ≠ "." ∧
      sanitize (chosenId (id.map RunId.id) w) ≠ ".." := by
  cases id with
  | none =>
      have hchosen : chosenId (Option.map RunId.id none) w = freshRunId "deploy" w := rfl
      rw [hchosen]
      exact proper_freshRunId w
  | some id =>
      have hchosen : chosenId (Option.map RunId.id (some id)) w =
          if id.id = "" then freshRunId "deploy" w else id.id := rfl
      by_cases hempty : id.id = ""
      · rw [hchosen, if_pos hempty]
        exact proper_freshRunId w
      · rw [hchosen, if_neg hempty]
        exact ⟨hempty, id.stays, id.down⟩

/-! ### Files that hold what was logged -/

namespace EmptyBase

/-- The file of the attempts under a name. -/
def actions (b : EmptyBase) (name : String) : Path :=
  (b.path.child name).child "actions.jsonl"

/-- Where that file is. -/
def attempts (b : EmptyBase) (name : String) : Location :=
  b.location ++ [name, "actions.jsonl"]

/-- The path of the attempts leads there. -/
structure Leads (b : EmptyBase) (name : String) (t : FileTree) : Prop where
  usable : Files.isUsable (b.actions name) = true
  located : t.locate b.home (b.actions name) = .ok (b.attempts name)
  base : t.entryAt? b.location = some .directory

theorem Leads.of_keeps {b : EmptyBase} {name : String} {t t' : FileTree} (h : b.Leads name t) (hkeeps : t.Keeps t') :
    b.Leads name t' :=
  ⟨h.usable, FileTree.locate_of_keeps hkeeps h.located, hkeeps _ h.base⟩

theorem attempts_inj {b : EmptyBase} {name other : String} (h : b.attempts name = b.attempts other) :
    name = other := by
  simpa [attempts] using h

end EmptyBase

/-- The locations below another at which something stands. -/
def locationsBelow (t : FileTree) (l : Location) : List Location :=
  (t.entries.map Prod.fst).filter fun m => (FileTree.relative? l m).isSome

/-- The files hold what was logged: those of attempts hold the rows of the runs of their names, and nothing
stands where it would be in the way. -/
structure Kept (b : EmptyBase) (logged : List Logged) (t : FileTree) : Prop where
  located : t.locate b.home b.path = .ok b.location
  notFile : ∀ e, t.entryAt? b.location = some e → e = .directory
  distinct : (locationsBelow t b.location).Nodup
  opens : ∀ name, t.opens (b.attempts name) = true
  leads : ∀ name, t.entryAt? (b.attempts name) ≠ none → b.Leads name t
  content : ∀ name, t.contentAt (b.attempts name) =
    Files.renderedRows ((logged.filter fun r => r.runId = name).map Logged.written)

/-- Locations stay distinct. -/
theorem nodup_locationsBelow_put {t : FileTree} {l : Location} (h : (locationsBelow t l).Nodup) (m : Location)
    (e : Entry) : (locationsBelow (t.put m e) l).Nodup := by
  unfold locationsBelow FileTree.put at *
  rcases Keyed.map_fst_put t.entries m e with ⟨-, hkeys⟩ | ⟨hnew, hkeys⟩
  · rwa [hkeys]
  · rw [hkeys, List.filter_append]
    refine List.nodup_append.2 ⟨h, List.Pairwise.filter _ (List.pairwise_singleton _ m), ?_⟩
    rintro k hk k' hk' rfl
    obtain rfl := List.mem_singleton.1 (List.mem_of_mem_filter hk')
    exact hnew (List.mem_of_mem_filter hk)

namespace Kept

variable {b : EmptyBase} {logged : List Logged} {t : FileTree}

/-- **What is put elsewhere loses no rows.** -/
theorem put (h : Kept b logged t) {l : Location} {e : Entry} (hl : t.entryAt? l ≠ some .directory)
    (hattempts : ∀ name, l ≠ b.attempts name) (hbase : l = b.location → e = .directory) :
    Kept b logged (t.put l e) := by
  have hkeeps := FileTree.keeps_put hl e
  have hentry : ∀ name, (t.put l e).entryAt? (b.attempts name) = t.entryAt? (b.attempts name) := fun name =>
    FileTree.entryAt?_put_of_ne t (Ne.symm (hattempts name)) e
  refine ⟨FileTree.locate_of_keeps hkeeps h.located, fun f hfound => ?_, nodup_locationsBelow_put h.distinct l e,
    fun name => ?_, fun name hfound => ?_, fun name => ?_⟩
  · by_cases hlb : l = b.location
    · rw [← hlb, FileTree.entryAt?_put_self t (FileTree.ne_nil_of_entryAt? hl), hbase hlb] at hfound
      exact (Option.some.inj hfound).symm
    · rw [FileTree.entryAt?_put_of_ne t (Ne.symm hlb)] at hfound
      exact h.notFile f hfound
  · rw [FileTree.opens, hentry]
    exact h.opens name
  · rw [hentry] at hfound
    exact (h.leads name hfound).of_keeps hkeeps
  · rw [FileTree.contentAt, hentry]
    exact h.content name

/-- **A row is one more line** of the file under its name. -/
theorem append (h : Kept b logged t) {name : String} (hleads : b.Leads name t) {rows : List Logged}
    (hrows : ∀ r ∈ rows, r.runId = name) :
    Kept b (logged ++ rows) (t.put (b.attempts name)
      (.file (t.contentAt (b.attempts name) ++ Files.renderedRows (rows.map Logged.written)))) := by
  have hkeeps := FileTree.keeps_put (FileTree.not_directory_of_opens (h.opens name))
    (.file (t.contentAt (b.attempts name) ++ Files.renderedRows (rows.map Logged.written)))
  have hne : b.attempts name ≠ [] := by simp [EmptyBase.attempts]
  have hentry : ∀ other e, other ≠ name → (t.put (b.attempts name) e).entryAt? (b.attempts other) =
      t.entryAt? (b.attempts other) := fun other e hother =>
    FileTree.entryAt?_put_of_ne t (fun heq => hother (EmptyBase.attempts_inj heq)) e
  refine ⟨FileTree.locate_of_keeps hkeeps h.located, fun f hfound => ?_, nodup_locationsBelow_put h.distinct _ _,
    fun other => ?_, fun other hfound => ?_, fun other => ?_⟩
  · rw [FileTree.entryAt?_put_of_ne t (by simp [EmptyBase.attempts])] at hfound
    exact h.notFile f hfound
  · by_cases hother : other = name
    · rw [hother, FileTree.opens, FileTree.entryAt?_put_self t hne]
    · rw [FileTree.opens, hentry other _ hother]
      exact h.opens other
  · by_cases hother : other = name
    · exact hother ▸ hleads.of_keeps hkeeps
    · rw [hentry other _ hother] at hfound
      exact (h.leads other hfound).of_keeps hkeeps
  · rw [List.filter_append, List.map_append, Files.renderedRows_append, ← h.content other]
    by_cases hother : other = name
    · have hall : rows.filter (fun r => r.runId = other) = rows :=
        List.filter_eq_self.2 fun r hr => by simp [hrows r hr, hother]
      rw [hall, hother, FileTree.contentAt, FileTree.entryAt?_put_self t hne]
    · have hnone : rows.filter (fun r => r.runId = other) = [] :=
        List.filter_eq_nil_iff.2 fun r hr => by simp [hrows r hr, Ne.symm hother]
      rw [hnone, FileTree.contentAt, hentry other _ hother]
      exact (List.append_nil _).symm

/-- Nothing was logged at first. -/
theorem empty (b : EmptyBase) : Kept b [] b.files := by
  have hnone : ∀ m ∈ b.files.entries.map Prod.fst, FileTree.relative? b.location m = none := by
    intro m hm
    obtain ⟨e, he, rfl⟩ := List.mem_map.1 hm
    have hbelow := List.filterMap_eq_nil_iff.1 b.empty e he
    simpa using hbelow
  have habsent : ∀ name, b.files.entryAt? (b.attempts name) = none := by
    intro name
    rw [FileTree.entryAt?, if_neg (by simp [EmptyBase.attempts]), Keyed.lookup_eq_none_iff]
    intro hmem
    have hrelative := hnone _ hmem
    simp [FileTree.relative?, EmptyBase.attempts] at hrelative
  refine ⟨b.located, b.notFile, ?_, fun name => ?_, fun name hfound => ?_, fun name => ?_⟩
  · have hnil : locationsBelow b.files b.location = [] :=
      List.filter_eq_nil_iff.2 fun m hm => by simp [hnone m hm]
    rw [hnil]
    exact List.nodup_nil
  · rw [FileTree.opens, habsent]
  · exact absurd (habsent name) hfound
  · rw [FileTree.contentAt, habsent]
    rfl

end Kept

/-! ### Logs that are open -/

/-- A log that was opened below a base: its directory is there. -/
structure Opened (b : EmptyBase) (log : Log) (t : FileTree) : Prop where
  root : log.root = b.path.child log.runId
  usable : Files.isUsable (b.actions log.runId) = true
  located : t.locate b.home (b.path.child log.runId) = .ok (b.location ++ [log.runId])
  base : t.entryAt? b.location = some .directory
  directory : t.entryAt? (b.location ++ [log.runId]) = some .directory

theorem Opened.of_keeps {b : EmptyBase} {log : Log} {t t' : FileTree} (h : Opened b log t) (hkeeps : t.Keeps t') :
    Opened b log t' :=
  ⟨h.root, h.usable, FileTree.locate_of_keeps hkeeps h.located, hkeeps _ h.base, hkeeps _ h.directory⟩

theorem Opened.actionsFile {b : EmptyBase} {log : Log} {t : FileTree} (h : Opened b log t) :
    log.actionsFile = b.actions log.runId := by
  rw [EmptyBase.actions, ← h.root]
  rfl

/-- The path of the attempts of an open log leads to them, if it is not too long. -/
theorem Opened.locate_actions {b : EmptyBase} {log : Log} {t : FileTree} (h : Opened b log t) {l : Location} :
    t.locate b.home (b.actions log.runId) = .ok l ↔
      l = b.attempts log.runId ∧ (b.actions log.runId).toString.utf8ByteSize ≤ FileTree.longestPath := by
  rw [EmptyBase.actions, FileTree.locate_child (by decide) h.located]
  have hfits : "actions.jsonl".utf8ByteSize ≤ FileTree.longestName := by decide
  simp [EmptyBase.attempts, h.directory, hfits]

/-- Opening a log under a name: its directory, the mark of the host, and the log. -/
def openNamed (base : Path) (name host : String) : App Log := do
  let root := base.append (Path.ofString name)
  Files.makeDirectories root
  tryCatch (Files.writeText (root.append (Path.ofString ".hostname")) host) fun e => do
    match e with
    | .file _ => return ()
    | e => throw e
  return ⟨name, root⟩

theorem open_eq (base : Path) (runId : Option String) (w : World) :
    (Log.open_ base runId).runIn w = (openNamed base (sanitize (chosenId runId w)) w.host).runIn w := by
  rw [Log.open_, App.runIn_bind_ok (App.runIn_get w)]
  refine congrArg (fun x => App.runIn x w) ?_
  unfold chosenId openNamed
  rfl

/-- A path of names that are kept can be handed to the system. -/
theorem isUsable_actions {b : EmptyBase} (s : String) : Files.isUsable (b.actions (sanitize s)) = true := by
  have hbase := List.all_eq_true.1 b.usable
  refine List.all_eq_true.2 fun part hpart => ?_
  simp only [EmptyBase.actions, Path.child, List.mem_append, List.mem_singleton] at hpart
  rcases hpart with (hpart | rfl) | rfl
  · exact hbase part hpart
  · refine List.all_eq_true.2 fun c hc => ?_
    have hkeeps := keeps_of_mem_sanitize hc
    have hne : c.toNat ≠ 0 := by
      intro hzero
      rw [← Char.ofNat_toNat c, hzero] at hkeeps
      revert hkeeps
      decide
    simpa using hne
  · decide

section Calls

variable {b : EmptyBase} {logged : List Logged} {w : World}

/-- The directory of a run is made without losing rows, and is there if that succeeds. -/
theorem makeDirectories_kept (hhome : w.home = b.home) (h : Kept b logged w.files) {name : String}
    (hdown : name ≠ "..") :
    ∃ r files, (Files.makeDirectories (b.path.child name)).runIn w = (r, { w with files := files }) ∧
      Kept b logged files ∧ w.files.Keeps files ∧
      (r = .ok () → files.locate b.home (b.path.child name) = .ok (b.location ++ [name]) ∧
        files.entryAt? (b.location ++ [name]) = some .directory) := by
  -- what is kept while directories are put: the rows, and the directories that were there
  have hlocated : ∀ t, Kept b logged t ∧ w.files.Keeps t → t.locate w.home b.path = .ok b.location :=
    fun t ht => hhome ▸ ht.1.located
  have hput : ∀ t m, Kept b logged t ∧ w.files.Keeps t → t.entryAt? m = none →
      m = b.location ∨ m = b.location ++ [name] →
      Kept b logged (t.put m .directory) ∧ w.files.Keeps (t.put m .directory) := by
    intro t m ht hm hplace
    have hnone : t.entryAt? m ≠ some .directory := by
      rw [hm]
      decide
    refine ⟨ht.1.put hnone (fun other => ?_) fun _ => rfl, ht.2.trans (FileTree.keeps_put hnone _)⟩
    rcases hplace with rfl | rfl <;> simp [EmptyBase.attempts]
  obtain ⟨r, files, hmake, ⟨hkept, hkeeps⟩, hthere⟩ :=
    Files.makeDirectories_child hdown hlocated hput ⟨h, .refl w.files⟩
  exact ⟨r, files, hmake, hkept, hkeeps, hhome ▸ hthere⟩

/-- The mark of the host is written without losing rows. -/
theorem writeMark_kept (hhome : w.home = b.home) (h : Kept b logged w.files) {name : String}
    (hlocated : w.files.locate b.home (b.path.child name) = .ok (b.location ++ [name])) :
    ∃ r files, (Files.writeText ((b.path.child name).child ".hostname") w.host).runIn w =
        (r, { w with files := files }) ∧ Kept b logged files ∧ w.files.Keeps files := by
  obtain ⟨r, files, hwrite, rfl | ⟨l, content, hl, hfile, rfl⟩⟩ :=
    Files.writeText_cases ((b.path.child name).child ".hostname") w.host w
  · exact ⟨r, w.files, hwrite, h, .refl w.files⟩
  · rw [hhome] at hl
    obtain ⟨rfl, -⟩ := (FileTree.locate_child (by decide) hlocated).1 hl
    have hnot := FileTree.not_directory_of_opens hfile
    refine ⟨r, _, hwrite, h.put hnot (fun other => ?_) fun heq => ?_, FileTree.keeps_put hnot _⟩
    · simp [EmptyBase.attempts]
    · simp at heq

/-- **Opening a log** loses no rows and no directories; the log that is opened has its directory. -/
theorem open_kept (hhome : w.home = b.home) (h : Kept b logged w.files) (id : Option RunId) :
    ∃ r files, (Log.open_ b.path (id.map RunId.id)).runIn w = (r, { w with files := files }) ∧
      Kept b logged files ∧ w.files.Keeps files ∧ ∀ log, r = .ok log → Opened b log files := by
  obtain ⟨hne, hstays, hdown⟩ := proper_chosenId id w
  have hroot := append_sanitize b.path hne hstays
  have husable := @isUsable_actions b (chosenId (id.map RunId.id) w)
  rw [open_eq]
  generalize sanitize (chosenId (id.map RunId.id) w) = name at hroot hdown husable ⊢
  rw [openNamed, hroot]
  obtain ⟨r, files, hmake, hkept, hkeeps, hthere⟩ := makeDirectories_kept hhome h hdown
  cases r with
  | error e => exact ⟨.error e, files, App.runIn_bind_error hmake _, hkept, hkeeps, fun log hlog => by cases hlog⟩
  | ok _ =>
      obtain ⟨hlocated, hdirectory⟩ := hthere rfl
      obtain ⟨-, hbase, -⟩ := (FileTree.locate_child hdown hkept.located).1 hlocated
      have hopened : Opened b ⟨name, b.path.child name⟩ files := ⟨rfl, husable, hlocated, hbase, hdirectory⟩
      obtain ⟨r', files', hwrite, hkept', hkeeps'⟩ :=
        @writeMark_kept b logged { w with files := files } hhome hkept name hlocated
      have hmark : (b.path.child name).append (Path.ofString ".hostname") = (b.path.child name).child ".hostname" :=
        rfl
      rw [App.runIn_bind_ok hmake, hmark, App.runIn_bind, App.runIn_tryCatch, hwrite]
      have hall := hkeeps.trans hkeeps'
      -- a mark that cannot be written is no fault
      cases r' with
      | ok _ => exact ⟨_, files', rfl, hkept', hall, fun log hlog => by cases hlog; exact hopened.of_keeps hkeeps'⟩
      | error e =>
          cases e with
          | file f =>
              exact ⟨_, files', rfl, hkept', hall, fun log hlog => by cases hlog; exact hopened.of_keeps hkeeps'⟩
          | _ => exact ⟨_, files', rfl, hkept', hall, fun log hlog => by cases hlog⟩

/-- **Recording an entry** adds its row, or fails and loses none. -/
theorem record_cases (hhome : w.home = b.home) (h : Kept b logged w.files) {log : Log}
    (hopened : Opened b log w.files) (entry : FlatEntry) :
    (∃ e files, (log.record entry.members).runIn w = (.error e, { w with files := files }) ∧
      Kept b logged files ∧ w.files.Keeps files) ∨
    ∃ files, (log.record entry.members).runIn w = (.ok (), { w with files := files }) ∧
      Kept b (logged ++ [⟨w.clock, log.runId, entry⟩]) files ∧ w.files.Keeps files ∧
      (log.row w.clock entry.members).isWritable = true := by
  rw [Log.record, App.runIn_bind_ok (App.runIn_get w)]
  by_cases hrow : (log.row w.clock entry.members).isWritable = true
  · rw [if_pos hrow, hopened.actionsFile]
    rcases Files.appendText_cases (b.actions log.runId) (Log.line (log.row w.clock entry.members)) w with
      ⟨e, hfail⟩ | ⟨l, husable, hl, hfile, hdone⟩
    · exact .inl ⟨e, w.files, hfail, h, .refl w.files⟩
    rw [hhome] at hl
    obtain ⟨rfl, -⟩ := hopened.locate_actions.1 hl
    have hnot := FileTree.not_directory_of_opens hfile
    have hleads : b.Leads log.runId w.files := ⟨husable, hl, hopened.base⟩
    rcases hdone with ⟨e, hfail⟩ | hdone
    · -- the file may have been made, with no line in it
      have hkept := @Kept.append b logged w.files h log.runId hleads [] (by simp)
      exact .inl ⟨e, _, hfail, by simpa [Files.renderedRows, Files.renderedLines, Utf8.encode] using hkept,
        FileTree.keeps_put hnot _⟩
    · have hkept := @Kept.append b logged w.files h log.runId hleads [⟨w.clock, log.runId, entry⟩] (by simp)
      have hline : Utf8.encode (Log.line (log.row w.clock entry.members)).toList =
          Files.renderedRows [Logged.written ⟨w.clock, log.runId, entry⟩] := by
        rw [show log.row w.clock entry.members = .object (Logged.row ⟨w.clock, log.runId, entry⟩) from rfl,
          Logged.toList_line]
        simp [Files.renderedRows, Files.renderedLines]
      rw [hline] at hdone
      exact .inr ⟨_, hdone, hkept, FileTree.keeps_put hnot _, hrow⟩
  · rw [if_neg hrow]
    exact .inl ⟨_, w.files, rfl, h, .refl w.files⟩

/-- What hinders a call from recording is a number of too many digits, a path that is too long, or the system. -/
structure Unhindered (b : EmptyBase) (w : World) (log : Log) (entry : FlatEntry) : Prop where
  row : (log.row w.clock entry.members).isWritable = true
  path : log.actionsFile.toString.utf8ByteSize ≤ FileTree.longestPath
  opens : w.refuses (.openFile (b.attempts log.runId)) = false
  writes : w.refuses (.writeFile (b.attempts log.runId)) = false

/-- **An entry is recorded** where nothing hinders that. -/
theorem record_unhindered (hhome : w.home = b.home) (h : Kept b logged w.files) {log : Log}
    (hopened : Opened b log w.files) {entry : FlatEntry} (hfree : Unhindered b w log entry) :
    ∃ files, (log.record entry.members).runIn w = (.ok (), { w with files := files }) := by
  have hlocated : w.files.locate w.home log.actionsFile = .ok (b.attempts log.runId) := by
    have hpath := hfree.path
    rw [hopened.actionsFile] at hpath ⊢
    exact hhome ▸ hopened.locate_actions.2 ⟨rfl, hpath⟩
  obtain ⟨files, hrun, -⟩ := Log.record_ok
    ⟨hopened.actionsFile ▸ hopened.usable, hlocated, h.opens log.runId, hfree.opens, hfree.writes⟩ hfree.row
  exact ⟨files, hrun⟩

end Calls

/-! ### Runs of calls -/

namespace Session

/-- The files hold what was logged, logs that were opened are open, and all rows could be written. -/
structure Holds (b : EmptyBase) (s : Session) : Prop where
  kept : Kept b s.logged s.files
  opened : ∀ log ∈ s.logs, Opened b log s.files
  writable : ∀ r ∈ s.logged, (Json.object r.row).isWritable = true

variable {b : EmptyBase} {s : Session}

/-- Recording in a log that was opened. -/
theorem perform_record {k : Nat} {log : Log} (hk : s.logs[k]? = some log) (w : World) (entry : FlatEntry) :
    s.perform b w (.record k entry) =
      match (log.record entry.members).runIn (s.world b w) with
      | (.ok _, w') => { s with files := w'.files, logged := s.logged ++ [⟨w.clock, log.runId, entry⟩] }
      | (.error _, w') => { s with files := w'.files } := by
  unfold Session.perform
  dsimp only
  rw [hk]

/-- One call. -/
theorem Holds.perform (h : s.Holds b) (w : World) (c : Call) : (s.perform b w c).Holds b := by
  cases c with
  | open_ id =>
      obtain ⟨r, files, hrun, hkept, hkeeps, hlog⟩ :=
        @open_kept b s.logged (s.world b w) rfl h.kept id
      unfold Session.perform
      dsimp only
      rw [hrun]
      have hopened : ∀ log ∈ s.logs, Opened b log files := fun log hmem => (h.opened log hmem).of_keeps hkeeps
      cases r with
      | error e => exact ⟨hkept, hopened, h.writable⟩
      | ok log =>
          refine ⟨hkept, fun log' hmem => ?_, h.writable⟩
          rcases List.mem_append.1 hmem with hmem | hmem
          · exact hopened log' hmem
          · rw [List.mem_singleton.1 hmem]
            exact hlog log rfl
  | record k entry =>
      cases hk : s.logs[k]? with
      | none =>
          unfold Session.perform
          dsimp only
          rw [hk]
          exact h
      | some log =>
          have hopen := h.opened log (List.mem_of_getElem? hk)
          rcases @record_cases b s.logged (s.world b w) rfl h.kept log hopen entry with
            ⟨e, files, hrun, hkept, hkeeps⟩ | ⟨files, hrun, hkept, hkeeps, hrow⟩
          · rw [perform_record hk, hrun]
            exact ⟨hkept, fun log' hmem => (h.opened log' hmem).of_keeps hkeeps, h.writable⟩
          · rw [perform_record hk, hrun]
            refine ⟨hkept, fun log' hmem => (h.opened log' hmem).of_keeps hkeeps, fun r hr => ?_⟩
            rcases List.mem_append.1 hr with hr | hr
            · exact h.writable r hr
            · rw [List.mem_singleton.1 hr]
              exact hrow

/-- **The files hold what was logged**, whatever was called. -/
theorem holds_run (b : EmptyBase) (calls : List (World × Call)) : (run b calls).Holds b := by
  have hfrom : ∀ (calls : List (World × Call)) (s : Session), s.Holds b →
      (calls.foldl (fun s c => s.perform b c.1 c.2) s).Holds b := by
    intro calls
    induction calls with
    | nil => exact fun s hs => hs
    | cons c calls ih => exact fun s hs => ih _ (hs.perform c.1 c.2)
  exact hfrom calls _ ⟨.empty b, fun log hmem => (List.not_mem_nil hmem).elim, fun r hr => (List.not_mem_nil hr).elim⟩

theorem run_concat (b : EmptyBase) (calls : List (World × Call)) (w : World) (c : Call) :
    run b (calls ++ [(w, c)]) = (run b calls).perform b w c := by
  simp only [run, List.foldl_append, List.foldl_cons, List.foldl_nil]

/-- **A call logs its row** where nothing hinders that. -/
theorem Holds.logged_perform (h : s.Holds b) {k : Nat} {log : Log} (hk : s.logs[k]? = some log) {w : World}
    {entry : FlatEntry} (hfree : Unhindered b w log entry) :
    (s.perform b w (.record k entry)).logged = s.logged ++ [⟨w.clock, log.runId, entry⟩] := by
  obtain ⟨files, hrun⟩ := @record_unhindered b s.logged (s.world b w) rfl h.kept log
    (h.opened log (List.mem_of_getElem? hk)) entry ⟨hfree.row, hfree.path, hfree.opens, hfree.writes⟩
  rw [perform_record hk, hrun]

end Session

end SophiaBind.History
