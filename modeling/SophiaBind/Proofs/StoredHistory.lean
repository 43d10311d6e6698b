/-
**Reading whatever a history holds.**

The files of a history may hold any text. What is no row with a valid entry is passed over, wherever it stands, with
two exceptions, which hide all rows: a number of too many digits on any line, and times of valid rows that cannot be
compared, such as a number and a text. Without these all valid rows are read and no others, and if their times are
numbers or are texts, then the rows come by their times, those of the same time in the order in which they were found.

Main definitions:

* `History.Stored` — a directory with files of attempts that hold text,
* `History.Stored.lines`, `History.Stored.rows` — their lines, and the rows with valid entries on these.

Main results:

* `History.Stored.reads` — what is read is what stands on the lines, sorted,
* `History.Stored.read_rows` — **what is read, whatever is there**.
-/

import SophiaBind.Proofs.HistoryTimes

namespace SophiaBind.History

/-- A directory with the files of attempts of runs, all of which hold text. -/
structure Stored (w : World) (base : Path) where
  location : Location
  usable : Files.isUsable base = true
  located : w.files.locate w.home base = .ok location
  directory : w.files.entryAt? location = some .directory
  textual : ∀ name ∈ runsBelow w.files location, Textual w.files w.home base location name

namespace Stored

variable {w : World} {base : Path} (h : Stored w base)

/-- The names of the runs, in order. -/
def names : List String :=
  (runsBelow w.files h.location).mergeSort fun name other => decide (name ≤ other)

/-- The lines of all files, one file after the other. -/
def lines : List (List Char) :=
  linesOf w.files h.location h.names

/-- The rows with valid entries, as they are found. -/
def rows : List Row :=
  validOn h.lines

/-- **What is read is what stands on the lines**, sorted. -/
theorem reads : ∃ t, (read base).runIn w = ((unlessOver h.lines h.rows).bind sortByTime, w.withTalk t) := by
  have hask := Files.isDirectory_located h.usable h.located
  rw [h.directory, decide_eq_true rfl] at hask
  have hlist : (Files.inChildren "actions.jsonl" base).runIn w = (.ok (h.names.map (actionsOf base)), w) :=
    inChildren_located h.usable h.located h.directory
  have hnames : ∀ name ∈ h.names, name ∈ runsBelow w.files h.location ∧
      Textual w.files w.home base h.location name := fun name hname => by
    have hmem := (List.mergeSort_perm _ _).mem_iff.1 hname
    exact ⟨hmem, h.textual name hmem⟩
  obtain ⟨t, hrows⟩ : Reads (rowsOf (h.names.map (actionsOf base))) w h.lines h.rows := reads_rowsOf hnames
  refine ⟨t, ?_⟩
  rw [read, App.runIn_bind_ok hask, if_pos rfl, App.runIn_bind_ok hlist, App.runIn_bind, hrows]
  cases unlessOver h.lines h.rows with
  | ok rows => exact App.runIn_ofExcept _ _
  | error e => rfl

/-- **What is read, whatever the files hold.** A number of too many digits hides all rows, and so do times of valid
rows that cannot be compared. If rows are read, then these are the valid rows, all of them and no others. And if their
times are numbers, or are texts, then they are read, by their times, those of one time in any order in which they were
found. -/
theorem read_rows : ∃ t,
    (∀ count, h.lines.findSome? digitsOver? = some count →
      (read base).runIn w = (.error (.tooManyDigits count), w.withTalk t)) ∧
    (h.lines.findSome? digitsOver? = none →
      (((h.rows.map time).all isNumber = true ∨ (h.rows.map time).all isText = true) →
        ∃ order, (read base).runIn w = (.ok order, w.withTalk t) ∧ order.Perm h.rows ∧
          ∀ R : Row → Row → Prop, h.rows.Pairwise R → order.Pairwise fun a b =>
            below (time b) (time a) = .ok false ∧ (below (time a) (time b) = .ok false → R a b)) ∧
      (∀ order, ((read base).runIn w).1 = .ok order → order.Perm h.rows ∧ h.rows.Pairwise Alike) ∧
      (¬h.rows.Pairwise Alike →
        ∃ left right, (read base).runIn w = (.error (.incomparable left right), w.withTalk t))) := by
  obtain ⟨t, hread⟩ := h.reads
  refine ⟨t, fun count hcount => ?_, fun hnone => ?_⟩
  · rw [hread, unlessOver, hcount]
    rfl
  · have hsorted : (read base).runIn w = (sortByTime h.rows, w.withTalk t) := by
      rw [hread, unlessOver, hnone]
      rfl
    rw [hsorted]
    refine ⟨fun hordered => ?_, fun order horder => sortByTime_alike horder, fun hmixed => ?_⟩
    · obtain ⟨order, hsort, hperm, hpairs⟩ := sortByTime_ordered hordered
      exact ⟨order, by rw [hsort], hperm, hpairs⟩
    · obtain ⟨left, right, hfails⟩ := sortByTime_fails hmixed
      exact ⟨left, right, by rw [hfails]⟩

end Stored

/-! ### Two runs -/

/-- The base directory of a history. -/
def historyBase : Path := { parts := ["history"] }

/-- The bytes of lines. -/
def bytesOf (lines : List (List Char)) : Bytes :=
  Utf8.encode (lines.flatMap fun cs => cs ++ ['\n'])

/-- A world with two runs, whose files of attempts hold lines. -/
def worldOfRuns (first second : List (List Char)) : World where
  files := { entries := [(["history"], .directory), (["history", "run2"], .directory),
    (["history", "run2", "actions.jsonl"], .file (bytesOf second)), (["history", "run1"], .directory),
    (["history", "run1", "actions.jsonl"], .file (bytesOf first)), (["history", "run1", ".hostname"], .file [])] }

/-- Plain lines of two runs can be read. -/
def storedRuns {first second : List (List Char)} (hfirst : ∀ cs ∈ first, Json.Plain cs)
    (hsecond : ∀ cs ∈ second, Json.Plain cs) : Stored (worldOfRuns first second) historyBase where
  location := ["history"]
  usable := by decide +kernel
  located := rfl
  directory := rfl
  textual := by
    have hnames : runsBelow (worldOfRuns first second).files ["history"] = ["run2", "run1"] := rfl
    rw [hnames]
    intro name hname
    simp only [List.mem_cons, List.not_mem_nil, or_false] at hname
    rcases hname with rfl | rfl
    · refine ⟨by decide +kernel, rfl, fun content hcontent => ?_⟩
      cases hcontent
      exact ⟨_, Files.textOf_plainLines hsecond⟩
    · refine ⟨by decide +kernel, rfl, fun content hcontent => ?_⟩
      cases hcontent
      exact ⟨_, Files.textOf_plainLines hfirst⟩

section Runs

variable {first second : List (List Char)} (hfirst : ∀ cs ∈ first, Json.Plain cs)
  (hsecond : ∀ cs ∈ second, Json.Plain cs)

theorem names_storedRuns : (storedRuns hfirst hsecond).names = ["run1", "run2"] := by
  have hnames : runsBelow (worldOfRuns first second).files ["history"] = ["run2", "run1"] := rfl
  rw [Stored.names, show (storedRuns hfirst hsecond).location = ["history"] from rfl, hnames]
  simp [List.mergeSort, List.MergeSort.Internal.splitInTwo]

theorem lines_storedRuns : (storedRuns hfirst hsecond).lines = first ++ second := by
  have hlines : ∀ {l : Location} {texts : List (List Char)}, (∀ cs ∈ texts, Json.Plain cs) →
      (worldOfRuns first second).files.entryAt? l = some (.file (bytesOf texts)) →
      linesAt (worldOfRuns first second).files l = texts := by
    intro l texts htexts hentry
    rw [linesAt, hentry]
    dsimp only
    rw [bytesOf, Files.textOf_plainLines htexts]
    dsimp only
    rw [String.toList_ofList, Text.lines_plain htexts]
  rw [Stored.lines, names_storedRuns, show (storedRuns hfirst hsecond).location = ["history"] from rfl, linesOf]
  simp only [List.flatMap_cons, List.flatMap_nil, List.append_nil]
  rw [hlines hfirst rfl, hlines hsecond rfl]

end Runs

/-! ### Garbage -/

/-- A row of an attempt that went well, with what stands in front of the entry. -/
def doneRow (front : List (LooseText × Json)) : Row :=
  front ++ [(.whole "entry", .object Session.doneEntry.members)]

/-- A line with a row. -/
def lineOf (row : Row) : List Char :=
  Json.render (.object row)

theorem readable_doneRow {front : List (LooseText × Json)}
    (h : ((doneRow front).map Prod.fst).Nodup ∧ Json.MembersReadable front) :
    Json.Readable (.object (doneRow front)) := by
  have hentry : Json.Readable (.object Session.doneEntry.members) := by
    have hone : Integer.isWritable 1 = true := by decide +kernel
    refine ⟨Session.doneEntry.distinct, ?_⟩
    simp [Session.doneEntry, Json.MembersReadable, Json.Readable, CodePoint.unjoined_whole, hone]
  refine ⟨h.1, Json.membersReadable_iff.2 fun m hm => ?_⟩
  rcases List.mem_append.1 hm with hfront | hlast
  · exact Json.membersReadable_iff.1 h.2 m hfront
  · rw [List.mem_singleton.1 hlast]
    exact ⟨CodePoint.unjoined_whole _, hentry⟩

/-- **A row on a line is read.** -/
theorem rowOn_lineOf {row : Row} (h : Json.IsExact (.object row)) :
    rowOn (lineOf row) = some (Json.foundMembers row) ∧ digitsOver? (lineOf row) = none := by
  have hblank : (lineOf row).all Text.isBlank = false := rfl
  rw [rowOn, digitsOver?, hblank, lineOf, Json.parseChars_render h]
  exact ⟨rfl, rfl⟩

theorem rowOn_of_readable {row : Row} (h : Json.Readable (.object row)) :
    rowOn (lineOf row) = some row ∧ digitsOver? (lineOf row) = none := by
  have hread := rowOn_lineOf h.isExact
  rwa [Json.foundMembers_eq h] at hread

theorem plain_lineOf (row : Row) : Json.Plain (lineOf row) :=
  Json.plain_render _

theorem plain_singleton (row : Row) : ∀ cs ∈ [lineOf row], Json.Plain cs :=
  List.forall_mem_singleton.2 (plain_lineOf row)

/-- An attempt at a time. -/
def timedRow (t : Json) : Row :=
  doneRow [("t", t)]

theorem readable_timedRow {t : Json} (h : Json.Readable t) : Json.Readable (.object (timedRow t)) :=
  readable_doneRow ⟨by simp [doneRow], CodePoint.unjoined_whole _, h, trivial⟩

theorem readable_untimedRow : Json.Readable (.object (doneRow [])) :=
  readable_doneRow ⟨by decide, trivial⟩

/-- Lines with garbage around an attempt. -/
def garbledLines : List (List Char) :=
  ["no JSON".toList, [], "[]".toList, lineOf (timedRow (.int 7)), lineOf [("entry", .object [])]]

theorem plain_garbledLines : ∀ cs ∈ garbledLines, Json.Plain cs := by
  have hwords : Json.Plain "no JSON".toList := List.all_eq_true.1 (by decide)
  have hbrackets : Json.Plain "[]".toList := List.all_eq_true.1 (by decide)
  simp only [garbledLines, List.forall_mem_cons]
  exact ⟨hwords, nofun, hbrackets, plain_lineOf _, plain_lineOf _, nofun⟩

/-- A run with garbage, and a run with an attempt of no time. -/
def storedGarbage : Stored (worldOfRuns garbledLines [lineOf (doneRow [])]) historyBase :=
  storedRuns plain_garbledLines (plain_singleton _)

theorem Stored.read_rows_garbage :
    storedGarbage.lines.findSome? digitsOver? = none ∧ storedGarbage.rows = [timedRow (.int 7), doneRow []] ∧
    ∃ (order : List Row) (t : Talk),
      (read historyBase).runIn (worldOfRuns garbledLines [lineOf (doneRow [])]) =
        (.ok order, (worldOfRuns garbledLines [lineOf (doneRow [])]).withTalk t) ∧
      order.Perm [timedRow (.int 7), doneRow []] := by
  have hlines : storedGarbage.lines = garbledLines ++ [lineOf (doneRow [])] := lines_storedRuns _ _
  have htimed := rowOn_of_readable (readable_timedRow (t := .int 7) (by decide +kernel : Integer.isWritable 7 = true))
  have huntimed := rowOn_of_readable readable_untimedRow
  have hempty := @rowOn_of_readable [("entry", .object [])]
    ⟨by simp, CodePoint.unjoined_whole _, ⟨List.nodup_nil, trivial⟩, trivial⟩
  have hwords : [("no JSON".toList), [], "[]".toList].map (fun cs => (rowOn cs).isNone && (digitsOver? cs).isNone) =
      [true, true, true] := by decide +kernel
  have hdigits : storedGarbage.lines.findSome? digitsOver? = none := by
    rw [hlines]
    simp_all [garbledLines]
  have hrows : storedGarbage.rows = [timedRow (.int 7), doneRow []] := by
    have hvalid : isValidRow (timedRow (.int 7)) = true ∧ isValidRow (doneRow []) = true ∧
        isValidRow [("entry", .object [])] = false := by decide +kernel
    rw [Stored.rows, hlines, validOn]
    simp_all [garbledLines]
  obtain ⟨t, -, hread⟩ := Stored.read_rows storedGarbage
  obtain ⟨order, hok, hperm, -⟩ := (hread hdigits).1 (.inl (by rw [hrows]; decide +kernel))
  exact ⟨hdigits, hrows, order, t, hok, hrows ▸ hperm⟩

/-- Two runs with an attempt each, the first at a time that is a number, the second at one that is a text. -/
def storedTimes : Stored (worldOfRuns [lineOf (timedRow (.int 1700000000))] [lineOf (timedRow (.text "1700000001"))])
    historyBase :=
  storedRuns (plain_singleton _) (plain_singleton _)

/-- **A time that is a text hides the row of another run**: both rows are valid, and none is read. -/
theorem Stored.read_hides_row :
    storedTimes.rows = [timedRow (.int 1700000000), timedRow (.text "1700000001")] ∧
      storedTimes.lines.findSome? digitsOver? = none ∧
      ∀ order, ((read historyBase).runIn (worldOfRuns [lineOf (timedRow (.int 1700000000))]
        [lineOf (timedRow (.text "1700000001"))])).1 ≠ .ok order := by
  have hlines : storedTimes.lines = [lineOf (timedRow (.int 1700000000)), lineOf (timedRow (.text "1700000001"))] :=
    lines_storedRuns _ _
  have hnumber := rowOn_of_readable
    (readable_timedRow (t := .int 1700000000) (by decide +kernel : Integer.isWritable 1700000000 = true))
  have htext := rowOn_of_readable (readable_timedRow (t := .text "1700000001") trivial)
  have hdigits : storedTimes.lines.findSome? digitsOver? = none := by
    rw [hlines]
    simp [hnumber.2, htext.2]
  have hrows : storedTimes.rows = [timedRow (.int 1700000000), timedRow (.text "1700000001")] := by
    have hvalid : isValidRow (timedRow (.int 1700000000)) = true ∧
        isValidRow (timedRow (.text "1700000001")) = true := by decide +kernel
    rw [Stored.rows, hlines, validOn]
    simp [hnumber.1, htext.1, hvalid]
  refine ⟨hrows, hdigits, fun order horder => ?_⟩
  obtain ⟨t, hread⟩ := storedTimes.reads
  rw [hread, unlessOver, hdigits] at horder
  -- the two times are of different kinds, so there is no sorting
  have hpairs := (sortByTime_alike horder).2
  rw [hrows] at hpairs
  obtain ⟨k, hk, hk'⟩ := List.rel_of_pairwise_cons hpairs List.mem_cons_self
  cases hk
  cases hk'

end SophiaBind.History
