/-
**What stands on the lines of a history.**

A line is blank, or holds a row, or holds something else, which is passed over; only a number of too many digits is not
passed over, whatever else stands on its line. Rows whose entries are not valid are passed over as well. So the rows of
files are those of their lines, one line after the other, and a line does not matter to the others.

Main definitions:

* `History.rowOn`, `History.digitsOver?` — the row on a line, and the digits of a number that is too long,
* `History.isValidRow` — whether a row has a valid entry,
* `History.linesAt` — the lines of the file at a location,
* `History.unlessOver`, `History.Reads` — what lines give, unless a number on them is too long.

Main results:

* `History.reads_validRows` — rows with valid entries are kept,
* `History.reads_readRows` — **the rows of a file are those on its lines**,
* `History.reads_rowsOf` — and so are those of several files.
-/

import SophiaBind.Proofs.HistoryListing
import SophiaBind.Proofs.PlainLines
import SophiaBind.Proofs.Talk

namespace SophiaBind.History

/-! ### Lines -/

/-- The row on a line, if there is one. -/
def rowOn (line : List Char) : Option Row :=
  if line.all Text.isBlank then none
  else match Json.parseChars line with
    | .ok (.object members) => some members
    | _ => none

/-- The count of digits on a line that complains about it. -/
def digitsOver? (line : List Char) : Option Nat :=
  if line.all Text.isBlank then none
  else match Json.parseChars line with
    | .ok _ => none
    | .error e => e.digits?

/-- What lines give, unless a number on them is too long: the first such number counts. -/
def unlessOver {α : Type} (lines : List (List Char)) (a : α) : Except Fault α :=
  match lines.findSome? digitsOver? with
  | some count => .error (.tooManyDigits count)
  | none => .ok a

/-- Whether a row has a valid entry. -/
def isValidRow (row : Row) : Bool :=
  match Json.lookup? row "entry" with
  | some (.object entry) => problems entry = []
  | _ => false

/-- A computation reads lines and gives something, unless a number on them is too long; otherwise it only talks. -/
def Reads {α : Type} (x : App α) (w : World) (lines : List (List Char)) (a : α) : Prop :=
  ∃ t, x.runIn w = (unlessOver lines a, w.withTalk t)

section Reading

variable {α β : Type} {w : World} {lines more : List (List Char)} {a : α} {b : β}

theorem reads_pure (a : α) (w : World) : Reads (pure a) w [] a :=
  ⟨w.talk, rfl⟩

/-- What is read first counts first. -/
theorem Reads.bind {x : App α} {f : α → App β} (hx : Reads x w lines a)
    (hf : ∀ t, Reads (f a) (w.withTalk t) more b) : Reads (x >>= f) w (lines ++ more) b := by
  obtain ⟨t, hx⟩ := hx
  rw [Reads, unlessOver, List.findSome?_append]
  cases hover : lines.findSome? digitsOver? with
  | some count =>
      rw [unlessOver, hover] at hx
      exact ⟨t, App.runIn_bind_error hx f⟩
  | none =>
      rw [unlessOver, hover] at hx
      obtain ⟨t', hf⟩ := hf t
      exact ⟨t', by rw [App.runIn_bind_ok hx, hf]; rfl⟩

/-- A computation that reads no lines does not count. -/
theorem Reads.andThen {x : App α} {f : α → App β} (hx : Reads x w [] a)
    (hf : ∀ t, Reads (f a) (w.withTalk t) more b) : Reads (x >>= f) w more b :=
  hx.bind hf

theorem Reads.map {x : App α} (hx : Reads x w lines a) (f : α → β) :
    Reads (x >>= fun a => pure (f a)) w lines (f a) :=
  List.append_nil lines ▸ hx.bind fun _ => reads_pure (f a) _

/-- A line is read, or a number on it is too long. -/
theorem reads_rowOf (p : Path) (context : String) (number : Nat) (line : List Char) (w : World) :
    Reads (Files.rowOf p context number line) w [line] (rowOn line) := by
  rw [Reads, unlessOver, List.findSome?_cons, Files.rowOf, digitsOver?, rowOn]
  by_cases hblank : line.all Text.isBlank = true
  · rw [if_pos hblank, if_pos hblank, if_pos hblank]
    exact ⟨w.talk, rfl⟩
  · rw [if_neg hblank, if_neg hblank, if_neg hblank]
    cases Json.parseChars line with
    | ok j => exact ⟨w.talk, by cases j <;> rfl⟩
    | error e =>
        dsimp only
        cases e.digits? with
        | some count => exact ⟨w.talk, rfl⟩
        | none => exact ⟨⟨_, _, _⟩, rfl⟩

/-- **Lines are read one by one.** -/
theorem reads_rowsFrom (p : Path) (context : String) (number : Nat) (lines : List (List Char)) (w : World) :
    Reads (Files.rowsFrom p context number lines) w lines (lines.filterMap rowOn) := by
  induction lines generalizing number w with
  | nil => exact reads_pure [] w
  | cons line rest ih =>
      rw [Files.rowsFrom]
      refine (reads_rowOf p context number line w).bind fun t => ?_
      have hrows : (line :: rest).filterMap rowOn = (rowOn line).toList ++ rest.filterMap rowOn := by
        cases hrow : rowOn line <;> simp [hrow]
      rw [hrows]
      exact (ih (number + 1) _).map fun rows => (rowOn line).toList ++ rows

/-- Rows with valid entries are kept; the others are talked about. -/
theorem reads_validRows (p : Path) (rows : List Row) (w : World) :
    Reads (validRows p rows) w [] (rows.filter isValidRow) := by
  induction rows generalizing w with
  | nil => exact reads_pure [] w
  | cons row rest ih =>
      rw [validRows]
      cases hentry : Json.lookup? row "entry" with
      | none =>
          rw [List.filter_cons_of_neg (by simp [isValidRow, hentry])]
          exact ih w
      | some j =>
          cases j with
          | object entry =>
              dsimp only
              cases hfound : problems entry with
              | nil =>
                  rw [List.filter_cons_of_pos (by simp [isValidRow, hentry, hfound])]
                  exact (ih w).map fun rows => row :: rows
              | cons problem others =>
                  rw [List.filter_cons_of_neg (by simp [isValidRow, hentry, hfound])]
                  exact Reads.andThen (a := ()) ⟨⟨_, _, _⟩, rfl⟩ fun t => ih _
          | _ =>
              rw [List.filter_cons_of_neg (by simp [isValidRow, hentry])]
              exact ih w

/-! ### Files -/

/-- The lines of the file at a location, if it holds text. -/
def linesAt (t : FileTree) (l : Location) : List (List Char) :=
  match t.entryAt? l with
  | some (.file content) =>
    match Files.textOf content with
    | .ok s => Text.lines s.toList
    | .error _ => []
  | _ => []

/-- A locked file cannot be read, and no directory can. -/
theorem readBytes_unopened {p : Path} {l : Location} (hp : Files.isUsable p = true)
    (hl : w.files.locate w.home p = .ok l) {e : Entry} (hentry : w.files.entryAt? l = some e)
    (hnot : ∀ content, e ≠ .file content) : ∃ f, (Files.readBytes p).runIn w = (.error (.file f), w) := by
  rw [Files.readBytes, App.runIn_bind_ok (Files.locate_eq_ok.2 ⟨hp, hl, rfl⟩), App.runIn_bind_ok (App.runIn_get w),
    hentry]
  cases e with
  | file content => exact absurd rfl (hnot content)
  | locked content | directory => exact ⟨_, rfl⟩

/-- What cannot be read is reported, and has no rows. -/
theorem reads_unopened {p : Path} {l : Location} (context : String) (hp : Files.isUsable p = true)
    (hl : w.files.locate w.home p = .ok l) {e : Entry} (hentry : w.files.entryAt? l = some e)
    (hnot : ∀ content, e ≠ .file content) : Reads (Files.readRows p context) w [] [] := by
  obtain ⟨f, hread⟩ := readBytes_unopened hp hl hentry hnot
  have hnone : Reads (Files.readTextIfAny p context) w [] none := by
    rw [Reads, Files.readTextIfAny, App.runIn_bind_ok (Files.exists_eq hp hl hentry), if_pos rfl,
      App.runIn_tryCatch, App.runIn_bind, Files.readText, App.runIn_bind_error hread]
    exact ⟨⟨_, _, _⟩, rfl⟩
  exact hnone.bind fun t => reads_pure [] _

/-- **The rows of a file are those on its lines**; a locked file has none, and no directory has any. -/
theorem reads_readRows {p : Path} {l : Location} (context : String) (hp : Files.isUsable p = true)
    (hl : w.files.locate w.home p = .ok l) (he : w.files.entryAt? l ≠ none)
    (htext : ∀ content, w.files.entryAt? l = some (.file content) → ∃ s, Files.textOf content = .ok s) :
    Reads (Files.readRows p context) w (linesAt w.files l) ((linesAt w.files l).filterMap rowOn) := by
  cases hentry : w.files.entryAt? l with
  | none => exact absurd hentry he
  | some e =>
      cases e with
      | file content =>
          obtain ⟨s, hs⟩ := htext content hentry
          have hlines : linesAt w.files l = Text.lines s.toList := by
            rw [linesAt, hentry]
            dsimp only
            rw [hs]
          rw [Files.readRows, hlines]
          exact Reads.andThen ⟨w.talk, Files.readTextIfAny_eq hp hl hentry hs⟩ fun t =>
            reads_rowsFrom p context 1 _ _
      | locked content | directory =>
          have hlines : linesAt w.files l = [] := by rw [linesAt, hentry]
          rw [hlines]
          exact reads_unopened context hp hl hentry fun content hfile => by cases hfile

/-! ### Histories -/

/-- The lines of the files of runs. -/
def linesOf (t : FileTree) (l : Location) (names : List String) : List (List Char) :=
  names.flatMap fun name => linesAt t (l ++ [name, "actions.jsonl"])

/-- The rows with valid entries on lines. -/
def validOn (lines : List (List Char)) : List Row :=
  (lines.filterMap rowOn).filter isValidRow

theorem validOn_append (lines more : List (List Char)) : validOn (lines ++ more) = validOn lines ++ validOn more := by
  rw [validOn, List.filterMap_append, List.filter_append]
  rfl

/-- The attempts of a run can be read: the path leads to their file, and that holds text. -/
structure Textual (t : FileTree) (home : Location) (base : Path) (l : Location) (name : String) : Prop where
  usable : Files.isUsable (actionsOf base name) = true
  located : t.locate home (actionsOf base name) = .ok (l ++ [name, "actions.jsonl"])
  text : ∀ content, t.entryAt? (l ++ [name, "actions.jsonl"]) = some (.file content) →
    ∃ s, Files.textOf content = .ok s

/-- **Files are read one after the other.** -/
theorem reads_rowsOf {base : Path} {l : Location} {names : List String}
    (hnames : ∀ name ∈ names, name ∈ runsBelow w.files l ∧ Textual w.files w.home base l name) :
    Reads (rowsOf (names.map (actionsOf base))) w (linesOf w.files l names) (validOn (linesOf w.files l names)) := by
  induction names generalizing w with
  | nil => exact reads_pure [] w
  | cons name names ih =>
      obtain ⟨⟨hname, htextual⟩, hrest⟩ := List.forall_mem_cons.1 hnames
      have hread := reads_readRows (w := w) "deploy history" htextual.usable htextual.located (mem_runsBelow.1 hname)
        htextual.text
      have hlines : linesOf w.files l (name :: names) =
          linesAt w.files (l ++ [name, "actions.jsonl"]) ++ linesOf w.files l names := List.flatMap_cons
      rw [List.map_cons, rowsOf, hlines, validOn_append]
      refine hread.bind fun t => ?_
      refine (reads_validRows _ _ _).andThen fun t' => ?_
      exact (ih (w := (w.withTalk t).withTalk t') hrest).map fun rows => _ ++ rows

end Reading

end SophiaBind.History
