/-
**Lines of JSON text in files.**

A rendered value is plain text: nothing in it ends a line. So a file with a rendered value on each line is read
as these values, whatever they are, line by line, and the halves in their texts are joined.

Main results:

* `Text.lines_plain` — **plain lines are told apart again**,
* `Files.readRows_rendered` — **a file of rendered objects is read as their members**.
-/

import SophiaBind.Proofs.FileCases
import SophiaBind.Proofs.JsonReading
import SophiaBind.Proofs.Lines
import SophiaBind.Proofs.Utf8

namespace SophiaBind

/-! ### Lines -/

namespace Text

theorem not_isLineBreak_of_isPlain {c : Char} (h : Json.isPlain c = true) : isLineBreak c = false := by
  simp only [Json.isPlain, Bool.and_eq_true, decide_eq_true_eq] at h
  simp only [isLineBreak, Bool.or_eq_false_iff, Bool.and_eq_false_iff, decide_eq_false_iff_not, beq_eq_false_iff_ne]
  omega

/-- **Plain lines are told apart again.** -/
theorem lines_plain {texts : List (List Char)} (h : ∀ cs ∈ texts, Json.Plain cs) :
    lines (texts.flatMap fun cs => cs ++ ['\n']) = texts :=
  lines_joined fun cs hcs c hc => not_isLineBreak_of_isPlain (h cs hcs c hc)

end Text

/-! ### Files -/

namespace Files

open App

variable {w : World} {p : Path} {l : Location} {context : String}

theorem exists_eq {e : Entry} (hp : isUsable p = true) (hl : w.files.locate w.home p = .ok l)
    (he : w.files.entryAt? l = some e) : (exists_ p).runIn w = (.ok true, w) := by
  rw [exists_, runIn_bind_ok (find_located hp hl), he]
  rfl

theorem readBytes_eq {content : Bytes} (hp : isUsable p = true) (hl : w.files.locate w.home p = .ok l)
    (he : w.files.entryAt? l = some (.file content)) : (readBytes p).runIn w = (.ok content, w) := by
  rw [readBytes, runIn_bind_ok (locate_eq_ok.2 ⟨hp, hl, rfl⟩), runIn_bind_ok (runIn_get w), he]
  rfl

/-- The text of a file is read if its bytes are a text. -/
theorem readTextIfAny_eq {content : Bytes} {s : String} (hp : isUsable p = true)
    (hl : w.files.locate w.home p = .ok l) (he : w.files.entryAt? l = some (.file content))
    (hs : textOf content = .ok s) : (readTextIfAny p context).runIn w = (.ok (some s), w) := by
  have hread : (readText p).runIn w = (.ok s, w) := by
    rw [readText, runIn_bind_ok (readBytes_eq hp hl he), hs]
    rfl
  rw [readTextIfAny, runIn_bind_ok (exists_eq hp hl he), if_pos rfl, runIn_tryCatch, runIn_bind_ok hread]
  rfl

/-- A rendered object is read as its members. -/
theorem rowOf_render {members : List (LooseText × Json)} (h : Json.IsExact (.object members)) (number : Nat) :
    (rowOf p context number (Json.render (.object members))).runIn w = (.ok (some (Json.foundMembers members)), w) := by
  have hblank : (Json.render (.object members)).all Text.isBlank = false := rfl
  rw [rowOf, hblank, Json.parseChars_render h]
  rfl

theorem rowsFrom_render {rows : List (List (LooseText × Json))} (h : ∀ row ∈ rows, Json.IsExact (.object row))
    (number : Nat) :
    (rowsFrom p context number (rows.map fun row => Json.render (.object row))).runIn w =
      (.ok (rows.map Json.foundMembers), w) := by
  induction rows generalizing number with
  | nil => rfl
  | cons row rows ih =>
      obtain ⟨hrow, hrows⟩ := List.forall_mem_cons.1 h
      rw [List.map_cons, rowsFrom, runIn_bind_ok (rowOf_render hrow number), runIn_bind_ok (ih hrows (number + 1))]
      rfl

/-- The text of lines with a rendered object on each. -/
def renderedLines (rows : List (List (LooseText × Json))) : List Char :=
  (rows.map fun row => Json.render (.object row)).flatMap fun cs => cs ++ ['\n']

/-- The bytes of lines with a rendered object on each. -/
def renderedRows (rows : List (List (LooseText × Json))) : Bytes :=
  Utf8.encode (renderedLines rows)

theorem renderedRows_append (rows more : List (List (LooseText × Json))) :
    renderedRows (rows ++ more) = renderedRows rows ++ renderedRows more := by
  rw [renderedRows, renderedLines, List.map_append, List.flatMap_append, Utf8.encode_append]
  rfl

theorem renderedRows_ne_nil {rows : List (List (LooseText × Json))} (h : rows ≠ []) : renderedRows rows ≠ [] := by
  obtain ⟨row, rows, rfl⟩ := List.exists_cons_of_ne_nil h
  have hone : renderedRows [row] = Utf8.encode (Json.render (.object row)) ++ Utf8.encode ['\n'] := by
    rw [← Utf8.encode_append]
    simp [renderedRows, renderedLines]
  have hbreak : Utf8.encode ['\n'] ≠ [] := by decide
  rw [← List.singleton_append, renderedRows_append, hone]
  simp [hbreak]

/-- The text of a file is the text that was written, but for its carriage returns. -/
theorem textOf_encode (cs : List Char) : textOf (Utf8.encode cs) = .ok (String.ofList (Text.normalizeNewlines cs)) := by
  rw [textOf, Utf8.decode_encode]

/-- Plain lines have no carriage returns. -/
theorem textOf_plainLines {texts : List (List Char)} (h : ∀ cs ∈ texts, Json.Plain cs) :
    textOf (Utf8.encode (texts.flatMap fun cs => cs ++ ['\n'])) =
      .ok (String.ofList (texts.flatMap fun cs => cs ++ ['\n'])) := by
  have hreturn : '\r' ∉ texts.flatMap fun cs => cs ++ ['\n'] := by
    intro hc
    obtain ⟨cs, hcs, hmem⟩ := List.mem_flatMap.1 hc
    rcases List.mem_append.1 hmem with hplain | hbreak
    · exact absurd (h cs hcs _ hplain) (by decide)
    · exact absurd (List.mem_singleton.1 hbreak) (by decide)
  rw [textOf_encode, Text.normalizeNewlines_eq_self hreturn]

/-- **A file of rendered objects is read as their members.** -/
theorem readRows_rendered {rows : List (List (LooseText × Json))} (hp : isUsable p = true)
    (hl : w.files.locate w.home p = .ok l) (he : w.files.entryAt? l = some (.file (renderedRows rows)))
    (h : ∀ row ∈ rows, Json.IsExact (.object row)) :
    (readRows p context).runIn w = (.ok (rows.map Json.foundMembers), w) := by
  have hplain : ∀ cs ∈ rows.map fun row => Json.render (.object row), Json.Plain cs := by
    intro cs hcs
    obtain ⟨row, -, rfl⟩ := List.mem_map.1 hcs
    exact Json.plain_render _
  rw [readRows, runIn_bind_ok (readTextIfAny_eq hp hl he (textOf_plainLines hplain))]
  dsimp only
  rw [String.toList_ofList, Text.lines_plain hplain]
  exact rowsFrom_render h 1

end Files

end SophiaBind
