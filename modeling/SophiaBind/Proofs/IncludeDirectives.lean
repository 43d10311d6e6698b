/-
**The directives of a code.**

A directive stands at the beginning of a line: the word `include` in letters of any case, blanks, and the name of a
file in quotes. The blanks may hold line ends, but what stands behind these is no directive, for it goes on with a
blank or a quote; so no directive begins within another one, and all of them are found one after the other.

Main definitions:

* `Source.Directs` — a text begins with a directive,
* `Source.Includes` — **a line of a code begins with a directive** for a file.

Main results:

* `Source.directive?_eq_some_iff` — a directive is found where a text begins with one,
* `Source.mem_directives_iff` — **the directives that are found are those with which lines begin**.
-/

import Mathlib.Data.List.Forall2
import SophiaBind.Proofs.Spans
import SophiaBind.Source

namespace SophiaBind.Source

/-! ### One directive -/

/-- What stands behind a character that is not in a part of a text stands behind that part. -/
theorem append_of_not_mem {x : Char} {xs ys front behind : List Char} (hx : x ∉ xs)
    (h : xs ++ ys = front ++ x :: behind) : ∃ more, front = xs ++ more ∧ ys = more ++ x :: behind := by
  rcases List.append_eq_append_iff.1 h with ⟨more, hfront, hys⟩ | ⟨more, hxs, hbehind⟩
  · exact ⟨more, hfront, hys⟩
  · cases more with
    | nil => exact ⟨[], by rw [hxs, List.append_nil, List.append_nil], hbehind.symm⟩
    | cons y more =>
        refine absurd ?_ hx
        rw [hxs, (List.cons.inj hbehind).1]
        simp

/-- Each character of a directive's word is a letter of it. -/
theorem exists_letter_of_mem {letters word : List Char}
    (h : List.Forall₂ (fun letter c => matchesLetter letter c = true) letters word) {c : Char} (hc : c ∈ word) :
    ∃ letter ∈ letters, matchesLetter letter c = true := by
  induction h with
  | nil => cases hc
  | @cons letter d letters word hletter _ ih =>
      rcases List.mem_cons.1 hc with rfl | hc
      · exact ⟨letter, List.mem_cons_self, hletter⟩
      · exact (ih hc).imp fun other hother => ⟨List.mem_cons_of_mem letter hother.1, hother.2⟩

/-- What is written of a directive. -/
def directiveText (word gap name : List Char) : List Char :=
  word ++ (gap ++ '"' :: (name ++ ['"']))

/-- A text begins with the word of a directive, blanks, and a file's name in quotes, and goes on behind that. -/
structure Directs (cs word gap name behind : List Char) : Prop where
  text : cs = directiveText word gap name ++ behind
  word : List.Forall₂ (fun letter c => matchesLetter letter c = true) "include".toList word
  gap : gap ≠ [] ∧ ∀ c ∈ gap, Text.isBlank c = true
  name : name ≠ [] ∧ ∀ c ∈ name, isFileChar c = true

/-- The word is read letter by letter. -/
theorem afterInclude?_eq_some_iff {word cs rest : List Char} :
    afterInclude? word cs = some rest ↔
      ∃ front, cs = front ++ rest ∧ List.Forall₂ (fun letter c => matchesLetter letter c = true) word front := by
  induction word generalizing cs with
  | nil =>
      rw [afterInclude?, Option.some_inj]
      constructor
      · rintro rfl
        exact ⟨[], rfl, .nil⟩
      · rintro ⟨front, rfl, hfront⟩
        cases hfront
        rfl
  | cons letter word ih =>
      constructor
      · intro h
        cases cs with
        | nil => cases h
        | cons c cs =>
            rw [afterInclude?] at h
            split at h
            · next hletter =>
                obtain ⟨front, rfl, hfront⟩ := ih.1 h
                exact ⟨c :: front, rfl, .cons hletter hfront⟩
            · cases h
      · rintro ⟨front, rfl, hfront⟩
        cases hfront with
        | @cons _ c _ front hletter hfront =>
            rw [List.cons_append, afterInclude?, if_pos hletter]
            exact ih.2 ⟨front, rfl, hfront⟩

section Directive

variable {cs word gap name behind : List Char}

theorem Directs.text_eq (h : Directs cs word gap name behind) :
    cs = word ++ (gap ++ '"' :: (name ++ '"' :: behind)) := by
  rw [h.text]
  simp [directiveText]

/-- What a text begins with is read. -/
theorem Directs.directive?_eq (h : Directs cs word gap name behind) :
    directive? cs = some (name, cs.length - behind.length) := by
  obtain ⟨c, gap, rfl⟩ := List.exists_cons_of_ne_nil h.gap.1
  obtain ⟨d, name, rfl⟩ := List.exists_cons_of_ne_nil h.name.1
  obtain ⟨hc, hgap⟩ := List.forall_mem_cons.1 h.gap.2
  have hafter := afterInclude?_eq_some_iff.2 ⟨word, h.text_eq, h.word⟩
  have htrim : Text.trimStart (gap ++ '"' :: (d :: name ++ '"' :: behind)) = '"' :: (d :: name ++ '"' :: behind) :=
    Text.trimStart_append hgap fun x hx => by
      cases hx
      decide
  obtain ⟨htake, hdrop⟩ :
      (d :: name ++ '"' :: behind).takeWhile isFileChar = d :: name ∧
        (d :: name ++ '"' :: behind).dropWhile isFileChar = '"' :: behind :=
    Text.span_append h.name.2 fun x hx => by
      cases hx
      decide
  rw [directive?, hafter, List.cons_append]
  dsimp only
  rw [if_pos hc, htrim]
  simp only [htake, hdrop]

/-- **A directive is found where a text begins with one.** -/
theorem directive?_eq_some_iff {n : Nat} :
    directive? cs = some (name, n) ↔ ∃ word gap behind, Directs cs word gap name behind ∧ n = cs.length - behind.length := by
  constructor
  · intro h
    unfold directive? at h
    split at h
    · next c r hafter =>
        obtain ⟨word, rfl, hword⟩ := afterInclude?_eq_some_iff.1 hafter
        split at h
        · next hblank =>
            split at h
            · next r' htrim =>
                have hr : r.takeWhile Text.isBlank ++ '"' :: r' = r := htrim ▸ List.takeWhile_append_dropWhile
                dsimp only at h
                split at h
                · next d name' rest hname hrest =>
                    cases h
                    have hr' : d :: name' ++ '"' :: rest = r' := by
                      rw [← hname, ← hrest]
                      exact List.takeWhile_append_dropWhile
                    refine ⟨word, c :: r.takeWhile Text.isBlank, rest, ⟨?_, hword, ⟨nofun, ?_⟩, ?_⟩, rfl⟩
                    · have htext : directiveText word (c :: r.takeWhile Text.isBlank) (d :: name') ++ rest =
                          word ++ c :: (r.takeWhile Text.isBlank ++ '"' :: (d :: name' ++ '"' :: rest)) := by
                        simp [directiveText]
                      rw [hname, htext, hr', hr]
                    · exact List.forall_mem_cons.2 ⟨hblank, List.all_eq_true.1 List.all_takeWhile⟩
                    · exact ⟨hname ▸ nofun, List.all_eq_true.1 List.all_takeWhile⟩
                · cases h
            · cases h
        · cases h
    · cases h
  · rintro ⟨word, gap, behind, h, rfl⟩
    exact h.directive?_eq

/-- The first character of a directive is the letter `i` in some form, so neither a blank nor a quote. -/
theorem Directs.head (h : Directs cs word gap name behind) : ∃ c r, cs = c :: r ∧ Text.isBlank c = false ∧ c ≠ '"' := by
  have hword : List.Forall₂ (fun letter c => matchesLetter letter c = true) ('i' :: "nclude".toList) word := h.word
  cases hword with
  | @cons _ c _ rest hc _ =>
      refine ⟨c, _, h.text_eq, ?_⟩
      have hforms : c ∈ ['i', 'I', 'İ', 'ı'] := by
        have hchar : ∀ d : Char, c.toNat = d.toNat → c = d := fun d hd => Char.toNat_inj.1 hd
        simp only [matchesLetter, Bool.or_eq_true, beq_iff_eq, Bool.and_eq_true, true_and] at hc
        rcases hc with (rfl | hlarge) | hdot | hdotless
        · simp
        · simp [hchar 'I' (Nat.add_right_cancel (m := 32) hlarge)]
        · simp [hchar 'İ' hdot]
        · simp [hchar 'ı' hdotless]
      have hall : (['i', 'I', 'İ', 'ı'].all fun d => !Text.isBlank d && d != '"') = true := by decide
      simpa using List.all_eq_true.1 hall c hforms

/-- Behind a line end within a directive stands another of its blanks, or its quote. -/
theorem Directs.within (h : Directs cs word gap name behind) {front rest : List Char}
    (hparts : directiveText word gap name = front ++ '\n' :: rest) :
    ∃ c r, rest = c :: r ∧ (Text.isBlank c = true ∨ c = '"') := by
  have hword : '\n' ∉ word := fun hmem => by
    obtain ⟨letter, hletter, hmatches⟩ := exists_letter_of_mem h.word hmem
    have hnone : ("include".toList.all fun l => !matchesLetter l '\n') = true := by decide
    have hnot : matchesLetter letter '\n' = false := by simpa using List.all_eq_true.1 hnone letter hletter
    rw [hnot] at hmatches
    cases hmatches
  have hquoted : '\n' ∉ '"' :: (name ++ ['"']) := fun hmem => by
    simp only [List.mem_cons, List.mem_append, List.not_mem_nil, or_false] at hmem
    rcases hmem with hquote | hname | hquote
    · exact absurd hquote (by decide)
    · exact absurd (h.name.2 _ hname) (by decide)
    · exact absurd hquote (by decide)
  -- so the line end is one of the blanks
  obtain ⟨more, -, hgap⟩ := append_of_not_mem hword hparts
  rcases List.append_eq_append_iff.1 hgap with ⟨later, -, hlater⟩ | ⟨blanks, hblanks, hrest⟩
  · exact absurd (hlater ▸ List.mem_append_right later List.mem_cons_self) hquoted
  · cases blanks with
    | nil => exact absurd (List.cons.inj hrest).1 (by decide)
    | cons c blanks =>
        rw [(List.cons.inj hrest).2]
        cases blanks with
        | nil => exact ⟨'"', _, rfl, .inr rfl⟩
        | cons d blanks =>
            refine ⟨d, _, rfl, .inl (h.gap.2 d ?_)⟩
            rw [hblanks]
            simp

/-- **No directive begins within another one.** -/
theorem Directs.not_within (h : Directs cs word gap name behind) {front rest : List Char}
    (hparts : directiveText word gap name = front ++ '\n' :: rest) :
    directive? (rest ++ behind) = none := by
  obtain ⟨c, r, rfl, hc⟩ := h.within hparts
  rw [Option.eq_none_iff_forall_ne_some]
  rintro ⟨other, n⟩ hother
  obtain ⟨word', gap', behind', h', -⟩ := directive?_eq_some_iff.1 hother
  obtain ⟨d, r', hd, hblank, hquote⟩ := h'.head
  obtain rfl : c = d := (List.cons.inj hd).1
  rcases hc with hc | hc
  · exact absurd (hc.symm.trans hblank) (by decide)
  · exact hquote hc

end Directive

/-! ### All directives -/

/-- Behind a text stands the beginning of a line; `atStart` says whether the text begins one. -/
def beginsLine (atStart : Bool) (front : List Char) : Bool :=
  (front.getLast?.map fun c => decide (c = '\n')).getD atStart

theorem beginsLine_cons (atStart : Bool) (c : Char) (front : List Char) :
    beginsLine atStart (c :: front) = beginsLine (decide (c = '\n')) front := by
  cases front with
  | nil => rfl
  | cons d front => simp [beginsLine, List.getLast?_cons]

theorem beginsLine_append (atStart : Bool) (front more : List Char) :
    beginsLine atStart (front ++ more) = beginsLine (beginsLine atStart front) more := by
  induction front generalizing atStart with
  | nil => rfl
  | cons c front ih => rw [List.cons_append, beginsLine_cons, beginsLine_cons, ih]

/-- Characters are passed over. -/
theorem directivesFrom_length (atStart : Bool) (front rest : List Char) :
    directivesFrom front.length atStart (front ++ rest) = directivesFrom 0 (beginsLine atStart front) rest := by
  induction front generalizing atStart with
  | nil => rfl
  | cons c front ih =>
      rw [List.cons_append, List.length_cons, directivesFrom, ih, beginsLine_cons]

/-- A directive is read at the beginning of a line of a text. -/
def ReadsIn (atStart : Bool) (cs name : List Char) : Prop :=
  ∃ front rest n, cs = front ++ rest ∧ beginsLine atStart front = true ∧ directive? rest = some (name, n)

section Lines

variable {atStart : Bool} {cs name : List Char}

theorem not_readsIn_nil : ¬ReadsIn atStart [] name := by
  rintro ⟨front, rest, n, hcs, -, hdirective⟩
  obtain ⟨rfl, rfl⟩ := List.append_eq_nil_iff.1 hcs.symm
  cases hdirective

/-- A text without a directive in front has those behind its first character. -/
theorem readsIn_cons_iff {c : Char} {r : List Char} (hnone : (if atStart then directive? (c :: r) else none) = none) :
    ReadsIn atStart (c :: r) name ↔ ReadsIn (decide (c = '\n')) r name := by
  constructor
  · rintro ⟨front, rest, n, hcs, hline, hdirective⟩
    cases front with
    | nil =>
        have hstart : atStart = true := hline
        rw [if_pos hstart, hcs, List.nil_append, hdirective] at hnone
        cases hnone
    | cons d front =>
        obtain ⟨rfl, rfl⟩ := List.cons.inj hcs
        exact ⟨front, rest, n, rfl, beginsLine_cons _ _ _ ▸ hline, hdirective⟩
  · rintro ⟨front, rest, n, rfl, hline, hdirective⟩
    exact ⟨c :: front, rest, n, rfl, (beginsLine_cons _ _ _).trans hline, hdirective⟩

/-- A text with a directive in front has that one, and those behind it. -/
theorem Directs.readsIn_iff {word gap first behind : List Char} (h : Directs cs word gap first behind)
    (hstart : atStart = true) :
    ReadsIn atStart cs name ↔ name = first ∨
      ReadsIn (beginsLine atStart (directiveText word gap first)) behind name := by
  constructor
  · rintro ⟨front, rest, n, hparts, hline, hdirective⟩
    rw [h.text] at hparts
    by_cases hfront : front = []
    · subst hfront
      rw [List.nil_append] at hparts
      rw [← hparts, ← h.text, h.directive?_eq] at hdirective
      exact .inl (Prod.mk.inj (Option.some.inj hdirective)).1.symm
    · rcases List.append_eq_append_iff.1 hparts with ⟨more, rfl, rfl⟩ | ⟨inner, hinner, rfl⟩
      · rw [beginsLine_append] at hline
        exact .inr ⟨more, rest, n, rfl, hline, hdirective⟩
      · -- a line would begin within the directive
        obtain ⟨upTo, last, rfl⟩ := List.eq_nil_or_concat front |>.resolve_left hfront
        obtain rfl : last = '\n' := by simpa [beginsLine] using hline
        rw [List.concat_eq_append, List.append_assoc, List.singleton_append] at hinner
        rw [h.not_within hinner] at hdirective
        cases hdirective
  · rintro (rfl | ⟨front, rest, n, rfl, hline, hdirective⟩)
    · exact ⟨[], cs, _, rfl, hstart, h.directive?_eq⟩
    · refine ⟨_, rest, n, h.text.trans (List.append_assoc _ front rest).symm, ?_, hdirective⟩
      rw [beginsLine_append]
      exact hline

/-- **All directives are found**, one after the other. -/
theorem mem_directivesFrom_iff : name ∈ directivesFrom 0 atStart cs ↔ ReadsIn atStart cs name := by
  induction hlength : cs.length using Nat.strongRecOn generalizing atStart cs with
  | _ length ih =>
      cases cs with
      | nil => exact iff_of_false List.not_mem_nil not_readsIn_nil
      | cons c r =>
          cases hfirst : if atStart then directive? (c :: r) else none with
          | none =>
              rw [readsIn_cons_iff hfirst, directivesFrom, hfirst]
              exact ih r.length (hlength ▸ Nat.lt_succ_self _) rfl
          | some found =>
              obtain ⟨first, n⟩ := found
              obtain ⟨hstart, hfound⟩ : atStart = true ∧ directive? (c :: r) = some (first, n) := by
                split at hfirst
                · exact ⟨‹_›, hfirst⟩
                · cases hfirst
              obtain ⟨word, gap, behind, h, hn⟩ := directive?_eq_some_iff.1 hfound
              rw [h.readsIn_iff hstart, directivesFrom, hfirst]
              dsimp only
              -- the reader goes on behind the directive
              obtain ⟨d, inner, htext⟩ : ∃ d inner, directiveText word gap first = d :: inner :=
                List.exists_cons_of_ne_nil (by simp [directiveText])
              have hparts := h.text
              rw [htext] at hparts ⊢
              obtain ⟨rfl, rfl⟩ := List.cons.inj hparts
              have hskip : n - 1 = inner.length := by
                rw [hn]
                simp only [List.length_cons, List.length_append, List.append_eq]
                omega
              rw [List.mem_cons, hskip, List.append_eq, directivesFrom_length, beginsLine_cons]
              refine or_congr_right (ih behind.length ?_ rfl)
              rw [← hlength]
              simp only [List.length_cons, List.length_append, List.append_eq]
              omega

end Lines

/-- **A line of a code begins with a directive** for a file. -/
def Includes (code name : String) : Prop :=
  ∃ front rest word gap behind, code.toList = front ++ rest ∧ (front = [] ∨ front.getLast? = some '\n') ∧
    Directs rest word gap name.toList behind

theorem beginsLine_true_iff {front : List Char} :
    beginsLine true front = true ↔ front = [] ∨ front.getLast? = some '\n' := by
  rw [beginsLine, ← List.getLast?_eq_none_iff]
  cases front.getLast? with
  | none => simp
  | some c => simp

/-- **The directives that are found are those with which lines begin.** -/
theorem mem_directives_iff {code name : String} : name ∈ directives code ↔ Includes code name := by
  have hofList : name ∈ directives code ↔ name.toList ∈ directivesFrom 0 true code.toList := by
    rw [directives, List.mem_map]
    constructor
    · rintro ⟨cs, hcs, rfl⟩
      rwa [String.toList_ofList]
    · exact fun h => ⟨name.toList, h, String.ofList_toList⟩
  rw [hofList, mem_directivesFrom_iff]
  constructor
  · rintro ⟨front, rest, n, hcode, hline, hdirective⟩
    obtain ⟨word, gap, behind, h, -⟩ := directive?_eq_some_iff.1 hdirective
    exact ⟨front, rest, word, gap, behind, hcode, beginsLine_true_iff.1 hline, h⟩
  · rintro ⟨front, rest, word, gap, behind, hcode, hline, h⟩
    exact ⟨front, rest, _, hcode, beginsLine_true_iff.2 hline, h.directive?_eq⟩

end SophiaBind.Source
