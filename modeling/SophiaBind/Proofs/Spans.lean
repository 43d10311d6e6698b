/-
**Runs of characters.**

A reader takes the longest run of characters of a class and goes on with the first one that is not of it.
Where a text is put together from such a run and a rest that does not go on with it, the reader takes it
apart again.

Main results:

* `Text.span_append` — **a run and what ends it are told apart**,
* `Text.trimStart_append`, `Text.trim_append`, `Text.trim_eq_self` and their like — the same for blanks,
* `Text.exists_trim` — what is trimmed off a text are blanks.
-/

import SophiaBind.Text.Blank

namespace SophiaBind.Text

/-! ### Runs -/

section Runs

variable {α : Type} {p : α → Bool} {xs ys : List α}

/-- **A run and what ends it are told apart.** -/
theorem span_append (hxs : ∀ x ∈ xs, p x = true) (hys : ∀ y ∈ ys.head?, p y = false) :
    (xs ++ ys).takeWhile p = xs ∧ (xs ++ ys).dropWhile p = ys := by
  rw [List.takeWhile_append_of_pos hxs, List.dropWhile_append_of_pos hxs]
  cases ys with
  | nil => simp
  | cons y ys => simp [hys y rfl]

/-- Nothing is dropped from a text that does not begin with a run. -/
theorem dropWhile_eq_self (hys : ∀ y ∈ ys.head?, p y = false) : ys.dropWhile p = ys := by
  have h : ([] ++ ys).dropWhile p = ys := (span_append (by simp) hys).2
  rwa [List.nil_append] at h

/-- What ends a run is not of it. -/
theorem not_of_mem_head?_dropWhile {y : α} (h : y ∈ (xs.dropWhile p).head?) : p y = false := by
  have hnot := List.head?_dropWhile_not p xs
  rw [h] at hnot
  simpa using hnot

end Runs

/-! ### Blanks -/

variable {cs ds : List Char}

theorem trimStart_eq_self (h : ∀ c ∈ cs.head?, isBlank c = false) : trimStart cs = cs :=
  dropWhile_eq_self h

/-- Blanks in front of a text that begins with none are dropped, and no others. -/
theorem trimStart_append (hcs : ∀ c ∈ cs, isBlank c = true) (hds : ∀ d ∈ ds.head?, isBlank d = false) :
    trimStart (cs ++ ds) = ds :=
  (span_append hcs hds).2

@[simp] theorem trimStart_trimStart (cs : List Char) : trimStart (trimStart cs) = trimStart cs :=
  dropWhile_eq_self fun _ h => not_of_mem_head?_dropWhile h

theorem trimEnd_eq_self (h : ∀ c ∈ cs, isBlank c = false) : trimEnd cs = cs := by
  have hreverse : cs.reverse.dropWhile isBlank = cs.reverse :=
    dropWhile_eq_self fun c hc => h c (List.mem_reverse.1 (List.mem_of_mem_head? hc))
  rw [trimEnd, hreverse, List.reverse_reverse]

/-- A text without blanks stays as it is. -/
theorem trim_eq_self (h : ∀ c ∈ cs, isBlank c = false) : trim cs = cs := by
  have hstart : trimStart cs = cs := trimStart_eq_self fun c hc => h c (List.mem_of_mem_head? hc)
  rw [trim, hstart, trimEnd_eq_self h]

/-- Blanks at both ends of a text that has none there are dropped, and no others. -/
theorem trim_append {es : List Char} (hcs : ∀ c ∈ cs, isBlank c = true) (hhead : ∀ d ∈ ds.head?, isBlank d = false)
    (hlast : ∀ d ∈ ds.getLast?, isBlank d = false) (hes : ∀ e ∈ es, isBlank e = true) (hne : ds ≠ []) :
    trim (cs ++ (ds ++ es)) = ds := by
  have hstart : trimStart (cs ++ (ds ++ es)) = ds ++ es := by
    refine trimStart_append hcs fun d hd => hhead d ?_
    cases ds with
    | nil => exact absurd rfl hne
    | cons c ds => exact hd
  have hend : (es.reverse ++ ds.reverse).dropWhile isBlank = ds.reverse := by
    refine (span_append (fun e he => hes e (List.mem_reverse.1 he)) fun d hd => hlast d ?_).2
    rwa [List.head?_reverse] at hd
  rw [trim, hstart, trimEnd, List.reverse_append, hend, List.reverse_reverse]

/-- A text stays as it is where no blank stands at its ends. -/
theorem trim_between {first last : Char} (hfirst : isBlank first = false) (hlast : isBlank last = false)
    (cs : List Char) : trim (first :: (cs ++ [last])) = first :: (cs ++ [last]) := by
  have hend : (first :: (cs ++ [last])).getLast? = some last := by
    rw [← List.cons_append]
    exact List.getLast?_concat
  have h := trim_append (List.forall_mem_nil _) (by simp [hfirst]) (by simp [hend, hlast]) (List.forall_mem_nil _)
    (List.cons_ne_nil first (cs ++ [last]))
  rwa [List.nil_append, List.append_nil] at h

theorem trim_sublist (cs : List Char) : (trim cs).Sublist cs := by
  have hstart : (trimStart cs).Sublist cs := List.dropWhile_sublist isBlank
  have hend : (trim cs).reverse.Sublist (trimStart cs).reverse := by
    rw [trim, trimEnd, List.reverse_reverse]
    exact List.dropWhile_sublist isBlank
  exact (List.reverse_sublist.1 hend).trans hstart

/-- What is trimmed off a text are blanks. -/
theorem exists_trim (cs : List Char) :
    ∃ front behind, cs = front ++ (trim cs ++ behind) ∧ (∀ c ∈ front, isBlank c = true) ∧
      ∀ c ∈ behind, isBlank c = true := by
  have hblank : ∀ ds : List Char, ∀ c ∈ ds.takeWhile isBlank, isBlank c = true := fun ds =>
    List.all_eq_true.1 List.all_takeWhile
  have hend : trim cs ++ ((trimStart cs).reverse.takeWhile isBlank).reverse = trimStart cs := by
    rw [trim, trimEnd, ← List.reverse_append, List.takeWhile_append_dropWhile, List.reverse_reverse]
  refine ⟨cs.takeWhile isBlank, ((trimStart cs).reverse.takeWhile isBlank).reverse, ?_, hblank cs, fun c hc => ?_⟩
  · rw [hend]
    exact List.takeWhile_append_dropWhile.symm
  · exact hblank _ c (List.mem_reverse.1 hc)

/-- A text that begins with no blank begins in the same way when it is trimmed. -/
theorem exists_trim_cons {c : Char} (hc : isBlank c = false) (cs : List Char) : ∃ rest, trim (c :: cs) = c :: rest := by
  obtain ⟨front, behind, heq, hfront, hbehind⟩ := exists_trim (c :: cs)
  have hblank : ∀ {d}, isBlank d = true → c ≠ d := by
    rintro d hd rfl
    rw [hc] at hd
    cases hd
  cases front with
  | cons d front => exact absurd (List.cons.inj heq).1 (hblank (hfront d List.mem_cons_self))
  | nil =>
      cases htrim : trim (c :: cs) with
      | nil =>
          rw [htrim, List.nil_append, List.nil_append] at heq
          exact absurd rfl (hblank (hbehind c (heq ▸ List.mem_cons_self)))
      | cons d rest =>
          rw [htrim] at heq
          rw [(List.cons.inj heq).1]
          exact ⟨rest, rfl⟩

end SophiaBind.Text
