/-
**Keyed lists that entries are put into.**

A key that is put again stays where it first came, with the new value. So putting entries one after the other leaves
each key once, in the order in which the keys first came, and a list whose keys are distinct is rebuilt as it is.

Main results:

* `Keyed.map_fst_put` — the keys behind one `put`,
* `Keyed.map_fst_putAll` — **the keys of entries that are put one after the other**,
* `Keyed.nodup_putAll` — each key comes once,
* `Keyed.putAll_of_nodup` — distinct keys are put as they come,
* `Keyed.lookup_putAll_iff` — **the last value of a key counts**.
-/

import SophiaBind.Keyed

namespace SophiaBind.Keyed

variable {κ α : Type} [BEq κ]

theorem mem_put {entries : List (κ × α)} {key : κ} {a : α} {e : κ × α} (h : e ∈ put entries key a) :
    e ∈ entries ∨ e = (key, a) := by
  induction entries with
  | nil => exact .inr (List.mem_singleton.1 h)
  | cons first rest ih =>
      rw [put] at h
      split at h
      · exact (List.mem_cons.1 h).elim .inr fun hrest => .inl (List.mem_cons_of_mem _ hrest)
      · rcases List.mem_cons.1 h with rfl | hrest
        · exact .inl List.mem_cons_self
        · exact (ih hrest).imp_left (List.mem_cons_of_mem _)

theorem mem_putAll {entries more : List (κ × α)} {e : κ × α} (h : e ∈ putAll entries more) :
    e ∈ entries ∨ e ∈ more := by
  induction more generalizing entries with
  | nil => exact .inl h
  | cons first more ih =>
      rcases ih h with hput | hmore
      · rcases mem_put hput with hentry | rfl
        · exact .inl hentry
        · exact .inr List.mem_cons_self
      · exact .inr (List.mem_cons_of_mem _ hmore)

theorem putAll_cons (entries : List (κ × α)) (e : κ × α) (more : List (κ × α)) :
    putAll entries (e :: more) = putAll (put entries e.1 e.2) more := rfl

theorem putAll_concat (entries more : List (κ × α)) (e : κ × α) :
    putAll entries (more ++ [e]) = put (putAll entries more) e.1 e.2 := by
  rw [putAll, List.foldl_append]
  rfl

variable [LawfulBEq κ]

/-! ### One entry -/

theorem put_put (entries : List (κ × α)) (key : κ) (a b : α) : put (put entries key a) key b = put entries key b := by
  induction entries with
  | nil => simp [put]
  | cons e rest ih =>
      obtain ⟨k, v⟩ := e
      by_cases h : k = key
      · simp [put, h]
      · simp [put, h, ih]

/-- The keys stay, and a new one comes last. -/
theorem map_fst_put (entries : List (κ × α)) (key : κ) (a : α) :
    (key ∈ entries.map Prod.fst ∧ (put entries key a).map Prod.fst = entries.map Prod.fst) ∨
    (key ∉ entries.map Prod.fst ∧ (put entries key a).map Prod.fst = entries.map Prod.fst ++ [key]) := by
  induction entries with
  | nil => exact .inr ⟨List.not_mem_nil, rfl⟩
  | cons e rest ih =>
      obtain ⟨k, v⟩ := e
      by_cases h : k = key
      · exact .inl (by simp [put, h])
      · have hne : ¬key = k := fun hk => h hk.symm
        rcases ih with ⟨hmem, heq⟩ | ⟨hmem, heq⟩
        · exact .inl (by simp_all [put])
        · exact .inr (by simp_all [put])

/-- A key that is new comes last. -/
theorem put_of_not_mem {entries : List (κ × α)} {key : κ} (value : α) (h : key ∉ entries.map Prod.fst) :
    put entries key value = entries ++ [(key, value)] := by
  induction entries with
  | nil => rfl
  | cons e rest ih =>
      obtain ⟨hne, hrest⟩ := not_or.1 (mt List.mem_cons.2 h)
      have hkey : (e.1 == key) = false := by simpa using Ne.symm hne
      rw [put, hkey, ih hrest]
      rfl

theorem lookup_eq_none_iff {entries : List (κ × α)} {key : κ} :
    entries.lookup key = none ↔ key ∉ entries.map Prod.fst := by
  rw [List.lookup_eq_none_iff]
  simp only [List.mem_map, not_exists, not_and, bne_iff_ne, ne_eq]
  exact ⟨fun h e he hk => h e he hk.symm, fun h e he hk => h e he hk.symm⟩

/-! ### Several entries -/

/-- **The keys of entries that are put one after the other**: those that are there, and behind them the others in the
order in which they first come. -/
theorem map_fst_putAll (entries more : List (κ × α)) :
    (putAll entries more).map Prod.fst =
      entries.map Prod.fst ++ ((more.map Prod.fst).removeAll (entries.map Prod.fst)).eraseDups := by
  induction more generalizing entries with
  | nil => simp [putAll, List.removeAll]
  | cons e more ih =>
      rw [putAll_cons, ih, List.map_cons]
      rcases map_fst_put entries e.1 e.2 with ⟨hmem, hkeys⟩ | ⟨hnew, hkeys⟩
      · rw [hkeys]
        have hthere : (e.1 :: more.map Prod.fst).removeAll (entries.map Prod.fst) =
            (more.map Prod.fst).removeAll (entries.map Prod.fst) := by
          simp [List.removeAll, hmem]
        rw [hthere]
      · rw [hkeys]
        have hfirst : (e.1 :: more.map Prod.fst).removeAll (entries.map Prod.fst) =
            e.1 :: (more.map Prod.fst).removeAll (entries.map Prod.fst) := by
          simp [List.removeAll, hnew]
        have hbehind : (more.map Prod.fst).removeAll (entries.map Prod.fst ++ [e.1]) =
            ((more.map Prod.fst).removeAll (entries.map Prod.fst)).filter fun k => !k == e.1 := by
          rw [List.removeAll, List.removeAll, List.filter_filter]
          refine List.filter_congr fun k _ => ?_
          rw [Bool.eq_iff_iff]
          simp [and_comm]
        rw [hfirst, List.eraseDups_cons, hbehind, List.append_assoc, List.singleton_append]

theorem nodup_put {entries : List (κ × α)} (h : (entries.map Prod.fst).Nodup) (key : κ) (a : α) :
    ((put entries key a).map Prod.fst).Nodup := by
  rcases map_fst_put entries key a with ⟨-, hsame⟩ | ⟨hnew, hmore⟩
  · rwa [hsame]
  · rw [hmore]
    refine List.nodup_append.2 ⟨h, List.pairwise_singleton _ _, ?_⟩
    rintro k hk b hb rfl
    exact hnew (List.mem_singleton.1 hb ▸ hk)

theorem nodup_putAll_of_nodup (entries : List (κ × α)) (h : (entries.map Prod.fst).Nodup) (more : List (κ × α)) :
    ((putAll entries more).map Prod.fst).Nodup := by
  induction more generalizing entries with
  | nil => exact h
  | cons e more ih => exact ih _ (nodup_put h e.1 e.2)

/-- Each key comes once. -/
theorem nodup_putAll (more : List (κ × α)) : ((putAll [] more).map Prod.fst).Nodup :=
  nodup_putAll_of_nodup [] List.nodup_nil more

/-- Distinct keys that are not there yet are put as they come. -/
theorem putAll_of_nodup {entries more : List (κ × α)} (h : ((entries ++ more).map Prod.fst).Nodup) :
    putAll entries more = entries ++ more := by
  induction more generalizing entries with
  | nil => rw [List.append_nil]; rfl
  | cons e more ih =>
      have hnew : e.1 ∉ entries.map Prod.fst := by
        rw [List.map_append, List.map_cons] at h
        exact fun hmem => (List.nodup_append.1 h).2.2 e.1 hmem e.1 List.mem_cons_self rfl
      rw [putAll_cons, put_of_not_mem e.2 hnew, ih (by simpa using h), List.append_assoc, List.singleton_append]

/-- What is found is what was put last, or else what was there. -/
theorem lookup_putAll (entries more : List (κ × α)) (key : κ) :
    (putAll entries more).lookup key = (more.reverse.lookup key).or (entries.lookup key) := by
  induction more generalizing entries with
  | nil => rfl
  | cons e more ih =>
      rw [putAll_cons, ih, List.reverse_cons, List.lookup_append, Option.or_assoc]
      by_cases hkey : key = e.1
      · rw [hkey, lookup_put_self, List.lookup_cons, beq_self_eq_true]
        rfl
      · rw [lookup_put_of_ne _ _ hkey, List.lookup_cons, beq_false_of_ne hkey]
        rfl

/-- **The last value of a key counts.** -/
theorem lookup_putAll_iff {more : List (κ × α)} {key : κ} {a : α} :
    (putAll [] more).lookup key = some a ↔
      ∃ front behind, more = front ++ (key, a) :: behind ∧ key ∉ behind.map Prod.fst := by
  rw [lookup_putAll, List.lookup_nil, Option.or_none, List.lookup_eq_some_iff]
  constructor
  · rintro ⟨behind, front, hmore, hnew⟩
    refine ⟨front.reverse, behind.reverse, ?_, fun hmem => ?_⟩
    · rw [← List.reverse_reverse more, hmore]
      simp
    · obtain ⟨e, he, hkey⟩ := List.mem_map.1 hmem
      have hne := hnew e (List.mem_reverse.1 he)
      rw [hkey] at hne
      simp at hne
  · rintro ⟨front, behind, rfl, hnew⟩
    refine ⟨behind.reverse, front.reverse, by simp, fun e he => ?_⟩
    rw [bne_iff_ne]
    rintro rfl
    exact hnew (List.mem_map_of_mem (List.mem_reverse.1 he))

end SophiaBind.Keyed
