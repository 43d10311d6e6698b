/-
**Rows of the history, as they are logged and as they are read.**

A row is written with its members in the order of their names, and so is the entry in it. Reading finds the same
members in that order, but that halves of pairs are joined where they belong together. Names may become one by that,
and then the last of them counts. What is asked of a row, and whether its entry is valid, does not depend on any of it:
the names that are asked for are of characters that are not made by joining.

Main definitions:

* `Json.IsFlat` — texts, whole numbers, truth values and nothing at all,
* `History.FlatEntry` — an entry whose values are flat,
* `History.FlatEntry.IsReadAs` — **what is found of an entry**,
* `History.Logged` — a row, with `row` as it is logged, `written` as it stands in its file, and `found` as it is read,
* `History.Logged.IsReadAs` — what is found of a row.

Main results:

* `History.FlatEntry.isReadAs_found`, `History.Logged.isReadAs_found` — **rows are read as they were logged**, but for
  such halves,
* `History.Logged.isExact_written` — a row that can be written is read back,
* `History.FlatEntry.IsReadAs.problems_eq` — **whether an entry is valid does not depend on it**.
-/

import SophiaBind.History
import SophiaBind.Proofs.JsonReading

namespace SophiaBind

/-! ### Members in any order -/

namespace Keyed

variable {κ α : Type} [BEq κ] [LawfulBEq κ]

theorem lookup_eq_some_iff {entries : List (κ × α)} (h : (entries.map Prod.fst).Nodup) {key : κ} {a : α} :
    entries.lookup key = some a ↔ (key, a) ∈ entries := by
  induction entries with
  | nil => simp
  | cons e rest ih =>
      obtain ⟨k, v⟩ := e
      obtain ⟨hk, hrest⟩ := List.nodup_cons.1 h
      rw [List.lookup_cons]
      by_cases hkey : key = k
      · subst hkey
        have hnot : (key, a) ∉ rest := fun hmem => hk (List.mem_map.2 ⟨_, hmem, rfl⟩)
        simp [hnot, eq_comm]
      · have hbeq : (key == k) = false := beq_false_of_ne hkey
        simp [hbeq, hkey, ih hrest]

/-- **What is found under distinct keys does not depend on their order.** -/
theorem lookup_of_perm {entries more : List (κ × α)} (h : entries.Perm more) (hd : (entries.map Prod.fst).Nodup)
    (key : κ) : entries.lookup key = more.lookup key := by
  have hd' : (more.map Prod.fst).Nodup := (h.map Prod.fst).nodup_iff.1 hd
  ext a
  rw [lookup_eq_some_iff hd, lookup_eq_some_iff hd', h.mem_iff]

end Keyed

namespace Json

theorem lookup?_of_perm {ms ns : List (LooseText × Json)} (h : ms.Perm ns) (hd : (ms.map Prod.fst).Nodup)
    (name : String) : lookup? ms name = lookup? ns name :=
  Keyed.lookup_of_perm h hd (.whole name)

theorem sortMembers_perm (ms : List (LooseText × Json)) : (sortMembers ms).Perm ms :=
  List.mergeSort_perm ms _

theorem membersReadable_iff {ms : List (LooseText × Json)} :
    MembersReadable ms ↔ ∀ m ∈ ms, CodePoint.Unjoined m.1.points ∧ Readable m.2 := by
  induction ms with
  | nil => simp [MembersReadable]
  | cons m ms ih =>
      obtain ⟨name, j⟩ := m
      simp [MembersReadable, ih, and_assoc]

theorem membersExact_iff {ms : List (LooseText × Json)} : MembersExact ms ↔ ∀ m ∈ ms, IsExact m.2 := by
  induction ms with
  | nil => simp [MembersExact]
  | cons m ms ih =>
      obtain ⟨name, j⟩ := m
      simp [MembersExact, ih]

theorem areWritableMembers_iff {ms : List (LooseText × Json)} :
    areWritableMembers ms = true ↔ ∀ m ∈ ms, isWritable m.2 = true := by
  induction ms with
  | nil => simp [areWritableMembers]
  | cons m ms ih =>
      obtain ⟨name, j⟩ := m
      simp [areWritableMembers, ih]

/-! ### Flat values -/

/-- A text, a whole number, a truth value or nothing. -/
def IsFlat : Json → Prop
  | .null => True
  | .bool _ => True
  | .int _ => True
  | .text _ => True
  | .broken _ => True
  | _ => False

theorem sorted_of_isFlat {j : Json} (h : IsFlat j) : sorted j = j := by
  cases j with
  | array items => exact absurd h id
  | object members => exact absurd h id
  | _ => rfl

theorem sortedMembers_of_isFlat {ms : List (LooseText × Json)} (h : ∀ m ∈ ms, IsFlat m.2) :
    sortedMembers ms = ms := by
  induction ms with
  | nil => rfl
  | cons m ms ih =>
      obtain ⟨hm, hms⟩ := List.forall_mem_cons.1 h
      obtain ⟨name, j⟩ := m
      rw [sortedMembers, sorted_of_isFlat hm, ih hms]

theorem isExact_of_isFlat {j : Json} (h : IsFlat j) (hwrite : isWritable j = true) : IsExact j := by
  cases j with
  | int i => exact hwrite
  | float x => exact absurd h id
  | array items => exact absurd h id
  | object members => exact absurd h id
  | _ => trivial

/-- What is read of a text is a text, which is empty only if that one is. -/
theorem joined_broken (t : BrokenText) :
    (∃ s, joined (.broken t) = .text s ∧ s ≠ "") ∨ ∃ u, joined (.broken t) = .broken u := by
  rw [joined]
  cases hjoined : (LooseText.broken t).joined with
  | broken u => exact .inr ⟨u, rfl⟩
  | whole s =>
      refine .inl ⟨s, rfl, ?_⟩
      rintro rfl
      have hempty := LooseText.eq_whole_of_joined (by simp) hjoined
      cases hempty

end Json

namespace History

/-! ### Entries -/

/-- An entry: distinct names with flat values. -/
structure FlatEntry where
  members : List (LooseText × Json)
  distinct : (members.map Prod.fst).Nodup
  values : ∀ m ∈ members, Json.IsFlat m.2

namespace FlatEntry

variable (e : FlatEntry)

/-- No text of an entry, a name or a value, has an upper half directly before a lower half. -/
def Unjoined : Prop :=
  ∀ m ∈ e.members, CodePoint.Unjoined m.1.points ∧ ∀ t, m.2.text? = some t → CodePoint.Unjoined t.points

/-- The members of an entry as they are read: written in the order of their names, and joined. -/
def found : List (LooseText × Json) :=
  Json.foundMembers (Json.sortMembers e.members)

/-- **What is found of an entry.** Each name comes once, and the halves that belong together are joined, in names as in
values; of the members of which the names become one, the last one counts in the order of the names as they were. An
entry without such halves is found as it was, but for the order of its members. -/
structure IsReadAs (e : FlatEntry) (members : List (LooseText × Json)) : Prop where
  distinct : (members.map Prod.fst).Nodup
  mem_iff : ∀ name v, (name, v) ∈ members ↔ ∃ front m behind, Json.sortMembers e.members = front ++ m :: behind ∧
    m.1.joined = name ∧ m.2.joined = v ∧ ∀ other ∈ behind, other.1.joined ≠ name
  unchanged : e.Unjoined → members.Perm e.members

variable {e}

theorem Unjoined.joinedMembers_eq (h : e.Unjoined) {ms : List (LooseText × Json)} (hms : ∀ m ∈ ms, m ∈ e.members) :
    Json.joinedMembers ms = ms := by
  rw [Json.joinedMembers_eq_map]
  refine (List.map_congr_left fun m hm => ?_).trans (List.map_id ms)
  obtain ⟨name, j⟩ := m
  obtain ⟨hname, hvalue⟩ := h _ (hms _ hm)
  refine Prod.ext (LooseText.joined_of_unjoined hname) ?_
  have hflat := e.values _ (hms _ hm)
  cases j with
  | broken t =>
      have hj := LooseText.joined_of_unjoined (t := .broken t) (hvalue _ rfl)
      show Json.joined (.broken t) = .broken t
      rw [Json.joined, hj]
      rfl
  | float x => exact absurd hflat id
  | array items => exact absurd hflat id
  | object members => exact absurd hflat id
  | _ => rfl

variable (e)

/-- **What is found of an entry that was written.** -/
theorem isReadAs_found : e.IsReadAs e.found where
  distinct := Keyed.nodup_putAll _
  mem_iff name v := by
    rw [found, Json.foundMembers, ← Keyed.lookup_eq_some_iff (Keyed.nodup_putAll _), Keyed.lookup_putAll_iff,
      Json.joinedMembers_eq_map]
    constructor
    · rintro ⟨front, behind, heq, hnew⟩
      obtain ⟨front', rest, hsorted, rfl, hrest⟩ := List.map_eq_append_iff.1 heq
      obtain ⟨m, behind', rfl, hm, rfl⟩ := List.map_eq_cons_iff.1 hrest
      obtain ⟨rfl, rfl⟩ := Prod.mk.inj hm
      refine ⟨front', m, behind', hsorted, rfl, rfl, fun other hother hname => hnew ?_⟩
      rw [List.map_map]
      exact List.mem_map.2 ⟨other, hother, hname⟩
    · rintro ⟨front, m, behind, hsorted, rfl, rfl, hnew⟩
      refine ⟨_, _, by rw [hsorted, List.map_append, List.map_cons], fun hmem => ?_⟩
      rw [List.map_map] at hmem
      obtain ⟨other, hother, hname⟩ := List.mem_map.1 hmem
      exact hnew other hother hname
  unchanged h := by
    have hperm := Json.sortMembers_perm e.members
    have hdistinct := (hperm.map Prod.fst).nodup_iff.2 e.distinct
    rw [found, Json.foundMembers, h.joinedMembers_eq fun m hm => hperm.mem_iff.1 hm, Keyed.putAll_of_nodup hdistinct]
    exact hperm

end FlatEntry

/-! ### What is asked of an entry -/

/-- A name of characters of one code unit finds what was logged under it, with its halves joined. -/
theorem FlatEntry.IsReadAs.lookup? {e : FlatEntry} {members : List (LooseText × Json)} (h : e.IsReadAs members)
    {name : String} (hname : ∀ c ∈ name.toList, c.toNat < 65536) :
    Json.lookup? members name = (Json.lookup? e.members name).map Json.joined := by
  ext v
  have hperm := Json.sortMembers_perm e.members
  rw [Json.lookup?, Keyed.lookup_eq_some_iff h.distinct, h.mem_iff, Option.map_eq_some_iff]
  constructor
  · rintro ⟨front, m, behind, hsorted, hm, hv, -⟩
    obtain ⟨n, j⟩ := m
    obtain rfl := LooseText.eq_whole_of_joined hname hm
    have hmem : (.whole name, j) ∈ e.members := hperm.mem_iff.1 (hsorted ▸ List.mem_append_right _ List.mem_cons_self)
    exact ⟨j, (Keyed.lookup_eq_some_iff e.distinct).2 hmem, hv⟩
  · rintro ⟨j, hj, hv⟩
    obtain ⟨front, behind, hsorted⟩ :=
      List.append_of_mem (hperm.mem_iff.2 ((Keyed.lookup_eq_some_iff e.distinct).1 hj))
    refine ⟨front, _, behind, hsorted, LooseText.joined_whole name, hv, fun other hother heq => ?_⟩
    -- no other name becomes this one
    have hnames := (hperm.map Prod.fst).nodup_iff.2 e.distinct
    rw [hsorted, List.map_append, List.map_cons, List.nodup_append] at hnames
    have hmem : other.1 ∈ behind.map Prod.fst := List.mem_map_of_mem hother
    rw [LooseText.eq_whole_of_joined hname heq] at hmem
    exact (List.nodup_cons.1 hnames.2.1).1 hmem

/-- What is asked of a value is the same of what is read of it. -/
theorem asked_of_joined {j : Json} (h : j.IsFlat) :
    isWhole j.joined = isWhole j ∧ (Value.ofJson j.joined).truthy = (Value.ofJson j).truthy := by
  cases j with
  | broken t =>
      rcases Json.joined_broken t with ⟨s, hs, hne⟩ | ⟨u, hu⟩
      · rw [hs]
        exact ⟨rfl, by simp [Value.ofJson, Value.truthy, hne]⟩
      · rw [hu]
        exact ⟨rfl, rfl⟩
  | float x => exact absurd h id
  | array items => exact absurd h id
  | object members => exact absurd h id
  | _ => exact ⟨rfl, rfl⟩

/-- What is wrong with what is read of members is what was wrong with them. -/
theorem problems_of_joined {ms ns : List (LooseText × Json)} (hms : ∀ name j, Json.lookup? ms name = some j → j.IsFlat)
    (h : ∀ name ∈ entryNames, Json.lookup? ns name = (Json.lookup? ms name).map Json.joined) :
    problems ns = problems ms := by
  have hgas : ∀ name ∈ entryNames, gasProblem ns name = gasProblem ms name := by
    intro name hname
    rw [gasProblem, gasProblem, h name hname]
    cases hj : Json.lookup? ms name with
    | none => rfl
    | some j => simp [(asked_of_joined (hms name j hj)).1]
  have hmissing : (entryNames.filter fun name => (Json.lookup? ns name).isNone) =
      entryNames.filter fun name => (Json.lookup? ms name).isNone :=
    List.filter_congr fun name hname => by rw [h name hname, Option.isNone_map]
  have herror : (Value.ofJson ((Json.lookup? ns "error").getD .null)).truthy =
      (Value.ofJson ((Json.lookup? ms "error").getD .null)).truthy := by
    rw [h "error" (by decide)]
    cases hj : Json.lookup? ms "error" with
    | none => rfl
    | some j => exact (asked_of_joined (hms "error" j hj)).2
  rw [problems, problems, hgas "gasPrice" (by decide), hgas "gasUsed" (by decide), hmissing, herror,
    h "status" (by decide)]
  cases hj : Json.lookup? ms "status" with
  | none => rfl
  | some j =>
      have hflat := hms "status" j hj
      cases j with
      | broken t =>
          -- a text stays a text
          rcases Json.joined_broken t with ⟨s, hs, -⟩ | ⟨u, hu⟩
          · rw [Option.map_some, hs]
          · rw [Option.map_some, hu]
      | float x => exact absurd hflat id
      | array items => exact absurd hflat id
      | object members => exact absurd hflat id
      | _ => rfl

/-- **The entry that is found has the problems of the one that was logged.** -/
theorem FlatEntry.IsReadAs.problems_eq {e : FlatEntry} {members : List (LooseText × Json)} (h : e.IsReadAs members) :
    problems members = problems e.members := by
  refine problems_of_joined (fun name j hj => ?_) fun name hname => h.lookup? ?_
  · exact e.values _ ((Keyed.lookup_eq_some_iff e.distinct).1 hj)
  · have hplain : ∀ name ∈ entryNames, (name.toList.all fun c => c.toNat < 65536) = true := by decide
    simpa using hplain name hname

/-! ### Rows -/

/-- An entry that was recorded: when, in the log of which run, and the entry. -/
structure Logged where
  time : Int
  runId : String
  entry : FlatEntry

namespace Logged

/-- The members of a row as it is logged. -/
def row (r : Logged) : Row :=
  [("t", .int r.time), ("run_id", .text r.runId), ("entry", .object r.entry.members)]

/-- The members of a row as they stand in its file: in the order of names. -/
def written (r : Logged) : Row :=
  Json.sortMembers (Json.sortedMembers r.row)

/-- The members of a row as they are read. -/
def found (r : Logged) : Row :=
  Json.foundMembers r.written

/-- A row holds the time, the name of the run and what is found of the entry, and nothing else; its members may come in
another order. -/
def IsReadAs (r : Logged) (found : Row) : Prop :=
  ∃ entry : List (LooseText × Json), r.entry.IsReadAs entry ∧
    found.Perm [("t", .int r.time), ("run_id", .text r.runId), ("entry", .object entry)]

theorem written_perm (r : Logged) :
    r.written.Perm [("t", .int r.time), ("run_id", .text r.runId),
      ("entry", .object (Json.sortMembers r.entry.members))] := by
  have hentry : Json.sortedMembers r.entry.members = r.entry.members := Json.sortedMembers_of_isFlat r.entry.values
  rw [written, row]
  simp only [Json.sortedMembers, Json.sorted, hentry]
  exact Json.sortMembers_perm _

/-- **A row is read as it was logged**, but for the halves in its entry. -/
theorem isReadAs_found (r : Logged) : r.IsReadAs r.found := by
  refine ⟨r.entry.found, r.entry.isReadAs_found, ?_⟩
  have hjoined : (Json.joinedMembers r.written).Perm
      [("t", .int r.time), ("run_id", .text r.runId), ("entry", .object r.entry.found)] := by
    rw [Json.joinedMembers_eq_map]
    refine (r.written_perm.map _).trans (List.Perm.of_eq ?_)
    simp only [List.map_cons, List.map_nil, LooseText.joined_whole, Json.joined_object]
    rfl
  have hdistinct : ((Json.joinedMembers r.written).map Prod.fst).Nodup := (hjoined.map Prod.fst).nodup_iff.2 (by simp)
  rw [found, Json.foundMembers, Keyed.putAll_of_nodup hdistinct]
  exact hjoined

/-- What is found in a row does not depend on the order of its members. -/
theorem lookup?_found {found : Row} {when runId entry : Json}
    (h : found.Perm [("t", when), ("run_id", runId), ("entry", entry)]) (name : String) :
    Json.lookup? found name = Json.lookup? [("t", when), ("run_id", runId), ("entry", entry)] name :=
  Json.lookup?_of_perm h ((h.map Prod.fst).nodup_iff.2 (by simp)) name

namespace IsReadAs

variable {r : Logged} {found : Row}

theorem time_eq (h : r.IsReadAs found) : History.time found = .int r.time := by
  obtain ⟨entry, -, hfound⟩ := h
  rw [History.time, lookup?_found hfound]
  rfl

/-- The entry that is found has the problems of the one that was logged. -/
theorem lookup_entry (h : r.IsReadAs found) :
    ∃ entry : List (LooseText × Json), Json.lookup? found "entry" = some (.object entry) ∧
      r.entry.IsReadAs entry ∧ problems entry = problems r.entry.members := by
  obtain ⟨entry, hentry, hfound⟩ := h
  refine ⟨entry, ?_, hentry, hentry.problems_eq⟩
  rw [lookup?_found hfound]
  rfl

end IsReadAs

/-- A row that can be written is read back. -/
theorem isExact_written {r : Logged} (h : (Json.object r.row).isWritable = true) :
    Json.IsExact (.object r.written) := by
  simp only [row, Json.isWritable, Json.areWritableMembers, Bool.and_eq_true] at h
  obtain ⟨htime, -, hentry, -⟩ := h
  refine Json.membersExact_iff.2 fun m hm => ?_
  have hmem := r.written_perm.mem_iff.1 hm
  simp only [List.mem_cons, List.not_mem_nil, or_false] at hmem
  rcases hmem with rfl | rfl | rfl
  · exact htime
  · trivial
  · refine Json.membersExact_iff.2 fun m hm => ?_
    have hmember := (Json.sortMembers_perm _).mem_iff.1 hm
    exact Json.isExact_of_isFlat (r.entry.values m hmember) (Json.areWritableMembers_iff.1 hentry m hmember)

/-- The line of a row. -/
theorem toList_line (r : Logged) :
    (Log.line (.object r.row)).toList = Json.render (.object r.written) ++ ['\n'] :=
  String.toList_ofList

end Logged

end History

end SophiaBind
