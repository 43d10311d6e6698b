/-
**Reading a history back.**

The files of attempts are read in the order of the names of their runs, each line by line, and the rows are sorted by
their times, where rows of one time stay in the order in which they were read. So the rows come by time, then by the
name of the run, then as they were logged.

Main definitions:

* `History.Logged.isValid` — a row whose entry is valid,
* `History.Logged.Before` — the order of rows, each with its place among all that were logged.

Main results:

* `pairwise_mergeSort_stable` — **sorting keeps an order** among what is sorted alike,
* `History.Session.Holds.read` — **what the files hold is read**,
* `History.Session.read_run` — **reading gives back what was logged**,
* `History.Session.read_joins_names` — but two names may be read as one.
-/

import Mathlib.Data.List.Perm.Basic
import Mathlib.Data.List.Nodup
import SophiaBind.Proofs.HistoryLines
import SophiaBind.Proofs.Sessions

namespace SophiaBind

/-! ### Sorting -/

section Sorting

variable {α : Type} {le : α → α → Bool}

/-- Whether an item is sorted like another. -/
def alike (le : α → α → Bool) (a x : α) : Bool :=
  le a x && le x a

theorem alike_iff {a x : α} : alike le a x = true ↔ le a x = true ∧ le x a = true := by
  rw [alike, Bool.and_eq_true]

/-- **Sorting keeps an order** among what is sorted alike. -/
theorem pairwise_mergeSort_stable (htrans : ∀ a b c, le a b = true → le b c = true → le a c = true)
    (htotal : ∀ a b, (le a b || le b a) = true) {R : α → α → Prop} {xs : List α} (h : xs.Pairwise R) :
    (xs.mergeSort le).Pairwise fun a b => le a b = true ∧ (le b a = true → R a b) := by
  rw [List.pairwise_iff_forall_sublist]
  intro a b hab
  have hle : le a b = true := List.pairwise_iff_forall_sublist.1 (List.pairwise_mergeSort htrans htotal xs) hab
  refine ⟨hle, fun hba => List.pairwise_iff_forall_sublist.1 h ?_⟩
  -- what is sorted like `a` stands in the sorted list as it stood before
  have hrefl : le a a = true := by simpa using htotal a a
  have hsorted : (xs.filter (alike le a)).Pairwise fun x y => le x y = true :=
    List.pairwise_of_forall_mem_list fun x hx y hy => by
      have hxa := alike_iff.1 (List.of_mem_filter hx)
      have hay := alike_iff.1 (List.of_mem_filter hy)
      exact htrans x a y hxa.2 hay.1
  have hsub : (xs.filter (alike le a)).Sublist ((xs.mergeSort le).filter (alike le a)) := by
    have hfilter := (List.sublist_mergeSort htrans htotal hsorted List.filter_sublist).filter (alike le a)
    simpa only [List.filter_filter, Bool.and_self] using hfilter
  have hsame : xs.filter (alike le a) = (xs.mergeSort le).filter (alike le a) :=
    hsub.eq_of_length_le (((List.mergeSort_perm xs le).filter _).length_eq.le)
  have hpair : [a, b].Sublist ((xs.mergeSort le).filter (alike le a)) := by
    have hfilter := hab.filter (alike le a)
    simpa [alike_iff, hle, hba, hrefl] using hfilter
  exact (hsame ▸ hpair).trans List.filter_sublist

/-- Items come in groups by distinct keys. -/
theorem perm_flatMap_filter {κ : Type} [DecidableEq κ] (key : α → κ) {keys : List κ} (hkeys : keys.Nodup) :
    ∀ {xs : List α}, (∀ x ∈ xs, key x ∈ keys) → (keys.flatMap fun k => xs.filter fun x => key x = k).Perm xs
  | [], _ => by simp
  | x :: xs, h => by
      obtain ⟨hx, hxs⟩ := List.forall_mem_cons.1 h
      have hone : (keys.flatMap fun k => if key x = k then [x] else []) = [x] := by
        clear h hxs
        induction keys with
        | nil => cases hx
        | cons k keys ih =>
            obtain ⟨hk, hrest⟩ := List.nodup_cons.1 hkeys
            rw [List.flatMap_cons]
            by_cases hkey : key x = k
            · have hnone : (keys.flatMap fun k => if key x = k then [x] else []) = [] :=
                List.flatMap_eq_nil_iff.2 fun k' hk' => if_neg fun heq : key x = k' => hk (hkey ▸ heq ▸ hk')
              rw [if_pos hkey, hnone, List.append_nil]
            · rw [if_neg hkey, List.nil_append]
              exact ih hrest ((List.mem_cons.1 hx).resolve_left hkey)
      have hsplit : ∀ k, ((x :: xs).filter fun x => key x = k) =
          (if key x = k then [x] else []) ++ xs.filter fun x => key x = k := by
        intro k
        by_cases hkey : key x = k <;> simp [hkey]
      simp only [hsplit]
      refine (List.flatMap_append_perm keys _ _).symm.trans ?_
      rw [hone]
      exact (perm_flatMap_filter key hkeys hxs).cons x

end Sorting

namespace History

/-! ### The files of attempts -/

/-- The name of the run whose attempts are at a location, if there is one. -/
def runAt (b : EmptyBase) (m : Location) : Option String :=
  match FileTree.relative? b.location m with
  | some [name, file] => if file = "actions.jsonl" then some name else none
  | _ => none

theorem runAt_eq_some {b : EmptyBase} {m : Location} {name : String} :
    runAt b m = some name ↔ m = b.attempts name :=
  runUnder_eq_some

/-- The names of the runs that have files of attempts. -/
def runNames (b : EmptyBase) (t : FileTree) : List String :=
  (t.entries.map Prod.fst).filterMap (runAt b)

theorem mem_runNames {b : EmptyBase} {t : FileTree} {name : String} :
    name ∈ runNames b t ↔ t.entryAt? (b.attempts name) ≠ none :=
  mem_runsBelow

theorem nodup_runNames {b : EmptyBase} {t : FileTree} (h : (locationsBelow t b.location).Nodup) :
    (runNames b t).Nodup := by
  have hbelow : runNames b t = (locationsBelow t b.location).filterMap (runAt b) := by
    rw [locationsBelow, List.filterMap_filter, runNames]
    refine List.filterMap_congr fun m _ => ?_
    cases hrelative : FileTree.relative? b.location m with
    | none => simp [runAt, hrelative]
    | some parts => simp
  rw [hbelow]
  refine h.filterMap fun m m' name hm hm' => ?_
  rw [runAt_eq_some.1 hm, runAt_eq_some.1 hm']

section Reading

variable {b : EmptyBase} {w : World}

/-- **The files of attempts are listed** in the order of the names of their runs. -/
theorem inChildren_actions (hhome : w.home = b.home) (hl : w.files.locate b.home b.path = .ok b.location)
    (hbase : w.files.entryAt? b.location = some .directory) :
    (Files.inChildren "actions.jsonl" b.path).runIn w =
      (.ok (((runNames b w.files).mergeSort fun name other => decide (name ≤ other)).map b.actions), w) :=
  inChildren_located b.usable (hhome ▸ hl) hbase

/-- Distinct names in their order. -/
theorem pairwise_lt_mergeSort {names : List String} (h : names.Nodup) :
    (names.mergeSort fun name other => decide (name ≤ other)).Pairwise fun name other => name < other := by
  have htrans : ∀ a b c : String, decide (a ≤ b) = true → decide (b ≤ c) = true → decide (a ≤ c) = true :=
    fun a b c hab hbc => decide_eq_true (String.le_trans (of_decide_eq_true hab) (of_decide_eq_true hbc))
  have htotal : ∀ a b : String, (decide (a ≤ b) || decide (b ≤ a)) = true := fun a b => by
    simpa only [Bool.or_eq_true, decide_eq_true_eq] using String.le_total a b
  have hdistinct := (List.mergeSort_perm names fun name other => decide (name ≤ other)).nodup_iff.2 h
  refine ((List.pairwise_mergeSort htrans htotal names).and hdistinct).imp fun hboth => ?_
  exact (Std.le_iff_lt_or_eq.1 (of_decide_eq_true hboth.1)).resolve_right hboth.2

/-! ### Rows -/

/-- A row whose entry is valid. -/
def Logged.isValid (r : Logged) : Bool :=
  problems r.entry.members = []

theorem isValidRow_found (r : Logged) : isValidRow r.found = r.isValid := by
  obtain ⟨entry, hlookup, -, hproblems⟩ := r.isReadAs_found.lookup_entry
  rw [isValidRow, hlookup, Logged.isValid, ← hproblems]

/-- Rows with valid entries are kept; the others are talked about. -/
theorem validRows_found (p : Path) (rows : List Logged) (w : World) :
    ∃ t, (validRows p (rows.map Logged.found)).runIn w =
      (.ok ((rows.filter Logged.isValid).map Logged.found), w.withTalk t) := by
  have hvalid : (rows.map Logged.found).filter isValidRow = (rows.filter Logged.isValid).map Logged.found := by
    rw [List.filter_map]
    exact congrArg (fun f => (rows.filter f).map Logged.found) (funext isValidRow_found)
  exact hvalid ▸ reads_validRows p (rows.map Logged.found) w

theorem notAfter_found (r q : Logged) : notAfter r.found q.found = decide (r.time ≤ q.time) := by
  have hbelow : below (.int q.time) (.int r.time) = .ok (decide (q.time < r.time)) := rfl
  rw [notAfter, r.isReadAs_found.time_eq, q.isReadAs_found.time_eq, hbelow]
  dsimp only
  rw [← decide_not, decide_eq_decide]
  exact Int.not_lt

/-- **Rows are sorted by their times.** -/
theorem sortByTime_found (order : List (Logged × Nat)) :
    sortByTime (order.map fun r => r.1.found) =
      .ok ((order.mergeSort fun r q => decide (r.1.time ≤ q.1.time)).map fun r => r.1.found) := by
  have hnumbers : ((order.map fun r => r.1.found).map time).all isNumber = true := by
    rw [List.map_map, List.all_eq_true]
    intro j hj
    obtain ⟨r, -, rfl⟩ := List.mem_map.1 hj
    rw [Function.comp_apply, r.1.isReadAs_found.time_eq]
    rfl
  have hsort := @List.map_mergeSort _ _ (fun r q => decide (r.1.time ≤ q.1.time)) notAfter
    (fun r : Logged × Nat => r.1.found) order fun r _ q _ => (notAfter_found r.1 q.1).symm
  rw [sortByTime, hnumbers, Bool.true_or, if_pos rfl, hsort]

end Reading

/-! ### Histories -/

/-- The order of rows, each with its place among all that were logged: by time, then by the name of the run, then
as they were logged. -/
def Logged.Before (r q : Logged × Nat) : Prop :=
  r.1.time < q.1.time ∨ r.1.time = q.1.time ∧
    (r.1.runId < q.1.runId ∨ r.1.runId = q.1.runId ∧ r.2 < q.2)

namespace Session

variable {b : EmptyBase} {s : Session}

/-- The file under a name holds its rows. -/
theorem Holds.entryAt? (h : s.Holds b) {name : String} (hname : name ∈ runNames b s.files) :
    s.files.entryAt? (b.attempts name) =
      some (.file (Files.renderedRows ((s.logged.filter fun r => r.runId = name).map Logged.written))) := by
  have hcontent := h.kept.content name
  rw [FileTree.contentAt] at hcontent
  cases hentry : s.files.entryAt? (b.attempts name) with
  | none => exact absurd hentry (mem_runNames.1 hname)
  | some e =>
      have hopens := h.kept.opens name
      rw [FileTree.opens, hentry] at hopens
      cases e with
      | locked content | directory => cases hopens
      | file content =>
          rw [hentry] at hcontent
          exact congrArg (fun content => some (Entry.file content)) hcontent

/-- A run with a row has a file. -/
theorem Holds.mem_runNames (h : s.Holds b) {r : Logged} (hr : r ∈ s.logged) : r.runId ∈ runNames b s.files := by
  rw [History.mem_runNames]
  intro hentry
  have hcontent := h.kept.content r.runId
  rw [FileTree.contentAt, hentry] at hcontent
  have hmem : r ∈ s.logged.filter fun q => q.runId = r.runId := List.mem_filter.2 ⟨hr, by simp⟩
  exact Files.renderedRows_ne_nil (by simpa using List.ne_nil_of_mem hmem) hcontent.symm

/-- **The files are read one after the other**: the valid rows of each run. -/
theorem Holds.rowsOf (h : s.Holds b) {names : List String} (hnames : ∀ name ∈ names, name ∈ runNames b s.files)
    {w : World} (hfiles : w.files = s.files) (hhome : w.home = b.home) :
    ∃ t, (rowsOf (names.map b.actions)).runIn w =
      (.ok (names.flatMap fun name =>
        ((s.logged.filter fun r => r.runId = name).filter Logged.isValid).map Logged.found), w.withTalk t) := by
  induction names generalizing w with
  | nil => exact ⟨w.talk, rfl⟩
  | cons name names ih =>
      obtain ⟨hname, hrest⟩ := List.forall_mem_cons.1 hnames
      have hentry := h.entryAt? hname
      have hleads := h.kept.leads name (History.mem_runNames.1 hname)
      have hexact : ∀ row ∈ (s.logged.filter fun r => r.runId = name).map Logged.written,
          Json.IsExact (.object row) := by
        intro row hrow
        obtain ⟨r, hr, rfl⟩ := List.mem_map.1 hrow
        exact Logged.isExact_written (h.writable r (List.mem_of_mem_filter hr))
      have hread := @Files.readRows_rendered w (b.actions name) (b.attempts name) "deploy history" _ hleads.usable
        (hfiles ▸ hhome ▸ hleads.located) (hfiles ▸ hentry) hexact
      have hfound : ((s.logged.filter fun r => r.runId = name).map Logged.written).map Json.foundMembers =
          (s.logged.filter fun r => r.runId = name).map Logged.found := List.map_map
      rw [hfound] at hread
      obtain ⟨t, hvalid⟩ := validRows_found (b.actions name) (s.logged.filter fun r => r.runId = name) w
      obtain ⟨t', hothers⟩ := @ih hrest (w.withTalk t) hfiles hhome
      refine ⟨t', ?_⟩
      rw [List.map_cons, History.rowsOf, App.runIn_bind_ok hread, App.runIn_bind_ok hvalid, App.runIn_bind_ok hothers]
      rfl

/-- The valid rows, each with its place among all that were logged. -/
def valid (s : Session) : List (Logged × Nat) :=
  s.logged.zipIdx.filter fun r => r.1.isValid

/-- The valid rows by the names of their runs. -/
def byName (s : Session) (names : List String) : List (Logged × Nat) :=
  names.flatMap fun name => s.valid.filter fun r => r.1.runId = name

theorem map_found_byName (s : Session) (names : List String) :
    ((s.byName names).map fun r => r.1.found) = names.flatMap fun name =>
      ((s.logged.filter fun r => r.runId = name).filter Logged.isValid).map Logged.found := by
  have hlogged : s.logged.zipIdx.map Prod.fst = s.logged := List.zipIdx_map_fst 0 s.logged
  rw [byName, List.map_flatMap]
  congr 1
  funext name
  conv_rhs => rw [← hlogged]
  simp only [valid, List.filter_map, List.filter_filter, List.map_map, Function.comp_def, Bool.and_comm]

/-- By the names of their runs, rows come by name and then as they were logged. -/
theorem pairwise_byName (s : Session) {names : List String} (hnames : names.Pairwise fun name other => name < other) :
    (s.byName names).Pairwise fun r q => r.1.runId < q.1.runId ∨ r.1.runId = q.1.runId ∧ r.2 < q.2 := by
  have hplaces : s.logged.zipIdx.Pairwise fun r q => r.2 < q.2 := by
    refine List.pairwise_map.1 ?_
    rw [List.zipIdx_map_snd]
    exact List.pairwise_lt_range'
  rw [byName, List.pairwise_flatMap]
  refine ⟨fun name _ => ?_, hnames.imp fun {name other} hlt r hr q hq => .inl ?_⟩
  · have hrows := (hplaces.filter (fun r => r.1.isValid)).filter fun r => r.1.runId = name
    refine hrows.imp_of_mem fun {r q} hr hq hlt => .inr ⟨?_, hlt⟩
    have hr' : r.1.runId = name := by simpa using List.of_mem_filter hr
    have hq' : q.1.runId = name := by simpa using List.of_mem_filter hq
    rw [hr', hq']
  · have hr' : r.1.runId = name := by simpa using List.of_mem_filter hr
    have hq' : q.1.runId = other := by simpa using List.of_mem_filter hq
    rw [hr', hq']
    exact hlt

/-- Sorted by their times, rows of one time stay by name and then as they were logged. -/
theorem pairwise_mergeSort_byName (s : Session) {names : List String}
    (hnames : names.Pairwise fun name other => name < other) :
    ((s.byName names).mergeSort fun r q => decide (r.1.time ≤ q.1.time)).Pairwise Logged.Before := by
  refine (pairwise_mergeSort_stable (fun r q x hrq hqx => ?_) (fun r q => ?_) (s.pairwise_byName hnames)).imp
    fun {r q} hrq => ?_
  · exact decide_eq_true (Int.le_trans (of_decide_eq_true hrq) (of_decide_eq_true hqx))
  · simp [Int.le_total r.1.time q.1.time]
  · rcases Int.lt_or_eq_of_le (of_decide_eq_true hrq.1) with hlt | heq
    · exact .inl hlt
    · exact .inr ⟨heq, hrq.2 (decide_eq_true (Int.le_of_eq heq.symm))⟩

/-- **What the files hold is read**: all valid rows, each once, by time, then by the name of the run, then as they
were logged. -/
theorem Holds.read (h : s.Holds b) (w : World) :
    ∃ (order : List (Logged × Nat)) (w' : World),
      (History.read b.path).runIn (s.world b w) = (.ok (order.map fun r => r.1.found), w') ∧
      order.Perm s.valid ∧ order.Pairwise Logged.Before := by
  have hask := @Files.isDirectory_located (s.world b w) b.path b.location b.usable h.kept.located
  rw [History.read, App.runIn_bind_ok hask]
  by_cases hbase : s.files.entryAt? b.location = some .directory
  · -- the directory is there, and its files are read by the names of their runs
    have hlist : (Files.inChildren "actions.jsonl" b.path).runIn (s.world b w) =
        (.ok (((runNames b s.files).mergeSort fun name other => decide (name ≤ other)).map b.actions), s.world b w) :=
      inChildren_actions rfl h.kept.located hbase
    have hperm := List.mergeSort_perm (runNames b s.files) fun name other => decide (name ≤ other)
    have hsorted := pairwise_lt_mergeSort (nodup_runNames h.kept.distinct)
    have hnodup := hperm.nodup_iff.2 (nodup_runNames h.kept.distinct)
    generalize (runNames b s.files).mergeSort (fun name other => decide (name ≤ other)) = names
      at hlist hperm hsorted hnodup
    obtain ⟨t, hrows⟩ := @Holds.rowsOf b s h names (fun name hname => hperm.mem_iff.1 hname) (s.world b w) rfl rfl
    refine ⟨(s.byName names).mergeSort fun r q => decide (r.1.time ≤ q.1.time), (s.world b w).withTalk t, ?_, ?_,
      s.pairwise_mergeSort_byName hsorted⟩
    · rw [show (s.world b w).files.entryAt? b.location = some .directory from hbase, if_pos (by decide),
        App.runIn_bind_ok hlist, App.runIn_bind_ok hrows, ← map_found_byName, sortByTime_found]
      rfl
    · refine (List.mergeSort_perm _ _).trans (perm_flatMap_filter _ hnodup ?_)
      intro r hr
      have hmem : r.1 ∈ s.logged := List.fst_mem_of_mem_zipIdx (List.mem_of_mem_filter hr)
      exact hperm.mem_iff.2 (h.mem_runNames hmem)
  · -- without the directory nothing was logged
    have hnone : s.logged = [] := by
      refine List.eq_nil_iff_forall_not_mem.2 fun r hr => hbase ?_
      exact (h.kept.leads _ (History.mem_runNames.1 (h.mem_runNames hr))).base
    refine ⟨[], s.world b w, ?_, by rw [valid, hnone]; rfl, List.Pairwise.nil⟩
    rw [show decide ((s.world b w).files.entryAt? b.location = some .directory) = false from decide_eq_false hbase]
    rfl

/-- **Reading gives back what was logged**, whatever was called: the rows whose entries are valid, each once and with
what is found of its entry, by time, then by the name of the run, then in the order of the calls. And a call logs its
row unless a number of too many digits, the length of a path or the system hinders that. -/
theorem read_run (b : EmptyBase) (calls : List (World × Call)) (w : World) :
    (∃ (order : List (Logged × Nat)) (rows : List Row) (w' : World),
      (History.read b.path).runIn ((run b calls).world b w) = (.ok rows, w') ∧
      List.Forall₂ (fun r row => r.1.IsReadAs row) order rows ∧
      order.Perm ((run b calls).logged.zipIdx.filter fun r => r.1.isValid) ∧
      order.Pairwise Logged.Before) ∧
    ∀ w k log entry, (run b calls).logs[k]? = some log → Unhindered b w log entry →
      ((run b calls).perform b w (.record k entry)).logged = (run b calls).logged ++ [⟨w.clock, log.runId, entry⟩] := by
  have h := holds_run b calls
  obtain ⟨order, w', hread, hperm, hbefore⟩ := h.read w
  refine ⟨⟨order, _, w', hread, ?_, hperm, hbefore⟩, fun w k log entry hk hfree => h.logged_perform hk hfree⟩
  rw [List.forall₂_map_right_iff]
  exact List.forall₂_same.2 fun r _ => r.1.isReadAs_found

/-! ### Two logs -/

/-- A directory that is missing where nothing stands. -/
def missingBase : EmptyBase where
  path := { parts := ["history"] }
  home := []
  files := {}
  location := ["history"]
  usable := by decide
  located := rfl
  notFile := nofun
  empty := rfl

/-- An attempt that went well. -/
def doneEntry : FlatEntry where
  members := [("deployerType", .text "sophia"), ("nameOrLabel", .text "Main"), ("transactionHash", .text "th_1"),
    ("status", .bool true), ("gasPrice", .int 1), ("gasUsed", .int 1), ("result", .text "ct_1"), ("error", .null)]
  distinct := by decide
  values := by simp [Json.IsFlat]

/-- An entry that says nothing. -/
def emptyEntry : FlatEntry where
  members := []
  distinct := List.nodup_nil
  values := nofun

/-- Two logs of one name, with rows out of the order of time. -/
def twoLogs : List (World × Call) :=
  [({}, .open_ (some ⟨"a b", by decide, by decide⟩)), ({}, .open_ (some ⟨"a_b", by decide, by decide⟩)),
    ({ clock := 2 }, .record 1 doneEntry), ({ clock := 1 }, .record 0 emptyEntry),
    ({ clock := 1 }, .record 0 doneEntry)]

/-- The two valid rows are read, and one more is logged. -/
theorem read_run_twoLogs :
    (run missingBase twoLogs).logged.map (fun r => (r.time, r.runId, r.isValid)) =
      [(2, "a_b", true), (1, "a_b", false), (1, "a_b", true)] ∧
    (∃ (rows : List Row) (w' : World),
      (History.read missingBase.path).runIn ((run missingBase twoLogs).world missingBase {}) = (.ok rows, w') ∧
      rows.length = 2) ∧
    (run missingBase twoLogs).logs[0]? = some ⟨"a_b", { parts := ["history", "a_b"] }⟩ ∧
    Unhindered missingBase { clock := 3 } ⟨"a_b", { parts := ["history", "a_b"] }⟩ doneEntry ∧
    ((run missingBase twoLogs).perform missingBase { clock := 3 } (.record 0 doneEntry)).logged =
      (run missingBase twoLogs).logged ++ [⟨3, "a_b", doneEntry⟩] := by
  obtain ⟨⟨order, rows, w', hread, hrows, hperm, -⟩, hrecord⟩ := read_run missingBase twoLogs {}
  have hopen : (run missingBase twoLogs).logs[0]? = some ⟨"a_b", { parts := ["history", "a_b"] }⟩ := by
    decide +kernel
  have hfree : Unhindered missingBase { clock := 3 } ⟨"a_b", { parts := ["history", "a_b"] }⟩ doneEntry :=
    ⟨by decide +kernel, by decide +kernel, rfl, rfl⟩
  have hvalid : ((run missingBase twoLogs).logged.zipIdx.filter fun r => r.1.isValid).length = 2 := by
    decide +kernel
  have hlogged := hrecord { clock := 3 } 0 ⟨"a_b", { parts := ["history", "a_b"] }⟩ doneEntry hopen hfree
  refine ⟨by decide +kernel, ⟨rows, w', hread, ?_⟩, hopen, hfree, hlogged⟩
  rw [← hrows.length_eq, hperm.length_eq, hvalid]

/-! ### Halves -/

/-- A name of two halves that belong together. -/
def halvesName : LooseText := .broken ⟨[], 0x3D, [.half 0x600]⟩

/-- An attempt that went well, with such a name and the one that its halves make. -/
def halvesEntry : FlatEntry where
  members := doneEntry.members ++ [(halvesName, .int 1), ("😀", .int 2)]
  distinct := by decide
  values := by simp [doneEntry, Json.IsFlat]

/-- A log that is opened. -/
def oneLog : List (World × Call) :=
  [({}, .open_ (some ⟨"a", by decide, by decide⟩))]

/-- **Two names are read as one**: the entry is valid and was logged, and is found without one of its names. -/
theorem read_joins_names :
    (run missingBase (oneLog ++ [({ clock := 1 }, .record 0 halvesEntry)])).logged = [⟨1, "a", halvesEntry⟩] ∧
    problems halvesEntry.members = [] ∧
    ∃ row w' entry, (History.read missingBase.path).runIn
        ((run missingBase (oneLog ++ [({ clock := 1 }, .record 0 halvesEntry)])).world missingBase {}) = (.ok [row], w') ∧
      Json.lookup? row "entry" = some (.object entry) ∧ (halvesName, .int 1) ∈ halvesEntry.members ∧
      ∀ j, (halvesName, j) ∉ entry := by
  have hopen : (run missingBase oneLog).logs[0]? = some ⟨"a", { parts := ["history", "a"] }⟩ := by decide +kernel
  have hfree : Unhindered missingBase { clock := 1 } ⟨"a", { parts := ["history", "a"] }⟩ halvesEntry :=
    ⟨by decide +kernel, by decide +kernel, rfl, rfl⟩
  have hempty : (run missingBase oneLog).logged = [] := List.length_eq_zero_iff.1 (by decide +kernel)
  have hlogged := (holds_run missingBase oneLog).logged_perform hopen hfree
  have hproblems : problems halvesEntry.members = [] := by decide +kernel
  rw [hempty, List.nil_append] at hlogged
  dsimp only at hlogged
  rw [run_concat]
  refine ⟨hlogged, hproblems, ?_⟩
  obtain ⟨order, w', hread, hperm, -⟩ :=
    ((holds_run missingBase oneLog).perform { clock := 1 } (.record 0 halvesEntry)).read {}
  have hvalid : Logged.isValid ⟨1, "a", halvesEntry⟩ = true := decide_eq_true hproblems
  simp only [valid, hlogged, List.zipIdx_singleton, List.filter_cons, hvalid, if_true, List.filter_nil] at hperm
  obtain rfl := List.perm_singleton.1 hperm
  obtain ⟨entry, hlookup, hentry, -⟩ := (Logged.isReadAs_found ⟨1, "a", halvesEntry⟩).lookup_entry
  refine ⟨_, w', entry, hread, hlookup, List.mem_append_right _ List.mem_cons_self, fun j hj => ?_⟩
  obtain ⟨front, m, behind, hsorted, hname, -⟩ := (hentry.mem_iff _ _).1 hj
  have hmem : m ∈ halvesEntry.members :=
    (Json.sortMembers_perm _).mem_iff.1 (hsorted ▸ List.mem_append_right _ List.mem_cons_self)
  have hnone : ∀ m ∈ halvesEntry.members, m.1.joined ≠ halvesName := by decide +kernel
  exact hnone m hmem hname

end Session

end History

end SophiaBind
