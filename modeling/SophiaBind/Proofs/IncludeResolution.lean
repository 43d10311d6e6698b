/-
**Resolving includes is the walk along them.**

The definition of `Source.resolveIncludes` carries fuel and a map that grows. A step of the walk that reads a
file does so under a new name, and all names are written in the code or in a file of the tree; so the fuel,
which is larger than their number, is never used up, and the result is that of the walk's end.

Main results:

* `Source.fuels` — **the recursion goes the way of the walk**, and enough fuel is there for it,
* `Source.ends_resolveIncludes` — the result is that of the walk's end,
* `Source.resolveIncludes_fails_iff` — what following all includes fails with is what a directive on the way fails with,
* `Source.resolveIncludes_walks` — **following all includes comes to an end**, with a closed map, or where a
  directive cannot be followed,
* `Source.resolveIncludes_first` — a name stands for the file of the directive in which it was met first.
-/

import Mathlib.Data.List.Perm.Subperm
import SophiaBind.Proofs.IncludeDirectives
import SophiaBind.Proofs.IncludeWalk
import SophiaBind.Proofs.Results

namespace SophiaBind.Source

/-! ### How many files can be read -/

/-- The names in the directives of a file, if it can be read. -/
def namesIn : Entry → List String
  | .file content =>
    match Files.textOf content with
    | .ok code => directives code
    | .error _ => []
  | .locked _ | .directory => []

/-- The names in the directives of all files that can be read. -/
def writtenNames (files : FileTree) : List String :=
  files.entries.flatMap fun (_, e) => namesIn e

theorem foldl_eq_add_length {f : Nat → Location × Entry → Nat}
    (hf : ∀ count x, f count x = count + (namesIn x.2).length) (entries : List (Location × Entry)) (count : Nat) :
    entries.foldl f count = count + (entries.flatMap fun (_, e) => namesIn e).length := by
  induction entries generalizing count with
  | nil => rfl
  | cons x entries ih =>
      rw [List.foldl_cons, ih, hf, List.flatMap_cons, List.length_append, Nat.add_assoc]

theorem length_writtenNames (files : FileTree) : (writtenNames files).length = countDirectives files := by
  refine (Nat.zero_add _).symm.trans (foldl_eq_add_length (fun count x => ?_) files.entries 0).symm
  obtain ⟨l, e⟩ := x
  cases e with
  | directory | locked _ => rfl
  | file content => cases htext : Files.textOf content <;> simp [namesIn, htext]

variable {files : LinkedTree} {home : Location} {code : String} {w : Walk}

/-- What a file that can be read includes is written in the tree. -/
theorem Directive.LeadsTo.mem_writtenNames {d e : Directive} {here l : Location} (h : d.LeadsTo files l code)
    (he : e ∈ directivesIn here code) : e.name ∈ writtenNames files.files := by
  obtain ⟨-, content, hcontent, htext⟩ := h
  obtain ⟨name, hname, rfl⟩ := List.mem_map.1 he
  obtain ⟨m, hentry⟩ := LinkedTree.exists_entry_of_contentAt? hcontent
  have hlookup : files.files.entries.lookup m = some (.file content) := by
    rw [FileTree.entryAt?] at hentry
    split at hentry
    · cases hentry
    · exact hentry
  obtain ⟨front, behind, hentries, -⟩ := List.lookup_eq_some_iff.1 hlookup
  refine List.mem_flatMap.2 ⟨_, hentries ▸ List.mem_append_right _ List.mem_cons_self, ?_⟩
  dsimp only [namesIn]
  rw [htext]
  exact hname

/-- The names that a walk from a code can meet. -/
def namesAbout (files : LinkedTree) (code : String) : List String :=
  directives code ++ writtenNames files.files

theorem Walk.Accounted.mem_namesAbout {d : Directive} (h : w.Accounted files home code) (hd : w.Holds home code d) :
    d.name ∈ namesAbout files code := by
  rcases hd with hown | ⟨v, hv, hd⟩
  · obtain ⟨name, hname, rfl⟩ := List.mem_map.1 hown
    exact List.mem_append_left _ hname
  · exact List.mem_append_right _ ((h.read v hv).mem_writtenNames hd)

/-- What led to a file that was read stands in the code, or in a file that was read. -/
theorem Walk.Accounted.holds_directive {v : Visit} (h : w.Accounted files home code) (hv : v ∈ w.visits) :
    w.Holds home code v.directive := by
  obtain ⟨front, behind, hvisits⟩ := List.append_of_mem hv
  have hwritten := h.written front v ⟨behind, by rw [hvisits, List.append_assoc, List.singleton_append]⟩
  refine hwritten.imp_right ?_
  rintro ⟨u, hu, hd⟩
  exact ⟨u, hvisits ▸ List.mem_append_left _ hu, hd⟩

/-- **A walk reads no more files than there are names.** -/
theorem Walk.Accounted.length_visits_le (h : w.Accounted files home code) :
    w.visits.length ≤ (namesAbout files code).length := by
  have hsubset : w.names ⊆ namesAbout files code := by
    intro name hname
    obtain ⟨v, hv, rfl⟩ := List.mem_map.1 hname
    exact h.mem_namesAbout (h.holds_directive hv)
  have hle := h.once.length_le_of_subset hsubset
  rwa [Walk.names, List.length_map] at hle

/-! ### The recursion and the walk -/

/-- What becomes of the map at one directive, where `go` resolves the includes of the file that it leads to. -/
def followed (files : LinkedTree) (go : Location → String → IncludeMap → Except Fault IncludeMap) (home : Location)
    (found : IncludeMap) (name : String) : Except Fault IncludeMap :=
  if (found.lookup name).isSome then .ok found
  else do
    let (l, code) ← included files home name
    go l.dropLast code (found ++ [(name, actualContract code)])

theorem includesFrom_succ (files : LinkedTree) (fuel : Nat) (home : Location) (code : String) (found : IncludeMap) :
    includesFrom files (fuel + 1) home code found =
      (directives code).foldlM (followed files (includesFrom files fuel) home) found := rfl

section Followed

variable {go : Location → String → IncludeMap → Except Fault IncludeMap} {d : Directive} {visits : List Visit}

theorem isSome_lookup_entries (name : String) :
    ((visits.map Visit.entry).lookup name).isSome ↔ name ∈ visits.map Visit.name := by
  rw [List.lookup_isSome_iff, List.mem_map]
  constructor
  · rintro ⟨p, hp, hname⟩
    obtain ⟨v, hv, rfl⟩ := List.mem_map.1 hp
    exact ⟨v, hv, (eq_of_beq hname).symm⟩
  · rintro ⟨v, hv, rfl⟩
    exact ⟨v.entry, List.mem_map_of_mem hv, beq_self_eq_true v.name⟩

theorem followed_of_mem (h : d.name ∈ visits.map Visit.name) :
    followed files go d.home (visits.map Visit.entry) d.name = .ok (visits.map Visit.entry) := by
  rw [followed, if_pos ((isSome_lookup_entries _).2 h)]

theorem followed_of_leads {l : Location} (h : d.name ∉ visits.map Visit.name) (hleads : d.LeadsTo files l code) :
    followed files go d.home (visits.map Visit.entry) d.name =
      go l.dropLast code ((visits ++ [(⟨d, l, code⟩ : Visit)]).map Visit.entry) := by
  rw [followed, if_neg (mt (isSome_lookup_entries _).1 h), hleads.included_eq, List.map_append]
  rfl

theorem followed_of_fails {f : Fault} (h : d.name ∉ visits.map Visit.name) (hfails : d.Fails files f) :
    followed files go d.home (visits.map Visit.entry) d.name = .error f := by
  rw [followed, if_neg (mt (isSome_lookup_entries _).1 h), hfails.included_eq]
  rfl

end Followed

/-- What a walk comes to that has only `rest` left to be followed afterwards: this point, or an end before it. -/
inductive Leaves (files : LinkedTree) (w : Walk) (rest : List Directive) : Except Fault IncludeMap → Prop
  | done {met : List Directive} {visits : List Visit} : Reaches files w ⟨rest, met, visits⟩ →
      Leaves files w rest (.ok (visits.map Visit.entry))
  | failed {u : Walk} {f : Fault} : Reaches files w u → Ends files u (.error f) → Leaves files w rest (.error f)

section Leaves

variable {w' : Walk} {rest rest' : List Directive} {result : Except Fault IncludeMap}

theorem Leaves.of_reaches (hreach : Reaches files w w') (h : Leaves files w' rest result) :
    Leaves files w rest result := by
  cases h with
  | done hreach' => exact .done (hreach.trans hreach')
  | failed hreach' hend => exact .failed (hreach.trans hreach') hend

/-- Walks one behind the other. -/
theorem Leaves.bind {next : IncludeMap → Except Fault IncludeMap} (h : Leaves files w rest result)
    (hnext : ∀ {met visits}, Reaches files w ⟨rest, met, visits⟩ →
      Leaves files ⟨rest, met, visits⟩ rest' (next (visits.map Visit.entry))) :
    Leaves files w rest' (result >>= next) := by
  cases h with
  | done hreach => exact .of_reaches hreach (hnext hreach)
  | failed hreach hend => exact .failed hreach hend

/-- A walk after which nothing is left has come to its end. -/
theorem Leaves.ends (h : Leaves files w [] result) : ∃ u, Reaches files w u ∧ Ends files u result := by
  cases h with
  | done hreach => exact ⟨_, hreach, .done rfl⟩
  | failed hreach hend => exact ⟨_, hreach, hend⟩

end Leaves

section Fuel

/-- The fuel is enough for a walk that goes on from here. -/
def Fuels (files : LinkedTree) (home : Location) (code : String) (fuel : Nat) : Prop :=
  ∀ {here text rest met visits}, Reaches files (.start home code) ⟨directivesIn here text ++ rest, met, visits⟩ →
    (namesAbout files code).length < fuel + visits.length →
    Leaves files ⟨directivesIn here text ++ rest, met, visits⟩ rest
      (includesFrom files fuel here text (visits.map Visit.entry))

/-- One directive is one step, and the walk through the file that it leads to. -/
theorem Fuels.followed {fuel : Nat} (hinner : Fuels files home code fuel) {d : Directive} {rest met : List Directive}
    {visits : List Visit} (hstart : Reaches files (.start home code) ⟨d :: rest, met, visits⟩)
    (hfuel : (namesAbout files code).length < fuel + 1 + visits.length) :
    Leaves files ⟨d :: rest, met, visits⟩ rest
      (followed files (includesFrom files fuel) d.home (visits.map Visit.entry) d.name) := by
  by_cases hname : d.name ∈ visits.map Visit.name
  · rw [followed_of_mem hname]
    exact .done (.single (.pass hname))
  · rcases d.leads_or_fails files with ⟨l, text, hleads⟩ | ⟨f, hfails⟩
    · have hstep : Step files ⟨d :: rest, met, visits⟩
          ⟨directivesIn l.dropLast text ++ rest, met ++ [d], visits ++ [⟨d, l, text⟩]⟩ := .visit hname hleads
      rw [followed_of_leads hname hleads]
      refine .of_reaches (.single hstep) (hinner (hstart.tail hstep) ?_)
      rw [List.length_append, List.length_singleton]
      omega
    · rw [followed_of_fails hname hfails]
      exact .failed .refl (.failed rfl hname hfails)

/-- The directives of one code, one after the other. -/
theorem Fuels.foldlM {fuel : Nat} (hinner : Fuels files home code fuel) {here : Location} (names : List String)
    {rest met : List Directive} {visits : List Visit}
    (hstart : Reaches files (.start home code) ⟨names.map (⟨here, ·⟩) ++ rest, met, visits⟩)
    (hfuel : (namesAbout files code).length < fuel + 1 + visits.length) :
    Leaves files ⟨names.map (⟨here, ·⟩) ++ rest, met, visits⟩ rest
      (names.foldlM (Source.followed files (includesFrom files fuel) here) (visits.map Visit.entry)) := by
  induction names generalizing met visits with
  | nil => exact .done .refl
  | cons name names ih =>
      rw [List.foldlM_cons]
      refine (hinner.followed hstart hfuel).bind fun {met' visits'} hreach => ih (hstart.trans hreach) ?_
      have hle := hreach.prefix_visits.length_le
      dsimp only at hle
      omega

/-- **The recursion goes the way of the walk**, and enough fuel is there for it. -/
theorem fuels (files : LinkedTree) (home : Location) (code : String) (fuel : Nat) : Fuels files home code fuel := by
  induction fuel with
  | zero =>
      -- there are as many names as files read, or more
      intro here text rest met visits hstart hfuel
      have hle := hstart.accounted.length_visits_le
      dsimp only at hle
      omega
  | succ fuel ih =>
      intro here text rest met visits hstart hfuel
      rw [includesFrom_succ]
      exact ih.foldlM (directives text) hstart hfuel

end Fuel

/-- **The result is that of the walk's end.** -/
theorem ends_resolveIncludes (files : LinkedTree) (home : Location) (code : String) :
    ∃ w, Reaches files (.start home code) w ∧ Ends files w (resolveIncludes files home code) := by
  have hstart : Reaches files (.start home code) ⟨directivesIn home code ++ [], [], []⟩ := by
    rw [List.append_nil]
    exact .refl
  have hfuel : (namesAbout files code).length < (directives code).length + countDirectives files.files + 1 + 0 := by
    rw [namesAbout, List.length_append, length_writtenNames]
    omega
  obtain ⟨w, hreach, hend⟩ := (fuels files home code _ hstart hfuel).ends
  exact ⟨w, hstart.trans hreach, hend⟩

/-! ### What is resolved -/

/-- The walk from a code comes upon a directive with a new name. -/
def Meets (files : LinkedTree) (home : Location) (code : String) (d : Directive) : Prop :=
  ∃ u pending, Reaches files (.start home code) u ∧ u.pending = d :: pending ∧ d.name ∉ u.names

/-- The names in the directives that a walk holds are those with which lines begin, in the code or in a file read. -/
theorem Walk.exists_holds_iff {name : String} :
    (∃ d, w.Holds home code d ∧ d.name = name) ↔ Includes code name ∨ ∃ v ∈ w.visits, Includes v.code name := by
  have hdirectives : ∀ here text, (∃ d ∈ directivesIn here text, d.name = name) ↔ Includes text name := by
    intro here text
    rw [← mem_directives_iff]
    simp [directivesIn]
  rw [← hdirectives home code]
  constructor
  · rintro ⟨d, hown | ⟨v, hv, hd⟩, hname⟩
    · exact .inl ⟨d, hown, hname⟩
    · exact .inr ⟨v, hv, (hdirectives _ v.code).1 ⟨d, hd, hname⟩⟩
  · rintro (⟨d, hown, hname⟩ | ⟨v, hv, hincludes⟩)
    · exact ⟨d, .inl hown, hname⟩
    · obtain ⟨d, hd, hname⟩ := (hdirectives v.location.dropLast v.code).2 hincludes
      exact ⟨d, .inr ⟨v, hv, hd⟩, hname⟩

/-- Where nothing is left, the names read are those in the directives of the code and of the files read. -/
theorem Walk.Accounted.mem_names_iff {name : String} (h : w.Accounted files home code) (hend : w.pending = []) :
    name ∈ w.names ↔ Includes code name ∨ ∃ v ∈ w.visits, Includes v.code name := by
  refine Iff.trans ?_ (Walk.exists_holds_iff : (∃ d, w.Holds home code d ∧ d.name = name) ↔ _)
  constructor
  · intro hname
    obtain ⟨v, hv, rfl⟩ := List.mem_map.1 hname
    exact ⟨v.directive, h.holds_directive hv, rfl⟩
  · rintro ⟨d, hd, rfl⟩
    exact h.closed hend hd

section Resolved

variable {f : Fault}

/-- A result is that of the walk's end, and of no other files. -/
theorem resolveIncludes_agree {files' : LinkedTree} (hreach : Reaches files (.start home code) w)
    (hend : Ends files w (resolveIncludes files home code))
    (hvisits : ∀ v ∈ w.visits, v.directive.LeadsTo files' v.location v.code)
    (hnext : ∀ d ∈ w.pending.head?, ∀ f, d.Fails files f → d.Fails files' f) :
    resolveIncludes files' home code = resolveIncludes files home code := by
  obtain ⟨w', hreach', hend'⟩ := ends_resolveIncludes files' home code
  obtain rfl := hend'.eq hreach' (hend.agree hnext) (hreach.agree hvisits)
  exact hend'.unique (hend.agree hnext)

/-- **What it fails with is what a directive on the way fails with.** -/
theorem resolveIncludes_fails_iff :
    resolveIncludes files home code = .error f ↔ ∃ d, Meets files home code d ∧ d.Fails files f := by
  obtain ⟨w, hreach, hend⟩ := ends_resolveIncludes files home code
  constructor
  · intro hresult
    rw [hresult] at hend
    cases hend with
    | failed hpending hnew hfails => exact ⟨_, ⟨w, _, hreach, hpending, hnew⟩, hfails⟩
  · rintro ⟨d, ⟨u, pending, hu, hpending, hnew⟩, hfails⟩
    have hfailed : Ends files u (.error f) := .failed hpending hnew hfails
    obtain rfl := hend.eq hreach hfailed hu
    exact hend.unique hfailed

/-- A file is missing exactly where the walk comes upon a directive that names a location where none can be read. -/
theorem resolveIncludes_missing_iff :
    (∃ written resolved, resolveIncludes files home code = .error (.missingInclude written resolved)) ↔
      ∃ d, Meets files home code d ∧ d.Missing files := by
  constructor
  · rintro ⟨written, resolved, hresult⟩
    obtain ⟨d, hmeets, hfails⟩ := resolveIncludes_fails_iff.1 hresult
    exact ⟨d, hmeets, hfails.missing_of⟩
  · rintro ⟨d, hmeets, l, hl, hnone⟩
    exact ⟨_, _, resolveIncludes_fails_iff.2 ⟨d, hmeets, .missing hl hnone⟩⟩

/-- A path is at fault exactly where the walk comes upon a directive whose path cannot be resolved. -/
theorem resolveIncludes_unresolved_iff (hf : LinkedTree.Unresolvable f) :
    resolveIncludes files home code = .error f ↔ ∃ d, Meets files home code d ∧ d.target files = .error f := by
  rw [resolveIncludes_fails_iff]
  exact exists_congr fun d => and_congr_right fun _ => ⟨fun h => h.unresolved_of hf, .unresolved⟩

end Resolved

/-! ### Where all paths can be resolved -/

/-- All components of a directive's path can be handed to the system, from the root on. -/
def Directive.Usable (d : Directive) : Prop :=
  (∀ part ∈ d.home, LinkedTree.isUsable part = true) ∧
    ∀ part ∈ (Path.ofString d.name).parts, LinkedTree.isUsable part = true

/-- A file's name in a directive can be handed to the system. -/
theorem usable_of_mem {d : Directive} (hhome : ∀ part ∈ home, LinkedTree.isUsable part = true)
    (hd : d ∈ directivesIn home code) : d.Usable := by
  obtain ⟨name, hname, rfl⟩ := List.mem_map.1 hd
  obtain ⟨_, _, _, _, _, -, -, hdirects⟩ := mem_directives_iff.1 hname
  refine ⟨hhome, fun part hpart => List.all_eq_true.2 fun c hc => ?_⟩
  have hchar : isFileChar c = true := hdirects.name.2 c (Path.mem_of_mem_parts hpart hc)
  rw [bne_iff_ne]
  intro hzero
  obtain rfl : c = '\x00' := Char.toNat_inj.1 hzero
  exact absurd hchar (by decide)

/-- Without links, a walk from a directory that can be handed to the system comes upon usable directives only. -/
theorem Reaches.usable (hlinks : files.links = []) (hhome : ∀ part ∈ home, LinkedTree.isUsable part = true)
    (h : Reaches files (.start home code) w) : ∀ d ∈ w.pending, d.Usable := by
  induction h with
  | refl => exact fun d hd => usable_of_mem hhome hd
  | tail _ hstep ih =>
      cases hstep with
      | pass _ => exact fun d hd => ih d (List.mem_cons_of_mem _ hd)
      | @visit e pending met visits l text _ hleads =>
          intro d hd
          rcases List.mem_append.1 hd with hown | hpending
          · have husable := ih e List.mem_cons_self
            obtain ⟨l', hl', hparts⟩ := LinkedTree.resolve_of_no_links hlinks husable.1 husable.2
            obtain rfl : l' = l := Except.ok.inj (hl'.symm.trans hleads.1)
            exact usable_of_mem (fun part hpart => hparts part (List.dropLast_subset l' hpart)) hown
          · exact ih d (List.mem_cons_of_mem _ hpending)

/-- Where all files are texts, nothing fails but for a file that is missing, or a path that cannot be resolved. -/
theorem missing_or_unresolved {f : Fault}
    (htexts : ∀ m content, files.files.entryAt? m = some (.file content) → ∃ text, Files.textOf content = .ok text)
    (h : resolveIncludes files home code = .error f) :
    (∃ written resolved, f = .missingInclude written resolved) ∨ LinkedTree.Unresolvable f := by
  obtain ⟨d, -, hfails⟩ := resolveIncludes_fails_iff.1 h
  cases hfails with
  | unresolved hl => exact .inr (LinkedTree.resolve_eq_error hl)
  | missing _ _ => exact .inl ⟨_, _, rfl⟩
  | garbled _ hcontent herror =>
      obtain ⟨m, hentry⟩ := LinkedTree.exists_entry_of_contentAt? hcontent
      obtain ⟨text, htext⟩ := htexts m _ hentry
      cases htext.symm.trans herror

/-- Without links, no path of a directive is at fault. -/
theorem not_unresolved {f : Fault} (hlinks : files.links = [])
    (hhome : ∀ part ∈ home, LinkedTree.isUsable part = true) (h : resolveIncludes files home code = .error f) :
    ¬LinkedTree.Unresolvable f := by
  intro hf
  obtain ⟨d, ⟨u, pending, hu, hpending, -⟩, htarget⟩ := (resolveIncludes_unresolved_iff hf).1 h
  have husable := hu.usable hlinks hhome d (hpending ▸ List.mem_cons_self)
  obtain ⟨l, hl, -⟩ := LinkedTree.resolve_of_no_links hlinks husable.1 husable.2
  cases hl.symm.trans htarget

/-! ### The end -/

/-- **Following all includes comes to an end.** The walk from a code has one end, to which every way leads. It reads
one file for a name, which is written in the code or in a file read before, and the result depends on no other file.
A map that is found has the names with which lines of the code and of the files read begin as directives, and no
others, each with the file that was read for it. A file is missing exactly where the walk comes upon a directive that
names a location where none can be read, and a path is at fault exactly where it comes upon one whose path cannot be
resolved; where all files are texts, nothing else fails, and without links no path is at fault. -/
theorem resolveIncludes_walks (files : LinkedTree) (home : Location) (code : String) :
    ∃ w : Walk,
      (Reaches files (.start home code) w ∧ (∀ u, Reaches files (.start home code) u → Reaches files u w) ∧
        ∀ u, ¬Step files w u) ∧
      w.Accounted files home code ∧
      (∀ found, resolveIncludes files home code = .ok found →
        found = w.visits.map (fun v => (v.directive.name, actualContract v.code)) ∧
          ∀ name, name ∈ found.map Prod.fst ↔ Includes code name ∨ ∃ v ∈ w.visits, Includes v.code name) ∧
      ((∃ written resolved, resolveIncludes files home code = .error (.missingInclude written resolved)) ↔
        ∃ d, Meets files home code d ∧ d.Missing files) ∧
      (∀ f, LinkedTree.Unresolvable f →
        (resolveIncludes files home code = .error f ↔ ∃ d, Meets files home code d ∧ d.target files = .error f)) ∧
      ((∀ m content, files.files.entryAt? m = some (.file content) → ∃ text, Files.textOf content = .ok text) →
        ∀ f, resolveIncludes files home code = .error f →
          ((∃ written resolved, f = .missingInclude written resolved) ∨ LinkedTree.Unresolvable f) ∧
            (files.links = [] → (∀ part ∈ home, LinkedTree.isUsable part = true) →
              ∃ written resolved, f = .missingInclude written resolved)) ∧
      ∀ files' : LinkedTree,
        (∀ v ∈ w.visits, v.directive.LeadsTo files' v.location v.code) →
        (∀ d ∈ w.pending.head?, ∀ f, d.Fails files f → d.Fails files' f) →
        resolveIncludes files' home code = resolveIncludes files home code := by
  obtain ⟨w, hreach, hend⟩ := ends_resolveIncludes files home code
  have haccounted := hreach.accounted
  refine ⟨w, ⟨hreach, fun u hu => hend.reaches hreach hu, fun u => hend.not_step⟩, haccounted, ?_,
    resolveIncludes_missing_iff, fun f hf => resolveIncludes_unresolved_iff hf, fun htexts f hf => ?_,
    fun files' hvisits hnext => resolveIncludes_agree hreach hend hvisits hnext⟩
  · intro found hfound
    rw [hfound] at hend
    cases hend with
    | done hpending =>
        refine ⟨rfl, fun name => ?_⟩
        rw [w.map_fst_found]
        exact haccounted.mem_names_iff hpending
  · have hcases := missing_or_unresolved htexts hf
    exact ⟨hcases, fun hlinks hhome => hcases.resolve_right (not_unresolved hlinks hhome hf)⟩

/-- A link that leads to itself. -/
def loopTree : LinkedTree where
  links := [(["loop.aes"], { parts := ["loop.aes"] })]

/-- A code that includes it. -/
def loopUser : String := "include \"loop.aes\"\n"

/-- **Where no file can be read it may be the path that is at fault**: the walk comes upon a directive in a tree without
any file, and the link of that name leads round; and a directory may have a name that cannot be handed to the
system. -/
theorem resolveIncludes_linkLoop :
    Includes loopUser "loop.aes" ∧ Meets loopTree [] loopUser ⟨[], "loop.aes"⟩ ∧
      (∀ l, loopTree.contentAt? l = none) ∧
      resolveIncludes loopTree [] loopUser = .error (.linkLoop "/loop.aes") ∧
      resolveIncludes {} ["x\x00y"] loopUser = .error (.badPath "embedded null byte") := by
  have hdirectives (home : Location) : directivesIn home loopUser = [⟨home, "loop.aes"⟩] :=
    congrArg (List.map (Directive.mk home)) (by decide +kernel : directives loopUser = ["loop.aes"])
  have hmeets (files : LinkedTree) (home : Location) : Meets files home loopUser ⟨home, "loop.aes"⟩ :=
    ⟨_, [], .refl, hdirectives home, List.not_mem_nil⟩
  have hround : LinkedTree.real loopTree.links 2 [] [] ["loop.aes"] = .error (.round ["loop.aes"]) := by decide +kernel
  have hmany : loopTree.locate ["loop.aes"] = .error .tooManyLinks := by decide +kernel
  have hnull : LinkedTree.real [] 1 [] [] ["x\x00y", "loop.aes"] = .error .nullByte := by decide +kernel
  refine ⟨mem_directives_iff.1 (by decide +kernel), hmeets loopTree [], fun l => ?_, ?_, ?_⟩
  · -- there is no file
    rw [Option.eq_none_iff_forall_ne_some]
    intro content hcontent
    obtain ⟨m, hentry⟩ := LinkedTree.exists_entry_of_contentAt? hcontent
    rw [FileTree.entryAt?] at hentry
    split at hentry <;> cases hentry
  · rw [resolveIncludes_unresolved_iff (.inl ⟨_, rfl⟩)]
    refine ⟨_, hmeets loopTree [], LinkedTree.resolve_eq_linkLoop hround (by decide +kernel) hmany⟩
  · rw [resolveIncludes_unresolved_iff (.inr rfl)]
    refine ⟨_, hmeets {} ["x\x00y"], LinkedTree.resolve_eq_badPath hnull⟩

/-! ### Which file a name stands for -/

theorem find?_and_lookup {name : String} {visits : List Visit} (h : name ∈ visits.map Visit.name) :
    ∃ v ∈ visits, (visits.map Visit.directive).find? (·.name = name) = some v.directive ∧
      (visits.map Visit.entry).lookup name = some (actualContract v.code) := by
  induction visits with
  | nil => cases h
  | cons v visits ih =>
      by_cases hv : v.directive.name = name
      · refine ⟨v, List.mem_cons_self, ?_, ?_⟩
        · exact List.find?_cons_of_pos (decide_eq_true hv)
        · rw [List.map_cons, Visit.entry, Visit.name, List.lookup_cons, hv, beq_self_eq_true]
      · have hrest : name ∈ visits.map Visit.name := (List.mem_cons.1 h).resolve_left (Ne.symm hv)
        obtain ⟨u, hu, hfind, hlookup⟩ := ih hrest
        refine ⟨u, List.mem_cons_of_mem v hu, ?_, ?_⟩
        · exact (List.find?_cons_of_neg (by simpa using hv)).trans hfind
        · rwa [List.map_cons, Visit.entry, Visit.name, List.lookup_cons, beq_false_of_ne (Ne.symm hv)]

/-- **A name stands for the file of the directive in which it was met first**, wherever else it is written. -/
theorem resolveIncludes_first {files : LinkedTree} {home : Location} {code : String} {found : IncludeMap}
    (h : resolveIncludes files home code = .ok found) :
    ∃ w, Reaches files (.start home code) w ∧ w.pending = [] ∧
      ∀ d, w.Holds home code d → ∃ first contents,
        w.met.find? (·.name = d.name) = some first ∧ first.Leads files contents ∧
          found.lookup d.name = some (actualContract contents) ∧
          (first.target files = d.target files → d.Leads files contents) := by
  obtain ⟨w, hreach, hend⟩ := ends_resolveIncludes files home code
  have haccounted := hreach.accounted
  rw [h] at hend
  cases hend with
  | done hpending =>
      refine ⟨w, hreach, hpending, fun d hd => ?_⟩
      obtain ⟨v, hv, hfind, hlookup⟩ := find?_and_lookup (haccounted.closed hpending hd)
      have hleads := haccounted.read v hv
      refine ⟨v.directive, v.code, (haccounted.first d.name).trans hfind, ⟨v.location, hleads⟩, hlookup, ?_⟩
      intro htarget
      exact ⟨v.location, htarget ▸ hleads.1, hleads.2⟩

/-- A library beside its own `Util.aes`, and another file of that name beside the code that includes both. -/
def twoUtils : LinkedTree where
  files := ⟨[(["lib"], .directory), (["lib", "A.aes"], .file (Utf8.encode "include \"Util.aes\"\ncontract A =\n".toList)),
    (["lib", "Util.aes"], .file (Utf8.encode "contract LibUtil =\n".toList)),
    (["Util.aes"], .file (Utf8.encode "contract Util =\n".toList))]⟩

/-- A code that includes the library and the file beside it. -/
def utilUser : String := "include \"lib/A.aes\"\ninclude \"Util.aes\"\ncontract Main =\n"

/-- What is found of them. -/
def utilsFound : IncludeMap :=
  [("lib/A.aes", "contract A =\n"), ("Util.aes", "contract LibUtil =\n")]

theorem resolveIncludes_twoUtils : resolveIncludes twoUtils [] utilUser = .ok utilsFound :=
  Except.eq_ok_of_toOption (by decide +kernel)

theorem resolveIncludes_first_twoUtils :
    resolveIncludes twoUtils [] utilUser = .ok utilsFound ∧
    ∃ w, Reaches twoUtils (.start [] utilUser) w ∧ w.pending = [] ∧
      ∀ d, w.Holds [] utilUser d → ∃ first contents,
        w.met.find? (·.name = d.name) = some first ∧ first.Leads twoUtils contents ∧
          utilsFound.lookup d.name = some (actualContract contents) ∧
          (first.target twoUtils = d.target twoUtils → d.Leads twoUtils contents) :=
  ⟨resolveIncludes_twoUtils, resolveIncludes_first resolveIncludes_twoUtils⟩

/-- **A directive may find the file of another one**: the code's own `Util.aes` is not the one that is found. -/
theorem resolveIncludes_other_file :
    ∃ found, resolveIncludes twoUtils [] utilUser = .ok found ∧
      ⟨[], "Util.aes"⟩ ∈ directivesIn [] utilUser ∧
      (⟨[], "Util.aes"⟩ : Directive).Leads twoUtils "contract Util =\n" ∧
      found.lookup "Util.aes" = some "contract LibUtil =\n" ∧
      found.lookup "Util.aes" ≠ some (actualContract "contract Util =\n") :=
  ⟨utilsFound, resolveIncludes_twoUtils, by decide +kernel,
    ⟨["Util.aes"], Except.eq_ok_of_toOption (by decide +kernel), Utf8.encode "contract Util =\n".toList, by decide +kernel,
      Except.eq_ok_of_toOption (by decide +kernel)⟩,
    by decide +kernel, by decide +kernel⟩

end SophiaBind.Source
