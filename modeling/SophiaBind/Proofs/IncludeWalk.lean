/-
**Following the includes of a code**, one directive after the other.

A walk keeps the directives that are still to be followed, with the next one in front. A directive whose name
was followed before is passed over; any other one leads to a file, whose own directives come first from then
on. So the walk goes into the depth first, and follows each name where it is met first. It ends where nothing
is left, or before a directive with a new name that cannot be followed: its path cannot be resolved, or no file can be
read where it leads, or one that is no text.

Main definitions:

* `Source.Directive`, `Source.Visit` — a directive with the directory that it is written in, and a file read
  because of one,
* `Source.Directive.LeadsTo`, `Source.Directive.Fails` — what a directive leads to, or why it cannot be followed,
* `Source.Walk`, `Source.Step`, `Source.Reaches` — how a walk stands, one step of it, and many,
* `Source.Ends` — where a walk ends, and with which result,
* `Source.Walk.Accounted` — what is known of a walk from a code.

Main results:

* `Source.Directive.leads_or_fails` — **a directive is followed, or cannot be**,
* `Source.Ends.reaches` — **a walk has one end**, to which every way leads,
* `Source.Walk.Accounted.step`, `Source.Reaches.accounted` — **what a step keeps, and so every walk**,
* `Source.Reaches.agree` — a walk depends on no other files than those that it reads.
-/

import Mathlib.Data.List.Basic
import Mathlib.Logic.Relation
import SophiaBind.Proofs.LinkedPaths
import SophiaBind.Source

namespace SophiaBind.Source

/-! ### Directives -/

/-- A directive: the directory of the code that it stands in, and the file's name as written. -/
structure Directive where
  home : Location
  name : String
  deriving DecidableEq, Repr

/-- The directives of a code in a directory. -/
def directivesIn (home : Location) (code : String) : List Directive :=
  (directives code).map fun name => ⟨home, name⟩

namespace Directive

/-- The location that a directive names, from the directory that it is written in, if it can be resolved. -/
def target (files : LinkedTree) (d : Directive) : Except Fault Location :=
  files.resolve d.home (Path.ofString d.name)

/-- A directive names a location, and the file there can be read and is the text of a code. -/
def LeadsTo (files : LinkedTree) (d : Directive) (l : Location) (code : String) : Prop :=
  d.target files = .ok l ∧ ∃ content, files.contentAt? l = some content ∧ Files.textOf content = .ok code

/-- The file that a directive names is the text of a code. -/
def Leads (files : LinkedTree) (d : Directive) (code : String) : Prop :=
  ∃ l, d.LeadsTo files l code

/-- A directive names a location where no file can be read. -/
def Missing (files : LinkedTree) (d : Directive) : Prop :=
  ∃ l, d.target files = .ok l ∧ files.contentAt? l = none

/-- A directive that cannot be followed, and why: its path cannot be resolved, or no file can be read where it leads,
or one that is no text. -/
inductive Fails (files : LinkedTree) (d : Directive) : Fault → Prop
  | unresolved {f : Fault} : d.target files = .error f → Fails files d f
  | missing {l : Location} : d.target files = .ok l → files.contentAt? l = none →
      Fails files d (.missingInclude d.name (FileTree.pathOf l).toString)
  | garbled {l : Location} {content : Bytes} {f : Fault} : d.target files = .ok l →
      files.contentAt? l = some content → Files.textOf content = .error f → Fails files d f

variable {files : LinkedTree} {d : Directive} {l : Location} {code : String} {f : Fault}

/-- A directive is followed where it leads. -/
theorem LeadsTo.included_eq (h : d.LeadsTo files l code) : included files d.home d.name = .ok (l, code) := by
  obtain ⟨hl, content, hcontent, htext⟩ := h
  rw [target] at hl
  simp [included, hl, hcontent, htext, bind, Except.bind, pure, Except.pure]

/-- It cannot be followed where it fails. -/
theorem Fails.included_eq (h : d.Fails files f) : included files d.home d.name = .error f := by
  cases h with
  | unresolved hl =>
      rw [target] at hl
      simp [included, hl, bind, Except.bind]
  | missing hl hnone =>
      rw [target] at hl
      simp [included, hl, hnone, bind, Except.bind, throw, throwThe, MonadExceptOf.throw]
  | garbled hl hcontent htext =>
      rw [target] at hl
      simp [included, hl, hcontent, htext, bind, Except.bind]

/-- **A directive is followed, or cannot be.** -/
theorem leads_or_fails (files : LinkedTree) (d : Directive) :
    (∃ l code, d.LeadsTo files l code) ∨ ∃ f, d.Fails files f := by
  cases hl : d.target files with
  | error f => exact .inr ⟨f, .unresolved hl⟩
  | ok l =>
      cases hcontent : files.contentAt? l with
      | none => exact .inr ⟨_, .missing hl hcontent⟩
      | some content =>
          cases htext : Files.textOf content with
          | error f => exact .inr ⟨f, .garbled hl hcontent htext⟩
          | ok code => exact .inl ⟨l, code, hl, content, hcontent, htext⟩

theorem LeadsTo.unique {l' : Location} {code' : String} (h : d.LeadsTo files l code) (h' : d.LeadsTo files l' code') :
    l = l' ∧ code = code' :=
  Prod.mk.inj (Except.ok.inj (h.included_eq.symm.trans h'.included_eq))

theorem LeadsTo.not_fails (h : d.LeadsTo files l code) : ¬d.Fails files f := by
  intro hfails
  cases h.included_eq.symm.trans hfails.included_eq

theorem Fails.unique {g : Fault} (h : d.Fails files f) (h' : d.Fails files g) : f = g :=
  Except.error.inj (h.included_eq.symm.trans h'.included_eq)

/-- A file that is no text fails with the malformed bytes. -/
theorem eq_notUtf8_of_textOf {content : Bytes} (h : Files.textOf content = .error f) : ∃ why, f = .notUtf8 why := by
  rw [Files.textOf] at h
  split at h
  · cases h
  · cases h
    exact ⟨_, rfl⟩

/-- **A file counts as missing where none can be read**, not where the path cannot be resolved. -/
theorem Fails.missing_of {written resolved : String} (h : d.Fails files (.missingInclude written resolved)) :
    d.Missing files := by
  cases h with
  | unresolved hl =>
      obtain ⟨path, hloop⟩ | hpath := LinkedTree.resolve_eq_error hl
      · cases hloop
      · cases hpath
  | missing hl hnone => exact ⟨_, hl, hnone⟩
  | garbled _ _ htext =>
      obtain ⟨why, hwhy⟩ := eq_notUtf8_of_textOf htext
      cases hwhy

/-- A path is at fault where it cannot be resolved. -/
theorem Fails.unresolved_of (h : d.Fails files f) (hf : LinkedTree.Unresolvable f) : d.target files = .error f := by
  cases h with
  | unresolved hl => exact hl
  | missing _ _ => obtain ⟨path, hloop⟩ | hpath := hf <;> contradiction
  | garbled _ _ htext =>
      obtain ⟨why, rfl⟩ := eq_notUtf8_of_textOf htext
      obtain ⟨path, hloop⟩ | hpath := hf <;> contradiction

end Directive

/-! ### Walks -/

/-- A file that was read: the directive that led to it, where it is, and its text. -/
structure Visit where
  directive : Directive
  location : Location
  code : String

namespace Visit

/-- The name under which a file was read. -/
def name (v : Visit) : String :=
  v.directive.name

/-- The directives of a file that was read, which stand in its directory. -/
def directives (v : Visit) : List Directive :=
  directivesIn v.location.dropLast v.code

/-- What is known to the compiler of a file that was read. -/
def entry (v : Visit) : String × String :=
  (v.name, actualContract v.code)

end Visit

/-- How a walk stands: the directives that are to be followed, those that were met in order, and the files read. -/
structure Walk where
  pending : List Directive
  met : List Directive := []
  visits : List Visit := []

namespace Walk

/-- The names under which files were read. -/
def names (w : Walk) : List String :=
  w.visits.map Visit.name

/-- What was found. -/
def found (w : Walk) : IncludeMap :=
  w.visits.map Visit.entry

/-- The beginning of the walk from a code in a directory. -/
def start (home : Location) (code : String) : Walk :=
  { pending := directivesIn home code }

/-- A directive stands in the code where a walk begins, or in a file that was read. -/
def Holds (home : Location) (code : String) (w : Walk) (d : Directive) : Prop :=
  d ∈ directivesIn home code ∨ ∃ v ∈ w.visits, d ∈ v.directives

/-- A file that is read brings its directives. -/
theorem holds_concat {home : Location} {code : String} {pending pending' met met' : List Directive}
    {visits : List Visit} {v : Visit} {d : Directive} :
    Holds home code ⟨pending', met', visits ++ [v]⟩ d ↔
      Holds home code ⟨pending, met, visits⟩ d ∨ d ∈ v.directives := by
  simp [Holds, or_and_right, exists_or, or_assoc]

theorem map_fst_found (w : Walk) : w.found.map Prod.fst = w.names := by
  rw [found, List.map_map]
  rfl

end Walk

/-- One step of a walk: the next directive is passed over, or the file that it leads to is read. -/
inductive Step (files : LinkedTree) : Walk → Walk → Prop
  | pass {d : Directive} {pending met : List Directive} {visits : List Visit} :
      d.name ∈ visits.map Visit.name →
      Step files ⟨d :: pending, met, visits⟩ ⟨pending, met ++ [d], visits⟩
  | visit {d : Directive} {pending met : List Directive} {visits : List Visit} {l : Location} {code : String} :
      d.name ∉ visits.map Visit.name → d.LeadsTo files l code →
      Step files ⟨d :: pending, met, visits⟩
        ⟨(⟨d, l, code⟩ : Visit).directives ++ pending, met ++ [d], visits ++ [⟨d, l, code⟩]⟩

/-- A walk comes from one state to another. -/
abbrev Reaches (files : LinkedTree) : Walk → Walk → Prop :=
  Relation.ReflTransGen (Step files)

/-- Where a walk ends: nothing is left, or the next directive has a new name and cannot be followed. -/
inductive Ends (files : LinkedTree) (w : Walk) : Except Fault IncludeMap → Prop
  | done : w.pending = [] → Ends files w (.ok w.found)
  | failed {d : Directive} {pending : List Directive} {f : Fault} : w.pending = d :: pending → d.name ∉ w.names →
      d.Fails files f → Ends files w (.error f)

section Ends

variable {files : LinkedTree} {w w' u : Walk} {result result' : Except Fault IncludeMap}

theorem rightUnique_step : Relator.RightUnique (Step files) := by
  intro w w' w'' h h'
  cases h with
  | pass hname =>
      cases h' with
      | pass _ => rfl
      | visit hnew _ => exact absurd hname hnew
  | visit hnew hleads =>
      cases h' with
      | pass hname => exact absurd hname hnew
      | visit _ hleads' =>
          obtain ⟨rfl, rfl⟩ := hleads.unique hleads'
          rfl

theorem Ends.not_step (h : Ends files w result) : ¬Step files w w' := by
  intro hstep
  cases h with
  | done hpending => cases hstep <;> cases hpending
  | failed hpending hnew hfails =>
      cases hstep with
      | pass hname => cases hpending; exact hnew hname
      | visit _ hleads => cases hpending; exact hleads.not_fails hfails

theorem Ends.unique (h : Ends files w result) (h' : Ends files w result') : result = result' := by
  cases h with
  | done hpending =>
      cases h' with
      | done _ => rfl
      | failed hpending' _ _ => cases hpending.symm.trans hpending'
  | failed hpending _ hfails =>
      cases h' with
      | done hpending' => cases hpending'.symm.trans hpending
      | failed hpending' _ hfails' =>
          obtain ⟨rfl, -⟩ := List.cons.inj (hpending.symm.trans hpending')
          rw [hfails.unique hfails']

/-- **A walk has one end**, to which every way leads. -/
theorem Ends.reaches {start : Walk} (h : Ends files w result) (hw : Reaches files start w)
    (hu : Reaches files start u) : Reaches files u w := by
  rcases Relation.ReflTransGen.total_of_right_unique rightUnique_step hw hu with hwu | huw
  · rcases hwu.cases_head with rfl | ⟨w', hstep, -⟩
    · exact .refl
    · exact absurd hstep h.not_step
  · exact huw

/-- Two ends of a walk are the same. -/
theorem Ends.eq {start : Walk} (h : Ends files w result) (hw : Reaches files start w) (h' : Ends files u result')
    (hu : Reaches files start u) : w = u := by
  rcases (h.reaches hw hu).cases_head with rfl | ⟨u', hstep, -⟩
  · rfl
  · exact absurd hstep h'.not_step

end Ends

/-! ### What a walk keeps -/

/-- What is known of a walk from a code in a directory. -/
structure Walk.Accounted (files : LinkedTree) (home : Location) (code : String) (w : Walk) : Prop where
  /-- No name leads to a second reading. -/
  once : w.names.Nodup
  /-- What was read is the file that the directive leads to. -/
  read : ∀ v ∈ w.visits, v.directive.LeadsTo files v.location v.code
  /-- The directive stands in the code, or in a file that was read before. -/
  written : ∀ front v, front ++ [v] <+: w.visits →
    v.directive ∈ directivesIn home code ∨ ∃ u ∈ front, v.directive ∈ u.directives
  /-- The directives of the code and of all files read are those that were met, and those that are left. -/
  held : ∀ d, w.Holds home code d ↔ d ∈ w.met ∨ d ∈ w.pending
  /-- A name leads to the file of the directive in which it was met first. -/
  first : ∀ name, w.met.find? (·.name = name) = (w.visits.map Visit.directive).find? (·.name = name)

section Accounted

variable {files : LinkedTree} {home : Location} {code : String} {w w' : Walk}

theorem Walk.accounted_start (files : LinkedTree) (home : Location) (code : String) :
    (Walk.start home code).Accounted files home code where
  once := List.nodup_nil
  read := by simp [start]
  written := by simp [start]
  held := by simp [start, Holds]
  first := by simp [start]

theorem find?_map_eq_none {name : String} {visits : List Visit} (h : name ∉ visits.map Visit.name) :
    (visits.map Visit.directive).find? (·.name = name) = none := by
  refine List.find?_eq_none.2 fun d hd => ?_
  obtain ⟨v, hv, rfl⟩ := List.mem_map.1 hd
  intro hname
  exact h (List.mem_map.2 ⟨v, hv, of_decide_eq_true hname⟩)

/-- A directive whose name was met before is not the first one of any name. -/
theorem find?_map_or {d : Directive} {name : String} {visits : List Visit} (h : d.name ∈ visits.map Visit.name) :
    ((visits.map Visit.directive).find? (·.name = name)).or ([d].find? (·.name = name)) =
      (visits.map Visit.directive).find? (·.name = name) := by
  by_cases hd : d.name = name
  · obtain ⟨v, hv, hvname⟩ := List.mem_map.1 h
    have hsome : ((visits.map Visit.directive).find? (·.name = name)).isSome := by
      rw [List.find?_isSome]
      exact ⟨v.directive, List.mem_map_of_mem hv, decide_eq_true (hvname.trans hd)⟩
    obtain ⟨first, hfound⟩ := Option.isSome_iff_exists.1 hsome
    rw [hfound, Option.some_or]
  · simp [hd]

/-- **What is known of a walk is kept by a step.** -/
theorem Walk.Accounted.step (h : w.Accounted files home code) (hstep : Step files w w') :
    w'.Accounted files home code := by
  cases hstep with
  | @pass d pending met visits hname =>
      refine ⟨h.once, h.read, h.written, fun e => ?_, fun name => ?_⟩
      · have hheld : Walk.Holds home code _ e ↔ e ∈ met ∨ e ∈ d :: pending := h.held e
        exact hheld.trans (by simp [or_assoc])
      · have hfirst : met.find? (·.name = name) = (visits.map Visit.directive).find? (·.name = name) := h.first name
        rw [List.find?_append, hfirst, find?_map_or hname]
  | @visit d pending met visits l code' hnew hleads =>
      refine ⟨?_, ?_, fun front v hprefix => ?_, fun e => ?_, fun name => ?_⟩
      · have honce : (visits.map Visit.name).Nodup := h.once
        simpa [Walk.names, List.nodup_append, honce, Visit.name] using hnew
      · intro v hv
        rcases List.mem_append.1 hv with hv | hv
        · exact h.read v hv
        · obtain rfl := List.mem_singleton.1 hv
          exact hleads
      · rcases List.prefix_concat_iff.1 hprefix with heq | hprefix
        · obtain ⟨rfl, hlast⟩ := List.append_inj' heq rfl
          obtain rfl := List.singleton_inj.1 hlast
          exact (h.held d).2 (.inr List.mem_cons_self)
        · exact h.written front v hprefix
      · have hheld : Walk.Holds home code _ e ↔ e ∈ met ∨ e ∈ d :: pending := h.held e
        rw [Walk.holds_concat, hheld]
        simp only [List.mem_append, List.mem_cons, List.not_mem_nil, false_or, or_assoc, or_comm, or_left_comm]
      · rw [List.find?_append, h.first name, List.map_append, List.find?_append]
        rfl

/-- **So it is known of every walk.** -/
theorem Reaches.accounted (h : Reaches files (.start home code) w) : w.Accounted files home code := by
  induction h with
  | refl => exact Walk.accounted_start files home code
  | tail _ hstep ih => exact ih.step hstep

/-- What was met was read under its name. -/
theorem Walk.Accounted.mem_names {d : Directive} (h : w.Accounted files home code) (hd : d ∈ w.met) :
    d.name ∈ w.names := by
  by_contra hnot
  have hnone := (h.first d.name).trans (find?_map_eq_none hnot)
  exact List.find?_eq_none.1 hnone d hd (decide_eq_true rfl)

/-- Where nothing is left, every directive of the code and of the files read was followed. -/
theorem Walk.Accounted.closed {d : Directive} (h : w.Accounted files home code) (hend : w.pending = [])
    (hd : w.Holds home code d) : d.name ∈ w.names := by
  rcases (h.held d).1 hd with hmet | hpending
  · exact h.mem_names hmet
  · rw [hend] at hpending
    cases hpending

end Accounted

/-! ### What a walk reads -/

section Agree

variable {files files' : LinkedTree} {w w' : Walk}

theorem Step.prefix_visits (h : Step files w w') : w.visits <+: w'.visits := by
  cases h with
  | pass _ => exact List.prefix_rfl
  | visit _ _ => exact List.prefix_append _ _

theorem Reaches.prefix_visits (h : Reaches files w w') : w.visits <+: w'.visits := by
  induction h with
  | refl => exact List.prefix_rfl
  | tail _ hstep ih => exact ih.trans hstep.prefix_visits

/-- **A walk depends on no other files than those that it reads.** -/
theorem Reaches.agree (h : Reaches files w w')
    (hvisits : ∀ v ∈ w'.visits, v.directive.LeadsTo files' v.location v.code) : Reaches files' w w' := by
  induction h with
  | refl => exact .refl
  | tail hreach hstep ih =>
      refine (ih fun v hv => hvisits v (hstep.prefix_visits.subset hv)).tail ?_
      cases hstep with
      | pass hname => exact .pass hname
      | @visit d _ _ _ l code hnew _ => exact .visit hnew (hvisits ⟨d, l, code⟩ (by simp))

theorem Ends.agree {result : Except Fault IncludeMap} (h : Ends files w result)
    (hnext : ∀ d ∈ w.pending.head?, ∀ f, d.Fails files f → d.Fails files' f) : Ends files' w result := by
  cases h with
  | done hpending => exact .done hpending
  | @failed d pending f hpending hnew hfails =>
      exact .failed hpending hnew (hnext d (by rw [hpending]; rfl) f hfails)

end Agree

end SophiaBind.Source
