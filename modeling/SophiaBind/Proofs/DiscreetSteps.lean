/-
**The steps of commands that say nothing of sessions.**

Reading and writing files, cataloging functions, keeping the history and checking the environment are discreet, whatever
they come to. Clients are opened and released elsewhere.

Main results:

* `Source.discreet_readFile`, `Settings.discreet_load` — reading is discreet,
* `History.Log.discreet_open_`, `History.discreet_read` — so is opening a log and reading the history,
* `discreet_buildCatalog` — so is cataloging by a client of the node,
* `Checkup.discreet_run` — and so is checking the environment.
-/

import SophiaBind.Program
import SophiaBind.Proofs.DiscreetClient

namespace SophiaBind

open App (IsDiscreet Discreet)

/-! ### Files -/

namespace Files

theorem discreet_find (p : Path) : IsDiscreet (find p) := by
  unfold find
  split
  · refine .bind .get fun w _ => ?_
    split
    · exact .pure trivial
    · exact .throw _
    · exact .pure trivial
  · exact .pure trivial

theorem discreet_exists_ (p : Path) : IsDiscreet (exists_ p) :=
  .bind (discreet_find p) fun _ _ => .pure trivial

theorem discreet_isFile (p : Path) : IsDiscreet (isFile p) :=
  .bind (discreet_find p) fun _ _ => .pure trivial

theorem discreet_isDirectory (p : Path) : IsDiscreet (isDirectory p) :=
  .bind (discreet_find p) fun _ _ => .pure trivial

theorem discreet_locate (p : Path) : IsDiscreet (locate p) := by
  unfold locate
  split
  · refine .bind .get fun w _ => ?_
    split
    · exact .pure trivial
    · exact .throw _
  · exact .throw _

theorem discreet_readText (p : Path) : IsDiscreet (readText p) := by
  have hbytes : IsDiscreet (readBytes p) := by
    refine .bind (discreet_locate p) fun l _ => .bind .get fun w _ => ?_
    split
    · exact .pure trivial
    · exact .throw _
    · exact .throw _
    · exact .throw _
  exact .bind hbytes fun _ _ => .ofExcept fun _ _ => trivial

theorem discreet_permit (action : FileAction) (p : Path) (target : Option String) :
    IsDiscreet (permit action p target) := by
  refine .bind .get fun w _ => ?_
  split
  · exact .throw _
  · exact .pure trivial

theorem discreet_put (l : Location) (e : Entry) : IsDiscreet (put l e) :=
  .modify fun _ => rfl

theorem discreet_openFile (p : Path) : IsDiscreet (openFile p) := by
  refine .bind (discreet_locate p) fun l _ => .bind .get fun w _ => ?_
  split
  · exact .throw _
  · exact .throw _
  · exact .bind (discreet_permit _ _ _) fun _ _ => .pure trivial
  · exact .bind (discreet_permit _ _ _) fun _ _ => .pure trivial

theorem discreet_writeText (p : Path) (s : LooseText) : IsDiscreet (writeText p s) :=
  .bind (discreet_openFile p) fun _ _ => .bind (discreet_put _ _) fun _ _ =>
    .bind (.ofExcept (P := fun _ => True) fun _ _ => trivial) fun _ _ => .bind (discreet_permit _ _ _) fun _ _ =>
      discreet_put _ _

theorem discreet_ensureDirectory (p : Path) : IsDiscreet (ensureDirectory p) := by
  have hmake : IsDiscreet (makeDirectory p) := by
    refine .bind (discreet_locate p) fun l _ => .bind .get fun w _ => ?_
    split
    · exact .throw _
    · exact .bind (discreet_permit _ _ _) fun _ _ => discreet_put _ _
  refine .tryCatch hmake fun e => ?_
  split
  · exact .throw _
  · refine .bind (discreet_isDirectory p) fun found _ => ?_
    split
    · exact .pure trivial
    · exact .throw _
  · exact .throw _

theorem discreet_makeDirectoriesFrom (fuel : Nat) (p : Path) : IsDiscreet (makeDirectoriesFrom fuel p) := by
  induction fuel generalizing p with
  | zero => exact discreet_ensureDirectory p
  | succ fuel ih =>
      refine .tryCatch (discreet_ensureDirectory p) fun e => ?_
      split
      · exact .bind (ih p.parent) fun _ _ => discreet_ensureDirectory p
      · exact .throw _

theorem discreet_rename (p q : Path) : IsDiscreet (rename p q) := by
  refine .bind (discreet_locate p) fun source _ => .bind (discreet_locate q) fun target _ => ?_
  dsimp only
  split
  · exact .throw _
  · refine .bind .get fun w _ => ?_
    split
    · exact .throw _
    · exact .throw _
    · exact .throw _
    · exact .bind (discreet_permit _ _ _) fun _ _ => .modify fun _ => rfl

theorem discreet_delete (p : Path) : IsDiscreet (delete p) := by
  have hset : ∀ w : World, (delete p).runIn w = (.ok (), w) ∨
      ∃ files, (delete p).runIn w = (.ok (), { w with files := files }) := by
    intro w
    rw [delete, App.runIn_bind_ok (App.runIn_get w)]
    split
    · exact .inl rfl
    · split
      · exact .inr ⟨_, rfl⟩
      · exact .inr ⟨_, rfl⟩
      · exact .inl rfl
  intro w
  rcases hset w with h | ⟨files, h⟩
  · rw [h]
    exact ⟨.refl w, fun _ _ => trivial⟩
  · rw [h]
    exact ⟨.of_events rfl, fun _ _ => trivial⟩

theorem discreet_replaceJson (p : Path) (j : Json) : IsDiscreet (replaceJson p j) := by
  unfold replaceJson
  split
  · refine .bind (discreet_makeDirectoriesFrom _ _) fun _ _ => ?_
    have hwrite : ∀ tmp s, IsDiscreet (do writeText tmp s; rename tmp p) := fun tmp s =>
      .bind (discreet_writeText _ _) fun _ _ => discreet_rename _ _
    split
    · exact .bind (P := fun _ => False) (.throw _) fun _ h => h.elim
    · refine .bind .get fun w _ => .tryCatch (hwrite _ _) fun e => ?_
      dsimp only
      split
      · exact .bind (.report rfl) fun _ _ => .bind (discreet_delete _) fun _ _ => .throw _
      · exact .throw _
  · exact .throw _

/-! ### Rows -/

theorem discreet_readRows (p : Path) (context : String) : IsDiscreet (readRows p context) := by
  have hrow : ∀ number line, IsDiscreet (rowOf p context number line) := by
    intro number line
    unfold rowOf
    split
    · exact .pure trivial
    · split
      · exact .pure trivial
      · exact .pure trivial
      · split
        · exact .throw _
        · exact .bind (.report rfl) fun _ _ => .pure trivial
  have hrows : ∀ lines number, IsDiscreet (rowsFrom p context number lines) := by
    intro lines
    induction lines with
    | nil => exact fun _ => .pure trivial
    | cons line rest ih =>
        exact fun number => .bind (hrow number line) fun _ _ => .bind (ih (number + 1)) fun _ _ => .pure trivial
  have htext : IsDiscreet (readTextIfAny p context) := by
    refine .bind (discreet_exists_ p) fun there _ => ?_
    split
    · refine .tryCatch (.bind (discreet_readText p) fun _ _ => .pure trivial) fun e => ?_
      split
      · exact .bind (.report rfl) fun _ _ => .pure trivial
      · exact .throw _
    · exact .pure trivial
  refine .bind htext fun found _ => ?_
  cases found with
  | none => exact .pure trivial
  | some s => exact hrows _ _

theorem discreet_entriesBelow (p : Path) : IsDiscreet (entriesBelow p) := by
  refine .bind (discreet_find p) fun found _ => ?_
  split
  · exact .bind .get fun _ _ => .bind (discreet_locate p) fun _ _ => .pure trivial
  · exact .pure trivial

theorem discreet_inChildren (name : String) (p : Path) : IsDiscreet (inChildren name p) :=
  .bind (discreet_entriesBelow p) fun _ _ => .pure trivial

theorem discreet_endingIn (ending : String) (p : Path) : IsDiscreet (endingIn ending p) :=
  .bind (discreet_entriesBelow p) fun _ _ => .pure trivial

end Files

/-! ### Sources and settings -/

namespace Source

/-- **Reading a source is discreet.** -/
theorem discreet_readFile (p : Path) : IsDiscreet (readFile p) :=
  .bind (Files.discreet_readText p) fun _ _ => .bind .get fun _ _ => .bind (.ofExcept fun _ _ => trivial) fun _ _ =>
    .pure trivial

theorem discreet_read (origin : Origin) : IsDiscreet (read origin) := by
  cases origin with
  | file p => exact discreet_readFile p
  | text s =>
      rw [read]
      split
      · exact .pure trivial
      · exact discreet_readFile _

theorem discreet_defaultRoot : IsDiscreet defaultRoot :=
  .bind .get fun _ _ => .pure trivial

theorem discreet_discover : IsDiscreet (discover none) := by
  refine .bind discreet_defaultRoot fun p _ => .bind (Files.discreet_isFile p) fun found _ => ?_
  split
  · exact .pure trivial
  · exact Files.discreet_endingIn _ _

end Source

theorem Settings.discreet_load (p : Path) : IsDiscreet (load p) := by
  refine .bind (Files.discreet_exists_ p) fun there _ => ?_
  split
  · exact .bind (Files.discreet_readText p) fun _ _ => .pure trivial
  · exact .pure trivial

/-! ### The history -/

namespace History

/-- **Opening a log is discreet.** -/
theorem Log.discreet_open_ (base : Path) (runId : Option String) : IsDiscreet (Log.open_ base runId) := by
  refine .bind .get fun w _ => .bind (Files.discreet_makeDirectoriesFrom _ _) fun _ _ => ?_
  refine .bind (.tryCatch (Files.discreet_writeText _ _) fun e => ?_) fun _ _ => .pure trivial
  split
  · exact .pure trivial
  · exact .throw _

/-- **Reading the history is discreet.** -/
theorem discreet_read (base : Path) : IsDiscreet (read base) := by
  have hvalid : ∀ p rows, IsDiscreet (validRows p rows) := by
    intro p rows
    induction rows with
    | nil => exact .pure trivial
    | cons row rest ih =>
        rw [validRows]
        split
        · split
          · exact .bind ih fun _ _ => .pure trivial
          · exact .bind (.report rfl) fun _ _ => ih
        · exact ih
  have hrows : ∀ paths, IsDiscreet (rowsOf paths) := by
    intro paths
    induction paths with
    | nil => exact .pure trivial
    | cons p rest ih =>
        exact .bind (Files.discreet_readRows p _) fun _ _ => .bind (hvalid p _) fun _ _ => .bind ih fun _ _ =>
          .pure trivial
  refine .bind (Files.discreet_isDirectory base) fun there _ => ?_
  split
  · exact .bind (Files.discreet_inChildren _ _) fun paths _ => .bind (hrows paths) fun _ _ =>
      .ofExcept fun _ _ => trivial
  · exact .pure trivial

end History

/-! ### Catalogs -/

theorem discreet_catalogOfSource (code : String) : IsDiscreet (catalogOfSource code) := by
  unfold catalogOfSource
  generalize Catalog.ofSource code = found
  obtain ⟨catalog, warnings⟩ := found
  exact .bind (.warnAll _) fun _ _ => .pure trivial

/-- **Cataloging by a client of the node is discreet.** -/
theorem discreet_buildCatalog (c : NodeClient) (s : Source) (useInterface : Bool) :
    IsDiscreet (buildCatalog c.remote s useInterface) := by
  unfold buildCatalog
  split
  · have hask : IsDiscreet (App.attempt (App.converse (c.interface s.code s.includes))) :=
      .tryCatch (.bind (App.discreet_converse (c.discreet_interface _ _)) fun _ _ => .pure trivial) fun _ =>
        .pure trivial
    refine .bind hask fun e _ => ?_
    cases e with
    | ok description =>
        dsimp only
        generalize Catalog.ofInterface description = found
        obtain ⟨catalog, warnings⟩ := found
        refine .bind (.warnAll _) fun _ _ => ?_
        split
        · exact .pure trivial
        · exact discreet_catalogOfSource s.code
    | error f =>
        cases f with
        | api url reason status => exact .bind (.report rfl) fun _ _ => discreet_catalogOfSource s.code
        | _ => exact .throw _
  · exact discreet_catalogOfSource s.code

/-! ### Checking the environment -/

namespace Checkup

theorem discreet_settings (e : Endpoints) : IsDiscreet (settings e) :=
  .bind (Settings.discreet_load _) fun _ _ => .bind .get fun _ _ => .pure trivial

theorem discreet_giveUp {α : Type} (message : String) : IsDiscreet (giveUp message : App α) :=
  .bind (.report rfl) fun _ _ => .throw _

theorem discreet_visit (service address url remedy : String) {judge : Response → Dialogue Verdict}
    (hjudge : ∀ response, (judge response).Discreet fun _ => True) :
    (visit service address url remedy judge).Discreet fun _ => True := by
  intro o
  cases o with
  | error disruption => trivial
  | ok response =>
      dsimp only
      split
      · trivial
      · exact hjudge response

theorem discreet_get (j default : Json) (name : String) : (NodeClient.get j name default).Discreet fun _ => True := by
  cases j <;> trivial

theorem discreet_node (n : Network) : (node n).Discreet fun _ => True := by
  refine discreet_visit _ _ _ _ fun response => ?_
  cases response.json with
  | error e => trivial
  | ok status =>
      refine .bind (discreet_get _ _ _) fun id _ => .bind (discreet_get _ _ _) fun version _ => ?_
      split <;> trivial

theorem discreet_compiler (n : Network) : (compiler n).Discreet fun _ => True := by
  refine discreet_visit _ _ _ _ fun response => ?_
  cases response.json with
  | error e => trivial
  | ok j => exact .bind (discreet_get j _ _) fun _ _ => trivial

theorem discreet_contracts (root : Option Path) : IsDiscreet (contracts root) := by
  have hat : ∀ p, IsDiscreet (contracts (some p)) := by
    intro p
    refine .bind (.pure (P := fun _ => True) trivial) fun p _ => .bind (Files.discreet_isDirectory p) fun there _ => ?_
    split
    · refine .bind (Files.discreet_endingIn _ p) fun found _ => ?_
      dsimp only
      split <;> exact .pure trivial
    · exact .pure trivial
  cases root with
  | some p => exact hat p
  | none => exact .bind Source.discreet_defaultRoot fun p _ => hat p

/-- **Checking the environment is discreet.** -/
theorem discreet_run (e : Endpoints) (request : CheckupRequest) : IsDiscreet (run e request) := by
  refine .bind (discreet_settings e) fun s _ => .bind (.report rfl) fun _ _ => .bind (.report rfl) fun _ _ => ?_
  split
  · exact discreet_giveUp _
  · next n _ =>
      have hall : IsDiscreet (all n (.text s.secretKey) request.contracts) :=
        .bind (.ofExcept fun _ _ => trivial) fun _ _ => .bind (App.discreet_converse (discreet_node n)) fun _ _ =>
          .bind (App.discreet_converse (discreet_compiler n)) fun _ _ => .bind (discreet_contracts _) fun _ _ =>
            .pure trivial
      have hshow : ∀ findings, IsDiscreet (show_ findings) := by
        intro findings
        refine .bind (.report rfl) fun _ _ => ?_
        dsimp only
        split
        · exact .bind (.report rfl) fun _ _ => .bind (.report rfl) fun _ _ => .pure trivial
        · exact .pure trivial
      refine .bind hall fun findings _ => .bind (hshow findings) fun passed _ => .bind (.report rfl) fun _ _ => ?_
      split
      · exact .report rfl
      · exact .bind (.report rfl) fun _ _ => .throw _

end Checkup

end SophiaBind
