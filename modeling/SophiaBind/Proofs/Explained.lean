/-
**What is explained to the user.**

A finding of the library and a missing file are explained where a command is carried out, and end the program with
exit code 1. What comes before that, the settings, has no such fault, and neither has checking the environment, which
explains its own.

Main definitions:

* `Fault.isExplained` — a finding or a missing file,
* `Dialogue.Unexplained`, `App.Unexplained` — whatever fails is no such fault.

Main results:

* `Settings.unexplained_load` — **reading the settings misses no file**,
* `Checkup.unexplained_run` — **checking the environment explains its own failures**,
* `Program.unexplained_run` — **nothing that is to be explained goes through**.
-/

import SophiaBind.Program
import SophiaBind.Proofs.Effects
import SophiaBind.Proofs.Results

namespace SophiaBind

/-- A finding of the library, or a missing file. -/
def Fault.isExplained (f : Fault) : Bool :=
  f.isFinding || f.isAbsence

variable {α β : Type}

/-- Whatever its partners do, the dialogue does not fail with what is explained. -/
def Dialogue.Unexplained : Dialogue α → Prop
  | .done _ => True
  | .fail f => f.isExplained = false
  | .ask _ next => ∀ o, (next o).Unexplained
  | .tell _ next => next.Unexplained
  | .draw next => ∀ x, (next x).Unexplained

theorem Dialogue.Unexplained.bind {d : Dialogue α} {f : α → Dialogue β} (hd : d.Unexplained)
    (hf : ∀ a, (f a).Unexplained) : (d >>= f).Unexplained := by
  show (d.bind f).Unexplained
  induction d with
  | done a => exact hf a
  | fail e => exact hd
  | ask r next ih => exact fun o => ih o (hd o)
  | tell e next ih => exact ih hd
  | draw next ih => exact fun x => ih x (hd x)

namespace App

/-- In no world, the computation fails with what is explained. -/
def Unexplained (x : App α) : Prop :=
  ∀ w f, (x.runIn w).1 = .error f → f.isExplained = false

/-- The fault, if it ended in one, is not explained. -/
def EndsUnexplained (e : Except Fault α) : Prop :=
  ∀ f, e = .error f → f.isExplained = false

theorem endsUnexplained_ok (a : α) : EndsUnexplained (.ok a : Except Fault α) :=
  fun _ h => by cases h

theorem endsUnexplained_error {f : Fault} (h : f.isExplained = false) :
    EndsUnexplained (.error f : Except Fault α) :=
  fun _ he => Except.error.inj he ▸ h

theorem unexplained_iff {x : App α} : Unexplained x ↔ Ensures (fun _ _ => True) EndsUnexplained x :=
  ⟨fun h w => ⟨trivial, h w⟩, fun h w => (h w).2⟩

/-- Any world may be behind any other. -/
theorem lasting_true : World.Lasting fun _ _ => True where
  refl _ := trivial
  trans _ _ := trivial
  asked _ _ := trivial
  drawn _ := trivial

namespace Unexplained

theorem pure (a : α) : Unexplained (pure a : App α) :=
  fun _ => endsUnexplained_ok a

theorem throw {f : Fault} (h : f.isExplained = false) : Unexplained (throw f : App α) :=
  fun _ => endsUnexplained_error h

theorem get : Unexplained (get : App World) :=
  fun w => endsUnexplained_ok w

theorem report (e : Event) : Unexplained (report e) :=
  fun _ => endsUnexplained_ok ()

theorem ofExcept {x : Except Fault α} (h : ∀ f, x = .error f → f.isExplained = false) : Unexplained (ofExcept x) := by
  intro w f hf
  rw [runIn_ofExcept] at hf
  exact h f hf

theorem bind {x : App α} {f : α → App β} (hx : Unexplained x) (hf : ∀ a, Unexplained (f a)) :
    Unexplained (x >>= f) :=
  unexplained_iff.2 (.follow lasting_true (unexplained_iff.1 hx) (fun a _ => unexplained_iff.1 (hf a))
    fun _ he f h => he f (by cases h; rfl))

/-- What a handler leaves unexplained. -/
theorem tryCatch {x : App α} {handler : Fault → App α} (hh : ∀ f, Unexplained (handler f)) :
    Unexplained (tryCatch x handler) :=
  unexplained_iff.2 (.tryCatch (P := fun _ => True) lasting_true (fun _ => ⟨trivial, trivial⟩)
    (fun f _ => unexplained_iff.1 (hh f)) fun a _ => endsUnexplained_ok a)

theorem converse {d : Dialogue α} (h : d.Unexplained) : Unexplained (converse d) :=
  unexplained_iff.2 (.converse (D := Dialogue.Unexplained) lasting_true (fun {a} _ => endsUnexplained_ok a)
    endsUnexplained_error id (fun h => ⟨fun _ => trivial, h⟩) id h)

end Unexplained

end App

open App (Unexplained)

/-! ### Files that are there -/

namespace Files

/-- Asking what a path leads to misses no file. What is found is found again where the path leads. -/
theorem find_outcome (p : Path) (w : World) :
    (∃ f, (find p).runIn w = (.error f, w) ∧ f.isExplained = false) ∨ (find p).runIn w = (.ok none, w) ∨
      ∃ l, (locate p).runIn w = (.ok l, w) ∧ (find p).runIn w = (.ok (w.files.entryAt? l), w) := by
  unfold find locate
  split
  · rw [App.runIn_bind_ok (App.runIn_get w), App.runIn_bind_ok (App.runIn_get w)]
    cases w.files.locate w.home p with
    | ok l => exact .inr (.inr ⟨l, rfl, rfl⟩)
    | error cause =>
        by_cases hlong : cause = .nameTooLong
        · subst hlong
          exact .inl ⟨_, rfl, rfl⟩
        · right
          left
          cases cause <;> first | rfl | exact absurd rfl hlong
  · exact .inr (.inl rfl)

theorem unexplained_find (p : Path) : Unexplained (find p) := by
  intro w f hf
  rcases find_outcome p w with ⟨g, hg, hexplained⟩ | hnone | ⟨l, -, hfound⟩
  · rw [hg] at hf
    exact Except.error.inj hf ▸ hexplained
  · rw [hnone] at hf
    cases hf
  · rw [hfound] at hf
    cases hf

theorem unexplained_entriesBelow (p : Path) : Unexplained (entriesBelow p) := by
  intro w f hf
  rw [entriesBelow] at hf
  rcases find_outcome p w with ⟨g, hg, hexplained⟩ | hnone | ⟨l, hlocate, hfound⟩
  · rw [App.runIn_bind_error hg] at hf
    exact Except.error.inj hf ▸ hexplained
  · rw [App.runIn_bind_ok hnone] at hf
    cases hf
  · rw [App.runIn_bind_ok hfound] at hf
    split at hf
    · rw [App.runIn_bind_ok (App.runIn_get w), App.runIn_bind_ok hlocate] at hf
      cases hf
    · cases hf

theorem unexplained_textOf (content : Bytes) (f : Fault) (h : textOf content = .error f) : f.isExplained = false := by
  unfold textOf at h
  split at h
  · cases h
  · cases h
    rfl

/-- Reading what is there misses no file. -/
theorem unexplained_readText {p : Path} {w : World} {l : Location} {entry : Entry} {f : Fault}
    (hlocate : (locate p).runIn w = (.ok l, w)) (hentry : w.files.entryAt? l = some entry)
    (h : ((readText p).runIn w).1 = .error f) : f.isExplained = false := by
  rw [readText, App.runIn_bind, readBytes, App.runIn_bind_ok hlocate, App.runIn_bind_ok (App.runIn_get w), hentry] at h
  cases entry with
  | locked content | directory =>
      cases h
      rfl
  | file content =>
      have htext : ((App.ofExcept (textOf content)).runIn w).1 = .error f := h
      rw [App.runIn_ofExcept] at htext
      exact unexplained_textOf content f htext

end Files

/-- **Reading the settings misses no file**: the file is read only if it is there. -/
theorem Settings.unexplained_load (p : Path) : Unexplained (load p) := by
  intro w f hf
  rw [load, Files.exists_] at hf
  rcases Files.find_outcome p w with ⟨g, hg, hexplained⟩ | hnone | ⟨l, hlocate, hfound⟩
  · rw [App.runIn_bind_error (App.runIn_bind_error hg _)] at hf
    exact Except.error.inj hf ▸ hexplained
  · rw [App.runIn_bind_ok (App.runIn_bind_ok hnone _)] at hf
    cases hf
  · rw [App.runIn_bind_ok (App.runIn_bind_ok hfound _)] at hf
    cases hentry : w.files.entryAt? l with
    | none =>
        rw [hentry] at hf
        cases hf
    | some entry =>
        rw [hentry, if_pos (Option.isSome_some (a := entry)), App.runIn_bind] at hf
        cases hread : (Files.readText p).runIn w with
        | mk result w' =>
            rw [hread] at hf
            cases result with
            | ok text => cases hf
            | error g =>
                cases hf
                exact Files.unexplained_readText hlocate hentry (congrArg Prod.fst hread)

/-! ### Checking the environment -/

namespace Checkup

theorem unexplained_settings (e : Endpoints) : Unexplained (settings e) :=
  .bind (Settings.unexplained_load _) fun _ => .bind .get fun _ => .pure _

theorem unexplained_giveUp {α : Type} (message : String) : Unexplained (giveUp message : App α) :=
  .bind (.report _) fun _ => .throw rfl

/-- The check of an identity explains what it finds; a key of too few bytes is no finding. -/
theorem unexplained_identity (secret : Value) (f : Fault) (h : identity secret = .error f) :
    f.isExplained = false := by
  have hofText : ∀ s, Keypair.ofSecretText s = .error f → f.isFinding = false → f.isExplained = false := by
    intro s hs hno
    unfold Keypair.ofSecretText Keypair.ofSecretTextBy at hs
    dsimp only at hs
    split at hs
    · cases hs
      cases hno
    · split at hs
      · cases hs
        cases hno
      · unfold Keypair.seedOf at hs
        dsimp only at hs
        split at hs <;> cases hs
        rfl
  unfold identity at h
  split at h
  · cases h
  · next g hg =>
      split at h
      · cases h
      · next hno =>
          cases h
          rw [Bool.not_eq_true] at hno
          unfold Keypair.ofSecret Keypair.ofSecretBy at hg
          split at hg
          · exact hofText _ hg hno
          · cases hg
            cases hno

theorem unexplained_get (j default : Json) (name : String) : (NodeClient.get j name default).Unexplained := by
  cases j <;> trivial

theorem unexplained_visit (service address url remedy : String) {judge : Response → Dialogue Verdict}
    (hjudge : ∀ response, (judge response).Unexplained) :
    (visit service address url remedy judge).Unexplained := by
  intro o
  cases o with
  | error disruption => trivial
  | ok response =>
      dsimp only
      split
      · trivial
      · exact hjudge response

theorem unexplained_node (n : Network) : (node n).Unexplained := by
  refine unexplained_visit _ _ _ _ fun response => ?_
  cases response.json with
  | error e => trivial
  | ok status =>
      refine .bind (unexplained_get _ _ _) fun id => .bind (unexplained_get _ _ _) fun version => ?_
      split <;> trivial

theorem unexplained_compiler (n : Network) : (compiler n).Unexplained := by
  refine unexplained_visit _ _ _ _ fun response => ?_
  cases response.json with
  | error e => trivial
  | ok j => exact .bind (unexplained_get j _ _) fun _ => trivial

theorem unexplained_contracts (root : Option Path) : Unexplained (contracts root) := by
  have hdirectory : ∀ p, Unexplained (Files.isDirectory p) := fun p =>
    .bind (Files.unexplained_find p) fun _ => .pure _
  have hending : ∀ p, Unexplained (Files.endingIn Source.ending p) := fun p =>
    .bind (Files.unexplained_entriesBelow p) fun _ => .pure _
  have hat : ∀ p, Unexplained (contracts (some p)) := by
    intro p
    refine .bind (.pure p) fun p => .bind (hdirectory p) fun there => ?_
    split
    · refine .bind (hending p) fun found => ?_
      dsimp only
      split <;> exact .pure _
    · exact .pure _
  cases root with
  | some p => exact hat p
  | none => exact .bind (.bind .get fun _ => .pure _) fun p => hat p

/-- **Checking the environment explains its own failures.** -/
theorem unexplained_run (e : Endpoints) (request : CheckupRequest) : Unexplained (run e request) := by
  refine .bind (unexplained_settings e) fun s => .bind (.report _) fun _ => .bind (.report _) fun _ => ?_
  split
  · exact unexplained_giveUp _
  · next n _ =>
      have hall : Unexplained (all n (.text s.secretKey) request.contracts) :=
        .bind (.ofExcept (unexplained_identity _)) fun _ => .bind (.converse (unexplained_node n)) fun _ =>
          .bind (.converse (unexplained_compiler n)) fun _ => .bind (unexplained_contracts _) fun _ => .pure _
      have hshow : ∀ findings, Unexplained (show_ findings) := by
        intro findings
        refine .bind (.report _) fun _ => ?_
        dsimp only
        split
        · exact .bind (.report _) fun _ => .bind (.report _) fun _ => .pure _
        · exact .pure _
      refine .bind hall fun findings => .bind (hshow findings) fun passed => .bind (.report _) fun _ => ?_
      split
      · exact .report _
      · exact .bind (.report _) fun _ => .throw rfl

end Checkup

/-! ### Command lines -/

namespace Program

variable {e : Endpoints} {s : Settings} {w w' : World}

/-- What is explained ends the program with exit code 1. -/
theorem runIn_explain {f : Fault} (h : f.isExplained = true) (w : World) :
    ((explain f).runIn w).1 = .error (.exit 1) := by
  have hif : (f.isFinding || f.isAbsence) = true := h
  rw [explain, if_pos hif]
  rfl

theorem unexplained_explain (f : Fault) : Unexplained (explain f) := by
  intro w g hg
  cases h : f.isExplained with
  | true =>
      rw [runIn_explain h] at hg
      cases hg
      rfl
  | false =>
      have hif : ¬(f.isFinding || f.isAbsence) = true := by
        rw [show (f.isFinding || f.isAbsence) = false from h]
        decide
      rw [explain, if_neg hif] at hg
      cases hg
      exact h

/-- Nothing that is to be explained goes through where a command is carried out. -/
theorem unexplained_carryOut (e : Endpoints) (s : Settings) (c : Command) : Unexplained (carryOut e s c) := by
  cases c with
  | checkup => exact Checkup.unexplained_run e {}
  | _ => exact .tryCatch unexplained_explain

/-- **Nothing that is to be explained goes through.** -/
theorem unexplained_run (e : Endpoints) (words : List String) : Unexplained (run e words) := by
  unfold run
  cases Invocation.ofWords words with
  | error ending => exact .throw rfl
  | ok invocation =>
      exact .bind (Checkup.unexplained_settings e) fun s => .bind (.report _) fun _ => unexplained_carryOut e s _

/-- **A command that fails with what is explained** ends with exit code 1 where it is carried out. -/
theorem runIn_carryOut {c : Command} {f : Fault} (h : (perform e s c).runIn w = (.error f, w'))
    (hf : f.isExplained = true) : ((carryOut e s c).runIn w).1 = .error (.exit 1) := by
  have hcaught : ((tryCatch (perform e s c) explain).runIn w).1 = .error (.exit 1) := by
    rw [App.runIn_tryCatch, h]
    exact runIn_explain hf w'
  cases c with
  | checkup =>
      have hnot := Checkup.unexplained_run e {} w f (congrArg Prod.fst h)
      rw [hf] at hnot
      cases hnot
  | _ => exact hcaught

end Program

end SophiaBind
