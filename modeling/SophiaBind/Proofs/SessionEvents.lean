/-
**What is said of sessions.**

A session is opened for a client and closed when the client is released. Nothing else speaks of sessions: whatever a
client of the node asks and whatever is answered, it does not, and neither does work on files. So what a command
says of sessions is put together from few places.

Main definitions:

* `Event.isSession` — the events of sessions,
* `World.Said` — a world behind another in which this was said of sessions,
* `Dialogue.Discreet`, `App.Discreet` — nothing is said of sessions, and a result is as expected.

Main results:

* `App.discreet_converse` — **a discreet dialogue is discreet in every world**,
* `App.Discreet.bind`, `App.Discreet.tryCatch` and their like — discreet computations put together,
* `Retry.discreet_run`, `NodeClient.discreet_request` — **a request is discreet**, tried again or not.
-/

import SophiaBind.NodeClient
import SophiaBind.Proofs.Effects

namespace SophiaBind

/-! ### Sessions in worlds -/

/-- The events of sessions. -/
def Event.isSession : Event → Bool
  | .sessionOpened => true
  | .sessionClosed => true
  | _ => false

namespace World

/-- A world behind another in which this was said of sessions, and nothing else. -/
def Said (sessions : List Event) (w w' : World) : Prop :=
  ∃ said, w'.events = w.events ++ said ∧ said.filter Event.isSession = sessions

variable {w w' w'' : World}

/-- Where nothing was observed, nothing was said. -/
theorem Said.of_events (h : w'.events = w.events) : Said [] w w' :=
  ⟨[], by rw [h, List.append_nil], rfl⟩

theorem Said.refl (w : World) : Said [] w w :=
  .of_events rfl

theorem Said.trans {before behind : List Event} (h : Said before w w') (h' : Said behind w' w'') :
    Said (before ++ behind) w w'' := by
  obtain ⟨said, hw', rfl⟩ := h
  obtain ⟨said', hw'', rfl⟩ := h'
  exact ⟨said ++ said', by rw [hw'', hw', List.append_assoc], List.filter_append said said'⟩

/-- What is said behind silence is all that was said. -/
theorem Said.behind {sessions : List Event} (h : Said [] w w') (h' : Said sessions w' w'') : Said sessions w w'' :=
  h.trans h'

/-- What is said before silence is all that was said. -/
theorem Said.before {sessions : List Event} (h : Said sessions w w') (h' : Said [] w' w'') : Said sessions w w'' := by
  simpa using h.trans h'

theorem said_event (w : World) (e : Event) :
    Said (if e.isSession then [e] else []) w { w with events := w.events ++ [e] } :=
  ⟨[e], rfl, by cases h : e.isSession <;> simp [h]⟩

/-- An event that is not of sessions. -/
theorem said_other (w : World) {e : Event} (h : e.isSession = false) :
    Said [] w { w with events := w.events ++ [e] } := by
  simpa [h] using w.said_event e

theorem Said.lasting : Lasting (Said []) where
  refl := .refl
  trans := .behind
  asked w r := w.said_other (e := .requested r) rfl
  drawn _ := .of_events rfl

end World

/-! ### Discreet dialogues -/

namespace Dialogue

variable {α β : Type} {P : α → Prop} {Q : β → Prop}

/-- Whatever its partners do, the dialogue says nothing of sessions, and what it gives is as expected. -/
def Discreet (P : α → Prop) : Dialogue α → Prop
  | .done a => P a
  | .fail _ => True
  | .ask _ next => ∀ o, (next o).Discreet P
  | .tell e next => e.isSession = false ∧ next.Discreet P
  | .draw next => ∀ x, (next x).Discreet P

namespace Discreet

theorem bind {d : Dialogue α} {f : α → Dialogue β} (hd : d.Discreet P) (hf : ∀ a, P a → (f a).Discreet Q) :
    (d >>= f).Discreet Q := by
  show (d.bind f).Discreet Q
  induction d with
  | done a => exact hf a hd
  | fail e => trivial
  | ask r next ih => exact fun o => ih o (hd o)
  | tell e next ih => exact ⟨hd.1, ih hd.2⟩
  | draw next ih => exact fun x => ih x (hd x)

theorem recover {d : Dialogue α} {handler : Fault → Dialogue α} (hd : d.Discreet P)
    (hh : ∀ f, (handler f).Discreet P) : (d.recover handler).Discreet P := by
  induction d with
  | done a => exact hd
  | fail e => exact hh e
  | ask r next ih => exact fun o => ih o (hd o)
  | tell e next ih => exact ⟨hd.1, ih hd.2⟩
  | draw next ih => exact fun x => ih x (hd x)

theorem mono {d : Dialogue α} {P' : α → Prop} (hd : d.Discreet P) (h : ∀ a, P a → P' a) : d.Discreet P' := by
  induction d with
  | done a => exact h a hd
  | fail e => trivial
  | ask r next ih => exact fun o => ih o (hd o)
  | tell e next ih => exact ⟨hd.1, ih hd.2⟩
  | draw next ih => exact fun x => ih x (hd x)

theorem ofExcept {x : Except Fault α} (h : ∀ a, x = .ok a → P a) : (Dialogue.ofExcept x).Discreet P := by
  cases x with
  | ok a => exact h a rfl
  | error f => trivial

end Discreet

end Dialogue

/-! ### Discreet computations -/

namespace App

variable {α β : Type} {P : α → Prop} {Q : β → Prop}

/-- In every world, the computation says nothing of sessions, and what it gives is as expected. -/
def Discreet (P : α → Prop) (x : App α) : Prop :=
  ∀ w, World.Said [] w (x.runIn w).2 ∧ ∀ a, (x.runIn w).1 = .ok a → P a

/-- Nothing is said of sessions. -/
abbrev IsDiscreet (x : App α) : Prop :=
  Discreet (fun _ => True) x

/-- What is given, if anything is, is as expected. -/
def Grants (P : α → Prop) (e : Except Fault α) : Prop :=
  ∀ a, e = .ok a → P a

theorem grants_error (P : α → Prop) (f : Fault) : Grants P (.error f) :=
  fun _ h => by cases h

/-- **A discreet dialogue is discreet in every world.** -/
theorem discreet_converse {d : Dialogue α} (h : d.Discreet P) : Discreet P (converse d) :=
  Ensures.converse (D := Dialogue.Discreet P) (Q := Grants P) World.Said.lasting
    (fun h _ ha => Except.ok.inj ha ▸ h) (fun _ => grants_error P _) id
    (fun h => ⟨fun w => w.said_other h.1, h.2⟩) id h

namespace Discreet

theorem pure {a : α} (h : P a) : Discreet P (pure a : App α) :=
  fun w => ⟨.refl w, fun _ ha => Except.ok.inj ha ▸ h⟩

theorem throw (f : Fault) : Discreet P (throw f : App α) :=
  fun w => ⟨.refl w, fun _ ha => by cases ha⟩

theorem get : IsDiscreet (get : App World) :=
  fun w => ⟨.refl w, fun _ _ => trivial⟩

/-- A change of the world that nobody observes. -/
theorem modify {f : World → World} (h : ∀ w, (f w).events = w.events) : IsDiscreet (modify f : App Unit) :=
  fun w => ⟨.of_events (h w), fun _ _ => trivial⟩

theorem ofExcept {x : Except Fault α} (h : ∀ a, x = .ok a → P a) : Discreet P (ofExcept x) := by
  intro w
  rw [runIn_ofExcept]
  exact ⟨.refl w, h⟩

theorem report {e : Event} (h : e.isSession = false) : IsDiscreet (report e) :=
  fun w => ⟨w.said_other h, fun _ _ => trivial⟩

theorem bind {x : App α} {f : α → App β} (hx : Discreet P x) (hf : ∀ a, P a → Discreet Q (f a)) :
    Discreet Q (x >>= f) :=
  Ensures.follow (P := Grants P) (Q := Grants Q) World.Said.lasting hx (fun a ha => hf a (ha a rfl))
    fun e _ => grants_error Q e

theorem tryCatch {x : App α} {handler : Fault → App α} (hx : Discreet P x) (hh : ∀ f, Discreet P (handler f)) :
    Discreet P (tryCatch x handler) :=
  Ensures.tryCatch (P := Grants P) (Q := Grants P) World.Said.lasting hx (fun f _ => hh f) fun _ ha => ha

/-- Warnings say nothing of sessions. -/
theorem warnAll : ∀ messages : List String, IsDiscreet (warnAll messages)
  | [] => .pure trivial
  | _ :: rest => .bind (.report rfl) fun _ _ => warnAll rest

end Discreet

end App

/-! ### Requests -/

/-- Trying again is discreet. -/
theorem Retry.discreet_run {α : Type} {P : α → Prop} (p : Policy) {attempt : Nat → Dialogue α}
    (h : ∀ i, (attempt i).Discreet P) : (run p attempt).Discreet P := by
  have hfrom : ∀ left i, (runFrom p attempt i left).Discreet P := by
    intro left
    induction left with
    | zero => exact h
    | succ left ih =>
        intro i
        refine (h i).recover fun f => ?_
        split
        · split
          · trivial
          · exact fun chance => ⟨rfl, rfl, ih (i + 1)⟩
        · trivial
  exact hfrom _ 0

namespace NodeClient

/-- **A request is discreet**, and its answer is the JSON value of a response. -/
theorem discreet_request (method url : String) (body : Option Json) :
    (request method url body).Discreet fun j => ∃ response : Response, response.json = .ok j := by
  have hsend : ∀ r : Request, (sendOnce r).Discreet fun _ => True := by
    intro r o
    cases o with
    | ok response => trivial
    | error disruption => trivial
  have hdisrupted : ∀ (r : Request) f, (disrupted r f).Discreet fun _ => True := by
    intro r f
    cases f with
    | disrupted kind message =>
        unfold disrupted
        dsimp only
        split
        · exact ⟨rfl, trivial⟩
        · exact ⟨rfl, trivial⟩
    | _ => trivial
  refine .bind ((Retry.discreet_run _ fun _ => hsend _).recover (hdisrupted _)) fun response _ => ?_
  unfold answer
  split
  · trivial
  · cases hj : response.json with
    | ok j => exact ⟨response, hj⟩
    | error e => trivial

end NodeClient

end SophiaBind
