/-
**The same with other services.**

What a computation does depends on the services by the outcomes of its own requests alone. Where others would have
given the same outcomes, it ends alike behind the same talk; so it is enough to know what it asks. Reading a source
asks nothing, and compiling and describing it post to the compiler.

Main definitions:

* `World.served` — a world with other services,
* `App.SameFor` — a computation that two services serve alike,
* `Transport.SameBut` — services that differ at one address alone.

Main results:

* `App.converse_agrees` — **a dialogue with services that agree on its requests**,
* `App.SameFor.bind` — computations one after the other,
* `Source.sameFor_read`, `Deployer.sameFor_bindTable` — steps that ask nothing, or only for the interface.
-/

import SophiaBind.Deployer
import SophiaBind.Proofs.Requests
import SophiaBind.Proofs.Results
import SophiaBind.Proofs.Talk

namespace SophiaBind

open Dialogue (Runs)

/-- A world with other services. -/
def World.served (w : World) (services : Transport) : World :=
  { w with transport := services }

/-- Services whose outcomes differ for one method at one address at the most. -/
def Transport.SameBut (method url : String) (t s : Transport) : Prop :=
  ∀ r : Request, ¬(r.method = method ∧ r.url = url) → ∀ sent, s sent r = t sent r

namespace App

variable {α β : Type} {t s : Transport} {w : World}

/-- With either of the services, the computation ends alike behind the same talk. -/
def SameFor (t s : Transport) (x : App α) (w : World) : Prop :=
  ∃ e talk, x.runIn (w.served t) = (e, (w.withTalk talk).served t) ∧
    x.runIn (w.served s) = (e, (w.withTalk talk).served s)

/-- **A dialogue with services that agree on its requests** takes the same run. -/
theorem converse_agrees (d : Dialogue α) (t s : Transport) (w : World) :
    ∃ es e talk, d.Runs es e ∧ (converse d).runIn (w.served t) = (e, (w.withTalk talk).served t) ∧
      ((∀ x ∈ es, ∀ sent, s sent x.1 = t sent x.1) →
        (converse d).runIn (w.served s) = (e, (w.withTalk talk).served s)) := by
  induction d generalizing w with
  | done a => exact ⟨[], .ok a, w.talk, .done a, rfl, fun _ => rfl⟩
  | fail f => exact ⟨[], .error f, w.talk, .fail f, rfl, fun _ => rfl⟩
  | ask r next ih =>
      obtain ⟨es, e, talk, hruns, ht, hs⟩ := ih (t w.sent r)
        { w with sent := r :: w.sent, events := w.events ++ [.requested r] }
      refine ⟨(r, t w.sent r) :: es, e, talk, hruns.ask, ?_, fun hagree => ?_⟩
      · rw [runIn_converse_ask]
        exact ht
      · rw [runIn_converse_ask]
        have houtcome : s w.sent r = t w.sent r := hagree _ List.mem_cons_self w.sent
        rw [show (w.served s).transport (w.served s).sent r = t w.sent r from houtcome]
        exact hs fun x hx => hagree x (List.mem_cons_of_mem _ hx)
  | tell e next ih =>
      obtain ⟨es, e', talk, hruns, ht, hs⟩ := ih { w with events := w.events ++ [e] }
      refine ⟨es, e', talk, hruns.tell, ?_, fun hagree => ?_⟩
      · rw [runIn_converse_tell]
        exact ht
      · rw [runIn_converse_tell]
        exact hs hagree
  | draw next ih =>
      obtain ⟨es, e, talk, hruns, ht, hs⟩ := ih (w.chance w.drawn) { w with drawn := w.drawn + 1 }
      refine ⟨es, e, talk, hruns.draw, ?_, fun hagree => ?_⟩
      · rw [runIn_converse_draw]
        exact ht
      · rw [runIn_converse_draw]
        exact hs hagree

/-- What comes to its end behind another computation comes behind a result of it. -/
theorem runIn_bind_eq_ok {x : App α} {f : α → App β} {w w' : World} {b : β}
    (h : (x >>= f).runIn w = (.ok b, w')) :
    ∃ a w₁, x.runIn w = (.ok a, w₁) ∧ (f a).runIn w₁ = (.ok b, w') := by
  rw [runIn_bind] at h
  cases hx : x.runIn w with
  | mk result w₁ =>
      rw [hx] at h
      cases result with
      | ok a => exact ⟨a, w₁, rfl, h⟩
      | error e => cases h

/-- What fails behind another computation fails there, or behind a result of it. -/
theorem runIn_bind_eq_error {x : App α} {f : α → App β} {w w' : World} {e : Fault}
    (h : (x >>= f).runIn w = (.error e, w')) :
    x.runIn w = (.error e, w') ∨ ∃ a w₁, x.runIn w = (.ok a, w₁) ∧ (f a).runIn w₁ = (.error e, w') := by
  rw [runIn_bind] at h
  cases hx : x.runIn w with
  | mk result w₁ =>
      rw [hx] at h
      cases result with
      | ok a => exact .inr ⟨a, w₁, rfl, h⟩
      | error e' =>
          cases h
          exact .inl rfl

/-- A computation that gives something comes to its end. -/
theorem eq_ok_of_toOption {x : App α} {a : α} (h : (x.runIn w).1.toOption = some a) :
    ∃ w', x.runIn w = (.ok a, w') :=
  ⟨(x.runIn w).2, Prod.ext (Except.eq_ok_of_toOption h) rfl⟩

namespace SameFor

theorem pure (a : α) : SameFor t s (pure a : App α) w :=
  ⟨.ok a, w.talk, rfl, rfl⟩

theorem throw (f : Fault) : SameFor t s (throw f : App α) w :=
  ⟨.error f, w.talk, rfl, rfl⟩

theorem ofExcept (e : Except Fault α) : SameFor t s (ofExcept e) w :=
  ⟨e, w.talk, runIn_ofExcept e _, runIn_ofExcept e _⟩

/-- What is read of a world and is none of its services. -/
theorem get {f : World → App α} (hserved : ∀ services, f (w.served services) = f w) (h : SameFor t s (f w) w) :
    SameFor t s (get >>= f) w := by
  obtain ⟨e, talk, ht, hs⟩ := h
  refine ⟨e, talk, ?_, ?_⟩
  · rw [runIn_bind_ok (runIn_get _), hserved]
    exact ht
  · rw [runIn_bind_ok (runIn_get _), hserved]
    exact hs

theorem bind {x : App α} {f : α → App β} (hx : SameFor t s x w) (hf : ∀ a w', SameFor t s (f a) w') :
    SameFor t s (x >>= f) w := by
  obtain ⟨e, talk, ht, hs⟩ := hx
  cases e with
  | error fault => exact ⟨.error fault, talk, runIn_bind_error ht f, runIn_bind_error hs f⟩
  | ok a =>
      obtain ⟨e, talk', ht', hs'⟩ := hf a (w.withTalk talk)
      exact ⟨e, talk', (runIn_bind_ok ht f).trans ht', (runIn_bind_ok hs f).trans hs'⟩

theorem attempt {x : App α} (hx : SameFor t s x w) : SameFor t s x.attempt w := by
  obtain ⟨e, talk, ht, hs⟩ := hx
  refine ⟨.ok e, talk, ?_, ?_⟩
  · rw [runIn_attempt, ht]
  · rw [runIn_attempt, hs]

theorem report (e : Event) : SameFor t s (report e) w :=
  ⟨.ok (), w.talk.told e, rfl, rfl⟩

theorem warnAll (messages : List String) : SameFor t s (warnAll messages) w := by
  induction messages generalizing w with
  | nil => exact .pure ()
  | cons m rest ih => exact .bind (.report _) fun _ _ => ih

theorem converse {d : Dialogue α} (h : ∀ es e, Runs d es e → ∀ x ∈ es, ∀ sent, s sent x.1 = t sent x.1) :
    SameFor t s (converse d) w := by
  obtain ⟨es, e, talk, hruns, ht, hs⟩ := converse_agrees d t s w
  exact ⟨e, talk, ht, hs (h es e hruns)⟩

/-- A computation that ends well with some services does with all that serve it alike. -/
theorem ok {x : App α} (h : SameFor t s x w) {a : α} {w' : World} (ht : x.runIn (w.served t) = (.ok a, w')) :
    ∃ talk, w' = (w.withTalk talk).served t ∧ x.runIn (w.served s) = (.ok a, (w.withTalk talk).served s) := by
  obtain ⟨e, talk, ht', hs⟩ := h
  rw [ht] at ht'
  cases ht'
  exact ⟨talk, rfl, hs⟩

end SameFor

end App

/-! ### Reading -/

section Files

variable {t s : Transport} {w : World}

theorem Files.sameFor_locate (p : Path) : App.SameFor t s (locate p) w := by
  unfold locate
  split
  · refine .get (fun _ => rfl) ?_
    split
    · exact .pure _
    · exact .throw _
  · exact .throw _

theorem Files.sameFor_readText (p : Path) : App.SameFor t s (readText p) w := by
  have hbytes : App.SameFor t s (readBytes p) w := by
    refine .bind (sameFor_locate p) fun l w' => .get (fun _ => rfl) ?_
    split
    · exact .pure _
    · exact .throw _
    · exact .throw _
    · exact .throw _
  exact .bind hbytes fun content _ => .ofExcept _

/-- **Reading a source asks nothing.** -/
theorem Source.sameFor_read (origin : Origin) : App.SameFor t s (read origin) w := by
  have hfile : ∀ p, App.SameFor t s (readFile p) w := fun p =>
    .bind (Files.sameFor_readText p) fun code _ => .get (fun _ => rfl) (.bind (.ofExcept _) fun _ _ => .pure _)
  cases origin with
  | file p => exact hfile p
  | text code =>
      rw [read]
      split
      · exact .pure _
      · exact hfile _

end Files

/-! ### Compiling and describing -/

namespace NodeClient

variable (c : NodeClient)

/-- A dialogue that only posts. -/
def Posts {α : Type} (d : Dialogue α) : Prop :=
  ∀ es e, Runs d es e → ∀ x ∈ es, x.1.method = "POST"

theorem Silent.posts {α : Type} {d : Dialogue α} (h : Silent d) : Posts d := by
  intro es e hruns x hx
  rw [h es e hruns] at hx
  cases hx

theorem Posts.bind {α β : Type} {d : Dialogue α} {f : α → Dialogue β} (hd : Posts d) (hf : ∀ a, Posts (f a)) :
    Posts (d >>= f) := by
  intro es e h x hx
  rcases Runs.bind_inv h with ⟨fault, -, hruns⟩ | ⟨a, es₁, es₂, rfl, hruns, hruns'⟩
  · exact hd es _ hruns x hx
  · rcases List.mem_append.1 hx with hx | hx
    · exact hd es₁ _ hruns x hx
    · exact hf a es₂ _ hruns' x hx

theorem Posts.recover {α : Type} {d : Dialogue α} {handler : Fault → Dialogue α} (hd : Posts d)
    (hh : ∀ f, Posts (handler f)) : Posts (d.recover handler) := by
  intro es e h x hx
  rcases h.recover_inv with ⟨a, -, hruns⟩ | ⟨fault, es₁, es₂, rfl, hruns, hruns'⟩
  · exact hd es _ hruns x hx
  · rcases List.mem_append.1 hx with hx | hx
    · exact hd es₁ _ hruns x hx
    · exact hh fault es₂ _ hruns' x hx

theorem posts_request (url : String) (body : Option Json) : Posts (request "POST" url body) := by
  intro es e h x hx
  obtain ⟨o, htries, -⟩ := request_runs h
  rw [htries.request_eq hx]

theorem posts_interface (source : String) (includes : List (String × String)) :
    Posts (c.interface source includes) :=
  posts_request _ _

theorem posts_compile (source : String) (includes : List (String × String)) : Posts (c.compile source includes) := by
  have hfail : ∀ f : Fault, Posts (.fail f : Dialogue Json) := fun f =>
    Silent.posts fun _ _ h => h.fail_inv.1
  refine .bind (.recover (posts_request _ _) fun f => ?_) fun res =>
    .bind (silent_item res "bytecode").posts fun bytecode => (silent_pure _).posts
  -- whichever fault it was, there is no more than another
  split
  · split <;> exact hfail _
  · exact hfail _

end NodeClient

variable {t s : Transport} {w : World} {url : String}

/-- What only posts is the same if the services differ in what they give. -/
theorem NodeClient.Posts.sameFor {α : Type} {d : Dialogue α} (h : Posts d) (hs : Transport.SameBut "GET" url t s) :
    App.SameFor t s (App.converse d) w := by
  refine .converse fun es e hruns x hx => hs x.1 ?_
  rintro ⟨hget, -⟩
  rw [h es e hruns x hx] at hget
  exact absurd hget (by decide)

theorem sameFor_catalogOfSource (code : String) : App.SameFor t s (catalogOfSource code) w := by
  unfold catalogOfSource
  generalize Catalog.ofSource code = found
  obtain ⟨catalog, warnings⟩ := found
  exact .bind (.warnAll _) fun _ _ => .pure _

/-- **Cataloging asks for no more than the interface.** -/
theorem Deployer.sameFor_bindTable (d : Deployer) (client : RemoteClient) (source : Source) (artifact : Artifact)
    (handle : DeployedHandle)
    (hinterface : ∀ w, App.SameFor t s (App.converse (client.interface source.code source.includes)) w) :
    App.SameFor t s (d.bindTable client source artifact handle) w := by
  have hcatalog : App.SameFor t s (buildCatalog client source d.useInterface) w := by
    unfold buildCatalog
    split
    · refine .bind (hinterface w).attempt fun e w' => ?_
      cases e with
      | ok description =>
          dsimp only
          generalize Catalog.ofInterface description = found
          obtain ⟨catalog, warnings⟩ := found
          refine .bind (.warnAll _) fun _ _ => ?_
          split
          · exact .pure _
          · exact sameFor_catalogOfSource source.code
      | error f =>
          cases f with
          | api url reason status => exact .bind (.report _) fun _ _ => sameFor_catalogOfSource source.code
          | _ => exact .throw _
    · exact sameFor_catalogOfSource source.code
  exact .bind hcatalog fun _ _ => .pure _

end SophiaBind
