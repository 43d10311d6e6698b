/-
**Computations in a world, step by step.**

What a computation does is its result and the world behind it. The lemmas of this module say that for each
way of putting computations together, so that no proof opens the monad; and what a dialogue leaves alone
when it is carried out, it leaves alone in every world.

Main definitions:

* `Transport.Answers` — outcomes that services give,
* `App.Exchanges` — what a computation in a world sends, with the outcomes,
* `World.Lasting` — a relation of a world to the worlds behind it,
* `App.Ensures` — in every world, the one behind is related to it, and the result is as expected.

Main results:

* `App.runIn_bind`, `App.runIn_tryCatch` and their like — the steps,
* `App.converse_runs` — **a dialogue in a world runs against its services**,
* `App.Ensures.follow`, `App.Ensures.tryCatch`, `App.Ensures.converse` — **what is ensured of parts is ensured of the
  whole**.
-/

import SophiaBind.Proofs.Runs

namespace SophiaBind

/-- Whether these are outcomes that services give, where `sent` was sent before, the latest first. -/
def Transport.Answers (services : Transport) (sent : List Request) : List Exchange → Prop
  | [] => True
  | (r, o) :: es => o = services sent r ∧ Transport.Answers services (r :: sent) es

namespace App

variable {α β : Type}

/-! ### Steps -/

@[simp] theorem runIn_pure (a : α) (w : World) : (pure a : App α).runIn w = (.ok a, w) := rfl

@[simp] theorem runIn_throw (f : Fault) (w : World) : (throw f : App α).runIn w = (.error f, w) := rfl

@[simp] theorem runIn_get (w : World) : (get : App World).runIn w = (.ok w, w) := rfl

/-- A computation goes on with the next one where the first one ended. -/
theorem runIn_bind (x : App α) (f : α → App β) (w : World) :
    (x >>= f).runIn w =
      match x.runIn w with
      | (.ok a, w') => (f a).runIn w'
      | (.error e, w') => (.error e, w') := by
  unfold runIn ExceptT.run StateT.run
  simp only [bind, ExceptT.bind, ExceptT.mk, StateT.bind, ExceptT.bindCont]
  cases x w with
  | mk result w' => cases result <;> rfl

theorem runIn_bind_ok {x : App α} {w w' : World} {a : α} (h : x.runIn w = (.ok a, w')) (f : α → App β) :
    (x >>= f).runIn w = (f a).runIn w' := by
  rw [runIn_bind, h]

theorem runIn_bind_error {x : App α} {w w' : World} {e : Fault} (h : x.runIn w = (.error e, w'))
    (f : α → App β) : (x >>= f).runIn w = (.error e, w') := by
  rw [runIn_bind, h]

/-- A handler takes over where the computation failed; what was done before stays done. -/
theorem runIn_tryCatch (x : App α) (handler : Fault → App α) (w : World) :
    (tryCatch x handler).runIn w =
      match x.runIn w with
      | (.ok a, w') => (.ok a, w')
      | (.error e, w') => (handler e).runIn w' := by
  unfold runIn ExceptT.run StateT.run
  simp only [tryCatch, tryCatchThe, MonadExceptOf.tryCatch, ExceptT.tryCatch, ExceptT.mk, bind, StateT.bind]
  cases x w with
  | mk result w' => cases result <;> rfl

/-- What is to be shown behind two computations, behind each way in which the first one ends. -/
@[elab_as_elim]
theorem bind_cases {motive : Except Fault β × World → Prop} (x : App α) (f : α → App β) (w : World)
    (error : ∀ e w', x.runIn w = (.error e, w') → motive (.error e, w'))
    (ok : ∀ a w', x.runIn w = (.ok a, w') → motive ((f a).runIn w')) : motive ((x >>= f).runIn w) := by
  rw [runIn_bind]
  cases h : x.runIn w with
  | mk result w' =>
      cases result with
      | error e => exact error e w' h
      | ok a => exact ok a w' h

/-- What is to be shown behind a computation with a handler, behind each way in which the computation ends. -/
@[elab_as_elim]
theorem tryCatch_cases {motive : Except Fault α × World → Prop} (x : App α) (handler : Fault → App α) (w : World)
    (error : ∀ e w', x.runIn w = (.error e, w') → motive ((handler e).runIn w'))
    (ok : ∀ a w', x.runIn w = (.ok a, w') → motive (.ok a, w')) : motive ((tryCatch x handler).runIn w) := by
  rw [runIn_tryCatch]
  cases h : x.runIn w with
  | mk result w' =>
      cases result with
      | error e => exact error e w' h
      | ok a => exact ok a w' h

@[simp] theorem runIn_ofExcept (x : Except Fault α) (w : World) : (ofExcept x).runIn w = (x, w) := by
  cases x <;> rfl

@[simp] theorem runIn_report (e : Event) (w : World) :
    (report e).runIn w = (.ok (), { w with events := w.events ++ [e] }) := rfl

@[simp] theorem runIn_send (r : Request) (w : World) :
    (send r).runIn w =
      (.ok (w.transport w.sent r), { w with sent := r :: w.sent, events := w.events ++ [.requested r] }) := rfl

@[simp] theorem runIn_draw (w : World) :
    draw.runIn w = (.ok (w.chance w.drawn), { w with drawn := w.drawn + 1 }) := rfl

/-! ### Dialogues -/

@[simp] theorem runIn_converse_done (a : α) (w : World) : (converse (.done a)).runIn w = (.ok a, w) := rfl

@[simp] theorem runIn_converse_fail (f : Fault) (w : World) :
    (converse (.fail f : Dialogue α)).runIn w = (.error f, w) := rfl

theorem runIn_converse_ask (r : Request) (next : Outcome → Dialogue α) (w : World) :
    (converse (.ask r next)).runIn w =
      (converse (next (w.transport w.sent r))).runIn
        { w with sent := r :: w.sent, events := w.events ++ [.requested r] } := by
  rw [converse, runIn_bind_ok (runIn_send r w)]

theorem runIn_converse_tell (e : Event) (next : Dialogue α) (w : World) :
    (converse (.tell e next)).runIn w = (converse next).runIn { w with events := w.events ++ [e] } := by
  rw [converse, runIn_bind_ok (runIn_report e w)]

theorem runIn_converse_draw (next : Binary64 → Dialogue α) (w : World) :
    (converse (.draw next)).runIn w =
      (converse (next (w.chance w.drawn))).runIn { w with drawn := w.drawn + 1 } := by
  rw [converse, runIn_bind_ok (runIn_draw w)]

/-- A dialogue goes on with the next one where the first one ended. -/
theorem runIn_converse_bind (d : Dialogue α) (f : α → Dialogue β) (w : World) :
    (converse (d.bind f)).runIn w =
      match (converse d).runIn w with
      | (.ok a, w') => (converse (f a)).runIn w'
      | (.error e, w') => (.error e, w') := by
  induction d generalizing w with
  | done a => rfl
  | fail e => rfl
  | ask r next ih =>
      rw [Dialogue.bind, runIn_converse_ask, runIn_converse_ask]
      exact ih _ _
  | tell e next ih =>
      rw [Dialogue.bind, runIn_converse_tell, runIn_converse_tell]
      exact ih _
  | draw next ih =>
      rw [Dialogue.bind, runIn_converse_draw, runIn_converse_draw]
      exact ih _ _

/-- The exchanges of a computation in a world: what it sends, each with what the services give after the
requests before. -/
def Exchanges (app : App α) (w : World) (es : List Exchange) : Prop :=
  (app.runIn w).2.sent = (es.map Prod.fst).reverse ++ w.sent ∧ Transport.Answers w.transport w.sent es

/-- **A dialogue in a world runs against its services**: its exchanges are those of one of its runs. -/
theorem converse_runs (d : Dialogue α) (w : World) :
    ∃ es, d.Runs es ((converse d).runIn w).1 ∧ (converse d).Exchanges w es := by
  unfold Exchanges
  induction d generalizing w with
  | done a => exact ⟨[], .done a, rfl, trivial⟩
  | fail f => exact ⟨[], .fail f, rfl, trivial⟩
  | ask r next ih =>
      rw [runIn_converse_ask]
      obtain ⟨es, hruns, hsent, hes⟩ := ih (w.transport w.sent r)
        { w with sent := r :: w.sent, events := w.events ++ [.requested r] }
      refine ⟨(r, w.transport w.sent r) :: es, hruns.ask, ?_, rfl, hes⟩
      rw [hsent]
      simp
  | tell e next ih =>
      rw [runIn_converse_tell]
      obtain ⟨es, hruns, hsent, hes⟩ := ih { w with events := w.events ++ [e] }
      exact ⟨es, hruns.tell, hsent, hes⟩
  | draw next ih =>
      rw [runIn_converse_draw]
      obtain ⟨es, hruns, hsent, hes⟩ := ih (w.chance w.drawn) { w with drawn := w.drawn + 1 }
      exact ⟨es, hruns.draw, hsent, hes⟩

end App

/-! ### What is ensured -/

/-- A relation of a world to the worlds behind it: nothing done keeps to it, and so does what is done one after the
other, and what a dialogue does of itself, a request or a number by chance. -/
structure World.Lasting (R : World → World → Prop) : Prop where
  refl : ∀ w, R w w
  trans : ∀ {w w' w''}, R w w' → R w' w'' → R w w''
  asked : ∀ (w : World) r, R w { w with sent := r :: w.sent, events := w.events ++ [.requested r] }
  drawn : ∀ w : World, R w { w with drawn := w.drawn + 1 }

namespace App

variable {α β : Type} {R : World → World → Prop} {P Q : Except Fault α → Prop} {x : App α}

/-- In every world, the one behind the computation is related to it, and the result is as expected. -/
def Ensures (R : World → World → Prop) (Q : Except Fault α → Prop) (x : App α) : Prop :=
  ∀ w, R w (x.runIn w).2 ∧ Q (x.runIn w).1

namespace Ensures

/-- **One computation behind the other.** -/
theorem follow {Q : Except Fault β → Prop} {f : α → App β} (hR : World.Lasting R) (hx : Ensures R P x)
    (hf : ∀ a, P (.ok a) → Ensures R Q (f a)) (herror : ∀ e, P (.error e) → Q (.error e)) :
    Ensures R Q (x >>= f) := by
  intro w
  obtain ⟨hlast, hend⟩ := hx w
  refine bind_cases x f w (fun e w' h => ?_) fun a w' h => ?_ <;> rw [h] at hlast hend
  · exact ⟨hlast, herror e hend⟩
  · obtain ⟨hlast', hend'⟩ := hf a hend w'
    exact ⟨hR.trans hlast hlast', hend'⟩

/-- **A handler behind a fault.** -/
theorem tryCatch {handler : Fault → App α} (hR : World.Lasting R) (hx : Ensures R P x)
    (hh : ∀ e, P (.error e) → Ensures R Q (handler e)) (hok : ∀ a, P (.ok a) → Q (.ok a)) :
    Ensures R Q (tryCatch x handler) := by
  intro w
  obtain ⟨hlast, hend⟩ := hx w
  refine tryCatch_cases x handler w (fun e w' h => ?_) fun a w' h => ?_ <;> rw [h] at hlast hend
  · obtain ⟨hlast', hend'⟩ := hh e hend w'
    exact ⟨hR.trans hlast hlast', hend'⟩
  · exact ⟨hlast, hok a hend⟩

/-- **A dialogue in a world**, of a kind that each of its steps leads to again: what it tells keeps to the relation,
and it ends as expected. -/
theorem converse {D : Dialogue α → Prop} (hR : World.Lasting R) (done : ∀ {a}, D (.done a) → Q (.ok a))
    (fail : ∀ {f}, D (.fail f) → Q (.error f)) (ask : ∀ {r next}, D (.ask r next) → ∀ o, D (next o))
    (tell : ∀ {e next}, D (.tell e next) → (∀ w : World, R w { w with events := w.events ++ [e] }) ∧ D next)
    (draw : ∀ {next}, D (.draw next) → ∀ x, D (next x)) {d : Dialogue α} (h : D d) : Ensures R Q (converse d) := by
  intro w
  induction d generalizing w with
  | done a => exact ⟨hR.refl w, done h⟩
  | fail f => exact ⟨hR.refl w, fail h⟩
  | ask r next ih =>
      rw [runIn_converse_ask]
      obtain ⟨hlast, hend⟩ := ih _ (ask h _) { w with sent := r :: w.sent, events := w.events ++ [.requested r] }
      exact ⟨hR.trans (hR.asked w r) hlast, hend⟩
  | tell e next ih =>
      rw [runIn_converse_tell]
      obtain ⟨htold, hnext⟩ := tell h
      obtain ⟨hlast, hend⟩ := ih hnext { w with events := w.events ++ [e] }
      exact ⟨hR.trans (htold w) hlast, hend⟩
  | draw next ih =>
      rw [runIn_converse_draw]
      obtain ⟨hlast, hend⟩ := ih _ (draw h _) { w with drawn := w.drawn + 1 }
      exact ⟨hR.trans (hR.drawn w) hlast, hend⟩

end Ensures

end App

end SophiaBind
