/-
**Dialogues side by side.**

Several parties carry on their dialogues in one world: one of them takes a step, then another one, in any order. A
request and its answer are one step, so that the order of steps is the order in which the services see the requests;
what one party asks, they know when they answer the next. Each party by itself goes through a run of its own
dialogue, as far as it came; only the answers depend on what the others did.

Main definitions:

* `Dialogue.step` — one step of a dialogue in a world,
* `Interleaving`, `Interleaving.step`, `Interleaving.run` — parties in one world, carried on by a schedule,
* `Interleaving.own`, `Interleaving.sentBehind` — what one of the parties exchanged, and what all of them sent.

Main results:

* `Dialogue.converse_step` — **carrying a dialogue out is to take its steps**,
* `Interleaving.From.step` — what one step keeps,
* `Interleaving.from_run` — **what every interleaving keeps**: it is answered by the services, and each party goes
  through a run of its dialogue,
* `Interleaving.run_alone` — a party that is alone carries its dialogue out.
-/

import SophiaBind.Proofs.Effects

namespace SophiaBind

variable {α : Type}

/-! ### Steps of a dialogue -/

namespace Dialogue

/-- One step of a dialogue in a world: what is left of the dialogue, the world behind the step, and what was
exchanged. -/
def step : Dialogue α → World → Dialogue α × World × List Exchange
  | .done a, w => (.done a, w, [])
  | .fail f, w => (.fail f, w, [])
  | .ask r next, w =>
    (next (w.transport w.sent r), { w with sent := r :: w.sent, events := w.events ++ [.requested r] },
      [(r, w.transport w.sent r)])
  | .tell e next, w => (next, { w with events := w.events ++ [e] }, [])
  | .draw next, w => (next (w.chance w.drawn), { w with drawn := w.drawn + 1 }, [])

/-- **Carrying a dialogue out is to take its steps.** -/
theorem converse_step (d : Dialogue α) (w : World) :
    (App.converse d).runIn w = (App.converse (d.step w).1).runIn (d.step w).2.1 := by
  cases d with
  | done a => rfl
  | fail f => rfl
  | ask r next => exact App.runIn_converse_ask r next w
  | tell e next => exact App.runIn_converse_tell e next w
  | draw next => exact App.runIn_converse_draw next w

/-- A step in front of a run. -/
theorem Runs.of_step {d : Dialogue α} {w : World} {es : List Exchange} {e : Except Fault α}
    (h : Runs (d.step w).1 es e) : Runs d ((d.step w).2.2 ++ es) e := by
  cases d with
  | done a => exact h
  | fail f => exact h
  | ask r next => exact .ask h
  | tell event next => exact .tell h
  | draw next => exact .draw h

/-- Whether a dialogue succeeded, if it has ended. -/
def succeeded? : Dialogue α → Option Bool
  | .done _ => some true
  | .fail _ => some false
  | _ => none

/-- There is a run of every dialogue. -/
theorem exists_runs (d : Dialogue α) : ∃ es e, Runs d es e := by
  obtain ⟨es, hruns, -⟩ := App.converse_runs d {}
  exact ⟨es, _, hruns⟩

/-- What is exchanged in a step is answered by the services, who remember it. -/
theorem step_world (d : Dialogue α) (w : World) :
    (d.step w).2.1.transport = w.transport ∧
      (d.step w).2.1.sent = ((d.step w).2.2.map Prod.fst).reverse ++ w.sent ∧
      Transport.Answers w.transport w.sent (d.step w).2.2 := by
  cases d with
  | ask r next => exact ⟨rfl, rfl, rfl, trivial⟩
  | _ => exact ⟨rfl, rfl, trivial⟩

end Dialogue

/-- Services answer what comes behind as if it had come by itself, knowing what was sent before. -/
theorem Transport.answers_append {services : Transport} {sent : List Request} {es fs : List Exchange} :
    Transport.Answers services sent (es ++ fs) ↔
      Transport.Answers services sent es ∧ Transport.Answers services ((es.map Prod.fst).reverse ++ sent) fs := by
  induction es generalizing sent with
  | nil => simp [Transport.Answers]
  | cons x es ih =>
      obtain ⟨r, o⟩ := x
      simp only [List.cons_append, Transport.Answers, ih, List.map_cons, List.reverse_cons, List.append_assoc,
        List.nil_append, and_assoc]

/-! ### Parties -/

/-- Parties in one world, each with what is left of its dialogue, and what was exchanged so far by which of them. -/
structure Interleaving (α : Type) where
  parties : List (Dialogue α)
  world : World
  log : List (Nat × Exchange) := []

namespace Interleaving

/-- One of the parties takes a step. -/
def step (s : Interleaving α) (i : Nat) : Interleaving α :=
  match s.parties[i]? with
  | none => s
  | some d =>
    let (left, world, es) := d.step s.world
    { parties := s.parties.set i left, world, log := s.log ++ es.map (i, ·) }

/-- The parties take steps in the order of a schedule. -/
def run (s : Interleaving α) (schedule : List Nat) : Interleaving α :=
  schedule.foldl step s

/-- What one of the parties exchanged. -/
def own (i : Nat) (log : List (Nat × Exchange)) : List Exchange :=
  (log.filter fun x => x.1 = i).map Prod.snd

/-- What was sent in a world, the latest first, once this was exchanged. -/
def sentBehind (w : World) (log : List (Nat × Exchange)) : List Request :=
  ((log.map Prod.snd).map Prod.fst).reverse ++ w.sent

@[simp] theorem own_append (i : Nat) (log log' : List (Nat × Exchange)) : own i (log ++ log') = own i log ++ own i log' := by
  simp [own]

@[simp] theorem own_cons_self (i : Nat) (x : Exchange) (log : List (Nat × Exchange)) :
    own i ((i, x) :: log) = x :: own i log := by
  simp [own]

theorem own_map_self (i : Nat) (es : List Exchange) : own i (es.map (i, ·)) = es := by
  induction es with
  | nil => rfl
  | cons x es ih => rw [List.map_cons, own_cons_self, ih]

theorem own_map_of_ne {i j : Nat} (h : j ≠ i) (es : List Exchange) : own i (es.map (j, ·)) = [] := by
  rw [own, List.filter_eq_nil_iff.2, List.map_nil]
  intro x hx
  obtain ⟨y, -, rfl⟩ := List.mem_map.1 hx
  simpa using h

theorem mem_own {i : Nat} {x : Exchange} {log : List (Nat × Exchange)} : x ∈ own i log ↔ (i, x) ∈ log := by
  simp [own]

/-- Where the parties are that began with these dialogues in a world: services answered what was exchanged, and each
party has gone some way of its dialogue. -/
structure From (ds : List (Dialogue α)) (w : World) (s : Interleaving α) : Prop where
  transport : s.world.transport = w.transport
  sent : s.world.sent = sentBehind w s.log
  answers : Transport.Answers w.transport w.sent (s.log.map Prod.snd)
  absent : ∀ i : Nat, ds[i]? = none → s.parties[i]? = none ∧ own i s.log = []
  present : ∀ (i : Nat) (d : Dialogue α), ds[i]? = some d → ∃ left, s.parties[i]? = some left ∧
    ∀ es e, left.Runs es e → d.Runs (own i s.log ++ es) e

variable {ds : List (Dialogue α)} {w : World} {s : Interleaving α}

theorem from_start (ds : List (Dialogue α)) (w : World) : From ds w { parties := ds, world := w } where
  transport := rfl
  sent := rfl
  answers := trivial
  absent _ h := ⟨h, rfl⟩
  present _ d h := ⟨d, h, fun _ _ hruns => hruns⟩

/-- **What one step keeps.** -/
theorem From.step (h : From ds w s) (i : Nat) : From ds w (s.step i) := by
  unfold Interleaving.step
  cases hparty : s.parties[i]? with
  | none => exact h
  | some d =>
      obtain ⟨htransport, hsent, hanswers⟩ := d.step_world s.world
      have hlt : i < s.parties.length := (List.getElem?_eq_some_iff.1 hparty).1
      dsimp only
      refine ⟨htransport.trans h.transport, ?_, ?_, fun j hj => ?_, fun j d₀ hj => ?_⟩
      · rw [hsent, h.sent]
        simp [sentBehind, Function.comp_def]
      · rw [List.map_append, Transport.answers_append]
        refine ⟨h.answers, ?_⟩
        rw [h.transport, h.sent] at hanswers
        simpa [sentBehind, Function.comp_def] using hanswers
      -- the party that took the step is one that was there
      · obtain ⟨hnone, hown⟩ := h.absent j hj
        have hne : i ≠ j := by
          rintro rfl
          rw [hparty] at hnone
          cases hnone
        rw [List.getElem?_set_ne hne, own_append, hown, own_map_of_ne hne]
        exact ⟨hnone, rfl⟩
      · obtain ⟨left, hleft, hruns⟩ := h.present j d₀ hj
        by_cases heq : i = j
        · subst heq
          rw [hparty] at hleft
          cases hleft
          refine ⟨_, List.getElem?_set_self hlt, fun es e he => ?_⟩
          rw [own_append, own_map_self, List.append_assoc]
          exact hruns _ e (Dialogue.Runs.of_step he)
        · rw [List.getElem?_set_ne heq, own_append, own_map_of_ne heq, List.append_nil]
          exact ⟨left, hleft, hruns⟩

theorem From.run (h : From ds w s) (schedule : List Nat) : From ds w (s.run schedule) := by
  induction schedule generalizing s with
  | nil => exact h
  | cons i schedule ih => exact ih (h.step i)

/-- **What every interleaving keeps.** -/
theorem from_run (ds : List (Dialogue α)) (w : World) (schedule : List Nat) :
    From ds w (run { parties := ds, world := w } schedule) :=
  (from_start ds w).run schedule

/-- What a party exchanged is the beginning of a run of its dialogue. -/
theorem From.own_runs (h : From ds w s) {i : Nat} {d : Dialogue α} (hd : ds[i]? = some d) :
    ∃ es e, d.Runs (own i s.log ++ es) e := by
  obtain ⟨left, -, hruns⟩ := h.present i d hd
  obtain ⟨es, e, hleft⟩ := left.exists_runs
  exact ⟨es, e, hruns es e hleft⟩

/-- The services answer knowing what all the parties sent before. -/
theorem From.answered (h : From ds w s) {earlier later : List (Nat × Exchange)} {i : Nat} {r : Request} {o : Outcome}
    (hlog : s.log = earlier ++ (i, r, o) :: later) : o = w.transport (sentBehind w earlier) r := by
  have hanswers := h.answers
  rw [hlog, List.map_append, Transport.answers_append] at hanswers
  exact hanswers.2.1

/-- **A party that is alone carries its dialogue out**, as far as it comes. -/
theorem run_alone (d : Dialogue α) (w : World) (log : List (Nat × Exchange)) (n : Nat) :
    ∃ left w' log', run { parties := [d], world := w, log } (List.replicate n 0) =
        { parties := [left], world := w', log := log' } ∧
      (App.converse d).runIn w = (App.converse left).runIn w' := by
  induction n generalizing d w log with
  | zero => exact ⟨d, w, log, rfl, rfl⟩
  | succ n ih =>
      obtain ⟨left, w', log', hrun, hconverse⟩ := ih (d.step w).1 (d.step w).2.1 (log ++ (d.step w).2.2.map (0, ·))
      exact ⟨left, w', log', hrun, (d.converse_step w).trans hconverse⟩

end Interleaving

end SophiaBind
