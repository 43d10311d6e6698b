/-
**Talk**: what a computation does to the world when it leaves the files alone.

It sends requests, draws numbers by chance and reports events, and these lie behind what was there before.
Nothing else of the world changes. Most of what a deployment does is talk, with a client that may close its
session only when it is asked to.

Main definitions:

* `Event.isClosing` — the event of a client that is released,
* `World.Talked` — a world behind talk in which no client was released,
* `Dialogue.Always`, `App.Always` — talk that ends in a certain way,
* `Meets`, `Gives` — a result as expected, or else a fault that has a name, or else none.

Main results:

* `App.always_converse` — **a dialogue is talk**,
* `App.Always.follow` — **talk behind talk is talk**, with `App.Always.bind` and `App.Always.andThen`.
-/

import SophiaBind.Deployer
import SophiaBind.Proofs.Effects

namespace SophiaBind

/-! ### Worlds -/

/-- The event of a client that is released. -/
def Event.isClosing : Event → Bool
  | .sessionClosed => true
  | _ => false

/-- What was sent, how often a number was drawn, and what was observed. -/
structure Talk where
  sent : List Request
  drawn : Nat
  events : List Event

/-- One more event. -/
def Talk.told (t : Talk) (e : Event) : Talk :=
  { t with events := t.events ++ [e] }

namespace World

/-- The talk of a world. -/
def talk (w : World) : Talk :=
  ⟨w.sent, w.drawn, w.events⟩

/-- A world with other talk. -/
def withTalk (w : World) (t : Talk) : World :=
  { w with sent := t.sent, drawn := t.drawn, events := t.events }

@[simp] theorem withTalk_talk (w : World) : w.withTalk w.talk = w := rfl

/-- A world behind talk in which no client was released. -/
def Talked (w w' : World) : Prop :=
  ∃ t said, w' = w.withTalk t ∧ t.events = w.events ++ said ∧ ∀ e ∈ said, e.isClosing = false

theorem Talked.refl (w : World) : w.Talked w :=
  ⟨w.talk, [], rfl, (List.append_nil w.events).symm, by simp⟩

theorem Talked.trans {w w' w'' : World} (h : w.Talked w') (h' : w'.Talked w'') : w.Talked w'' := by
  obtain ⟨t, said, rfl, ht, hsaid⟩ := h
  obtain ⟨t', said', rfl, ht', hsaid'⟩ := h'
  refine ⟨t', said ++ said', rfl, ?_, fun e he => ?_⟩
  · rw [ht', ← List.append_assoc, ← ht]
    rfl
  · rcases List.mem_append.1 he with he | he
    · exact hsaid e he
    · exact hsaid' e he

/-- One more event. -/
theorem talked_event (w : World) {e : Event} (he : e.isClosing = false) :
    w.Talked { w with events := w.events ++ [e] } :=
  ⟨w.talk.told e, [e], rfl, rfl, by simpa using he⟩

theorem Talked.lasting : Lasting Talked where
  refl := .refl
  trans := .trans
  asked w r :=
    ⟨⟨r :: w.sent, w.drawn, w.events ++ [.requested r]⟩, [.requested r], rfl, rfl, by simp [Event.isClosing]⟩
  drawn w := ⟨⟨w.sent, w.drawn + 1, w.events⟩, [], rfl, (List.append_nil w.events).symm, by simp⟩

end World

/-! ### Results -/

/-- A result as expected, or a fault that has a name. -/
def Meets {α : Type} (P : α → Prop) : Except Fault α → Prop
  | .ok a => P a
  | .error f => f.name ≠ ""

/-- A result as expected. -/
def Gives {α : Type} (P : α → Prop) (e : Except Fault α) : Prop :=
  ∃ a, e = .ok a ∧ P a

/-- A result made in two steps. -/
theorem Meets.bind {α β : Type} {P : α → Prop} {Q : β → Prop} {e : Except Fault α} {f : α → Except Fault β}
    (h : Meets P e) (hf : ∀ a, P a → Meets Q (f a)) : Meets Q (e >>= f) := by
  cases e with
  | ok a => exact hf a h
  | error fault => exact h

/-! ### Dialogues -/

namespace Dialogue

variable {α : Type}

/-- Whatever its partners do, the dialogue releases no client and ends in a certain way. -/
def Always (Q : Except Fault α → Prop) : Dialogue α → Prop
  | .done a => Q (.ok a)
  | .fail f => Q (.error f)
  | .ask _ next => ∀ o, (next o).Always Q
  | .tell e next => e.isClosing = false ∧ next.Always Q
  | .draw next => ∀ x, (next x).Always Q

end Dialogue

/-! ### Computations -/

namespace App

variable {α β : Type}

/-- In every world, the computation is talk and ends in a certain way. -/
def Always (Q : Except Fault α → Prop) (x : App α) : Prop :=
  ∀ w, w.Talked (x.runIn w).2 ∧ Q (x.runIn w).1

@[simp] theorem runIn_attempt (x : App α) (w : World) :
    x.attempt.runIn w = (.ok (x.runIn w).1, (x.runIn w).2) := by
  rw [attempt, runIn_tryCatch, runIn_bind]
  cases h : x.runIn w with
  | mk result w' => cases result <;> rfl

/-- What goes on behind a computation that may fail is told how it ended. -/
theorem runIn_attempt_bind {x : App α} {w w' : World} {result : Except Fault α} (h : x.runIn w = (result, w'))
    (f : Except Fault α → App β) : (x.attempt >>= f).runIn w = (f result).runIn w' := by
  rw [runIn_bind_ok (runIn_attempt x w), h]

/-- **A dialogue is talk.** -/
theorem always_converse {Q : Except Fault α → Prop} {d : Dialogue α} (h : d.Always Q) :
    Always Q (converse d) :=
  Ensures.converse (D := Dialogue.Always Q) World.Talked.lasting id id id
    (fun h => ⟨fun w => w.talked_event h.1, h.2⟩) id h

namespace Always

theorem pure {P : α → Prop} {a : α} (h : P a) : Always (Meets P) (pure a : App α) :=
  fun w => ⟨.refl w, h⟩

theorem throw {P : α → Prop} {f : Fault} (h : f.name ≠ "") : Always (Meets P) (throw f : App α) :=
  fun w => ⟨.refl w, h⟩

theorem get : Always (Gives fun _ => True) (get : App World) :=
  fun w => ⟨.refl w, w, rfl, trivial⟩

theorem ofExcept {P : α → Prop} {e : Except Fault α} (h : Meets P e) : Always (Meets P) (ofExcept e) := by
  intro w
  rw [runIn_ofExcept]
  exact ⟨.refl w, h⟩

theorem report {e : Event} (h : e.isClosing = false) : Always (Gives fun _ => True) (report e) :=
  fun w => ⟨w.talked_event h, (), rfl, trivial⟩

/-- **Talk behind talk is talk.** -/
theorem follow {P : Except Fault α → Prop} {Q : Except Fault β → Prop} {x : App α} {f : α → App β}
    (hx : Always P x) (hf : ∀ a, P (.ok a) → Always Q (f a)) (herror : ∀ e, P (.error e) → Q (.error e)) :
    Always Q (x >>= f) :=
  Ensures.follow World.Talked.lasting hx hf herror

theorem bind {P : α → Prop} {Q : β → Prop} {x : App α} {f : α → App β} (hx : Always (Meets P) x)
    (hf : ∀ a, P a → Always (Meets Q) (f a)) : Always (Meets Q) (x >>= f) :=
  follow hx hf fun _ he => he

theorem andThen {P : α → Prop} {Q : Except Fault β → Prop} {x : App α} {f : α → App β}
    (hx : Always (Gives P) x) (hf : ∀ a, P a → Always Q (f a)) : Always Q (x >>= f) := by
  refine follow hx (fun a ha => ?_) fun e he => ?_
  · obtain ⟨a', ha', hP⟩ := ha
    cases ha'
    exact hf a hP
  · obtain ⟨a, ha, -⟩ := he
    cases ha

/-- Whether talk succeeds can be asked. -/
theorem attempt {Q : Except Fault α → Prop} {x : App α} (hx : Always Q x) : Always (Gives Q) x.attempt := by
  intro w
  rw [runIn_attempt]
  exact ⟨(hx w).1, (x.runIn w).1, rfl, (hx w).2⟩

theorem warnAll : ∀ messages : List String, Always (Gives fun _ => True) (warnAll messages)
  | [] => fun w => ⟨.refl w, (), rfl, trivial⟩
  | _ :: rest => andThen (report rfl) fun _ _ => warnAll rest

end Always

end App

end SophiaBind
