/-
**Runs of dialogues.**

A dialogue says what one party does for every outcome of its requests. A run of it is one way through: the
requests that it sent, each with what became of it, and what it ended with. Runs are related to dialogues
one step at a time, so that what holds of every run is proved along the dialogue.

Main definitions:

* `Exchange` — a request with its outcome,
* `Dialogue.Runs` — the runs of a dialogue.

Main results:

* `Dialogue.Runs.bind_inv`, `Dialogue.Runs.recover_inv` — **a run of two dialogues is a run of each**.
-/

import SophiaBind.World

namespace SophiaBind

/-- A request with what became of it. -/
abbrev Exchange := Request × Outcome

namespace Dialogue

variable {α β : Type}

/-- `Runs d es e`: a run of `d` has the exchanges `es`, in this order, and ends with `e`. -/
inductive Runs : Dialogue α → List Exchange → Except Fault α → Prop
  | done (a : α) : Runs (.done a) [] (.ok a)
  | fail (f : Fault) : Runs (.fail f) [] (.error f)
  | ask {r : Request} {next : Outcome → Dialogue α} {o : Outcome} {es : List Exchange} {e : Except Fault α} :
      Runs (next o) es e → Runs (.ask r next) ((r, o) :: es) e
  | tell {event : Event} {next : Dialogue α} {es : List Exchange} {e : Except Fault α} :
      Runs next es e → Runs (.tell event next) es e
  | draw {next : Binary64 → Dialogue α} {x : Binary64} {es : List Exchange} {e : Except Fault α} :
      Runs (next x) es e → Runs (.draw next) es e

namespace Runs

theorem done_inv {a : α} {es : List Exchange} {e : Except Fault α} (h : Runs (.done a) es e) :
    es = [] ∧ e = .ok a := by
  cases h
  exact ⟨rfl, rfl⟩

theorem fail_inv {f : Fault} {es : List Exchange} {e : Except Fault α} (h : Runs (.fail f) es e) :
    es = [] ∧ e = .error f := by
  cases h
  exact ⟨rfl, rfl⟩

theorem ofExcept_inv {x : Except Fault α} {es : List Exchange} {e : Except Fault α}
    (h : Runs (.ofExcept x) es e) : es = [] ∧ e = x := by
  cases x with
  | ok a => exact done_inv h
  | error f => exact fail_inv h

/-- **A run of two dialogues, one after the other**, is a run of the first that fails, or a run of the first
and then one of the second. -/
theorem bind_inv {d : Dialogue α} {f : α → Dialogue β} {es : List Exchange} {e : Except Fault β}
    (h : Runs (d.bind f) es e) :
    (∃ fault, e = .error fault ∧ Runs d es (.error fault)) ∨
      ∃ a es₁ es₂, es = es₁ ++ es₂ ∧ Runs d es₁ (.ok a) ∧ Runs (f a) es₂ e := by
  induction d generalizing es with
  | done a => exact .inr ⟨a, [], es, rfl, .done a, h⟩
  | fail fault =>
      obtain ⟨rfl, rfl⟩ := fail_inv h
      exact .inl ⟨fault, rfl, .fail fault⟩
  | ask r next ih =>
      cases h with
      | @ask _ _ o es _ h =>
          rcases ih o h with ⟨fault, rfl, hd⟩ | ⟨a, es₁, es₂, rfl, hd, hf⟩
          · exact .inl ⟨fault, rfl, hd.ask⟩
          · exact .inr ⟨a, (r, o) :: es₁, es₂, rfl, hd.ask, hf⟩
  | tell event next ih =>
      cases h with
      | tell h =>
          rcases ih h with ⟨fault, rfl, hd⟩ | ⟨a, es₁, es₂, rfl, hd, hf⟩
          · exact .inl ⟨fault, rfl, hd.tell⟩
          · exact .inr ⟨a, es₁, es₂, rfl, hd.tell, hf⟩
  | draw next ih =>
      cases h with
      | @draw _ x _ _ h =>
          rcases ih x h with ⟨fault, rfl, hd⟩ | ⟨a, es₁, es₂, rfl, hd, hf⟩
          · exact .inl ⟨fault, rfl, hd.draw⟩
          · exact .inr ⟨a, es₁, es₂, rfl, hd.draw, hf⟩

/-- **A run of a dialogue with a handler** is a run of the dialogue that succeeds, or one that fails and
then a run of the handler. -/
theorem recover_inv {d : Dialogue α} {handler : Fault → Dialogue α} {es : List Exchange}
    {e : Except Fault α} (h : Runs (d.recover handler) es e) :
    (∃ a, e = .ok a ∧ Runs d es (.ok a)) ∨
      ∃ fault es₁ es₂, es = es₁ ++ es₂ ∧ Runs d es₁ (.error fault) ∧ Runs (handler fault) es₂ e := by
  induction d generalizing es with
  | done a =>
      obtain ⟨rfl, rfl⟩ := done_inv h
      exact .inl ⟨a, rfl, .done a⟩
  | fail fault => exact .inr ⟨fault, [], es, rfl, .fail fault, h⟩
  | ask r next ih =>
      cases h with
      | @ask _ _ o es _ h =>
          rcases ih o h with ⟨a, rfl, hd⟩ | ⟨fault, es₁, es₂, rfl, hd, hh⟩
          · exact .inl ⟨a, rfl, hd.ask⟩
          · exact .inr ⟨fault, (r, o) :: es₁, es₂, rfl, hd.ask, hh⟩
  | tell event next ih =>
      cases h with
      | tell h =>
          rcases ih h with ⟨a, rfl, hd⟩ | ⟨fault, es₁, es₂, rfl, hd, hh⟩
          · exact .inl ⟨a, rfl, hd.tell⟩
          · exact .inr ⟨fault, es₁, es₂, rfl, hd.tell, hh⟩
  | draw next ih =>
      cases h with
      | @draw _ x _ _ h =>
          rcases ih x h with ⟨a, rfl, hd⟩ | ⟨fault, es₁, es₂, rfl, hd, hh⟩
          · exact .inl ⟨a, rfl, hd.draw⟩
          · exact .inr ⟨fault, es₁, es₂, rfl, hd.draw, hh⟩

end Runs

end Dialogue

end SophiaBind
