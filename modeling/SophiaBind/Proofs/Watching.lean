/-
**Clients under watch.**

What a client is asked to do is a matter of its own, and it may answer by talking to anyone. To tell what it is
asked, an observer takes a place at each client: the client remarks every call and its release before anything
else, and the factory every client that it is to build; nothing else is remarked. What an observer has noted behind
a computation is then what clients were asked to do.

Main definitions:

* `Remark` — what is remarked,
* `World.notes` — what was noted in a world,
* `Dialogue.Quiet`, `Dialogue.Notes` — a dialogue that notes nothing, and one that begins with notes,
* `RemoteClient.Watched`, `ClientFactory.Watched` — clients and factories under watch,
* `RemoteClient.remarking` — a client with an observer in front of it.

Main results:

* `Dialogue.Notes.bind` — what is quiet may follow,
* `App.converse_notes` — **the notes of a dialogue in a world**,
* `RemoteClient.watched_remarking` — each quiet client can be put under watch.
-/

import SophiaBind.Table
import SophiaBind.Proofs.Effects

namespace SophiaBind

/-- What is remarked of clients: a call, a client that is to be built, and a release. -/
inductive Remark where
  | called (client : RemoteClient) (r : CallRequest)
  | built (n : Network) (k : Keypair)
  | closed (client : RemoteClient)

/-- The note that an event is, if it is one. -/
def Event.note? : Event → Option Json
  | .noted note => some note
  | _ => none

/-- What was noted in a world, in order. -/
def World.notes (w : World) : List Json :=
  w.events.filterMap Event.note?

theorem World.notes_event (w : World) (e : Event) :
    World.notes { w with events := w.events ++ [e] } = w.notes ++ e.note?.toList := by
  rw [notes, List.filterMap_append]
  cases h : e.note? with
  | none => simp [notes, h]
  | some note => simp [notes, h]

/-! ### Dialogues -/

namespace Dialogue

variable {α β : Type}

/-- Whatever its partners do, the dialogue notes nothing, and its result is as expected. -/
def Quiet (Q : α → Prop) : Dialogue α → Prop
  | .done a => Q a
  | .fail _ => True
  | .ask _ next => ∀ o, (next o).Quiet Q
  | .tell e next => e.note? = none ∧ next.Quiet Q
  | .draw next => ∀ x, (next x).Quiet Q

/-- The dialogue begins with notes and is quiet from there on. -/
def Notes (Q : α → Prop) : List Json → Dialogue α → Prop
  | [], d => d.Quiet Q
  | note :: notes, d => ∃ rest, d = .tell (.noted note) rest ∧ rest.Notes Q notes

theorem Quiet.bind {P : α → Prop} {Q : β → Prop} {d : Dialogue α} {f : α → Dialogue β} (h : d.Quiet P)
    (hf : ∀ a, P a → (f a).Quiet Q) : (d.bind f).Quiet Q := by
  induction d with
  | done a => exact hf a h
  | fail e => trivial
  | ask r next ih => exact fun o => ih o (h o)
  | tell e next ih => exact ⟨h.1, ih h.2⟩
  | draw next ih => exact fun x => ih x (h x)

/-- What is quiet may follow. -/
theorem Notes.bind {P : α → Prop} {Q : β → Prop} {notes : List Json} {d : Dialogue α} {f : α → Dialogue β}
    (h : d.Notes P notes) (hf : ∀ a, P a → (f a).Quiet Q) : (d.bind f).Notes Q notes := by
  induction notes generalizing d with
  | nil => exact Quiet.bind h hf
  | cons note notes ih =>
      obtain ⟨rest, rfl, hrest⟩ := h
      exact ⟨rest.bind f, rfl, ih hrest⟩

theorem quiet_ofExcept {Q : α → Prop} {x : Except Fault α} (h : ∀ a, x = .ok a → Q a) :
    (ofExcept x).Quiet Q := by
  cases x with
  | ok a => exact h a rfl
  | error e => trivial

end Dialogue

/-! ### Dialogues in a world -/

namespace App

variable {α : Type} {Q : α → Prop}

theorem converse_quiet {d : Dialogue α} (h : d.Quiet Q) (w : World) :
    ((converse d).runIn w).2.notes = w.notes ∧ ∀ a, ((converse d).runIn w).1 = .ok a → Q a := by
  induction d generalizing w with
  | done a =>
      refine ⟨rfl, fun a' ha => ?_⟩
      cases ha
      exact h
  | fail e =>
      refine ⟨rfl, fun a ha => ?_⟩
      cases ha
  | ask r next ih =>
      rw [runIn_converse_ask]
      obtain ⟨hnotes, hend⟩ := ih (w.transport w.sent r) (h _)
        { w with sent := r :: w.sent, events := w.events ++ [.requested r] }
      refine ⟨hnotes.trans ?_, hend⟩
      exact (World.notes_event w (.requested r)).trans (List.append_nil _)
  | tell e next ih =>
      rw [runIn_converse_tell]
      obtain ⟨hnotes, hend⟩ := ih h.2 { w with events := w.events ++ [e] }
      refine ⟨?_, hend⟩
      rw [hnotes, World.notes_event, h.1]
      exact List.append_nil _
  | draw next ih =>
      rw [runIn_converse_draw]
      exact ih (w.chance w.drawn) (h _) { w with drawn := w.drawn + 1 }

/-- **The notes of a dialogue in a world** lie behind those that were there before. -/
theorem converse_notes {notes : List Json} {d : Dialogue α} (h : d.Notes Q notes) (w : World) :
    ((converse d).runIn w).2.notes = w.notes ++ notes ∧ ∀ a, ((converse d).runIn w).1 = .ok a → Q a := by
  induction notes generalizing d w with
  | nil =>
      rw [List.append_nil]
      exact converse_quiet h w
  | cons note notes ih =>
      obtain ⟨rest, rfl, hrest⟩ := h
      rw [runIn_converse_tell]
      obtain ⟨hnotes, hend⟩ := ih hrest { w with events := w.events ++ [.noted note] }
      refine ⟨?_, hend⟩
      rw [hnotes, World.notes_event, List.append_assoc]
      rfl

end App

/-! ### Clients -/

/-- A client under watch: it remarks its calls and its release first, and is quiet then and when it decodes. -/
structure RemoteClient.Watched (note : Remark → Json) (c : RemoteClient) : Prop where
  call : ∀ r, (c.call r).Notes (fun result => ∀ type, (result.decode type).Quiet fun _ => True) [note (.called c r)]
  close : c.close.Notes (fun _ => True) [note (.closed c)]

/-- A factory under watch: it remarks first what it is to build, and all that it builds is under watch. -/
def ClientFactory.Watched (note : Remark → Json) (factory : ClientFactory) : Prop :=
  ∀ n k, (factory n k).Notes (RemoteClient.Watched note) [note (.built n k)]

/-- A remark in words: what was asked, of whom, and for which function or on which network. -/
def Remark.inWords : Remark → Json
  | .called c r => .array [.text "call", .text c.keypair.publicKey, .ofText r.function]
  | .built n k => .array [.text "build", .text k.publicKey, .text n.name]
  | .closed c => .array [.text "close", .text c.keypair.publicKey]

/-- A client with an observer in front of it. -/
def RemoteClient.remarking (c : RemoteClient) : RemoteClient :=
  { c with
    call := fun r => .tell (.noted (Remark.inWords (.called c r))) (c.call r)
    close := .tell (.noted (Remark.inWords (.closed c))) c.close }

/-- Each client that is quiet can be put under watch. -/
theorem RemoteClient.watched_remarking {c : RemoteClient}
    (hcall : ∀ r, (c.call r).Quiet fun result => ∀ type, (result.decode type).Quiet fun _ => True)
    (hclose : c.close.Quiet fun _ => True) : c.remarking.Watched Remark.inWords where
  call r := ⟨c.call r, rfl, hcall r⟩
  close := ⟨c.close, rfl, hclose⟩

/-- To decode the result of a watched call is quiet. -/
theorem CallResult.quiet_decoded {result : CallResult} (h : ∀ type, (result.decode type).Quiet fun _ => True)
    (returns : String) : (result.decoded returns).Quiet fun _ => True := by
  refine (h (Text.trimmed returns)).bind fun answer _ => ?_
  exact Dialogue.quiet_ofExcept fun _ _ => trivial

end SophiaBind
