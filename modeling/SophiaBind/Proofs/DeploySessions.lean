/-
**The session of an attempt to deploy.**

An attempt by a client of the node keeps the session open if it succeeds, and closes it if it fails, once the failure
is recorded. Between these nothing is said of sessions. All that an entry of the history says was read from answers,
so it can be written; so recording does not get in the way of closing where attempts can be recorded at all.

Main results:

* `DeployedHandle.Moderate.isWritable` — what is said of a contract can be written,
* `Deployer.said_fail`, `Deployer.said_finish` — what both endings say of the session,
* `Deployer.said_deployBy` — **what an attempt says of its session**.
-/

import SophiaBind.Proofs.InitCall
import SophiaBind.Proofs.DiscreetSteps

namespace SophiaBind

/-- What a handle says was read from answers, so it can be written. -/
theorem DeployedHandle.Moderate.isWritable {h : DeployedHandle} (hmoderate : h.Moderate) : h.isWritable = true := by
  rw [DeployedHandle.isWritable, hmoderate.1.isWritable, hmoderate.2.isWritable]
  rfl

namespace Deployer

open App (IsDiscreet Discreet)

variable {d : Deployer} {log : History.Log} {l : Location} {w : World} {what : Deployment}

/-! ### Discreet steps -/

/-- Creating a contract is discreet, and gives a handle that the history can hold. -/
theorem discreet_create (c : NodeClient) (s : Source) (what : Deployment) :
    Discreet (fun made => made.2.Moderate) (create c.remote s what) :=
  .bind (App.discreet_converse (c.discreet_compile _ _)) fun _ _ => .bind (.ofExcept fun _ _ => trivial) fun _ _ =>
    .bind (.ofExcept fun _ _ => trivial) fun _ _ =>
      .bind (App.discreet_converse (c.discreet_deploy _ _ _)) fun _ hhandle =>
        .pure hhandle

theorem CreatedBy.moderate {c : NodeClient} {handle : DeployedHandle} (h : CreatedBy c.remote what handle) :
    handle.Moderate := by
  obtain ⟨source, artifact, w, w', hcreate⟩ := h
  obtain ⟨-, hmade⟩ := discreet_create c source what w
  exact hmade (artifact, handle) (by rw [hcreate])

/-- The steps of an attempt are discreet. -/
theorem discreet_body (d : Deployer) (c : NodeClient) (what : Deployment) : IsDiscreet (d.body c.remote what) :=
  .bind (Source.discreet_read _) fun source _ => .bind (discreet_create c source what) fun _ _ =>
    .bind (discreet_buildCatalog c source _) fun _ _ => .pure trivial

/-- Asking for gas figures is discreet, and the history can hold them. -/
theorem discreet_gasFigures (c : NodeClient) (transaction : Json) :
    Discreet (fun figures => Integer.isWritable figures.1 = true ∧ Integer.isWritable figures.2 = true)
      (gasFigures c.remote transaction) := by
  have hask : Discreet (fun e => ∀ info, e = .ok info → ∃ used price,
      info = .map [(.text "gasUsed", .int used), (.text "gasPrice", .int price)] ∧
        Integer.isWritable used = true ∧ Integer.isWritable price = true)
      (App.attempt (App.converse (c.transactionInfo transaction))) :=
    .tryCatch (.bind (App.discreet_converse (c.discreet_transactionInfo transaction)) fun info hinfo =>
      .pure fun _ h => Except.ok.inj h ▸ hinfo) fun f => .pure fun _ h => by cases h
  refine .bind hask fun e he => ?_
  cases e with
  | error f => exact .bind (.report rfl) fun _ _ => .pure ⟨Integer.isWritable_zero, Integer.isWritable_zero⟩
  | ok info =>
      obtain ⟨used, price, rfl, hused, hprice⟩ := he info rfl
      exact .pure ⟨hused, hprice⟩

/-! ### Endings -/

/-- **An attempt that fails closes the session** once it is recorded. -/
theorem said_fail (c : NodeClient) (hrecords : d.Records log l w) (talk : Talk) (label : String)
    {handle : Option DeployedHandle} (hhandle : ∀ h ∈ handle, h.Moderate) (f : Fault) :
    ∃ d' w', (d.fail c.remote label handle f).runIn (w.withTalk talk) = (.ok (d', .error f), w') ∧
      World.Said [.sessionClosed] (w.withTalk talk) w' := by
  have hreport := App.runIn_report (.error ("Deploy of " ++ label ++ " failed: " ++ f.message)) (w.withTalk talk)
  have hwritable : handle.all DeployedHandle.isWritable = true :=
    (Option.all_eq_true ..).2 fun h hh => (hhandle h hh).isWritable
  obtain ⟨opened, files, hlog, hrecord, -, -⟩ := hrecords.record (talk.told _)
    (areWritable_entry label hwritable Integer.isWritable_zero Integer.isWritable_zero (some f.summary))
  exact ⟨_, _, fail_eq hreport hlog (App.runIn_bind_ok hrecord _),
    [.error ("Deploy of " ++ label ++ " failed: " ++ f.message), .sessionClosed],
    List.append_assoc talk.events [_] [.sessionClosed], rfl⟩

/-- **An attempt that succeeds says nothing of the session.** -/
theorem said_finish {c : NodeClient} {contract : DeployedContract} (hclient : contract.table.client = c.remote)
    (hrecords : d.Records log l w) (talk : Talk) (label shownName : String) (hhandle : contract.handle.Moderate) :
    ∃ d' w', (d.finish label shownName contract).runIn (w.withTalk talk) = (.ok (d', .ok contract), w') ∧
      World.Said [] (w.withTalk talk) w' := by
  obtain ⟨used, price, talk', hfigures⟩ := gasFigures_remote c contract.handle.transaction (w.withTalk talk)
  obtain ⟨hsaid, hgiven⟩ := discreet_gasFigures c contract.handle.transaction (w.withTalk talk)
  rw [hfigures] at hsaid hgiven
  obtain ⟨hused, hprice⟩ := hgiven (used, price) rfl
  have hwritable : (some contract.handle).all DeployedHandle.isWritable = true := hhandle.isWritable
  obtain ⟨opened, files, hlog, hrecord, -, -⟩ :=
    hrecords.record talk' (areWritable_entry label hwritable hused hprice none)
  rw [← hclient] at hfigures
  have htold := World.said_event { w.withTalk talk' with files := files } (told shownName)
  exact ⟨_, _, finish_eq hfigures hlog hrecord shownName, hsaid.before ((World.Said.of_events rfl).behind htold)⟩

/-! ### Attempts -/

/-- What an attempt that ended so said of its session. -/
def saidOf : Except Fault DeployedContract → List Event
  | .ok _ => []
  | .error _ => [.sessionClosed]

/-- **What an attempt says of its session**: nothing if it succeeds, with its client bound to the contract, and else
that it is closed. -/
theorem said_deployBy (c : NodeClient) (hrecords : d.Records log l w) (what : Deployment) :
    ∃ d' result w', (d.deployBy c.remote what).runIn w = (.ok (d', result), w') ∧
      World.Said (saidOf result) w w' ∧ ∀ contract, result = .ok contract → contract.table.client = c.remote := by
  obtain ⟨steps, talk, hbody, -⟩ := d.sameFor_body c.remote what (t := w.transport) (w := w)
  have hbody : (d.body c.remote what).runIn w = (steps, w.withTalk talk) := hbody
  obtain ⟨hsaid, -⟩ := discreet_body d c what w
  rw [hbody] at hsaid
  cases steps with
  | ok contract =>
      obtain ⟨hclient, hcreated, label, shownName, hrun⟩ := deployBy_of_body hbody
      obtain ⟨d', w', hfinish, hend⟩ := said_finish hclient hrecords talk label shownName hcreated.moderate
      exact ⟨d', .ok contract, w', hrun.trans hfinish, hsaid.behind hend, fun _ h => Except.ok.inj h ▸ hclient⟩
  | error f =>
      obtain ⟨label, handle, hcreated, hrun⟩ := deployBy_of_failed hbody
      obtain ⟨d', w', hfail, hend⟩ := said_fail c hrecords talk label (fun h hh => (hcreated h hh).moderate) f
      exact ⟨d', .error f, w', hrun.trans hfail, hsaid.behind hend, fun _ h => by cases h⟩

end Deployer

end SophiaBind
