/-
**A deployed contract and its gas figures.**

When a contract is on the chain and its functions are cataloged, the client is asked for the gas figures of its
transaction. A client that fails to tell them does no harm: the figures are zeros. But what it tells is read
outside of that, and behind the steps whose faults are recorded. So an answer that is no mapping, or that has a
figure which is no number, ends the attempt with the fault of reading it: the contract is lost to the caller,
nothing is recorded, and the deployer is neither ready nor failed. The same happens to a figure that can be read
but is too long to be written.

Main definitions:

* `Deployer.fits` — an entry that can be written,
* `Deployer.Kept`, `Deployer.Lost` — an attempt that gives the contract and is recorded, and one that does neither.

Main results:

* `Deployer.finish_kept_or_lost` — the end of an attempt, by these figures,
* `Deployer.deploy_kept_or_lost` — **a contract is kept exactly if its gas figures can be read and written**,
* `Deployer.deploy_lost_null` — a contract that is lost.
-/

import SophiaBind.Proofs.InitCall

namespace SophiaBind.Deployer

/-! ### Kept or lost -/

/-- Whether an entry with this handle and these figures can be written. -/
def fits (handle : DeployedHandle) (used price : Int) : Bool :=
  handle.transaction.isWritable && Integer.isWritable price && Integer.isWritable used && handle.address.isWritable

theorem areWritableMembers_entry (label : String) (handle : DeployedHandle) (used price : Int) :
    Json.areWritableMembers (entry label (some handle) used price none) = fits handle used price := by
  rw [areWritable_entry_eq, fits]
  simp [DeployedHandle.isWritable, Bool.and_comm, Bool.and_left_comm]

variable {d : Deployer} {client : RemoteClient} {what : Deployment} {contract : DeployedContract}
  {log : History.Log} {l : Location} {w w₁ w₂ : World}

/-- An attempt gives the contract, the deployer is ready, and one more line says so, with the gas figures. Its status
is true if the transaction has a hash. -/
def Kept (d : Deployer) (log : History.Log) (l : Location) (w : World) (contract : DeployedContract)
    (used price : Int) (ending : Except Fault Ending × World) : Prop :=
  ∃ entry w', ending = (.ok ({ d with log := some log, phase := .ready }, .ok contract), w') ∧
    log.Appends entry l w w'.files ∧ Json.lookup? entry "status" = some (.bool (verdict (.ok contract))) ∧
    Json.lookup? entry "gasUsed" = some (.int used) ∧ Json.lookup? entry "gasPrice" = some (.int price)

/-- An attempt fails behind its steps: the deployer is left at cataloging, and there is no line. -/
def Lost (l : Location) (w : World) (f : Fault) (ending : Except Fault Ending × World) : Prop :=
  ∃ d' w', ending = (.ok (d', .error f), w') ∧ d'.phase = .cataloging ∧
    w'.files.contentAt l = w.files.contentAt l

/-- The end of an attempt whose steps gave a contract, by the gas figures that the client tells. -/
theorem finish_kept_or_lost (hrecords : d.Records log l w) (contract : DeployedContract) (talk : Talk)
    (label shownName : String) :
    match figuresTold ((App.converse (contract.table.client.transactionInfo contract.handle.transaction)).runIn
        (w.withTalk talk)).1 with
    | .error f => Lost l w f ((d.finish label shownName contract).runIn (w.withTalk talk))
    | .ok (used, price) =>
      if fits contract.handle used price then
        d.Kept log l w contract used price ((d.finish label shownName contract).runIn (w.withTalk talk))
      else Lost l w .tooLongNumber ((d.finish label shownName contract).runIn (w.withTalk talk)) := by
  obtain ⟨talk', hfigures⟩ := runIn_gasFigures contract.table.client contract.handle.transaction (w.withTalk talk)
  generalize figuresTold _ = told at hfigures ⊢
  match told with
  | .error f =>
      exact ⟨{ d with phase := .cataloging }, w.withTalk talk', finish_unread hfigures label shownName, rfl, rfl⟩
  | .ok (used, price) =>
      have hwritable := areWritableMembers_entry label contract.handle used price
      dsimp only
      split
      · next hfits =>
          rw [hfits] at hwritable
          obtain ⟨opened, files, hlog, hrecord, hline, -⟩ := hrecords.record talk' hwritable
          exact ⟨_, _, finish_eq hfigures hlog hrecord shownName, hline,
            status_entry_verdict label contract used price, rfl, rfl⟩
      · next hfits =>
          rw [Bool.not_eq_true _ |>.mp hfits] at hwritable
          obtain ⟨opened, hlog, -, hcontent⟩ := hrecords.opens talk'
          exact ⟨_, _, finish_given_up hfigures hlog (record_of_too_long log hwritable _) shownName, rfl, hcontent⟩

/-- **A contract is kept exactly if its gas figures can be read and written.** When the client is built and the steps
give a contract, what the client tells of its transaction decides: if it fails, or if what it tells has figures that
can be read and written, the attempt gives the contract and is recorded; else it fails with the fault of reading them,
or of writing them, and is not. -/
theorem deploy_kept_or_lost
    (hfactory : (App.converse (d.factory d.network d.keypair)).runIn w = (.ok client, w₁))
    (hbody : (d.body client what).runIn w₁ = (.ok contract, w₂)) (hrecords : d.Records log l w) :
    match figuresTold ((App.converse (client.transactionInfo contract.handle.transaction)).runIn w₂).1 with
    | .error f => Lost l w f ((d.deploy what).runIn w)
    | .ok (used, price) =>
      if fits contract.handle used price then d.Kept log l w contract used price ((d.deploy what).runIn w)
      else Lost l w .tooLongNumber ((d.deploy what).runIn w) := by
  -- building the client and the steps are talk
  obtain ⟨es, e, talk, -, hbuilt, -⟩ := App.converse_agrees (d.factory d.network d.keypair) w.transport w.transport w
  obtain rfl : w₁ = w.withTalk talk := congrArg Prod.snd (hfactory.symm.trans hbuilt)
  obtain ⟨steps, talk', hsteps, -⟩ := d.sameFor_body client what (t := w.transport) (w := w.withTalk talk)
  obtain rfl : w₂ = w.withTalk talk' := congrArg Prod.snd (hbody.symm.trans hsteps)
  obtain ⟨rfl, -, label, shownName, hrun⟩ := deployBy_of_body hbody
  rw [deploy_built hfactory]
  have hfinish := finish_kept_or_lost hrecords contract talk' label shownName
  have hdeploy : (deployBy { d with phase := .uninitialized } contract.table.client what).runIn (w.withTalk talk) =
      (finish { d with phase := .uninitialized } label shownName contract).runIn (w.withTalk talk') := hrun
  rw [hdeploy]
  exact hfinish

/-! ### What clients may tell -/

/-- A client that puts every contract on the chain, and tells what it is told of the transaction. -/
def tellingClient (told : Except Fault Value) : RemoteClient :=
  { givingClient (.ok ⟨.text "cb_1", "contract Main", []⟩) (.ok .null) with
    transactionInfo := fun _ => .ofExcept told }

/-- A deployer with that client. -/
def tellingDeployer (told : Except Fault Value) : Deployer :=
  { firstDeployer with factory := fun _ _ => .done (tellingClient told), useInterface := false }

theorem body_telling (told : Except Fault Value) :
    ∃ contract w₂, ((tellingDeployer told).body (tellingClient told) emptyContract).runIn firstWorld =
        (.ok contract, w₂) ∧
      contract.handle = ⟨.text "ct_1", .text "th_1", "ak_1", .null⟩ :=
  ⟨_, _, rfl, rfl⟩

theorem records_telling (told : Except Fault Value) :
    (tellingDeployer told).Records firstLog attemptsLocation firstWorld :=
  ⟨Integer.isWritable_zero, _, rfl, by decide, rfl,
    show firstWorld.files.opens attemptsLocation = true by decide, rfl, rfl⟩

theorem fits_telling : fits ⟨.text "ct_1", .text "th_1", "ak_1", .null⟩ 0 0 = true := by
  simp [fits, Json.isWritable, Integer.isWritable_zero]

/-- A client that fails to tell of the transaction does no harm. -/
theorem deploy_kept_or_lost_untold :
    let d := tellingDeployer (.error .endless)
    let client := tellingClient (.error .endless)
    (App.converse (d.factory d.network d.keypair)).runIn firstWorld = (.ok client, firstWorld) ∧
    d.Records firstLog attemptsLocation firstWorld ∧
    ∃ contract w₂, (d.body client emptyContract).runIn firstWorld = (.ok contract, w₂) ∧
      verdict (.ok contract) = true ∧
      d.Kept firstLog attemptsLocation firstWorld contract 0 0 ((d.deploy emptyContract).runIn firstWorld) := by
  intro d client
  obtain ⟨contract, w₂, hbody, hhandle⟩ := body_telling (.error .endless)
  have hkept := deploy_kept_or_lost (d := d) rfl hbody (records_telling _)
  have hfits : fits contract.handle 0 0 = true := hhandle ▸ fits_telling
  have htold : figuresTold ((App.converse (client.transactionInfo contract.handle.transaction)).runIn w₂).1 =
      .ok (0, 0) := rfl
  rw [htold] at hkept
  dsimp only at hkept
  rw [if_pos hfits] at hkept
  refine ⟨rfl, records_telling _, contract, w₂, hbody, ?_, hkept⟩
  rw [verdict, hhandle]
  rfl

/-- Transaction info without gas that was used. -/
def unusedInfo : Value :=
  .map [(.text "gasUsed", .null), (.text "gasPrice", .int 1000000000)]

/-- **A contract that is lost**: all steps give it, and it is on the chain with a transaction, but the client tells of no
number for the gas that was used. -/
theorem deploy_lost_null :
    let d := tellingDeployer (.ok unusedInfo)
    let client := tellingClient (.ok unusedInfo)
    ∃ contract w₂, (d.body client emptyContract).runIn firstWorld = (.ok contract, w₂) ∧
      verdict (.ok contract) = true ∧
      ∃ f, f.name = "TypeError" ∧
        Lost attemptsLocation firstWorld f ((d.deploy emptyContract).runIn firstWorld) := by
  intro d client
  obtain ⟨contract, w₂, hbody, hhandle⟩ := body_telling (.ok unusedInfo)
  obtain ⟨steps, talk, hsteps, -⟩ :=
    d.sameFor_body client emptyContract (t := firstWorld.transport) (w := firstWorld)
  obtain rfl : w₂ = firstWorld.withTalk talk := congrArg Prod.snd (hbody.symm.trans hsteps)
  obtain ⟨hclient, label, shownName, hrun⟩ := deploy_of_body (d := d) rfl hbody
  have hfinish := finish_kept_or_lost (records_telling (.ok unusedInfo)) contract talk label shownName
  have htold : figuresTold ((App.converse (contract.table.client.transactionInfo
      contract.handle.transaction)).runIn (firstWorld.withTalk talk)).1 = .error (.notNumber Value.null.kind) := by
    rw [hclient]
    rfl
  rw [htold] at hfinish
  refine ⟨contract, _, hbody, ?_, _, rfl, hrun ▸ hfinish⟩
  rw [verdict, hhandle]
  rfl

end SophiaBind.Deployer
