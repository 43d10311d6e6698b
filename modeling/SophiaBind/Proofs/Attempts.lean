/-
**Attempts one behind another.**

A deployer is used again and again, each time with a client that is built for the attempt. Whatever the clients do
and wherever they fail, each attempt is accounted for: one line of the history that says how it went, and a
client that is released if and only if it failed. There is one way around that. What a client tells of the gas of a
contract is read and written behind all the steps whose faults are recorded; so an attempt with a gas figure that is
no number, or has more digits than a line can hold, is stuck with its contract on the chain, no line and an open
client. The next attempt is accounted for again.

Main definitions:

* `Deployer.body`, `Deployer.created` — the steps of an attempt, and those up to the contract on the chain,
* `Deployer.obstacle?` — what is in the way of recording an attempt that got through its steps,
* `Attempt` — what is to be deployed, and by which clients,
* `Account` — what an attempt left behind, `Account.Tells`, `Account.Ends` and `Account.Holds` — the law of it,
* `Deployer.Accounted` — accounts of attempts one behind another.

Main results:

* `Deployer.told_of_proper`, `Deployer.attempt_accounted` — **one attempt is accounted for**,
* `Deployer.attempts_accounted` — **all attempts are accounted for**,
* `Deployer.attempt_stuck` — an attempt that is stuck,
* `Deployer.Accounted.lines` — the history behind them has one more line for each that is not.
-/

import Mathlib.Algebra.Group.Int.Defs
import SophiaBind.Proofs.AttemptEndings

namespace SophiaBind

/-! ### Steps -/

namespace Deployer

/-- What an attempt does with its client before it is recorded. -/
def body (d : Deployer) (client : RemoteClient) (what : Deployment) : App DeployedContract := do
  let s ← Source.read what.source
  let made ← create client s what
  d.bindTable client s made.1 made.2

/-- What an attempt does until the contract is on the chain. The client's deployment is the last step. -/
def created (client : RemoteClient) (what : Deployment) : App DeployedHandle := do
  let s ← Source.read what.source
  let made ← create client s what
  return made.2

/-- What is in the way of recording an attempt: nothing if one of its steps fails, and else what hinders the gas figures
that the client tells. -/
def obstacle? (d : Deployer) (client : RemoteClient) (what : Deployment) (w : World) : Option Fault :=
  match (d.body client what).runIn w with
  | (.ok contract, w') =>
    hindrance? (figuresTold ((App.converse (client.transactionInfo contract.handle.transaction)).runIn w').1)
  | (.error _, _) => none

end Deployer

/-! ### Accounts -/

/-- What is to be deployed, and how the clients are built for it. -/
structure Attempt where
  factory : ClientFactory
  what : Deployment

/-- Building the client works, and the client keeps to what its operations promise. -/
def Attempt.Proper (a : Attempt) : Prop :=
  ∀ n k, (a.factory n k).Always (Gives RemoteClient.Proper)

/-- An attempt by a deployer. -/
def Deployer.attempt (d : Deployer) (a : Attempt) : App Deployer.Ending :=
  deploy { d with factory := a.factory } a.what

/-- What an attempt left behind: its client and the world in which that was built, and the deployer, the result and
the world that it ended with. -/
structure Account where
  client : RemoteClient
  built : World
  deployer : Deployer
  result : Except Fault DeployedContract
  world : World

namespace Account

/-- What an account tells of an attempt by a deployer in a world, once its client is built, with an entry. -/
structure Tells (x : Account) (entry : List (LooseText × Json)) (log : History.Log) (l : Location) (d : Deployer)
    (what : Deployment) (w : World) : Prop where
  /-- The attempt gives the contract, or fails with the fault of its steps. -/
  result : x.result = ((d.body x.client what).runIn x.built).1
  /-- The deployer keeps the log, and is ready or failed. -/
  deployer : x.deployer = { d with log := some log, phase := if x.result.isOk then .ready else .failed }
  /-- The entry is one more line, and the client is released once if the attempt failed, and else never. -/
  recorded : log.Recorded entry (if x.result.isOk then 0 else 1) l w x.world
  valid : History.problems entry = []
  status : Json.lookup? entry "status" = some (.bool x.result.isOk)
  /-- The entry says what is on the chain, also if the attempt failed behind that. -/
  handle : Deployer.HandleOf ((Deployer.created x.client what).runIn x.built).1.toOption entry

/-- How an attempt ends: an entry tells of it, unless something is in the way; then it fails with that and is stuck. -/
def Ends (x : Account) (log : History.Log) (l : Location) (d : Deployer) (what : Deployment) (w : World) : Prop :=
  match d.obstacle? x.client what x.built with
  | none => ∃ entry, x.Tells entry log l d what w
  | some f => x.result = .error f ∧ d.StuckAt log l w x.deployer x.world

/-- However an attempt ends, the next one can be recorded. -/
theorem Ends.records {x : Account} {log : History.Log} {l : Location} {d : Deployer} {what : Deployment} {w : World}
    (h : x.Ends log l d what w) : x.deployer.Records log l x.world := by
  unfold Ends at h
  split at h
  · obtain ⟨entry, htells⟩ := h
    exact htells.recorded.next x.deployer (by rw [htells.deployer])
  · exact h.2.next

/-- Whether an attempt was recorded: all are but those that are stuck. -/
def isRecorded (x : Account) : Bool :=
  x.deployer.phase ≠ .cataloging

/-- What an attempt does to the history: one more line if it was recorded, and else nothing. -/
theorem Ends.content {x : Account} {log : History.Log} {l : Location} {d : Deployer} {what : Deployment} {w : World}
    (h : x.Ends log l d what w) :
    (x.isRecorded = true ∧ ∃ text : List Char, '\n' ∉ text ∧
      x.world.files.contentAt l = w.files.contentAt l ++ Utf8.encode (text ++ ['\n'])) ∨
    (x.isRecorded = false ∧ x.world.files.contentAt l = w.files.contentAt l) := by
  unfold Ends at h
  split at h
  · obtain ⟨entry, htells⟩ := h
    obtain ⟨-, text, -, htext, hentry⟩ := htells.recorded.line
    refine .inl ⟨?_, text, htext, by rw [FileTree.contentAt, hentry]⟩
    rw [isRecorded, htells.deployer]
    cases x.result <;> rfl
  · refine .inr ⟨?_, h.2.unrecorded⟩
    rw [isRecorded, h.2.deployer]
    rfl

/-- The law of an account: the client was built, and the attempt came to its end. -/
structure Holds (x : Account) (log : History.Log) (l : Location) (d : Deployer) (a : Attempt)
    (w : World) : Prop where
  built : (App.converse (a.factory d.network d.keypair)).runIn w = (.ok x.client, x.built)
  ran : (d.attempt a).runIn w = (.ok (x.deployer, x.result), x.world)
  ends : x.Ends log l { d with factory := a.factory, phase := .uninitialized } a.what w

end Account

namespace Deployer

variable {d : Deployer} {log : History.Log} {client : RemoteClient} {what : Deployment} {l : Location}
  {w w₁ w₂ : World}

/-! ### One attempt -/

/-- An attempt by a client, accounted for. -/
def Told (d : Deployer) (log : History.Log) (l : Location) (client : RemoteClient) (what : Deployment)
    (w w₁ : World) : Prop :=
  ∃ x : Account, x.client = client ∧ x.built = w₁ ∧
    (d.deployBy client what).runIn w₁ = (.ok (x.deployer, x.result), x.world) ∧ x.Ends log l d what w

/-- Nothing is in the way of recording a step that fails. -/
theorem obstacle?_of_error {f : Fault} (h : ((d.body client what).runIn w).1 = .error f) :
    d.obstacle? client what w = none := by
  unfold obstacle?
  split
  · next hrun => rw [hrun] at h; cases h
  · rfl

/-- An attempt that fails at some step. -/
theorem told_of_fail (hclient : client.Proper) (hrecords : d.Records log l w) (hw : w.Talked w₂) {label : String}
    {handle : Option DeployedHandle} (hhandle : ∀ h ∈ handle, h.Proper) {f : Fault} (hf : f.name ≠ "")
    (hrun : (d.deployBy client what).runIn w₁ = (d.fail client label handle f).runIn w₂)
    (hbody : ((d.body client what).runIn w₁).1 = .error f)
    (hcreated : ((created client what).runIn w₁).1.toOption = handle) : d.Told log l client what w w₁ := by
  obtain ⟨w', hend, hrecorded⟩ := fail_ok hclient hrecords hw label hhandle f
  refine ⟨⟨client, w₁, _, .error f, w'⟩, rfl, rfl, hrun.trans hend, ?_⟩
  rw [Account.Ends, obstacle?_of_error hbody]
  exact ⟨entry label handle 0 0 (some f.summary), {
    result := hbody.symm
    deployer := rfl
    recorded := hrecorded
    valid := problems_entry_failed label handle hf
    status := status_entry_failed label handle 0 0 f.summary
    handle := hcreated ▸ handleOf_entry label handle 0 0 _ }⟩

/-- An attempt that gets through all its steps: its gas figures decide whether it is recorded. -/
theorem told_of_finish {contract : DeployedContract} (hclient : client.Proper) (htable : contract.table.client = client)
    (hrecords : d.Records log l w) (hw : w.Talked w₂) {label shownName : String} (hhandle : contract.handle.Proper)
    (hrun : (d.deployBy client what).runIn w₁ = (d.finish label shownName contract).runIn w₂)
    (hbody : (d.body client what).runIn w₁ = (.ok contract, w₂))
    (hcreated : ((created client what).runIn w₁).1.toOption = some contract.handle) :
    d.Told log l client what w w₁ := by
  obtain ⟨w₃, hfigures, htalk⟩ := talked_gasFigures hclient contract.handle.transaction hw
  have hobstacle : d.obstacle? client what w₁ =
      hindrance? (figuresTold ((App.converse (client.transactionInfo contract.handle.transaction)).runIn w₂).1) := by
    rw [obstacle?, hbody]
  generalize figuresTold _ = figures at hfigures hobstacle
  rw [← htable] at hfigures
  cases hfree : hindrance? figures with
  | some f =>
      obtain ⟨d', w', hend, hstuck⟩ := finish_stuck hrecords hfigures htalk hfree label shownName
      refine ⟨⟨client, w₁, d', .error f, w'⟩, rfl, rfl, hrun.trans hend, ?_⟩
      rw [Account.Ends, hobstacle, hfree]
      exact ⟨rfl, hstuck⟩
  | none =>
      cases figures with
      | error f => cases hfree
      | ok figures =>
          obtain ⟨used, price⟩ := figures
          obtain ⟨w', hend, hrecorded⟩ := finish_ok hhandle hrecords hfigures htalk hfree label shownName
          refine ⟨⟨client, w₁, _, .ok contract, w'⟩, rfl, rfl, hrun.trans hend, ?_⟩
          rw [Account.Ends, hobstacle, hfree]
          exact ⟨entry label (some contract.handle) used price none, {
            result := by rw [hbody]
            deployer := rfl
            recorded := hrecorded
            valid := problems_entry_done label hhandle used price
            status := status_entry_done label hhandle used price
            handle := hcreated ▸ handleOf_entry label (some contract.handle) used price none }⟩

/-- An attempt that puts the contract on the chain is accounted for, whether its functions are cataloged or not. -/
theorem told_of_created {s : Source} {artifact : Artifact} {handle : DeployedHandle} {w₃ : World}
    (hclient : client.Proper) (hrecords : d.Records log l w) (hw : w.Talked w₃) (hhandle : handle.Proper)
    (hr : (Source.read what.source).runIn w₁ = (.ok s, w₂))
    (hc : (create client s what).runIn w₂ = (.ok (artifact, handle), w₃)) : d.Told log l client what w w₁ := by
  have hcreated : ((created client what).runIn w₁).1.toOption = some handle := by
    rw [created, App.runIn_bind_ok hr, App.runIn_bind_ok hc]
    rfl
  have hbody : (d.body client what).runIn w₁ = (d.bindTable client s artifact handle).runIn w₃ := by
    rw [body, App.runIn_bind_ok hr, App.runIn_bind_ok hc]
  obtain ⟨htalk, hbound⟩ := always_bindTable hclient d s artifact handle w₃
  cases hb : (d.bindTable client s artifact handle).runIn w₃ with
  | mk bound w₄ =>
      rw [hb] at htalk hbound hbody
      have hsteps : (d.deployBy client what).runIn w₁ = _ :=
        (App.runIn_attempt_bind hr _).trans ((App.runIn_attempt_bind hc _).trans (App.runIn_attempt_bind hb _))
      cases bound with
      | error f =>
          exact told_of_fail hclient hrecords (hw.trans htalk) (fun h hh => Option.some.inj hh ▸ hhandle) hbound
            hsteps (by rw [hbody]) hcreated
      | ok contract =>
          obtain ⟨rfl, htable⟩ := hbound
          exact told_of_finish hclient htable hrecords (hw.trans htalk) hhandle hsteps hbody hcreated

/-- **An attempt by a client is accounted for**, wherever it fails. -/
theorem told_of_proper (what : Deployment) (hclient : client.Proper) (hrecords : d.Records log l w)
    (hw : w.Talked w₁) : d.Told log l client what w w₁ := by
  have hnone : ∀ h ∈ (none : Option DeployedHandle), h.Proper := fun h hh => by cases hh
  obtain ⟨htalk, hs⟩ := Source.always_read what.source w₁
  cases hr : (Source.read what.source).runIn w₁ with
  | mk read w₂ =>
      rw [hr] at htalk hs
      cases read with
      -- without a source there is nothing to compile
      | error f =>
          refine told_of_fail hclient hrecords (hw.trans htalk) hnone hs (App.runIn_attempt_bind hr _) ?_ ?_
          · rw [body, App.runIn_bind_error hr]
          · rw [created, App.runIn_bind_error hr]
            rfl
      | ok s =>
          obtain ⟨htalk', hm⟩ := always_create hclient s what w₂
          cases hc : (create client s what).runIn w₂ with
          | mk made w₃ =>
              rw [hc] at htalk' hm
              cases made with
              -- whatever fails in between, nothing is on the chain
              | error f =>
                  refine told_of_fail hclient hrecords ((hw.trans htalk).trans htalk') hnone hm
                    ((App.runIn_attempt_bind hr _).trans (App.runIn_attempt_bind hc _)) ?_ ?_
                  · rw [body, App.runIn_bind_ok hr, App.runIn_bind_error hc]
                  · rw [created, App.runIn_bind_ok hr, App.runIn_bind_error hc]
                    rfl
              | ok made => exact told_of_created hclient hrecords ((hw.trans htalk).trans htalk') hm hr hc

/-- **One attempt is accounted for.** -/
theorem attempt_accounted {a : Attempt} (ha : a.Proper) (hrecords : d.Records log l w) :
    ∃ x : Account, x.Holds log l d a w := by
  obtain ⟨htalk, client, hbuilt, hclient⟩ := App.always_converse (ha d.network d.keypair) w
  have hrecords' : Records { d with factory := a.factory, phase := .uninitialized } log l w := hrecords
  obtain ⟨x, rfl, hx, hrun, hends⟩ := told_of_proper a.what hclient hrecords' htalk
  have hfactory : (App.converse (a.factory d.network d.keypair)).runIn w = (.ok x.client, x.built) :=
    Prod.ext hbuilt hx.symm
  refine ⟨x, hfactory, ?_, hends⟩
  rw [attempt, deploy]
  dsimp only
  rw [App.runIn_attempt_bind hfactory, hx]
  exact hrun

/-! ### All attempts -/

/-- Accounts of attempts one behind another, each of which is made by the deployer and in the world that the one
before it ended with. -/
def Accounted (log : History.Log) (l : Location) : Deployer → World → List Attempt → List Account → Prop
  | _, _, [], [] => True
  | d, w, a :: attempts, x :: accounts =>
    x.Holds log l d a w ∧ Accounted log l x.deployer x.world attempts accounts
  | _, _, _, _ => False

/-- **All attempts are accounted for**, whatever the clients do and wherever they fail: by one line each, but for those
that are stuck behind their gas figures. -/
theorem attempts_accounted (hrecords : d.Records log l w) (attempts : List Attempt)
    (hattempts : ∀ a ∈ attempts, a.Proper) : ∃ accounts, Accounted log l d w attempts accounts := by
  induction attempts generalizing d w with
  | nil => exact ⟨[], trivial⟩
  | cons a rest ih =>
      obtain ⟨x, hx⟩ := attempt_accounted (hattempts a List.mem_cons_self) hrecords
      obtain ⟨accounts, haccounts⟩ := ih hx.ends.records fun b hb => hattempts b (List.mem_cons_of_mem a hb)
      exact ⟨x :: accounts, hx, haccounts⟩

/-- A client that is told what to give, and puts every contract on the chain. -/
def givingClient (compiled : Except Fault Artifact) (described : Except Fault Json) : RemoteClient where
  keypair := ⟨"ak_1", ""⟩
  compile _ _ := .ofExcept compiled
  interface _ _ := .ofExcept described
  deploy _ _ _ := .done { address := .text "ct_1", transaction := .text "th_1", owner := "ak_1", result := .null }
  call _ := .fail .endless
  transactionInfo _ := .done (.map [(.text "gasUsed", .int 120)])
  close := .tell .sessionClosed (.done ())

theorem givingClient_proper {compiled : Except Fault Artifact} {described : Except Fault Json}
    (hcompiled : IsNamed compiled) (hdescribed : IsNamed described) :
    (givingClient compiled described).Proper where
  compile _ _ := by
    cases compiled <;> exact hcompiled
  interface _ _ := by
    cases described <;> exact hdescribed
  deploy _ _ _ := ⟨⟨.whole "th_1", rfl, by decide⟩, .whole "ct_1", rfl⟩
  transactionInfo _ := trivial
  close := ⟨.done (), rfl, rfl⟩

/-- An attempt to deploy a source by such a client. -/
def givingAttempt (compiled : Except Fault Artifact) (described : Except Fault Json) : Attempt where
  factory _ _ := .done (givingClient compiled described)
  what := { source := .text "contract Main =\n  entrypoint f() = 1" }

theorem givingAttempt_proper {compiled : Except Fault Artifact} {described : Except Fault Json}
    (hcompiled : IsNamed compiled) (hdescribed : IsNamed described) : (givingAttempt compiled described).Proper :=
  fun _ _ => ⟨_, rfl, givingClient_proper hcompiled hdescribed⟩

/-- The log of a run. -/
def firstLog : History.Log :=
  ⟨"run1", ⟨"", ["history", "run1"]⟩⟩

/-- A deployer with that log. -/
def firstDeployer : Deployer where
  network := ⟨"local", "http://localhost:3001", "http://localhost:3001", "ae_devnet", "http://localhost:3080"⟩
  keypair := ⟨"ak_1", ""⟩
  factory _ _ := .fail .endless
  log := some firstLog
  historyDirectory := ⟨"", ["history"]⟩

/-- A world in which the directory of that run is there. -/
def firstWorld : World :=
  { files := ⟨[(["history"], .directory), (["history", "run1"], .directory)]⟩ }

theorem records_first : firstDeployer.Records firstLog ["history", "run1", "actions.jsonl"] firstWorld :=
  ⟨Integer.isWritable_zero, firstWorld, rfl, by decide, rfl, by decide, rfl, rfl⟩

/-- A source is rejected, then a contract cannot be cataloged once it is on the chain, and then all goes well. -/
def threeAttempts : List Attempt :=
  [givingAttempt (.error (.rejectedSource "Main" "no entrypoint")) (.ok .null),
    givingAttempt (.ok ⟨.text "cb_1", "contract Main", []⟩) (.error (.reported "KeyError" "'name'")),
    givingAttempt (.ok ⟨.text "cb_1", "contract Main", []⟩) (.ok (.object []))]

/-- Three attempts are accounted for. -/
theorem attempts_accounted_three :
    firstDeployer.Records firstLog ["history", "run1", "actions.jsonl"] firstWorld ∧
      (∀ a ∈ threeAttempts, a.Proper) ∧
      ∃ accounts, Accounted firstLog ["history", "run1", "actions.jsonl"] firstDeployer firstWorld threeAttempts
        accounts := by
  have hattempts : ∀ a ∈ threeAttempts, a.Proper := by
    simp only [threeAttempts, List.forall_mem_cons]
    refine ⟨givingAttempt_proper ?_ trivial, givingAttempt_proper trivial ?_,
      givingAttempt_proper trivial trivial, ?_⟩
    · exact show "CompileError" ≠ "" by decide
    · exact show "KeyError" ≠ "" by decide
    · simp
  exact ⟨records_first, hattempts, attempts_accounted records_first threeAttempts hattempts⟩

/-- Powers of ten that a line cannot hold. -/
theorem isWritable_pow_ten {k : Nat} (hk : Integer.digitLimit ≤ k) : Integer.isWritable (10 ^ k) = false := by
  have hpow : ∀ m, m ≤ k → Nat.pow 10 m ≤ Nat.pow 10 k := fun m hm => Nat.pow_le_pow_right (by decide) hm
  rw [Integer.isWritable, Int.natAbs_pow]
  exact decide_eq_false (Nat.not_lt.2 (hpow Integer.digitLimit hk))

/-- A client that does all it is asked for, and tells that so much gas was used. -/
def usingClient (used : Int) : RemoteClient :=
  { givingClient (.ok ⟨.text "cb_1", "contract Main", []⟩) (.ok (.object [])) with
    transactionInfo := fun _ => .done (.map [(.text "gasUsed", .int used)]) }

/-- An attempt to deploy a source by such a client. -/
def usingAttempt (used : Int) : Attempt where
  factory _ _ := .done (usingClient used)
  what := { source := .text "contract Main =\n" }

theorem usingAttempt_proper (used : Int) : (usingAttempt used).Proper := by
  have hgiving : (givingClient (.ok ⟨.text "cb_1", "contract Main", []⟩) (.ok (.object []))).Proper :=
    givingClient_proper trivial trivial
  exact fun _ _ => ⟨_, rfl, hgiving.compile, hgiving.interface, hgiving.deploy, fun _ => trivial, hgiving.close⟩

/-- All steps of such an attempt give the contract, so the figure that was told decides. -/
theorem obstacle?_using (used : Int) {x : Account}
    (hx : x.Holds firstLog ["history", "run1", "actions.jsonl"] firstDeployer (usingAttempt used) firstWorld) :
    obstacle? { firstDeployer with factory := (usingAttempt used).factory, phase := .uninitialized } x.client
      (usingAttempt used).what x.built = hindrance? (.ok (used, 0)) := by
  obtain ⟨hclient, hworld⟩ : usingClient used = x.client ∧ firstWorld = x.built := by
    simpa [usingAttempt] using hx.built
  rw [← hclient, ← hworld]
  rfl

/-- **An attempt that is stuck**: all steps give the contract, and the client tells of an integer, but the attempt fails
at cataloging, without a line, and its client is not released. -/
theorem attempt_stuck :
    firstDeployer.Records firstLog ["history", "run1", "actions.jsonl"] firstWorld ∧
      (usingAttempt (10 ^ Integer.digitLimit)).Proper ∧
      ∃ d' w', (firstDeployer.attempt (usingAttempt (10 ^ Integer.digitLimit))).runIn firstWorld =
          (.ok (d', .error .tooLongNumber), w') ∧
        d'.phase = .cataloging ∧
        w'.files.contentAt ["history", "run1", "actions.jsonl"] =
          firstWorld.files.contentAt ["history", "run1", "actions.jsonl"] ∧
        w'.events.countP Event.isClosing = 0 := by
  obtain ⟨x, hx⟩ := attempt_accounted (usingAttempt_proper (10 ^ Integer.digitLimit)) records_first
  have hends := hx.ends
  rw [Account.Ends, obstacle?_using _ hx, hindrance?, isWritable_pow_ten (Nat.le_refl _)] at hends
  obtain ⟨hresult, hstuck⟩ := hends
  obtain ⟨said, hevents, hopen⟩ := hstuck.released
  have hran := hx.ran
  rw [hresult] at hran
  refine ⟨records_first, usingAttempt_proper _, x.deployer, x.world, hran, ?_, hstuck.unrecorded, ?_⟩
  · rw [hstuck.deployer]
  · rw [hevents]
    exact hopen

/-- The world behind attempts. -/
def worldBehind (w : World) : List Account → World
  | [] => w
  | x :: accounts => worldBehind x.world accounts

/-- **The history behind attempts** is what was there before and one line for each attempt that was recorded. -/
theorem Accounted.lines {attempts : List Attempt} {accounts : List Account}
    (h : Accounted log l d w attempts accounts) :
    ∃ lines : List (List Char), lines.length = accounts.countP Account.isRecorded ∧ (∀ line ∈ lines, '\n' ∉ line) ∧
      (worldBehind w accounts).files.contentAt l =
        w.files.contentAt l ++ lines.flatMap fun line => Utf8.encode (line ++ ['\n']) := by
  induction attempts generalizing d w accounts with
  | nil =>
      cases accounts with
      | nil => exact ⟨[], rfl, by simp, (List.append_nil _).symm⟩
      | cons x accounts => exact h.elim
  | cons a rest ih =>
      cases accounts with
      | nil => exact h.elim
      | cons x accounts =>
          obtain ⟨hx, hrest⟩ := h
          obtain ⟨lines, hlength, hone, hcontent⟩ := ih hrest
          rcases hx.ends.content with ⟨hrecorded, text, htext, hmore⟩ | ⟨hstuck, hsame⟩
          · refine ⟨text :: lines, ?_, List.forall_mem_cons.2 ⟨htext, hone⟩, ?_⟩
            · rw [List.countP_cons_of_pos hrecorded, List.length_cons, hlength]
            · rw [worldBehind, hcontent, hmore, List.flatMap_cons, List.append_assoc]
          · refine ⟨lines, ?_, hone, ?_⟩
            · rw [List.countP_cons_of_neg (by simp [hstuck]), hlength]
            · rw [worldBehind, hcontent, hsame]

end Deployer

end SophiaBind
