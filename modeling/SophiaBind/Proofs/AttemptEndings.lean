/-
**How an attempt ends.**

A failed attempt is recorded with what is known of it, and then releases its client; one that succeeds is
recorded with its gas figures and keeps the client. Both entries are valid, and both ways leave one line in the
history. Only an attempt that got through its steps can be left without one: if its gas figures cannot be read, or
have more digits than the history can hold, it is stuck behind them.

Main definitions:

* `History.Log.Recorded` — a world with one more line in the log, and so many clients released,
* `Deployer.HandleOf` — what an entry says of the contract on the chain,
* `Deployer.hindrance?` — what hinders gas figures from being recorded,
* `Deployer.StuckAt` — an attempt that is neither recorded nor releases its client.

Main results:

* `Deployer.problems_entry_failed`, `Deployer.problems_entry_done` — **the entries are valid**,
* `Deployer.fail_ok`, `Deployer.finish_ok` — **both endings leave one line**,
* `Deployer.finish_stuck` — an attempt whose gas figures cannot be recorded leaves none.
-/

import SophiaBind.Proofs.AttemptSteps
import SophiaBind.Proofs.Recording

namespace SophiaBind

/-! ### Recorded -/

/-- A world behind an attempt: an entry is one more line of the log, so many clients were released, and the next
attempt can be recorded as well. -/
structure History.Log.Recorded (log : Log) (entry : List (LooseText × Json)) (released : Nat) (l : Location)
    (w w' : World) : Prop where
  line : log.Appends entry l w w'.files
  released : ∃ said, w'.events = w.events ++ said ∧ said.countP Event.isClosing = released
  next : ∀ d : Deployer, d.log = some log → d.Records log l w'

/-! ### Entries -/

theorem Json.truthy_ofText {t : LooseText} (h : t ≠ .whole "") : (Value.ofJson (.ofText t)).truthy = true := by
  cases t with
  | whole s =>
      have hs : s ≠ "" := fun he => h (by rw [he])
      simpa [Json.ofText, Value.ofJson, Value.truthy] using hs
  | broken t => rfl

theorem Json.isWritable_ofText (t : LooseText) : (Json.ofText t).isWritable = true := by
  cases t <;> rfl

/-- Whether what a handle says of the contract can be written. -/
def DeployedHandle.isWritable (h : DeployedHandle) : Bool :=
  h.transaction.isWritable && h.address.isWritable

theorem DeployedHandle.Proper.isWritable {h : DeployedHandle} (hproper : h.Proper) : h.isWritable = true := by
  obtain ⟨⟨t, ht, -⟩, u, hu⟩ := hproper
  rw [DeployedHandle.isWritable, ht, hu, Json.isWritable_ofText, Json.isWritable_ofText]
  rfl

theorem Fault.summary_ne_empty {f : Fault} (h : f.name ≠ "") : f.summary ≠ "" := by
  unfold summary
  split
  · exact h
  · next hm => exact hm

namespace Deployer

/-- What an entry says of the contract on the chain: nothing if none was put there. -/
def HandleOf (handle : Option DeployedHandle) (entry : List (LooseText × Json)) : Prop :=
  Json.lookup? entry "transactionHash" = some ((handle.map DeployedHandle.transaction).getD .null) ∧
    Json.lookup? entry "result" = some ((handle.map DeployedHandle.address).getD .null)

theorem handleOf_entry (label : String) (handle : Option DeployedHandle) (used price : Int)
    (fault : Option String) : HandleOf handle (entry label handle used price fault) := by
  cases handle with
  | none => exact ⟨rfl, rfl⟩
  | some h => exact ⟨rfl, rfl⟩

/-- An entry with a fault has no status. -/
theorem status_entry_failed (label : String) (handle : Option DeployedHandle) (used price : Int) (m : String) :
    Json.lookup? (entry label handle used price (some m)) "status" = some (.bool false) := by
  cases handle with
  | none => rfl
  | some h =>
      show some (Json.bool ((Value.ofJson h.transaction).truthy && false)) = _
      rw [Bool.and_false]

/-- An entry without a fault has one if there is a transaction. -/
theorem status_entry_done (label : String) {handle : DeployedHandle} (h : handle.Proper) (used price : Int) :
    Json.lookup? (entry label (some handle) used price none) "status" = some (.bool true) := by
  obtain ⟨⟨t, ht, hne⟩, -⟩ := h
  show some (Json.bool ((Value.ofJson handle.transaction).truthy && true)) = _
  rw [ht, Json.truthy_ofText hne]
  rfl

/-- All names are there, and the gas figures are numbers; what may be wrong is the status without a reason. -/
theorem problems_entry (label : String) (handle : Option DeployedHandle) (used price : Int) (fault : Option String)
    {status : Bool} (hstatus : Json.lookup? (entry label handle used price fault) "status" = some (.bool status))
    (hreason : status = true ∨
      ∃ m, Json.lookup? (entry label handle used price fault) "error" = some (.text m) ∧ m ≠ "") :
    History.problems (entry label handle used price fault) = [] := by
  have hmissing : (History.entryNames.filter fun name =>
      (Json.lookup? (entry label handle used price fault) name).isNone) = [] := rfl
  have hprice : History.gasProblem (entry label handle used price fault) "gasPrice" = [] := rfl
  have hused : History.gasProblem (entry label handle used price fault) "gasUsed" = [] := rfl
  unfold History.problems
  dsimp only
  rw [hmissing, hprice, hused, hstatus]
  cases status with
  | true => rfl
  | false =>
      rcases hreason with hcontra | ⟨m, herror, hm⟩
      · cases hcontra
      · have htruthy : (Value.ofJson (.text m)).truthy = true :=
          Json.truthy_ofText fun he => hm (LooseText.whole.inj he)
        rw [herror, Option.getD_some, htruthy]
        rfl

/-- **The entry of a failed attempt is valid**: it says what went wrong. -/
theorem problems_entry_failed (label : String) (handle : Option DeployedHandle) {f : Fault} (hf : f.name ≠ "") :
    History.problems (entry label handle 0 0 (some f.summary)) = [] :=
  problems_entry label handle 0 0 _ (status_entry_failed label handle 0 0 f.summary)
    (.inr ⟨f.summary, rfl, Fault.summary_ne_empty hf⟩)

/-- **The entry of an attempt that succeeded is valid.** -/
theorem problems_entry_done (label : String) {handle : DeployedHandle} (h : handle.Proper) (used price : Int) :
    History.problems (entry label (some handle) used price none) = [] :=
  problems_entry label (some handle) used price none (status_entry_done label h used price) (.inl rfl)

/-- **What decides whether an entry can be written** is its handle and its gas figures. -/
theorem areWritable_entry_eq (label : String) (handle : Option DeployedHandle) (used price : Int)
    (fault : Option String) :
    Json.areWritableMembers (entry label handle used price fault) =
      (handle.all DeployedHandle.isWritable && Integer.isWritable used && Integer.isWritable price) := by
  cases handle with
  | none => cases fault <;> simp [entry, Json.areWritableMembers, Json.isWritable, Bool.and_comm]
  | some h =>
      cases fault <;>
        simp [entry, Json.areWritableMembers, Json.isWritable, DeployedHandle.isWritable, Bool.and_assoc,
          Bool.and_comm, Bool.and_left_comm]

theorem areWritable_entry (label : String) {handle : Option DeployedHandle}
    (h : handle.all DeployedHandle.isWritable = true) {used price : Int} (hused : Integer.isWritable used = true)
    (hprice : Integer.isWritable price = true) (fault : Option String) :
    Json.areWritableMembers (entry label handle used price fault) = true := by
  rw [areWritable_entry_eq, h, hused, hprice]
  rfl

/-! ### Endings -/

/-- What the user is told of a contract that was deployed. -/
def told (shownName : String) : Event :=
  .shown (.line ("===== Contract: " ++ shownName ++ " has been deployed ====="))

variable {d : Deployer} {log : History.Log} {client : RemoteClient} {l : Location} {w w₁ w₂ : World}

/-- Talk without a release. -/
theorem countP_open {said : List Event} (h : ∀ e ∈ said, e.isClosing = false) : said.countP Event.isClosing = 0 :=
  List.countP_eq_zero.2 fun e he => by simp [h e he]

/-- Talk without a release, a release, and talk without a release. -/
theorem countP_closed {said said' : List Event} (h : ∀ e ∈ said, e.isClosing = false)
    (h' : ∀ e ∈ said', e.isClosing = false) : (said ++ .sessionClosed :: said').countP Event.isClosing = 1 := by
  rw [List.countP_append, List.countP_cons, countP_open h, countP_open h']
  rfl

/-- Releasing a client is one event, and talk behind it. -/
theorem close_ok (hclient : client.Proper) (w : World) :
    ∃ t said, (App.converse client.close).runIn w = (.ok (), w.withTalk t) ∧
      t.events = w.events ++ .sessionClosed :: said ∧ ∀ e ∈ said, e.isClosing = false := by
  obtain ⟨last, hclose, hlast⟩ := hclient.close
  obtain ⟨⟨t, said, htalk, ht, hopen⟩, hend⟩ :=
    App.always_converse hlast { w with events := w.events ++ [.sessionClosed] }
  refine ⟨t, said, ?_, ?_, hopen⟩
  · rw [hclose, App.runIn_converse_tell]
    exact Prod.ext hend htalk
  · rw [ht, List.append_assoc]
    rfl

/-- How far a deployer is says nothing of its log. -/
theorem openLog_phase (d : Deployer) (phase : Phase) : openLog { d with phase := phase } = d.openLog := rfl

/-- An attempt that failed is reported and recorded, its client is released, and it fails with the same fault, unless
one of these steps has another. -/
theorem fail_eq {label : String} {handle : Option DeployedHandle} {f : Fault} {result : Except Fault Unit}
    {w₁ w₃ : World}
    (hreport : (App.logError ("Deploy of " ++ label ++ " failed: " ++ f.message)).runIn w = (.ok (), w₁))
    (hlog : d.openLog.runIn w₁ = (.ok log, w₂))
    (hrest : App.runIn (do
      log.record (entry label handle 0 0 (some f.summary))
      App.converse client.close) w₂ = (result, w₃)) :
    (d.fail client label handle f).runIn w =
      (.ok ({ d with phase := .failed, log := some log }, result.bind fun _ => .error f), w₃) := by
  rw [fail]
  dsimp only
  rw [App.runIn_bind_ok hreport, openLog_phase, App.runIn_attempt_bind hlog]
  dsimp only
  rw [App.runIn_attempt_bind hrest]
  cases result with
  | ok u => rfl
  | error g => rfl

/-- **A failed attempt leaves one line and releases its client**, and fails with the same fault. -/
theorem fail_ok (hclient : client.Proper) (hrecords : d.Records log l w) (hw : w.Talked w₂) (label : String)
    {handle : Option DeployedHandle} (hhandle : ∀ h ∈ handle, h.Proper) (f : Fault) :
    ∃ w', (d.fail client label handle f).runIn w₂ =
        (.ok ({ d with phase := .failed, log := some log }, .error f), w') ∧
      log.Recorded (entry label handle 0 0 (some f.summary)) 1 l w w' := by
  -- the fault is reported
  have hreport := App.runIn_report (.error ("Deploy of " ++ label ++ " failed: " ++ f.message)) w₂
  obtain ⟨t, said, htalk, ht, hopen⟩ := hw.trans (w₂.talked_event (e := .error _) rfl)
  rw [htalk] at hreport
  have hwritable : handle.all DeployedHandle.isWritable = true :=
    (Option.all_eq_true ..).2 fun h hh => (hhandle h hh).isWritable
  obtain ⟨opened, files, hlog, hrecord, hline, hnext⟩ := hrecords.record t
    (areWritable_entry label hwritable Integer.isWritable_zero Integer.isWritable_zero (some f.summary))
  -- only then the client is released
  obtain ⟨t', said', hclose, ht', hopen'⟩ := close_ok hclient { w.withTalk t with files := files }
  have hrest : App.runIn (do
      log.record (entry label handle 0 0 (some f.summary))
      App.converse client.close) { w.withTalk t with files := opened } =
        (.ok (), World.withTalk { w with files := files } t') := by
    rw [App.runIn_bind_ok hrecord, hclose]
    rfl
  have hrun : (d.fail client label handle f).runIn w₂ =
      (.ok ({ d with phase := .failed, log := some log }, .error f),
        World.withTalk { w with files := files } t') :=
    fail_eq hreport hlog hrest
  have hevents : t'.events = w.events ++ (said ++ .sessionClosed :: said') := by
    rw [ht', ← List.append_assoc, ← ht]
    rfl
  exact ⟨_, hrun, ⟨hline, ⟨_, hevents, countP_closed hopen hopen'⟩, fun d' => hnext d' t'⟩⟩

/-- An attempt that got through its steps is recorded with its gas figures, and the user is told. -/
theorem finish_eq {contract : DeployedContract} {label : String} {used price : Int} {w₁ w₃ : World}
    (hfigures : (gasFigures contract.table.client contract.handle.transaction).runIn w = (.ok (used, price), w₁))
    (hlog : d.openLog.runIn w₁ = (.ok log, w₂))
    (hrecord : (log.record (entry label (some contract.handle) used price none)).runIn w₂ = (.ok (), w₃))
    (shownName : String) :
    (d.finish label shownName contract).runIn w =
      (.ok ({ d with phase := .ready, log := some log }, .ok contract),
        { w₃ with events := w₃.events ++ [told shownName] }) := by
  rw [finish]
  dsimp only
  rw [App.runIn_attempt_bind hfigures]
  dsimp only
  rw [openLog_phase, App.runIn_attempt_bind hlog]
  dsimp only
  rw [App.runIn_attempt_bind hrecord]
  rfl

/-- An attempt that cannot be recorded is given up. -/
theorem finish_given_up {contract : DeployedContract} {label : String} {used price : Int} {w₁ w₃ : World} {g : Fault}
    (hfigures : (gasFigures contract.table.client contract.handle.transaction).runIn w = (.ok (used, price), w₁))
    (hlog : d.openLog.runIn w₁ = (.ok log, w₂))
    (hrecord : (log.record (entry label (some contract.handle) used price none)).runIn w₂ = (.error g, w₃))
    (shownName : String) :
    (d.finish label shownName contract).runIn w =
      (.ok ({ d with phase := .cataloging, log := some log }, .error g), w₃) := by
  rw [finish]
  dsimp only
  rw [App.runIn_attempt_bind hfigures]
  dsimp only
  rw [openLog_phase, App.runIn_attempt_bind hlog]
  dsimp only
  rw [App.runIn_attempt_bind hrecord]
  rfl

/-- An attempt whose gas figures cannot be read is given up as well. -/
theorem finish_unread {contract : DeployedContract} {w₁ : World} {g : Fault}
    (hfigures : (gasFigures contract.table.client contract.handle.transaction).runIn w = (.error g, w₁))
    (label shownName : String) :
    (d.finish label shownName contract).runIn w = (.ok ({ d with phase := .cataloging }, .error g), w₁) := by
  rw [finish]
  dsimp only
  rw [App.runIn_attempt_bind hfigures]
  rfl

/-- What hinders gas figures from being recorded: they could not be read, or one has too many digits. -/
def hindrance? : Except Fault (Int × Int) → Option Fault
  | .error f => some f
  | .ok (used, price) => if Integer.isWritable used && Integer.isWritable price then none else some .tooLongNumber

/-- An attempt that got no further than to its gas figures: the deployer is left at cataloging, the history has no
line of it, its client is not released, and the next attempt can be recorded. -/
structure StuckAt (d : Deployer) (log : History.Log) (l : Location) (w : World) (d' : Deployer) (w' : World) :
    Prop where
  deployer : d' = { d with log := d'.log, phase := .cataloging }
  unrecorded : w'.files.contentAt l = w.files.contentAt l
  released : ∃ said, w'.events = w.events ++ said ∧ said.countP Event.isClosing = 0
  next : d'.Records log l w'

variable {contract : DeployedContract}

/-- The gas figures of an attempt that got through its steps: asking for them is talk. -/
theorem talked_gasFigures (hclient : client.Proper) (transaction : Json) (hw : w.Talked w₂) :
    ∃ w', (gasFigures client transaction).runIn w₂ =
        (figuresTold ((App.converse (client.transactionInfo transaction)).runIn w₂).1, w') ∧ w.Talked w' := by
  obtain ⟨w', hrun, htalk⟩ := @gasFigures_told client transaction _ w₂ _ rfl
  exact ⟨w', hrun, (hw.trans (App.always_converse (hclient.transactionInfo transaction) w₂).1).trans htalk⟩

/-- **An attempt that succeeds leaves one line and keeps its client**, and gives the contract. -/
theorem finish_ok {used price : Int} (hhandle : contract.handle.Proper) (hrecords : d.Records log l w)
    (hfigures : (gasFigures contract.table.client contract.handle.transaction).runIn w₂ = (.ok (used, price), w₁))
    (hw : w.Talked w₁) (hfree : hindrance? (.ok (used, price)) = none) (label shownName : String) :
    ∃ w', (d.finish label shownName contract).runIn w₂ =
        (.ok ({ d with phase := .ready, log := some log }, .ok contract), w') ∧
      log.Recorded (entry label (some contract.handle) used price none) 0 l w w' := by
  obtain ⟨t, said, rfl, ht, hopen⟩ := hw
  obtain ⟨hused, hprice⟩ : Integer.isWritable used = true ∧ Integer.isWritable price = true := by
    simpa [hindrance?] using hfree
  have hwritable : (some contract.handle).all DeployedHandle.isWritable = true := hhandle.isWritable
  obtain ⟨opened, files, hlog, hrecord, hline, hnext⟩ :=
    hrecords.record t (areWritable_entry label hwritable hused hprice none)
  have hrun : (d.finish label shownName contract).runIn w₂ =
      (.ok ({ d with phase := .ready, log := some log }, .ok contract),
        World.withTalk { w with files := files } (t.told (told shownName))) :=
    finish_eq hfigures hlog hrecord shownName
  have hevents : t.events ++ [told shownName] =
      w.events ++ (said ++ [told shownName]) := by
    rw [ht, List.append_assoc]
  have hsilent : (said ++ [told shownName]).countP Event.isClosing = 0 := by
    rw [List.countP_append, countP_open hopen]
    rfl
  exact ⟨_, hrun, ⟨hline, ⟨_, hevents, hsilent⟩, fun d' => hnext d' _⟩⟩

/-- **An attempt whose gas figures cannot be recorded leaves no line**, keeps its client, and gives no contract. -/
theorem finish_stuck {figures : Except Fault (Int × Int)} {f : Fault} (hrecords : d.Records log l w)
    (hfigures : (gasFigures contract.table.client contract.handle.transaction).runIn w₂ = (figures, w₁))
    (hw : w.Talked w₁) (hf : hindrance? figures = some f) (label shownName : String) :
    ∃ d' w', (d.finish label shownName contract).runIn w₂ = (.ok (d', .error f), w') ∧ d.StuckAt log l w d' w' := by
  obtain ⟨t, said, rfl, ht, hopen⟩ := hw
  have hsilent : ∃ said, t.events = w.events ++ said ∧ said.countP Event.isClosing = 0 := ⟨said, ht, countP_open hopen⟩
  cases figures with
  -- the log is not even opened
  | error g =>
      obtain rfl : g = f := Option.some.inj hf
      exact ⟨_, _, finish_unread hfigures label shownName, rfl, rfl, hsilent, hrecords.withTalk t⟩
  | ok figures =>
      obtain ⟨used, price⟩ := figures
      rw [hindrance?] at hf
      split at hf
      · cases hf
      · next hlong =>
          obtain rfl : .tooLongNumber = f := Option.some.inj hf
          have hentry : Json.areWritableMembers (entry label (some contract.handle) used price none) = false := by
            rw [areWritable_entry_eq, Bool.and_assoc, (Bool.not_eq_true _).mp hlong, Bool.and_false]
          obtain ⟨opened, hlog, happend, hcontent⟩ := hrecords.opens t
          exact ⟨_, _, finish_given_up hfigures hlog (record_of_too_long log hentry _) shownName, rfl, hcontent,
            hsilent, hrecords.1, _, rfl, happend⟩

end Deployer

end SophiaBind
