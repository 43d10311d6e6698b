/-
**Each session is closed when a command has ended.**

A command opens at most one session. Who has to close it depends on how far the command came: compiling and calling
close it around all that they do with it, deploying closes it where an attempt fails and else once the contract is
shown. So whatever the services answer and wherever a command fails, the session that was opened is closed once; and
what a user can do something about, a finding or a missing file, ends the program with exit code 1.

Main definitions:

* `World.Settled` — a world behind another in which no session was left open,
* `App.Settles` — a computation that leaves no session open in a world,
* `Program.HistoryWritable` — a world in which the attempts of a run can be recorded,
* `Program.Begins` — a command line that comes to its command.

Main results:

* `App.Settles.session` — **work with a session around it settles**,
* `Program.historyWritable_of_empty` — a history that is still empty can be written,
* `Program.settles_perform` — **every command settles**,
* `Program.run_settles` — **a command line settles**, and explains what is to be explained.
-/

import SophiaBind.Proofs.DeploySessions
import SophiaBind.Proofs.Explained
import SophiaBind.Proofs.OpenedLog

namespace SophiaBind

open App (IsDiscreet Discreet)

/-! ### Settling -/

/-- No session was left open: nothing was said of sessions, or one was opened and then closed, each once. -/
def World.Settled (w w' : World) : Prop :=
  World.Said [] w w' ∨ World.Said [.sessionOpened, .sessionClosed] w w'

theorem World.Settled.behind {w w' w'' : World} (h : World.Said [] w w') (h' : w'.Settled w'') : w.Settled w'' :=
  h'.imp h.behind h.behind

namespace App

variable {α β : Type} {P : α → Prop} {w : World} {sessions : List Event}

/-- In a world, the computation leaves no session open. -/
def Settles (x : App α) (w : World) : Prop :=
  w.Settled (x.runIn w).2

theorem Discreet.settles {x : App α} (h : Discreet P x) : x.Settles w :=
  .inl (h w).1

/-- Discreet work behind adds nothing to what was said. -/
theorem said_bind {x : App α} {f : α → App β} (hx : World.Said sessions w (x.runIn w).2) (hf : ∀ a, IsDiscreet (f a)) :
    World.Said sessions w ((x >>= f).runIn w).2 := by
  refine bind_cases x f w (fun e w' h => ?_) fun a w' h => ?_ <;> rw [h] at hx
  · exact hx
  · exact hx.before (hf a w').1

/-- Nor does a discreet handler. -/
theorem said_tryCatch {x : App α} {handler : Fault → App α} (hx : World.Said sessions w (x.runIn w).2)
    (hh : ∀ f, IsDiscreet (handler f)) : World.Said sessions w ((tryCatch x handler).runIn w).2 := by
  refine tryCatch_cases x handler w (fun e w' h => ?_) fun a w' h => ?_ <;> rw [h] at hx
  · exact hx.before (hh e w').1
  · exact hx

/-- What comes last comes once, and a computation ends as it did without it. -/
theorem runIn_andFinally_report (x : App α) (e : Event) (w : World) :
    (andFinally x (report e)).runIn w =
      ((x.runIn w).1, { (x.runIn w).2 with events := (x.runIn w).2.events ++ [e] }) := by
  rw [andFinally, runIn_bind, runIn_tryCatch]
  cases hrun : x.runIn w with
  | mk result w' => cases result <;> rfl

/-- Discreet work that is followed by a release. -/
theorem said_andFinally {x : App α} (hx : Discreet P x) (c : NodeClient) (w : World) :
    World.Said [.sessionClosed] w ((andFinally x (converse c.remote.close)).runIn w).2 := by
  have hclose : converse c.remote.close = report .sessionClosed := rfl
  rw [hclose, runIn_andFinally_report]
  exact (hx w).1.behind (World.said_event _ .sessionClosed)

namespace Settles

/-- Discreet work in front. -/
theorem behind {x : App α} {f : α → App β} (hx : Discreet P x)
    (hf : ∀ a w', x.runIn w = (.ok a, w') → (f a).Settles w') : (x >>= f).Settles w := by
  have hsaid := (hx w).1
  unfold Settles
  refine bind_cases x f w (fun e w' h => ?_) fun a w' h => ?_ <;> rw [h] at hsaid
  · exact .inl hsaid
  · exact World.Settled.behind hsaid (hf a w' h)

/-- A result in front that is there already. -/
theorem ofExcept {x : Except Fault α} {f : α → App β} (hf : ∀ a, x = .ok a → (f a).Settles w) :
    (ofExcept x >>= f).Settles w := by
  refine .behind (P := fun _ => True) (.ofExcept fun _ _ => trivial) fun a w' h => ?_
  rw [runIn_ofExcept] at h
  cases h
  exact hf a rfl

/-- **Work with a session around it settles**, however it ends, and discreet work behind it as well. -/
theorem session (n : Network) (k : Keypair) (work : RemoteClient → App α) {f : α → App β}
    (hwork : Discreet P (work (Program.clientOf n k))) (hf : ∀ a, IsDiscreet (f a)) (w : World) :
    (converse (Program.factory n k) >>= fun client =>
      andFinally (work client) (converse client.close) >>= f).Settles w := by
  have hopen : (converse (Program.factory n k)).runIn w =
      (.ok (Program.clientOf n k), { w with events := w.events ++ [.sessionOpened] }) := rfl
  unfold Settles
  rw [runIn_bind_ok hopen]
  have hclosed := said_andFinally hwork { network := n, keypair := k } { w with events := w.events ++ [.sessionOpened] }
  exact .inr ((World.said_event w .sessionOpened).trans (said_bind hclosed hf))

end Settles

end App

/-! ### Commands -/

namespace Program

variable {e : Endpoints} {s : Settings} {w : World}

/-- The attempts of a run can be recorded: once its log is open below the directory of the settings, nothing hinders
writing the file of the attempts. -/
def HistoryWritable (e : Endpoints) (w : World) : Prop :=
  ∀ s w₁ log w₂, (Checkup.settings e).runIn w = (.ok s, w₁) →
    (History.Log.open_ s.historyDirectory).runIn w₁ = (.ok log, w₂) → w₂.MayWrite log.actionsFile

/-- A history that is still empty can be written where nothing is refused. -/
theorem historyWritable_of_empty {b : History.EmptyBase} {w₀ : World} (hs : (Checkup.settings e).runIn w = (.ok s, w₀))
    (hpath : b.path = s.historyDirectory) (hhome : w₀.home = b.home) (hfiles : w₀.files = b.files)
    (hrefuses : ∀ action, w₀.refuses action = false) : HistoryWritable e w := by
  intro s' w₁ log w₂ hs' hopen
  rw [hs] at hs'
  cases hs'
  have hkept : History.Kept b [] w₀.files := hfiles ▸ History.Kept.empty b
  obtain ⟨r, files, hrun, hkept', -, hopened⟩ := History.open_kept hhome hkept none
  rw [← hpath] at hopen
  cases hrun.symm.trans hopen
  have hlog := hopened log rfl
  intro l hl
  rw [hlog.actionsFile, hhome] at hl
  obtain ⟨rfl, -⟩ := hlog.locate_actions.1 hl
  exact ⟨hkept'.opens _, hrefuses _, hrefuses _⟩

/-! ### Compiling and calling -/

theorem discreet_compileAll (c : NodeClient) (paths : List Path) : IsDiscreet (compileAll c.remote paths) := by
  induction paths with
  | nil => exact .pure trivial
  | cons p rest ih =>
      exact .bind (Source.discreet_readFile p) fun _ _ =>
        .bind (App.discreet_converse (c.discreet_compile _ _)) fun _ _ =>
          .bind (.ofExcept fun _ _ => trivial) fun _ _ => .bind ih fun _ _ => .pure trivial

/-- **Compiling settles.** -/
theorem settles_compile (path : Option Path) (access : Access) : (compile e s path access).Settles w := by
  unfold compile
  refine .ofExcept fun n _ => .ofExcept fun k _ => ?_
  have hwork : ∀ (paths : List Path) (w : World), App.Settles (if paths = [] then
      App.print "[yellow]No contracts found.[/yellow]"
    else do
      let client ← App.converse (factory n k)
      let rows ← App.andFinally (compileAll client paths) (App.converse client.close)
      App.show_ (.table "Compiled contracts" ["Contract", "Bytecode"] rows)) w := by
    intro paths w
    split
    · exact App.Discreet.settles (.report rfl)
    · exact .session n k (fun client => compileAll client paths)
        (discreet_compileAll { network := n, keypair := k } paths) (fun _ => .report rfl) w
  cases path with
  | some p => exact hwork [p] w
  | none => exact .behind Source.discreet_discover fun paths w' _ => hwork paths w'

/-- **Calling settles.** -/
theorem settles_call (path : Path) (address function : Given String) (arguments : List String) (amount : Given Int)
    (fromSource : Bool) (access : Access) :
    (call e s path address function arguments amount fromSource access).Settles w := by
  unfold call
  refine .ofExcept fun n _ => .ofExcept fun k _ => ?_
  refine .behind (Source.discreet_readFile path) fun source w' _ => ?_
  refine .session (P := fun _ => True) n k _ ?_ (fun v => ?_) w'
  · refine .bind (discreet_buildCatalog { network := n, keypair := k } source _) fun found _ => ?_
    refine .bind (P := fun _ => True) (.ofExcept fun _ _ => trivial) fun name _ => ?_
    refine App.discreet_converse (FunctionTable.discreet_invoke (c := { network := n, keypair := k }) rfl name ?_ _)
    intro a ha
    obtain ⟨word, -, rfl⟩ := List.mem_map.1 ha
    exact ⟨.text word, rfl⟩
  · split
    · exact .report rfl
    · exact .report rfl

/-! ### Deploying -/

theorem discreet_showDeployed (d : DeployedContract) : IsDiscreet (showDeployed d) :=
  .bind (.report rfl) fun _ _ => .bind (.report rfl) fun _ _ => .bind (.report rfl) fun _ _ => .report rfl

/-- **An attempt by a command settles** where it can be recorded, whether it fails or its contract is shown. -/
theorem settles_attempt {d : Deployer} (hfactory : d.factory = factory) {log : History.Log} {l : Location}
    (hrecords : d.Records log l w) (what : Deployment) :
    App.Settles (do
      let (_, ending) ← d.deploy what
      let contract ← App.ofExcept ending
      App.andFinally (showDeployed contract) (App.converse contract.table.close)) w := by
  obtain ⟨opened, hopens, happend, -⟩ := hrecords.opens (w.talk.told .sessionOpened)
  have hopened : ({ d with phase := .uninitialized } : Deployer).Records log l
      (w.withTalk (w.talk.told .sessionOpened)) := ⟨hrecords.1, _, hopens, happend⟩
  obtain ⟨d', result, w', hrun, hsaid, hclient⟩ :=
    Deployer.said_deployBy { network := d.network, keypair := d.keypair } hopened what
  have hfactory' : (App.converse (d.factory d.network d.keypair)).runIn w =
      (.ok (clientOf d.network d.keypair), w.withTalk (w.talk.told .sessionOpened)) := by
    rw [hfactory]
    rfl
  have hdeploy : (d.deploy what).runIn w = (.ok (d', result), w') := by
    rw [Deployer.deploy]
    dsimp only
    rw [App.runIn_attempt_bind hfactory']
    exact hrun
  have hall := (World.said_event w .sessionOpened).trans hsaid
  unfold App.Settles
  rw [App.runIn_bind_ok hdeploy]
  cases result with
  -- an attempt that failed has closed the session itself
  | error f => exact .inr hall
  | ok contract =>
      have hclose : contract.table.close = (clientOf d.network d.keypair).close :=
        congrArg RemoteClient.close (hclient contract rfl)
      dsimp only
      rw [App.runIn_bind_ok (App.runIn_ofExcept _ _), hclose]
      exact .inr (hall.trans (App.said_andFinally (discreet_showDeployed contract)
        { network := d.network, keypair := d.keypair } w'))

/-- **Deploying settles** where attempts can be recorded. -/
theorem settles_deploy (hw : HistoryWritable e w) {w₀ : World} (hs : (Checkup.settings e).runIn w = (.ok s, w₀))
    (talk : Talk) (path : Path) (initState : List String) (gas amount : Given Int) (fromSource : Bool)
    (access : Access) : (deploy e s path initState gas amount fromSource access).Settles (w₀.withTalk talk) := by
  unfold deploy
  refine .ofExcept fun n _ => .behind (History.Log.discreet_open_ _ _) fun log w₁ hopen => .ofExcept fun k _ => ?_
  -- opening the log does not depend on what was talked before
  obtain ⟨r, files, -, hrun⟩ := History.Log.onFiles_open_ s.historyDirectory none w₀
  have hopened := (hrun talk).symm.trans hopen
  have hfree : w₁.MayWrite log.actionsFile := by
    cases hopened
    have hfree₀ : World.MayWrite { w₀ with files := files } log.actionsFile := hw s w₀ log _ hs (hrun w₀.talk)
    exact hfree₀
  refine .behind .get fun w₂ w₃ hget => ?_
  cases hget
  refine .behind (Files.discreet_replaceJson _ _) fun _ w₄ hmetadata => ?_
  obtain ⟨hwritable, ⟨files', rfl⟩, l, happend⟩ := History.Log.appendable_of_metadata hopen hfree hmetadata
  have hclock : Integer.isWritable w₁.clock = true := by
    simpa [Keyed.putAll, Keyed.put, Json.isWritable, Json.areWritableMembers] using hwritable
  exact settles_attempt (w := { w₁ with files := files' }) rfl ⟨hclock, _, rfl, happend⟩ _

/-! ### All commands -/

theorem discreet_history (s : Settings) (limit : Given Int) : IsDiscreet (history s limit) := by
  refine .bind (History.discreet_read _) fun rows _ => ?_
  dsimp only
  split
  · exact .report rfl
  · exact .bind .get fun _ _ => .bind (P := fun _ => True) (.ofExcept fun _ _ => trivial) fun _ _ => .report rfl

/-- **Every command settles** where attempts can be recorded. -/
theorem settles_perform (hw : HistoryWritable e w) {w₀ : World} (hs : (Checkup.settings e).runIn w = (.ok s, w₀))
    (talk : Talk) (c : Command) : (perform e s c).Settles (w₀.withTalk talk) := by
  cases c with
  | compile path access => exact settles_compile path access
  | deploy path initState gas amount fromSource access =>
      exact settles_deploy hw hs talk path initState gas amount fromSource access
  | call path address function arguments amount fromSource access =>
      exact settles_call path address function arguments amount fromSource access
  | history limit => exact (discreet_history s limit).settles
  | checkup => exact (Checkup.discreet_run e {}).settles

/-- Explaining a fault is discreet. -/
theorem discreet_explain (f : Fault) : IsDiscreet (explain f) := by
  unfold explain
  split
  · exact Checkup.discreet_giveUp _
  · exact .throw f

/-- A command that is carried out settles, whether its fault is explained or not. -/
theorem settles_carryOut {c : Command} (h : (perform e s c).Settles w) : (carryOut e s c).Settles w := by
  cases c with
  | checkup => exact h
  | _ => exact h.imp (App.said_tryCatch · discreet_explain) (App.said_tryCatch · discreet_explain)

/-- **A command line settles** where attempts can be recorded. -/
theorem settles_run (hw : HistoryWritable e w) (words : List String) : (run e words).Settles w := by
  unfold run
  cases Invocation.ofWords words with
  | error ending => exact App.Discreet.settles (P := fun _ => True) (.throw _)
  | ok invocation =>
      refine .behind (Checkup.discreet_settings e) fun s w₀ hs => ?_
      refine .behind (.report rfl) fun _ w₁ hset => ?_
      cases hset
      exact settles_carryOut (settles_perform hw hs (w₀.talk.told _) invocation.command)

/-! ### Command lines -/

/-- A command line comes to its command under settings: these are read, and the least level of what is logged is
set. -/
def Begins (e : Endpoints) (words : List String) (w : World) (c : Command) (s : Settings) (w₁ : World) : Prop :=
  ∃ invocation w₀, Invocation.ofWords words = .ok invocation ∧ invocation.command = c ∧
    (Checkup.settings e).runIn w = (.ok s, w₀) ∧
    (setLogLevel (if invocation.verbose then "DEBUG" else s.logLevel)).runIn w₀ = (.ok (), w₁)

/-- What a command line comes to is carried out. -/
theorem Begins.runIn_run {words : List String} {c : Command} {w₁ : World} (h : Begins e words w c s w₁) :
    (run e words).runIn w = (carryOut e s c).runIn w₁ := by
  obtain ⟨invocation, w₀, hwords, rfl, hs, hset⟩ := h
  unfold run
  rw [hwords]
  dsimp only
  rw [App.runIn_bind_ok hs, App.runIn_bind_ok hset]

/-- A directory with a contract where no service answers. -/
def silentWorld : World where
  files := { entries := [(["Main.aes"], .file ("contract Main =".toList.map fun c => c.toNat.toUInt8))] }

/-- The history of that directory. -/
def silentBase : History.EmptyBase where
  path := { parts := [".forgae-history"] }
  home := []
  files := silentWorld.files
  location := [".forgae-history"]
  usable := by decide
  located := rfl
  notFile := nofun
  empty := rfl

/-- The settings in that directory. -/
def silentSettings : Settings :=
  Settings.resolve {} silentWorld.environment []

/-- That directory when a command begins. -/
def silentStart : World :=
  ((setLogLevel silentSettings.logLevel).runIn silentWorld).2

/-- The deployment of that contract. -/
def silentDeploy : Command :=
  .deploy (Path.ofString "Main.aes") [] (.value CallOptions.usualGas) (.value 0) false {}

end Program

end SophiaBind
