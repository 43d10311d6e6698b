/-
**Nobody asks what became of the call that sets a contract up.**

A call is judged by what is known of it once its transaction is in a block. The transaction that creates a contract
is in a block as well when the call of `init` did not succeed; but of a deployment it only counts that it is there.
With services that tell something else of that call, the attempt takes the same course, gives the same contract, and
is recorded as one that succeeded. Only the gas figures of its entry come from there.

Main definitions:

* `Deployer.Judged` — an attempt that ends as its steps do, with a line of the history that says how,
* `Transport.answering` — services with one answer for each address.

Main results:

* `NodeClient.not_asked_of_deploy` — **a deployment does not ask what is known of its transaction**,
* `Deployer.runIn_body_served` — the steps of an attempt are the same, whatever is known of it,
* `Deployer.runIn_gasFigures` — the gas figures are those of what the client tells, and nothing else happens,
* `Deployer.deploy_judged_by_steps` — **an attempt is judged by its steps alone**,
* `Deployer.deploy_reverted` — an attempt that succeeds where a call fails.
-/

import SophiaBind.Proofs.Attempts
import SophiaBind.Proofs.OtherServices
import SophiaBind.Proofs.SubmissionSafety

namespace SophiaBind

open Dialogue (Runs)

variable {t s : Transport} {w w' : World}

/-! ### Deployments -/

namespace NodeClient

variable {c : NodeClient} {artifact : Artifact} {arguments : List String} {o : CallOptions}
  {handle : DeployedHandle}

/-- **A deployment does not ask what is known of its transaction.** -/
theorem not_asked_of_deploy {es : List Exchange} (h : Runs (c.deploy artifact arguments o) es (.ok handle)) :
    ∀ x ∈ es, ¬(x.1.method = "GET" ∧ x.1.url = c.transactionUrl handle.transaction ++ "/info") := by
  have hcourse := submit_runs h
  generalize hend : (Except.ok handle : Except Fault DeployedHandle) = e at hcourse
  cases hcourse with
  | unposted _ => cases hend
  | unhashed _ _ => cases hend
  | unmined _ _ _ _ => cases hend
  | @mined before payload seed o hash looks res mined last _ hbefore _ _ hlooks _ hlast =>
      subst hend
      obtain ⟨rfl, htransaction⟩ := deployed_runs hlast
      rw [htransaction handle rfl, List.append_nil]
      rintro x hx ⟨hmethod, hurl⟩
      rcases List.mem_append.1 hx with hx | hx
      -- what is known of a transaction lies at the address of one with another hash
      · have hother : c.transactionUrl hash ++ "/info" = c.transactionUrl (.text (hash.shown ++ "/info")) := by
          simp only [transactionUrl, nodeUrl, String.append_assoc]
          rfl
        have hmem : x ∈ exchangesWith "GET" (c.transactionUrl (.text (hash.shown ++ "/info"))) before :=
          List.mem_filter.2 ⟨hx, by simp [hmethod, hurl, hother]⟩
        rw [hbefore.preparing.exchangesWith] at hmem
        cases hmem
      · rcases List.mem_cons.1 hx with rfl | hx
        · exact absurd (show "POST" = "GET" from hmethod) (by decide)
        · rw [hlooks.request_eq hx] at hurl
          have hlength := congrArg String.length hurl
          simp [lookRequest] at hlength

/-- A deployment is the same with services that tell something else of its transaction. -/
theorem runIn_deploy_served
    (h : (App.converse (c.deploy artifact arguments o)).runIn (w.served t) = (.ok handle, w'))
    (hs : Transport.SameBut "GET" (c.transactionUrl handle.transaction ++ "/info") t s) :
    ∃ talk, w' = (w.withTalk talk).served t ∧
      (App.converse (c.deploy artifact arguments o)).runIn (w.served s) =
        (.ok handle, (w.withTalk talk).served s) := by
  obtain ⟨es, e, talk, hruns, ht, hagree⟩ := App.converse_agrees (c.deploy artifact arguments o) t s w
  rw [h] at ht
  cases ht
  exact ⟨talk, rfl, hagree fun x hx => hs x.1 (not_asked_of_deploy hruns x hx)⟩

/-- The gas figures that a client of the node tells are integers. -/
theorem transactionInfo_runs {hash : Json} {es : List Exchange} {info : Value}
    (h : Runs (c.transactionInfo hash) es (.ok info)) :
    ∃ used price, info = .map [(.text "gasUsed", .int used), (.text "gasPrice", .int price)] := by
  rcases h.bind_inv with ⟨f, hf, -⟩ | ⟨known, es₁, es₂, -, -, h⟩
  · cases hf
  rcases h.bind_inv with ⟨f, hf, -⟩ | ⟨u, es₁, es₂, -, -, h⟩
  · cases hf
  rcases h.bind_inv with ⟨f, hf, -⟩ | ⟨used, es₁, es₂, -, -, h⟩
  · cases hf
  rcases h.bind_inv with ⟨f, hf, -⟩ | ⟨p, es₁, es₂, -, -, h⟩
  · cases hf
  rcases h.bind_inv with ⟨f, hf, -⟩ | ⟨price, es₁, es₂, -, -, h⟩
  · cases hf
  obtain ⟨-, hinfo⟩ := h.done_inv
  exact ⟨used, price, Except.ok.inj hinfo⟩

end NodeClient

/-! ### Attempts -/

namespace Deployer

variable {d : Deployer} {c : NodeClient} {what : Deployment} {contract : DeployedContract}

/-- A contract is bound to the handle that it was put on the chain with, and to the client. -/
theorem bound_of_bindTable {client : RemoteClient} {source : Source} {artifact : Artifact} {handle : DeployedHandle}
    (h : (d.bindTable client source artifact handle).runIn w = (.ok contract, w')) :
    contract.handle = handle ∧ contract.table.client = client := by
  rw [bindTable] at h
  obtain ⟨found, w₁, -, hdone⟩ := App.runIn_bind_eq_ok h
  cases hdone
  exact ⟨rfl, rfl⟩

/-- Creating a contract is the same with services that tell something else of its transaction. -/
theorem runIn_create_served {source : Source} {made : Artifact × DeployedHandle}
    (h : (create c.remote source what).runIn (w.served t) = (.ok made, w'))
    (hs : Transport.SameBut "GET" (c.transactionUrl made.2.transaction ++ "/info") t s) :
    ∃ talk, w' = (w.withTalk talk).served t ∧
      (create c.remote source what).runIn (w.served s) = (.ok made, (w.withTalk talk).served s) := by
  rw [create] at h ⊢
  obtain ⟨artifact, _, hcompile, h⟩ := App.runIn_bind_eq_ok h
  obtain ⟨_, rfl, hcompile'⟩ := ((c.posts_compile source.code source.includes).sameFor hs).ok hcompile
  obtain ⟨o, _, ho, h⟩ := App.runIn_bind_eq_ok h
  obtain ⟨_, rfl, ho'⟩ := (App.SameFor.ofExcept (s := s) (optionsOf what.gas what.options)).ok ho
  obtain ⟨arguments, _, harguments, h⟩ := App.runIn_bind_eq_ok h
  obtain ⟨_, rfl, harguments'⟩ :=
    (App.SameFor.ofExcept (s := s) (Arguments.ofInitState what.initState)).ok harguments
  obtain ⟨handle, _, hdeploy, h⟩ := App.runIn_bind_eq_ok h
  cases h
  obtain ⟨talk, rfl, hdeploy'⟩ := NodeClient.runIn_deploy_served hdeploy hs
  exact ⟨talk, rfl, (App.runIn_bind_ok hcompile' _).trans ((App.runIn_bind_ok ho' _).trans
    ((App.runIn_bind_ok harguments' _).trans (App.runIn_bind_ok hdeploy' _)))⟩

/-- **The steps of an attempt are the same with services that tell something else of its transaction.** -/
theorem runIn_body_served (h : (d.body c.remote what).runIn (w.served t) = (.ok contract, w'))
    (hs : Transport.SameBut "GET" (c.transactionUrl contract.handle.transaction ++ "/info") t s) :
    ∃ talk, (d.body c.remote what).runIn (w.served s) = (.ok contract, (w.withTalk talk).served s) := by
  rw [body] at h ⊢
  obtain ⟨source, _, hread, h⟩ := App.runIn_bind_eq_ok h
  obtain ⟨_, rfl, hread'⟩ := (Source.sameFor_read (s := s) what.source).ok hread
  obtain ⟨made, _, hcreate, h⟩ := App.runIn_bind_eq_ok h
  rw [(bound_of_bindTable h).1] at hs
  obtain ⟨_, rfl, hcreate'⟩ := runIn_create_served hcreate hs
  have hinterface : ∀ w, App.SameFor t s (App.converse (c.interface source.code source.includes)) w := fun _ =>
    (c.posts_interface source.code source.includes).sameFor hs
  obtain ⟨talk, -, hbind'⟩ := (d.sameFor_bindTable c.remote source made.1 made.2 hinterface).ok h
  refine ⟨talk, ?_⟩
  rw [App.runIn_bind_ok hread', App.runIn_bind_ok hcreate', hbind']
  rfl

/-- The steps of an attempt are talk. -/
theorem sameFor_body (d : Deployer) (client : RemoteClient) (what : Deployment) :
    App.SameFor t t (d.body client what) w := by
  have hconverse : ∀ {α : Type} (x : Dialogue α) {w : World}, App.SameFor t t (App.converse x) w :=
    fun x => .converse fun _ _ _ _ _ _ => rfl
  have hcreate : ∀ source {w : World}, App.SameFor t t (create client source what) w := fun source =>
    .bind (hconverse _) fun _ _ => .bind (.ofExcept _) fun _ _ => .bind (.ofExcept _) fun _ _ =>
      .bind (hconverse _) fun _ _ => .pure _
  exact .bind (Source.sameFor_read _) fun source _ => .bind (hcreate source) fun made _ =>
    d.sameFor_bindTable client source made.1 made.2 fun _ => hconverse _

/-- An attempt goes through its steps with the client that is built for it. -/
theorem deploy_built {client : RemoteClient} {w₁ : World}
    (hfactory : (App.converse (d.factory d.network d.keypair)).runIn w = (.ok client, w₁)) :
    (d.deploy what).runIn w = (deployBy { d with phase := .uninitialized } client what).runIn w₁ := by
  rw [deploy]
  dsimp only
  rw [App.runIn_attempt_bind hfactory]

theorem deploy_eq {client : RemoteClient} (hfactory : d.factory d.network d.keypair = .done client) :
    (d.deploy what).runIn w = (deployBy { d with phase := .uninitialized } client what).runIn w :=
  deploy_built (by rw [hfactory, App.runIn_converse_done])

/-- A handle of a contract that creating gives. -/
def CreatedBy (client : RemoteClient) (what : Deployment) (handle : DeployedHandle) : Prop :=
  ∃ source artifact w w', (create client source what).runIn w = (.ok (artifact, handle), w')

/-- Steps that give a contract are recorded as an attempt that succeeded, with the client. -/
theorem deployBy_of_body {client : RemoteClient} (h : (d.body client what).runIn w = (.ok contract, w')) :
    contract.table.client = client ∧ CreatedBy client what contract.handle ∧
      ∃ label shownName, (d.deployBy client what).runIn w = (d.finish label shownName contract).runIn w' := by
  rw [body] at h
  obtain ⟨source, _, hread, h⟩ := App.runIn_bind_eq_ok h
  obtain ⟨made, _, hcreate, h⟩ := App.runIn_bind_eq_ok h
  obtain ⟨hhandle, hclient⟩ := bound_of_bindTable h
  have hcreated : CreatedBy client what contract.handle := by
    rw [hhandle]
    exact ⟨source, made.1, _, _, hcreate⟩
  refine ⟨hclient, hcreated, source.label, shownNameOf source, ?_⟩
  rw [deployBy, App.runIn_attempt_bind hread]
  dsimp only
  rw [App.runIn_attempt_bind hcreate]
  dsimp only
  exact App.runIn_attempt_bind h _

/-- A step that fails is recorded as an attempt that failed, with the contract on the chain if there is one. -/
theorem deployBy_of_failed {client : RemoteClient} {f : Fault} (h : (d.body client what).runIn w = (.error f, w')) :
    ∃ label handle, (∀ made ∈ handle, CreatedBy client what made) ∧
      (d.deployBy client what).runIn w = (d.fail client label handle f).runIn w' := by
  have hnone : ∀ made ∈ (none : Option DeployedHandle), CreatedBy client what made := fun _ h => by cases h
  rw [deployBy]
  rw [body] at h
  rcases App.runIn_bind_eq_error h with hread | ⟨source, _, hread, h⟩
  · exact ⟨_, none, hnone, App.runIn_attempt_bind hread _⟩
  rcases App.runIn_bind_eq_error h with hcreate | ⟨made, _, hcreate, h⟩
  · exact ⟨_, none, hnone, (App.runIn_attempt_bind hread _).trans (App.runIn_attempt_bind hcreate _)⟩
  · refine ⟨_, some made.2, fun _ hmade => ?_, (App.runIn_attempt_bind hread _).trans
      ((App.runIn_attempt_bind hcreate _).trans (App.runIn_attempt_bind h _))⟩
    cases hmade
    exact ⟨source, made.1, _, _, hcreate⟩

/-- An attempt whose steps give a contract goes on to be recorded as one that succeeded, with its client. -/
theorem deploy_of_body {client : RemoteClient} (hfactory : d.factory d.network d.keypair = .done client)
    (h : (d.body client what).runIn w = (.ok contract, w')) :
    contract.table.client = client ∧
      ∃ label shownName, (d.deploy what).runIn w = (d.finish label shownName contract).runIn w' := by
  obtain ⟨hclient, -, hrun⟩ := deployBy_of_body h
  rw [deploy_eq hfactory]
  exact ⟨hclient, hrun⟩

/-- An attempt with a step that fails goes on to be recorded as one that failed. -/
theorem deploy_of_failed {client : RemoteClient} {f : Fault} (hfactory : d.factory d.network d.keypair = .done client)
    (h : (d.body client what).runIn w = (.error f, w')) :
    ∃ label handle, (d.deploy what).runIn w = (d.fail client label handle f).runIn w' := by
  obtain ⟨label, handle, -, hrun⟩ := deployBy_of_failed h
  rw [deploy_eq hfactory]
  exact ⟨label, handle, hrun⟩

/-- **The gas figures are those of what the client tells**; apart from that, asking for them is talk. -/
theorem runIn_gasFigures (client : RemoteClient) (transaction : Json) (w : World) :
    ∃ talk, (gasFigures client transaction).runIn w =
      (figuresTold ((App.converse (client.transactionInfo transaction)).runIn w).1, w.withTalk talk) := by
  obtain ⟨es, e, talk, -, htold, -⟩ :=
    App.converse_agrees (client.transactionInfo transaction) w.transport w.transport w
  have htold : (App.converse (client.transactionInfo transaction)).runIn w = (e, w.withTalk talk) := htold
  obtain ⟨w', hfigures, talk', -, rfl, -⟩ := gasFigures_told htold
  rw [htold]
  exact ⟨talk', hfigures⟩

/-- The gas figures of a transaction are there, whatever the node tells of it. -/
theorem gasFigures_remote (c : NodeClient) (transaction : Json) (w : World) :
    ∃ used price talk, (gasFigures c.remote transaction).runIn w = (.ok (used, price), w.withTalk talk) := by
  obtain ⟨talk, hfigures⟩ := runIn_gasFigures c.remote transaction w
  obtain ⟨es, hruns, -⟩ := App.converse_runs (c.transactionInfo transaction) w
  change (gasFigures c.remote transaction).runIn w =
    (figuresTold ((App.converse (c.transactionInfo transaction)).runIn w).1, _) at hfigures
  generalize ((App.converse (c.transactionInfo transaction)).runIn w).1 = e at hruns hfigures
  cases e with
  | error f => exact ⟨0, 0, talk, hfigures⟩
  | ok info =>
      obtain ⟨used, price, rfl⟩ := NodeClient.transactionInfo_runs hruns
      exact ⟨used, price, talk, hfigures⟩

/-- What the history says of the steps of an attempt: a contract counts if its transaction has a hash. -/
def verdict : Except Fault DeployedContract → Bool
  | .ok contract => (Value.ofJson contract.handle.transaction).truthy
  | .error _ => false

/-- The line of a contract has the verdict on it. -/
theorem status_entry_verdict (label : String) (contract : DeployedContract) (used price : Int) :
    Json.lookup? (entry label (some contract.handle) used price none) "status" =
      some (.bool (verdict (.ok contract))) := by
  show some (Json.bool ((Value.ofJson contract.handle.transaction).truthy && true)) = _
  rw [Bool.and_true]
  rfl

/-- An attempt ends as its steps did, and one line of the history says how. Only a number that is too long to be
written there can prevent this. -/
def Judged (d : Deployer) (log : History.Log) (l : Location) (w : World) (steps : Except Fault DeployedContract)
    (ending : Except Fault Ending × World) : Prop :=
  ∃ d' result w', ending = (.ok (d', result), w') ∧
    (result = .error .tooLongNumber ∨
      result = steps ∧ d' = { d with log := some log, phase := if steps.isOk then .ready else .failed } ∧
        ∃ entry, log.Appends entry l w w'.files ∧
          Json.lookup? entry "status" = some (.bool (verdict steps)))

variable {log : History.Log} {l : Location} {talk talk' : Talk}

/-- An attempt that comes to its end is recorded as one that succeeded, whatever its gas figures are. -/
theorem finish_judged (hrecords : d.Records log l w) {used price : Int}
    (hfigures : (gasFigures contract.table.client contract.handle.transaction).runIn (w.withTalk talk) =
      (.ok (used, price), w.withTalk talk')) (label shownName : String) :
    d.Judged log l w (.ok contract) ((d.finish label shownName contract).runIn (w.withTalk talk)) := by
  cases hentry : Json.areWritableMembers (entry label (some contract.handle) used price none) with
  | true =>
      obtain ⟨opened, files, hlog, hrecord, hline, -⟩ := hrecords.record talk' hentry
      exact ⟨_, _, _, finish_eq hfigures hlog hrecord shownName,
        .inr ⟨rfl, rfl, _, hline, status_entry_verdict label contract used price⟩⟩
  | false =>
      obtain ⟨opened, hlog, -, -⟩ := hrecords.opens talk'
      exact ⟨_, _, _, finish_given_up hfigures hlog (record_of_too_long log hentry _) shownName, .inl rfl⟩

/-- An attempt by a client of the node that fails is recorded as one that failed. -/
theorem fail_judged (c : NodeClient) (hrecords : d.Records log l w) (label : String) (handle : Option DeployedHandle)
    (f : Fault) : d.Judged log l w (.error f) ((d.fail c.remote label handle f).runIn (w.withTalk talk)) := by
  have hreport := App.runIn_report (.error ("Deploy of " ++ label ++ " failed: " ++ f.message)) (w.withTalk talk)
  cases hentry : Json.areWritableMembers (entry label handle 0 0 (some f.summary)) with
  | true =>
      obtain ⟨opened, files, hlog, hrecord, hline, -⟩ := hrecords.record (talk.told _) hentry
      exact ⟨_, _, _, fail_eq hreport hlog (App.runIn_bind_ok hrecord _),
        .inr ⟨rfl, rfl, _, hline, status_entry_failed label handle 0 0 f.summary⟩⟩
  | false =>
      obtain ⟨opened, hlog, -, -⟩ := hrecords.opens (talk.told _)
      exact ⟨_, _, _, fail_eq hreport hlog (App.runIn_bind_error (record_of_too_long log hentry _) _), .inl rfl⟩

/-- **An attempt is judged by its steps, and these do not ask what is known of the transaction.** An attempt by a
client of the node ends as its steps do: with the contract and as one that succeeded, or with their fault and as one
that failed. Steps that give a contract give it with all services that differ in what they tell of its transaction
alone, whether they say that the call of `init` succeeded or not. -/
theorem deploy_judged_by_steps (d : Deployer) (c : NodeClient) (what : Deployment) (w : World) (log : History.Log)
    (l : Location) (hfactory : d.factory d.network d.keypair = .done c.remote) (hrecords : d.Records log l w) :
    d.Judged log l w ((d.body c.remote what).runIn w).1 ((d.deploy what).runIn w) ∧
      ∀ contract services, ((d.body c.remote what).runIn w).1 = .ok contract →
        Transport.SameBut "GET" (c.transactionUrl contract.handle.transaction ++ "/info") w.transport services →
        ((d.body c.remote what).runIn (w.served services)).1 = .ok contract := by
  constructor
  · obtain ⟨steps, talk, hbody, -⟩ := d.sameFor_body c.remote what (t := w.transport) (w := w)
    have hbody : (d.body c.remote what).runIn w = (steps, w.withTalk talk) := hbody
    rw [hbody]
    cases steps with
    | ok contract =>
        obtain ⟨hclient, label, shownName, hdeploy⟩ := deploy_of_body hfactory hbody
        obtain ⟨used, price, talk', hfigures⟩ := gasFigures_remote c contract.handle.transaction (w.withTalk talk)
        rw [← hclient] at hfigures
        rw [hdeploy]
        exact finish_judged hrecords hfigures label shownName
    | error f =>
        obtain ⟨label, handle, hdeploy⟩ := deploy_of_failed hfactory hbody
        rw [hdeploy]
        exact fail_judged c hrecords label handle f
  · intro contract services h hservices
    obtain ⟨talk, hbody⟩ := runIn_body_served (w := w) (t := w.transport) (Prod.ext h rfl) hservices
    rw [hbody]

end Deployer

/-! ### An attempt that succeeds where a call fails -/

/-- Services with one answer for each method and address, the last of which is told apart from the others. -/
def Transport.answering (answers : List (String × String × Json)) (last : String × String × Json) : Transport :=
  fun _ r =>
    match (answers ++ [last]).find? fun a => a.1 == r.method && a.2.1 == r.url with
    | some (_, _, j) => .ok (.ofText 200 (String.ofList j.render))
    | none => .ok (.ofText 404 "")

theorem Transport.sameBut_answering (answers : List (String × String × Json)) (method url : String) (j j' : Json) :
    SameBut method url (answering answers (method, url, j)) (answering answers (method, url, j')) := by
  intro r hr sent
  have hother : (method == r.method && url == r.url) = false := by
    rw [Bool.and_eq_false_iff, beq_eq_false_iff_ne, beq_eq_false_iff_ne]
    by_cases hm : method = r.method
    · exact .inr fun hu => hr ⟨hm.symm, hu.symm⟩
    · exact .inl hm
  simp only [answering, List.find?_append, List.find?_cons, hother, List.find?_nil]

theorem Json.eq_text_of_text? {j : Json} {s : String} (h : j.text? = some (.whole s)) : j = .text s := by
  cases j <;> simp [text?] at h
  rw [h]

namespace Deployer

/-- A client of the node and compiler on this machine. -/
def localClient : NodeClient where
  network := firstDeployer.network
  keypair := ⟨"ak_1", String.ofList (List.replicate 128 '0')⟩

/-- Services that mine every transaction, and tell of it how its call ended. -/
def miningServices (ended : String) : Transport :=
  .answering
    [("POST", "http://localhost:3080/compile", .object [("bytecode", .text "cb_1")]),
      ("POST", "http://localhost:3080/encode-calldata", .object [("calldata", .text "cb_2")]),
      ("GET", "http://localhost:3001/v2/key-blocks/current/height", .object [("height", .int 10)]),
      ("GET", "http://localhost:3001/v2/accounts/ak_1", .object [("nonce", .int 3)]),
      ("POST", "http://localhost:3001/v2/debug/contracts/create",
        .object [("contract_id", .text "ct_1"), ("tx", .text "tx_yyoBiHVuc2lnbmVkGHzFnQ==")]),
      ("POST", "http://localhost:3001/v2/debug/contracts/call",
        .object [("tx", .text "tx_yyoBiHVuc2lnbmVkGHzFnQ==")]),
      ("POST", "http://localhost:3001/v2/transactions", .object [("tx_hash", .text "th_1")]),
      ("GET", "http://localhost:3001/v2/transactions/th_1", .object [("block_height", .int 11)])]
    ("GET", "http://localhost:3001/v2/transactions/th_1/info",
      .object [("call_info", .object [("return_type", .text ended)])])

/-- A deployer with that client. -/
def localDeployer : Deployer :=
  { firstDeployer with factory := fun _ _ => .done localClient.remote, useInterface := false }

/-- A contract without functions. -/
def emptyContract : Deployment where
  source := .text "contract Main =\n"

/-- A call of such a contract. -/
def tickRequest : CallRequest where
  source := "contract Main =\n"
  address := .text "ct_1"
  function := "tick"
  arguments := []
  options := {}
  includes := []

theorem url_info :
    localClient.transactionUrl (.text "th_1") ++ "/info" = "http://localhost:3001/v2/transactions/th_1/info" := by
  decide +kernel

/-- What an attempt to deploy that contract comes to, and its gas figures, where the call of `init` was reverted. -/
theorem given_reverted :
    (App.runIn (do
        let contract ← localDeployer.body localClient.remote emptyContract
        let figures ← gasFigures localClient.remote contract.handle.transaction
        return (contract.handle.transaction.text?, contract.handle.address.text?, figures))
      (firstWorld.served (miningServices "revert"))).1.toOption =
        some (some (.whole "th_1"), some (.whole "ct_1"), (0, 0)) := by
  decide +kernel

/-- That attempt puts the contract on the chain, and its gas figures are zeros. -/
theorem runs_reverted :
    ∃ contract talk talk', (localDeployer.body localClient.remote emptyContract).runIn
        (firstWorld.served (miningServices "revert")) =
          (.ok contract, (firstWorld.served (miningServices "revert")).withTalk talk) ∧
      contract.handle.transaction = .text "th_1" ∧ contract.handle.address = .text "ct_1" ∧
      (gasFigures localClient.remote contract.handle.transaction).runIn
        ((firstWorld.served (miningServices "revert")).withTalk talk) =
          (.ok (0, 0), (firstWorld.served (miningServices "revert")).withTalk talk') := by
  obtain ⟨_, hgiven⟩ := App.eq_ok_of_toOption given_reverted
  obtain ⟨contract, w₁, hbody, hgiven⟩ := App.runIn_bind_eq_ok hgiven
  obtain ⟨figures, w₂, hfigures, hgiven⟩ := App.runIn_bind_eq_ok hgiven
  rw [App.runIn_pure] at hgiven
  obtain ⟨htransaction, haddress, rfl⟩ : contract.handle.transaction.text? = some (.whole "th_1") ∧
      contract.handle.address.text? = some (.whole "ct_1") ∧ figures = (0, 0) := by
    simpa using congrArg Prod.fst hgiven
  -- both steps do nothing but talk
  obtain ⟨talk, htalk⟩ := runIn_body_served hbody fun _ _ _ => rfl
  obtain rfl : w₁ = (firstWorld.served (miningServices "revert")).withTalk talk :=
    congrArg Prod.snd (hbody.symm.trans htalk)
  obtain ⟨used, price, talk', htalk'⟩ := gasFigures_remote localClient contract.handle.transaction
    ((firstWorld.served (miningServices "revert")).withTalk talk)
  obtain rfl : w₂ = (firstWorld.served (miningServices "revert")).withTalk talk' :=
    congrArg Prod.snd (hfigures.symm.trans htalk')
  exact ⟨contract, talk, talk', hbody, Json.eq_text_of_text? htransaction, Json.eq_text_of_text? haddress, hfigures⟩

/-- The file of the attempts. -/
def attemptsLocation : Location := ["history", "run1", "actions.jsonl"]

theorem records_local (services : Transport) :
    localDeployer.Records firstLog attemptsLocation (firstWorld.served services) :=
  ⟨Integer.isWritable_zero, _, rfl, by decide, rfl,
    show firstWorld.files.opens attemptsLocation = true by decide, rfl, rfl⟩

/-- An attempt is judged by its steps, which are the same if `init` was not reverted. -/
theorem deploy_judged_by_steps_reverted :
    localDeployer.factory localDeployer.network localDeployer.keypair = .done localClient.remote ∧
      localDeployer.Records firstLog attemptsLocation (firstWorld.served (miningServices "revert")) ∧
      ∃ contract, localDeployer.Judged firstLog attemptsLocation (firstWorld.served (miningServices "revert"))
          (.ok contract)
          ((localDeployer.deploy emptyContract).runIn (firstWorld.served (miningServices "revert"))) ∧
        ((localDeployer.body localClient.remote emptyContract).runIn
          (firstWorld.served (miningServices "ok"))).1 = .ok contract := by
  refine ⟨rfl, records_local _, ?_⟩
  obtain ⟨contract, talk, talk', hbody, htransaction, -, -⟩ := runs_reverted
  have hsame : Transport.SameBut "GET" (localClient.transactionUrl contract.handle.transaction ++ "/info")
      (firstWorld.served (miningServices "revert")).transport (miningServices "ok") := by
    rw [htransaction, url_info]
    exact Transport.sameBut_answering _ _ _ _ _
  obtain ⟨hjudged, hserved⟩ := deploy_judged_by_steps localDeployer localClient emptyContract
    (firstWorld.served (miningServices "revert")) firstLog attemptsLocation rfl (records_local (miningServices "revert"))
  rw [hbody] at hjudged hserved
  exact ⟨contract, hjudged, hserved contract (miningServices "ok") rfl hsame⟩

/-- **An attempt that succeeds where a call fails**: by what is known of their transactions both were reverted. -/
theorem deploy_reverted :
    (∃ d' contract w', (localDeployer.deploy emptyContract).runIn (firstWorld.served (miningServices "revert")) =
        (.ok (d', .ok contract), w') ∧
      ∃ entry, firstLog.Appends entry attemptsLocation (firstWorld.served (miningServices "revert")) w'.files ∧
        Json.lookup? entry "status" = some (.bool true)) ∧
    ∃ f w', (App.converse (localClient.call tickRequest)).runIn (firstWorld.served (miningServices "revert")) =
        (.error f, w') ∧
      f.message = "Call to 'tick' ended with revert: " := by
  constructor
  · obtain ⟨contract, talk, talk', hbody, htransaction, haddress, hfigures⟩ := runs_reverted
    obtain ⟨hclient, label, shownName, hdeploy⟩ := deploy_of_body (d := localDeployer) rfl hbody
    rw [← hclient] at hfigures
    have hproper : contract.handle.Proper :=
      ⟨⟨.whole "th_1", htransaction, by decide⟩, .whole "ct_1", haddress⟩
    have hhandle : (some contract.handle).all DeployedHandle.isWritable = true := hproper.isWritable
    have hwritable : Json.areWritableMembers (entry label (some contract.handle) 0 0 none) = true :=
      areWritable_entry label hhandle Integer.isWritable_zero Integer.isWritable_zero none
    obtain ⟨opened, files, hlog, hrecord, hline, -⟩ :=
      (records_local (miningServices "revert")).record talk' hwritable
    exact ⟨_, contract, _, hdeploy.trans (finish_eq hfigures hlog hrecord shownName), _, hline,
      status_entry_done label hproper 0 0⟩
  · have hfails : (match ((App.converse (localClient.call tickRequest)).runIn
        (firstWorld.served (miningServices "revert"))).1 with
        | .ok _ => none
        | .error f => some f.message) = some "Call to 'tick' ended with revert: " := by
      decide +kernel
    generalize (App.converse (localClient.call tickRequest)).runIn
      (firstWorld.served (miningServices "revert")) = behind at hfails
    obtain ⟨result, w'⟩ := behind
    cases result with
    | ok given => cases hfails
    | error f => exact ⟨f, w', rfl, Option.some.inj hfails⟩

end Deployer

end SophiaBind
