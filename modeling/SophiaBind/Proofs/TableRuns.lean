/-
**Who signs for a table.**

From a table come alternate tables, and from these more of them, for as long as a caller asks for other identities.
All of them stand for one contract, and each has a client of its own. Whatever is done with them, in any order and
whether it succeeds or not, a call is made by the client of the table that it was asked of, or by the one that was
handed over with its arguments; it is a call of the root's contract; and the tables stay what they were.

A run is a list of operations, each on one of the tables so far. Its account says what is to be remarked of the
clients; the clients that are watched say the same.

Main definitions:

* `Operation`, `Operation.on` — what a caller does with a table,
* `BoundContract.signer`, `BoundContract.passed` — who signs a call with arguments, and what the contract is given,
* `Operation.remarks`, `Operation.Makes` — what is remarked of an operation, and the tables that it makes,
* `Operation.runAll`, `Operation.Accounts` — a run and its account.

Main results:

* `FunctionTable.invokeBy_eq`, `FunctionTable.callBy_eq`, `FunctionTable.withIdentity_eq` — what clients are asked,
* `Operation.notes_on`, `Operation.makes_on` — **one operation**,
* `Operation.runAll_accounted` — **all runs**.
-/

import SophiaBind.BoundContract
import SophiaBind.Proofs.Talk
import SophiaBind.Proofs.Watching

namespace SophiaBind

/-! ### What clients are asked -/

namespace FunctionTable

variable (t : FunctionTable)

/-- A function is called once if it is there and its arguments can be encoded, and else not at all. -/
theorem invokeBy_eq (client : RemoteClient) (name : String) (args : List Value) (options : Option CallOptions) :
    t.invokeBy client name args options =
      match t.catalog.get? name with
      | none => .fail (.unknownFunction name (t.catalog.names.map LooseText.shown))
      | some f =>
        match t.prepare f args options with
        | .error e => .fail e
        | .ok (literals, o) =>
          (client.call (t.callRequest name literals o)).bind fun result => result.decoded f.returns := by
  unfold invokeBy function
  cases t.catalog.get? name with
  | none => rfl
  | some f =>
      dsimp only [Dialogue.ofExcept, bind, Dialogue.bind]
      cases t.prepare f args options with
      | error e => rfl
      | ok prepared => rfl

/-- A raw call is made once if its options can be read, and else not at all. -/
theorem callBy_eq (client : RemoteClient) (name : String) (options : Value) :
    t.callBy client name options =
      match callOptionsOf options with
      | .error e => .fail e
      | .ok (o, literals) => client.call (t.callRequest name literals o) := by
  unfold callBy
  cases callOptionsOf options with
  | error e => rfl
  | ok read => rfl

/-- A client is built for the identity of a secret, if it has one. -/
theorem withIdentity_eq (secret : Value) :
    t.withIdentity secret =
      match Keypair.resolve secret with
      | .error e => .fail e
      | .ok k => (t.factory t.network k).bind fun client => .done { parent := t, client } := by
  unfold withIdentity
  cases Keypair.resolve secret with
  | error e => rfl
  | ok k => rfl

end FunctionTable

namespace BoundContract

/-- Who signs a call with arguments: the client of the table, unless the arguments end with one and the table is no
alternate. -/
def signer : BoundContract → List Argument → RemoteClient
  | .alternate t, _ => t.client
  | b, args => (splitClient args).1.getD b.client

/-- What the contract is given of arguments: all of them but the client that signs. -/
def passed : BoundContract → List Argument → List Value
  | .alternate _, args => args.map Argument.toValue
  | _, args => (splitClient args).2.map Argument.toValue

/-- All tables call the functions of their root. -/
theorem invoke_eq (b : BoundContract) (name : String) (args : List Argument) (options : Option CallOptions) :
    b.invoke name args options = b.root.invokeBy (b.signer args) name (b.passed args) options := by
  cases b with
  | table t => rfl
  | alternate t => rfl
  | deployed d => rfl

theorem call_eq (b : BoundContract) (name : String) (options : Value) :
    b.call name options = b.root.callBy b.client name options := by
  cases b with
  | table t => rfl
  | alternate t => rfl
  | deployed d => rfl

/-- Who signs is the table's client or is among the arguments. -/
theorem signer_cases (b : BoundContract) (args : List Argument) :
    b.signer args = b.client ∨ Argument.client (b.signer args) ∈ args := by
  have hsplit : ∀ c, (splitClient args).1.getD c = c ∨ Argument.client ((splitClient args).1.getD c) ∈ args := by
    intro c
    unfold splitClient
    split
    · next c' hlast => exact .inr (List.mem_of_getLast? hlast)
    · exact .inl rfl
  cases b with
  | table t => exact hsplit t.client
  | alternate t => exact .inl rfl
  | deployed d => exact hsplit d.table.client

end BoundContract

/-! ### Operations -/

/-- What a caller does with a table. -/
inductive Operation where
  | invoke (name : String) (args : List Argument) (options : Option CallOptions)
  | call (name : String) (options : Value)
  | withIdentity (secret : Value)
  | close

namespace Operation

/-- An operation on a table, with the tables that it makes. -/
def on (b : BoundContract) : Operation → Dialogue (List BoundContract)
  | .invoke name args options => (b.invoke name args options).bind fun _ => .done []
  | .call name options => (b.call name options).bind fun _ => .done []
  | .withIdentity secret => (b.withIdentity secret).bind fun t => .done [.alternate t]
  | .close => b.close.bind fun _ => .done []

/-- What is remarked of an operation on a table. A call of a function that is not there is not made, nor one whose
arguments or options cannot be read, and no client is built for a secret that is none. -/
def remarks (b : BoundContract) : Operation → List Remark
  | .invoke name args options =>
    match b.root.catalog.get? name with
    | none => []
    | some f =>
      match b.root.prepare f (b.passed args) options with
      | .error _ => []
      | .ok (literals, o) => [.called (b.signer args) (b.root.callRequest name literals o)]
  | .call name options =>
    match FunctionTable.callOptionsOf options with
    | .error _ => []
    | .ok (o, literals) => [.called b.client (b.root.callRequest name literals o)]
  | .withIdentity secret =>
    match Keypair.resolve secret with
    | .error _ => []
    | .ok k => [.built b.root.network k]
  | .close => [.closed b.client]

/-- The tables that an operation makes: an alternate of the root for each client that the factory gives. -/
inductive Makes (b : BoundContract) : Operation → List BoundContract → Prop
  | used {op : Operation} (h : ∀ secret, op ≠ .withIdentity secret) : Makes b op []
  | rejected {secret : Value} {e : Fault} (h : Keypair.resolve secret = .error e) : Makes b (.withIdentity secret) []
  | failed {secret : Value} {k : Keypair} {es : List Exchange} {e : Fault} (hk : Keypair.resolve secret = .ok k)
      (h : (b.root.factory b.root.network k).Runs es (.error e)) : Makes b (.withIdentity secret) []
  | built {secret : Value} {k : Keypair} {es : List Exchange} {client : RemoteClient}
      (hk : Keypair.resolve secret = .ok k) (h : (b.root.factory b.root.network k).Runs es (.ok client)) :
      Makes b (.withIdentity secret) [.alternate ⟨b.root, client⟩]

/-- All clients among the arguments are under watch. -/
def Watched (note : Remark → Json) : Operation → Prop
  | .invoke _ args _ => ∀ c, Argument.client c ∈ args → c.Watched note
  | _ => True

/-! ### One operation -/

variable {note : Remark → Json} {b : BoundContract} {op : Operation}

/-- **What is noted of an operation** is what is to be remarked of it, and a client that comes of it is under
watch. -/
theorem notes_on (hclient : b.client.Watched note) (hfactory : ClientFactory.Watched note b.root.factory)
    (hop : op.Watched note) :
    (op.on b).Notes (fun made => ∀ b' ∈ made, b'.client.Watched note) ((op.remarks b).map note) := by
  cases op with
  | invoke name args options =>
      rw [on, remarks, b.invoke_eq, FunctionTable.invokeBy_eq]
      cases b.root.catalog.get? name with
      | none => trivial
      | some f =>
          dsimp only
          cases b.root.prepare f (b.passed args) options with
          | error e => trivial
          | ok prepared =>
              have hsigner : (b.signer args).Watched note := by
                rcases b.signer_cases args with h | h
                · rw [h]
                  exact hclient
                · exact hop _ h
              refine Dialogue.Notes.bind (P := fun _ => True) ?_ fun _ _ => List.forall_mem_nil _
              exact (hsigner.call _).bind fun result hresult => CallResult.quiet_decoded hresult f.returns
  | call name options =>
      rw [on, remarks, b.call_eq, FunctionTable.callBy_eq]
      cases FunctionTable.callOptionsOf options with
      | error e => trivial
      | ok read => exact (hclient.call _).bind fun _ _ => List.forall_mem_nil _
  | withIdentity secret =>
      rw [on, remarks, BoundContract.withIdentity, FunctionTable.withIdentity_eq]
      cases Keypair.resolve secret with
      | error e => trivial
      | ok k =>
          refine Dialogue.Notes.bind (P := fun t => t.client.Watched note) ?_ fun t ht => ?_
          · exact (hfactory b.root.network k).bind fun c hc => hc
          · exact fun b' hb' => by
              rw [List.mem_singleton.1 hb']
              exact ht
  | close => exact hclient.close.bind fun _ _ => List.forall_mem_nil _

/-- What is made of no table at all. -/
theorem makes_of_done {α : Type} {d : Dialogue α} {es : List Exchange} {result : Except Fault (List BoundContract)}
    (hruns : (d.bind fun _ => .done []).Runs es result) : result.toOption.getD [] = [] := by
  rcases hruns.bind_inv with ⟨e, rfl, -⟩ | ⟨a, es₁, es₂, -, -, hdone⟩
  · rfl
  · obtain ⟨-, rfl⟩ := hdone.done_inv
    rfl

/-- **What an operation makes**, however it ends. -/
theorem makes_on {es : List Exchange} {result : Except Fault (List BoundContract)} (hruns : (op.on b).Runs es result) :
    op.Makes b (result.toOption.getD []) := by
  cases op with
  | invoke name args options =>
      rw [makes_of_done hruns]
      exact .used nofun
  | call name options =>
      rw [makes_of_done hruns]
      exact .used nofun
  | close =>
      rw [makes_of_done hruns]
      exact .used nofun
  | withIdentity secret =>
      rw [on, BoundContract.withIdentity, FunctionTable.withIdentity_eq] at hruns
      cases hk : Keypair.resolve secret with
      | error e =>
          rw [hk] at hruns
          obtain ⟨-, rfl⟩ := hruns.fail_inv
          exact .rejected hk
      | ok k =>
          rw [hk] at hruns
          rcases hruns.bind_inv with ⟨e, rfl, hfailed⟩ | ⟨t, es₁, es₂, -, ht, hdone⟩
          · rcases hfailed.bind_inv with ⟨e', he, hfailed⟩ | ⟨c, es₁, es₂, -, -, hdone⟩
            · cases he
              exact .failed hk hfailed
            · cases hdone.done_inv.2
          · obtain ⟨-, rfl⟩ := hdone.done_inv
            rcases ht.bind_inv with ⟨e, he, -⟩ | ⟨c, es₁, es₂, -, hc, hdone⟩
            · cases he
            · cases hdone.done_inv.2
              exact .built hk hc

/-- All calls that are remarked of an operation are calls of the root's contract. -/
theorem request_of_mem_remarks {c : RemoteClient} {r : CallRequest} (h : .called c r ∈ op.remarks b) :
    r.source = b.root.source ∧ r.address = b.root.address ∧ r.includes = b.root.includes := by
  have hrequest : ∀ name literals o,
      (b.root.callRequest name literals o).source = b.root.source ∧
        (b.root.callRequest name literals o).address = b.root.address ∧
        (b.root.callRequest name literals o).includes = b.root.includes := fun _ _ _ => ⟨rfl, rfl, rfl⟩
  cases op with
  | invoke name args options =>
      rw [remarks] at h
      cases hf : b.root.catalog.get? name with
      | none => simp [hf] at h
      | some f =>
          rw [hf] at h
          dsimp only at h
          cases hp : b.root.prepare f (b.passed args) options with
          | error e => simp [hp] at h
          | ok prepared =>
              rw [hp] at h
              cases List.mem_singleton.1 h
              exact hrequest _ _ _
  | call name options =>
      rw [remarks] at h
      cases ho : FunctionTable.callOptionsOf options with
      | error e => simp [ho] at h
      | ok read =>
          rw [ho] at h
          cases List.mem_singleton.1 h
          exact hrequest _ _ _
  | withIdentity secret =>
      rw [remarks] at h
      cases hk : Keypair.resolve secret with
      | error e => simp [hk] at h
      | ok k => simp [hk] at h
  | close => simp [remarks] at h

/-! ### Runs -/

/-- Operations one after the other, each on one of the tables so far, whether those before succeeded or not. The
tables that they make are put behind the others. -/
def runAll : List (Nat × Operation) → List BoundContract → App (List BoundContract)
  | [], held => pure held
  | (i, op) :: rest, held =>
    match held[i]? with
    | none => runAll rest held
    | some b => do
      let result ← (App.converse (op.on b)).attempt
      runAll rest (held ++ result.toOption.getD [])

/-- The account of a run: what is remarked of each operation, and the tables in the end. -/
inductive Accounts : List BoundContract → List (Nat × Operation) → List Remark → List BoundContract → Prop
  | done (held : List BoundContract) : Accounts held [] [] held
  | absent {held held' : List BoundContract} {i : Nat} {op : Operation} {rest : List (Nat × Operation)}
      {rs : List Remark} (habsent : held[i]? = none) (hrest : Accounts held rest rs held') :
      Accounts held ((i, op) :: rest) rs held'
  | step {held held' made : List BoundContract} {b : BoundContract} {i : Nat} {op : Operation}
      {rest : List (Nat × Operation)} {rs : List Remark} (hb : held[i]? = some b) (hmade : op.Makes b made)
      (hrest : Accounts (held ++ made) rest rs held') : Accounts held ((i, op) :: rest) (op.remarks b ++ rs) held'

/-- What an operation makes are alternates of the root. -/
theorem Makes.alternates {made : List BoundContract} (h : op.Makes b made) :
    ∃ clients : List RemoteClient, made = clients.map fun c => .alternate ⟨b.root, c⟩ := by
  cases h with
  | used => exact ⟨[], rfl⟩
  | rejected => exact ⟨[], rfl⟩
  | failed => exact ⟨[], rfl⟩
  | @built _ _ _ client => exact ⟨[client], rfl⟩

variable {t : FunctionTable} {ops : List (Nat × Operation)} {held held' : List BoundContract} {rs : List Remark}

/-- **The tables in the end** are those of the beginning, unchanged, and alternates of their root. -/
theorem Accounts.alternates (h : Accounts held ops rs held') (hroot : ∀ b ∈ held, b.root = t) :
    ∃ clients : List RemoteClient, held' = held ++ clients.map fun c => .alternate ⟨t, c⟩ := by
  induction h with
  | done held => exact ⟨[], (List.append_nil held).symm⟩
  | absent _ _ ih => exact ih hroot
  | step hb hmade _ ih =>
      obtain ⟨clients, rfl⟩ := hmade.alternates
      rw [hroot _ (List.mem_of_getElem? hb)] at ih
      obtain ⟨more, hmore⟩ := ih fun b' hb' => by
        rcases List.mem_append.1 hb' with hb' | hb'
        · exact hroot b' hb'
        · obtain ⟨c, -, rfl⟩ := List.mem_map.1 hb'
          rfl
      exact ⟨clients ++ more, by rw [hmore, List.map_append, List.append_assoc]⟩

/-- **All calls of a run** are calls of the root's contract. -/
theorem Accounts.request (h : Accounts held ops rs held') (hroot : ∀ b ∈ held, b.root = t) {c : RemoteClient}
    {r : CallRequest} (hr : .called c r ∈ rs) :
    r.source = t.source ∧ r.address = t.address ∧ r.includes = t.includes := by
  induction h with
  | done held => cases hr
  | absent _ _ ih => exact ih hroot hr
  | step hb hmade _ ih =>
      have hb' := hroot _ (List.mem_of_getElem? hb)
      rcases List.mem_append.1 hr with hr | hr
      · rw [← hb']
        exact request_of_mem_remarks hr
      · refine ih (fun b' hmem => ?_) hr
        rcases List.mem_append.1 hmem with hmem | hmem
        · exact hroot b' hmem
        · obtain ⟨clients, rfl⟩ := hmade.alternates
          obtain ⟨c, -, rfl⟩ := List.mem_map.1 hmem
          exact hb'

/-- A run from tables under watch is noted as its account says. -/
theorem runAll_accounts (hheld : ∀ b ∈ held, b.root = t ∧ b.client.Watched note)
    (hfactory : ClientFactory.Watched note t.factory) (hops : ∀ step ∈ ops, step.2.Watched note) (w : World) :
    ∃ held' w' rs, (runAll ops held).runIn w = (.ok held', w') ∧ Accounts held ops rs held' ∧
      w'.notes = w.notes ++ rs.map note := by
  induction ops generalizing held w with
  | nil => exact ⟨held, w, [], rfl, .done held, (List.append_nil _).symm⟩
  | cons step rest ih =>
      obtain ⟨i, op⟩ := step
      have hrest : ∀ step ∈ rest, step.2.Watched note := fun step h => hops step (List.mem_cons_of_mem _ h)
      rw [runAll]
      cases hb : held[i]? with
      | none =>
          obtain ⟨held', w', rs, hrun, hacc, hnotes⟩ := ih hheld hrest w
          exact ⟨held', w', rs, hrun, .absent hb hacc, hnotes⟩
      | some b =>
          obtain ⟨hroot, hclient⟩ := hheld b (List.mem_of_getElem? hb)
          obtain ⟨hnoted, hend⟩ := App.converse_notes (notes_on hclient (by rw [hroot]; exact hfactory)
            (hops (i, op) List.mem_cons_self)) w
          obtain ⟨es, hruns, -⟩ := App.converse_runs (op.on b) w
          have hmakes := makes_on hruns
          cases hstep : (App.converse (op.on b)).runIn w with
          | mk result w₁ =>
              rw [hstep] at hnoted hend hmakes
              -- the tables that were made are of the same root and under watch, so the rest of the run goes on with them
              have hheld₁ : ∀ b' ∈ held ++ result.toOption.getD [], b'.root = t ∧ b'.client.Watched note := by
                intro b' hmem
                rcases List.mem_append.1 hmem with hmem | hmem
                · exact hheld b' hmem
                · constructor
                  · obtain ⟨clients, hclients⟩ := hmakes.alternates
                    rw [hclients] at hmem
                    obtain ⟨c, -, rfl⟩ := List.mem_map.1 hmem
                    exact hroot
                  · cases result with
                    | error e => cases hmem
                    | ok made => exact hend made rfl b' hmem
              obtain ⟨held', w', rs, hrun, hacc, hnotes⟩ := ih hheld₁ hrest w₁
              refine ⟨held', w', op.remarks b ++ rs, ?_, .step hb hmakes hacc, ?_⟩
              · dsimp only
                rw [App.runIn_attempt_bind hstep]
                exact hrun
              · rw [hnotes, hnoted, List.map_append, List.append_assoc]

/-- **Who signs, in all runs.** From a table whose client and factory are under watch, a run of operations comes to
its end, and what is noted is what its account says, operation by operation: a call by the client of its table or
by the one at the end of its arguments, a client for the identity of a secret, the release of a table's own client,
or nothing. The tables in the end are the first one and its alternates, and all calls are calls of its contract. -/
theorem runAll_accounted (hclient : t.client.Watched note) (hfactory : ClientFactory.Watched note t.factory)
    (hops : ∀ step ∈ ops, step.2.Watched note) (w : World) :
    ∃ held w' rs, (runAll ops [.table t]).runIn w = (.ok held, w') ∧ Accounts [.table t] ops rs held ∧
      w'.notes = w.notes ++ rs.map note ∧
      (∃ clients : List RemoteClient, held = .table t :: clients.map fun c => .alternate ⟨t, c⟩) ∧
      ∀ c r, .called c r ∈ rs → r.source = t.source ∧ r.address = t.address ∧ r.includes = t.includes := by
  have hroot : ∀ b ∈ [BoundContract.table t], b.root = t := fun b hb => by
    rw [List.mem_singleton.1 hb]
    rfl
  have hheld : ∀ b ∈ [BoundContract.table t], b.root = t ∧ b.client.Watched note := fun b hb => by
    rw [List.mem_singleton.1 hb]
    exact ⟨rfl, hclient⟩
  obtain ⟨held, w', rs, hrun, hacc, hnotes⟩ := runAll_accounts hheld hfactory hops w
  exact ⟨held, w', rs, hrun, hacc, hnotes, hacc.alternates hroot, fun c r hr => hacc.request hroot hr⟩

/-- A client that answers every call with nothing. -/
def answering (k : Keypair) : RemoteClient :=
  RemoteClient.remarking
    { keypair := k
      compile := fun _ _ => .done ⟨.null, "", []⟩
      interface := fun _ _ => .done .null
      deploy := fun _ _ _ => .done ⟨.null, .null, "", .null⟩
      call := fun _ => .done { details := .null, decode := fun _ => .done .null }
      transactionInfo := fun _ => .done .null
      close := .done () }

theorem watched_answering (k : Keypair) : (answering k).Watched Remark.inWords :=
  RemoteClient.watched_remarking (fun _ _ => trivial) trivial

/-- A table with one function, signed by the identity of a name. -/
def tickTable : FunctionTable where
  catalog := (Catalog.ofFunctions [⟨"tick", [], "()", false⟩]).1
  address := .text "ct_tick"
  source := "contract Tick"
  bytecode := .null
  client := answering ⟨"ak_root", ""⟩
  network := ⟨"local", "", "", "", ""⟩
  includes := []
  quoteAll := false
  factory := fun n k => .tell (.noted (Remark.inWords (.built n k))) (.done (answering k))

/-- An alternate table, one made from that, a call by each and by a client for one call, calls that are not made, and
a release. -/
def tickOperations : List (Nat × Operation) :=
  [(0, .withIdentity (.keypair ⟨"ak_first", ""⟩)), (1, .withIdentity (.keypair ⟨"ak_second", ""⟩)),
    (2, .invoke "tick" [] none), (1, .invoke "tock" [] none), (1, .withIdentity (.int 0)),
    (0, .invoke "tick" [.client (answering ⟨"ak_once", ""⟩)] none), (0, .call "tock" .null), (1, .close),
    (1, .invoke "tick" [.client (answering ⟨"ak_once", ""⟩)] none)]

/-- The account of these operations, in words. -/
theorem runAll_accounted_tick :
    tickTable.client.Watched Remark.inWords ∧ ClientFactory.Watched Remark.inWords tickTable.factory ∧
    (∀ step ∈ tickOperations, step.2.Watched Remark.inWords) ∧
    ∃ held rs, Accounts [.table tickTable] tickOperations rs held ∧
      rs.map Remark.inWords =
        [.array [.text "build", .text "ak_first", .text "local"],
          .array [.text "build", .text "ak_second", .text "local"],
          .array [.text "call", .text "ak_second", .text "tick"],
          .array [.text "call", .text "ak_once", .text "tick"],
          .array [.text "call", .text "ak_root", .text "tock"],
          .array [.text "close", .text "ak_first"],
          .array [.text "call", .text "ak_first", .text "tick"]] := by
  have hclient : tickTable.client.Watched Remark.inWords := watched_answering _
  have hfactory : ClientFactory.Watched Remark.inWords tickTable.factory :=
    fun n k => ⟨.done (answering k), rfl, watched_answering k⟩
  have hops : ∀ step ∈ tickOperations, step.2.Watched Remark.inWords := by
    have honce : ∀ c, Argument.client c ∈ [.client (answering ⟨"ak_once", ""⟩)] → c.Watched Remark.inWords := by
      intro c hc
      cases List.mem_singleton.1 hc
      exact watched_answering _
    simp only [tickOperations, List.forall_mem_cons]
    exact ⟨trivial, trivial, nofun, nofun, trivial, honce, trivial, trivial, honce, nofun⟩
  refine ⟨hclient, hfactory, hops, ?_⟩
  obtain ⟨held, w', rs, hrun, hacc, hnotes, -, -⟩ := runAll_accounted hclient hfactory hops {}
  refine ⟨held, rs, hacc, hnotes.symm.trans ?_⟩
  have hw : w' = ((runAll tickOperations [.table tickTable]).runIn {}).2 := by rw [hrun]
  rw [hw]
  rfl

end Operation

end SophiaBind
