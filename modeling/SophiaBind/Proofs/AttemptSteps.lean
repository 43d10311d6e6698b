/-
**The steps of an attempt.**

Reading a source, compiling it, creating the contract and cataloging its functions is talk, whatever the client
does and wherever it fails: no file is changed, no client is released, and each fault has a name, so that the
history can always say what went wrong.

Main definitions:

* `DeployedHandle.Proper` — what clients say of a contract,
* `RemoteClient.Proper` — a client that keeps to what its operations promise,
* `Deployer.figuresTold` — the gas figures of what a client tells of a transaction.

Main results:

* `Source.always_read`, `Deployer.always_create`, `Deployer.always_bindTable` — **the steps are talk**,
* `Deployer.gasFigures_told` — the gas figures are those of what the client tells, and nothing else happens.
-/

import SophiaBind.Proofs.Talk

namespace SophiaBind

/-! ### Clients -/

/-- A handle as clients give it: its transaction and its address are texts, and the transaction is not empty. -/
def DeployedHandle.Proper (h : DeployedHandle) : Prop :=
  (∃ t : LooseText, h.transaction = .ofText t ∧ t ≠ .whole "") ∧ ∃ t : LooseText, h.address = .ofText t

/-- A number of few digits can be written. -/
theorem Integer.isWritable_of_lt {i : Int} {k : Nat} (hk : k ≤ digitLimit) (hi : i.natAbs < Nat.pow 10 k) :
    Integer.isWritable i = true := by
  have hpow : ∀ m, k ≤ m → Nat.pow 10 k ≤ Nat.pow 10 m := fun m hm => Nat.pow_le_pow_right (by decide) hm
  exact decide_eq_true (Nat.lt_of_lt_of_le hi (hpow digitLimit hk))

theorem Integer.isWritable_zero : Integer.isWritable 0 = true :=
  isWritable_of_lt (k := 0) (Nat.zero_le _) Nat.one_pos

/-- A client that keeps to what its operations promise: each gives what it declares or fails with a fault that
has a name, and none but the last releases the client, which succeeds. What it tells of a transaction may be
anything. -/
structure RemoteClient.Proper (client : RemoteClient) : Prop where
  compile : ∀ code includes, (client.compile code includes).Always (Meets fun _ => True)
  interface : ∀ code includes, (client.interface code includes).Always (Meets fun _ => True)
  deploy : ∀ artifact arguments o, (client.deploy artifact arguments o).Always (Meets DeployedHandle.Proper)
  transactionInfo : ∀ transaction, (client.transactionInfo transaction).Always fun _ => True
  close : ∃ last, client.close = .tell .sessionClosed last ∧ last.Always (· = .ok ())

/-! ### Values -/

/-- Nothing is expected but that a fault has a name. -/
abbrev IsNamed {α : Type} (e : Except Fault α) : Prop :=
  Meets (fun _ => True) e

theorem IsNamed.map {α β : Type} {e : Except Fault α} (h : IsNamed e) (f : α → β) : IsNamed (e.map f) := by
  cases e with
  | ok a => trivial
  | error fault => exact h

namespace Value

theorem isNamed_readInt (cs : List Char) (written : String) : IsNamed (readInt cs written) := by
  unfold readInt
  split
  · trivial
  · exact show "ValueError" ≠ "" by decide
  · exact show "ValueError" ≠ "" by decide

theorem isNamed_truncate (x : Binary64) : IsNamed (truncate x) := by
  unfold truncate
  split
  · trivial
  · split
    · exact show "ValueError" ≠ "" by decide
    · exact show "OverflowError" ≠ "" by decide

theorem isNamed_toInt (v : Value) : IsNamed v.toInt := by
  cases v with
  | bool b => trivial
  | int i => trivial
  | float x => exact isNamed_truncate x
  | text s => exact isNamed_readInt _ _
  | broken t => exact isNamed_readInt _ _
  | bytes bs => exact isNamed_readInt _ _
  | _ => exact show "TypeError" ≠ "" by decide

theorem isNamed_items (v : Value) : IsNamed v.items := by
  cases v with
  | list items => trivial
  | tuple items => trivial
  | text s => trivial
  | broken t => trivial
  | bytes bs => trivial
  | map entries => trivial
  | _ => exact show "TypeError" ≠ "" by decide

theorem isNamed_asKey (v : Value) : IsNamed v.asKey := by
  unfold asKey
  split
  · trivial
  · exact show "TypeError" ≠ "" by decide

end Value

/-- The literals that set a contract up. -/
theorem Arguments.isNamed_ofInitState (v : Value) : IsNamed (ofInitState v) := by
  unfold ofInitState
  split
  · trivial
  · exact (Value.isNamed_items v).map _

namespace Deployer

/-! ### Options -/

theorem isNamed_entryOf (number : Nat) (v : Value) : IsNamed (entryOf number v) := by
  unfold entryOf
  split
  · trivial
  · exact show "ValueError" ≠ "" by decide
  · exact show "TypeError" ≠ "" by decide

theorem isNamed_entriesFrom (number : Nat) (entries : List (Value × Value)) (vs : List Value) :
    IsNamed (entriesFrom number entries vs) := by
  induction vs generalizing number entries with
  | nil => trivial
  | cons v rest ih =>
      refine (isNamed_entryOf number v).bind fun entry _ => ?_
      exact (Value.isNamed_asKey entry.1).bind fun key _ => ih (number + 1) (Value.setEntry entries key entry.2)

theorem isNamed_entriesOf (v : Value) : IsNamed (entriesOf v) := by
  unfold entriesOf
  split
  · trivial
  · split
    · exact (Value.isNamed_items _).bind fun vs _ => isNamed_entriesFrom 0 [] vs
    · trivial

theorem isNamed_integerMember? (entries : List (Value × Value)) (name : String) :
    IsNamed (integerMember? entries name) := by
  unfold integerMember?
  split
  · trivial
  · split
    · exact (Value.isNamed_toInt _).map some
    · trivial

theorem isNamed_optionsOf (gas : Int) (options : Value) : IsNamed (optionsOf gas options) :=
  (isNamed_entriesOf options).bind fun entries _ => (isNamed_integerMember? entries "amount").bind fun _ _ =>
    (isNamed_integerMember? entries "ttl").bind fun _ _ => trivial

end Deployer

/-! ### Reading -/

theorem FileCause.name_ne_empty (cause : FileCause) : cause.name ≠ "" := by
  cases cause <;> decide

theorem Files.isNamed_textOf (content : Bytes) : IsNamed (textOf content) := by
  unfold textOf
  split
  · trivial
  · exact show "UnicodeDecodeError" ≠ "" by decide

theorem Files.always_locate (p : Path) : App.Always IsNamed (locate p) := by
  unfold locate
  split
  · refine .andThen .get fun w _ => ?_
    split
    · exact .pure trivial
    · next cause _ => exact .throw cause.name_ne_empty
  · exact .throw (show "ValueError" ≠ "" by decide)

theorem Files.always_readText (p : Path) : App.Always IsNamed (readText p) := by
  have hbytes : App.Always IsNamed (readBytes p) := by
    refine .bind (always_locate p) fun l _ => .andThen .get fun w _ => ?_
    split
    · exact .pure trivial
    · exact .throw (FileCause.name_ne_empty .refused)
    · exact .throw (FileCause.name_ne_empty .isDirectory)
    · exact .throw (FileCause.name_ne_empty .absent)
  exact .bind hbytes fun content _ => .ofExcept (isNamed_textOf content)

namespace Source

theorem isNamed_foldlM {α β : Type} {f : β → α → Except Fault β} (hf : ∀ b a, IsNamed (f b a)) (as : List α)
    (b : β) : IsNamed (as.foldlM f b) := by
  induction as generalizing b with
  | nil => trivial
  | cons a rest ih =>
      rw [List.foldlM_cons]
      exact (hf b a).bind fun b' _ => ih b'

theorem isNamed_resolve (files : LinkedTree) (home : Location) (p : Path) : IsNamed (files.resolve home p) := by
  unfold LinkedTree.resolve
  split
  · trivial
  · exact show "ValueError" ≠ "" by decide
  · split
    · split
      · exact show "RuntimeError" ≠ "" by decide
      · trivial
    · exact show "ValueError" ≠ "" by decide

theorem isNamed_included (files : LinkedTree) (home : Location) (name : String) :
    IsNamed (included files home name) := by
  refine (isNamed_resolve files home _).bind fun l _ => ?_
  split
  · exact (Files.isNamed_textOf _).bind fun _ _ => trivial
  · exact show "FileNotFoundError" ≠ "" by decide

theorem isNamed_includesFrom (files : LinkedTree) (fuel : Nat) (home : Location) (code : String)
    (found : IncludeMap) : IsNamed (includesFrom files fuel home code found) := by
  induction fuel generalizing home code found with
  | zero => trivial
  | succ fuel ih =>
      refine isNamed_foldlM (fun found name => ?_) (directives code) found
      split
      · trivial
      · exact (isNamed_included files home name).bind fun file _ => ih _ file.2 _

/-- **Reading is talk.** -/
theorem always_read (origin : Origin) : App.Always IsNamed (read origin) := by
  have hfile : ∀ p, App.Always IsNamed (readFile p) := fun p =>
    .bind (Files.always_readText p) fun code _ => .andThen .get fun w _ =>
      .bind (.ofExcept (isNamed_includesFrom _ _ _ code [])) fun _ _ => .pure trivial
  cases origin with
  | file p => exact hfile p
  | text s =>
      rw [read]
      split
      · exact .pure trivial
      · exact hfile _

end Source

/-! ### Creating and cataloging -/

theorem always_catalogOfSource (code : String) : App.Always IsNamed (catalogOfSource code) := by
  unfold catalogOfSource
  generalize Catalog.ofSource code = found
  obtain ⟨catalog, warnings⟩ := found
  exact .andThen (.warnAll _) fun _ _ => .pure trivial

section Client

variable {client : RemoteClient} (hclient : client.Proper)

include hclient

theorem always_buildCatalog (s : Source) (useInterface : Bool) :
    App.Always IsNamed (buildCatalog client s useInterface) := by
  unfold buildCatalog
  split
  · refine .andThen (App.always_converse (hclient.interface s.code s.includes)).attempt fun e he => ?_
    cases e with
    | ok description =>
        dsimp only
        -- which functions the description has does not matter
        generalize Catalog.ofInterface description = found
        obtain ⟨catalog, warnings⟩ := found
        refine .andThen (.warnAll _) fun _ _ => ?_
        split
        · exact .pure trivial
        · exact always_catalogOfSource s.code
    | error f =>
        cases f with
        | api url reason status => exact .andThen (.report rfl) fun _ _ => always_catalogOfSource s.code
        | _ => exact .throw he
  · exact always_catalogOfSource s.code

namespace Deployer

/-- **Creating is talk**, and gives a handle as the client promises. -/
theorem always_create (s : Source) (what : Deployment) :
    App.Always (Meets fun made => made.2.Proper) (create client s what) :=
  .bind (App.always_converse (hclient.compile s.code s.includes)) fun artifact _ =>
    .bind (.ofExcept (isNamed_optionsOf what.gas what.options)) fun o _ =>
      .bind (.ofExcept (Arguments.isNamed_ofInitState what.initState)) fun arguments _ =>
        .bind (App.always_converse (hclient.deploy artifact arguments o)) fun _ hhandle => .pure hhandle

/-- **Cataloging is talk**, and binds the handle to the client. -/
theorem always_bindTable (d : Deployer) (s : Source) (artifact : Artifact) (handle : DeployedHandle) :
    App.Always (Meets fun contract => contract.handle = handle ∧ contract.table.client = client)
      (d.bindTable client s artifact handle) :=
  .bind (always_buildCatalog hclient s d.useInterface) fun _ _ => .pure ⟨rfl, rfl⟩

end Deployer

end Client

/-! ### Gas figures -/

namespace Deployer

/-- A figure of what a client tells, zero if it is left out. -/
def figureOf (info : Value) (name : String) : Except Fault Int := do
  ((← info.get name).getD (.int 0)).toInt

/-- The gas figures, used and price, of what a client tells of a transaction: zeros if it fails. -/
def figuresTold : Except Fault Value → Except Fault (Int × Int)
  | .error _ => .ok (0, 0)
  | .ok info => do
    let used ← figureOf info "gasUsed"
    let price ← figureOf info "gasPrice"
    return (used, price)

/-- Results that are there already, one behind the other. -/
theorem runIn_ofExcept_bind {α β γ : Type} (x : Except Fault α) (y : Except Fault β) (f : α → β → γ) (w : World) :
    App.runIn (do
      let a ← App.ofExcept x
      let b ← App.ofExcept y
      return f a b) w = (x.bind fun a => y.bind fun b => .ok (f a b), w) := by
  cases x with
  | error e => rfl
  | ok a => cases y <;> rfl

/-- **The gas figures are those of what the client tells**, and at most a warning is given on top. -/
theorem gasFigures_told {client : RemoteClient} {transaction : Json} {told : Except Fault Value} {w w' : World}
    (h : (App.converse (client.transactionInfo transaction)).runIn w = (told, w')) :
    ∃ w'', (gasFigures client transaction).runIn w = (figuresTold told, w'') ∧ w'.Talked w'' := by
  rw [gasFigures, App.runIn_attempt_bind h]
  cases told with
  | error f => exact ⟨_, rfl, w'.talked_event rfl⟩
  | ok info =>
      exact ⟨w', runIn_ofExcept_bind (figureOf info "gasUsed") (figureOf info "gasPrice") Prod.mk w', .refl w'⟩

end Deployer

end SophiaBind
