/-
**What a client of the node gives, and what it says of sessions.**

A client of the node speaks of its session only when it is released. All that it gives was read from answers, so its
numbers are not too large: the history can hold what it knows of a contract that it put on the chain, and the gas
figures of a transaction.

Main definitions:

* `DeployedHandle.Moderate` — a handle that the history can hold.

Main results:

* `NodeClient.discreet_submit` — **a submission is discreet**,
* `NodeClient.discreet_compile`, `NodeClient.discreet_interface`, `NodeClient.discreet_deploy`,
  `NodeClient.discreet_call`, `NodeClient.discreet_transactionInfo` — the operations of a client,
* `FunctionTable.discreet_invoke` — a call by name.
-/

import SophiaBind.Proofs.ReadNumbers
import SophiaBind.Proofs.SessionEvents
import SophiaBind.Table

namespace SophiaBind

open Json (Moderate)

/-- A handle whose transaction and address have no numbers that are too large. -/
def DeployedHandle.Moderate (h : DeployedHandle) : Prop :=
  h.transaction.Moderate ∧ h.address.Moderate

namespace NodeClient

/-! ### Answers -/

/-- **The answer of a request is moderate.** -/
theorem discreet_asked (method url : String) (body : Option Json) : (request method url body).Discreet Moderate :=
  (discreet_request method url body).mono fun _ ⟨_, hj⟩ => Json.moderate_ofEncoded hj

theorem discreet_item {j : Json} (hj : j.Moderate) (name : String) : (item j name).Discreet Moderate := by
  cases j with
  | object members =>
      unfold item
      dsimp only
      split
      · next v hv => exact hj.lookup? hv
      · trivial
  | _ => trivial

theorem discreet_get {j default : Json} (hj : j.Moderate) (hdefault : default.Moderate) (name : String) :
    (get j name default).Discreet Moderate := by
  cases j with
  | object members =>
      show ((Json.lookup? members name).getD default).Moderate
      cases hv : Json.lookup? members name with
      | none => exact hdefault
      | some v => exact hj.lookup? hv
  | _ => trivial

theorem discreet_toInt {j : Json} (hj : j.Moderate) : (toInt j).Discreet fun i => Integer.isWritable i = true :=
  .ofExcept fun _ hi => hj.toInt hi

/-! ### The compiler -/

variable (c : NodeClient)

theorem discreet_compile (source : String) (includes : List (String × String)) :
    (c.compile source includes).Discreet fun _ => True := by
  refine .bind (Dialogue.Discreet.recover (discreet_asked _ _ _) fun f => ?_) fun res hres =>
    .bind (discreet_item hres _) fun _ _ => trivial
  split
  · split <;> trivial
  · trivial

theorem discreet_interface (source : String) (includes : List (String × String)) :
    (c.interface source includes).Discreet fun _ => True :=
  (discreet_asked _ _ _).mono fun _ _ => trivial

theorem discreet_encodeCalldata (source : String) (function : LooseText) (arguments : List String)
    (includes : List (String × String)) : (c.encodeCalldata source function arguments includes).Discreet Moderate :=
  .bind (discreet_asked _ _ _) fun _ hres => discreet_item hres _

/-! ### Submissions -/

theorem discreet_nextNonce : c.nextNonce.Discreet fun _ => True :=
  .bind (discreet_asked _ _ _) fun _ hres => .bind (discreet_get hres Json.moderate_zero _) fun _ hnonce =>
    .bind (discreet_toInt hnonce) fun _ _ => trivial

theorem discreet_absoluteTtl (relative : Int) : (c.absoluteTtl relative).Discreet fun _ => True := by
  unfold absoluteTtl
  split
  · trivial
  · exact .bind (discreet_asked _ _ _) fun _ hres => .bind (discreet_item hres _) fun _ hheight =>
      .bind (discreet_toInt hheight) fun _ _ => trivial

/-- A transaction is posted and known by what the node answers, or by its digest. -/
theorem discreet_postSigned (tx : Json) : (c.postSigned tx).Discreet Moderate := by
  unfold postSigned
  cases tx.text? with
  | some text =>
      exact .bind (P := fun _ => True) trivial fun _ _ => .bind (P := fun _ => True) (.ofExcept fun _ _ => trivial)
        fun signing _ => .bind (discreet_asked _ _ _) fun _ hres => discreet_get hres (Json.moderate_text signing.2) _
  | none => trivial

theorem discreet_poll (hash : Json) (polls : Nat) : (c.poll hash polls).Discreet Moderate := by
  induction polls with
  | zero => trivial
  | succ polls ih =>
      refine .bind (discreet_asked _ _ _) fun tx htx => ?_
      have hdefault : Moderate (.int (-1)) := Integer.isWritable_of_lt (k := 1) (by decide) (by decide)
      refine .bind (discreet_get htx hdefault _) fun v hv => ?_
      refine .bind (discreet_toInt hv) fun height _ => ?_
      split
      · exact htx
      · exact ⟨rfl, ih⟩

/-- **A submission is discreet** if what it ends with is. -/
theorem discreet_submit {α : Type} {P : α → Prop} (s : Submission) {finish : Json → Json → Json → Dialogue α}
    (hfinish : ∀ res hash mined, res.Moderate → hash.Moderate → (finish res hash mined).Discreet P) :
    (c.submit s finish).Discreet P :=
  .bind (c.discreet_encodeCalldata _ _ _ _) fun _ _ => .bind (c.discreet_absoluteTtl _) fun _ _ =>
    .bind c.discreet_nextNonce fun _ _ => .bind (discreet_asked _ _ _) fun res hres =>
      .bind (discreet_item hres _) fun _ _ => .bind (c.discreet_postSigned _) fun hash hhash =>
        .bind (c.discreet_poll hash _) fun mined _ =>
          hfinish res hash mined hres hhash

theorem discreet_callInfo (hash : Json) : (c.callInfo hash).Discreet Moderate :=
  .bind (discreet_asked _ _ _) fun _ hres => discreet_get hres hres _

/-- The gas figures that a client tells can be written. -/
theorem discreet_transactionInfo (hash : Json) :
    (c.transactionInfo hash).Discreet fun info => ∃ used price,
      info = .map [(.text "gasUsed", .int used), (.text "gasPrice", .int price)] ∧
        Integer.isWritable used = true ∧ Integer.isWritable price = true :=
  .bind (c.discreet_callInfo hash) fun _ hinfo => .bind (discreet_get hinfo Json.moderate_zero _) fun _ hused =>
    .bind (discreet_toInt hused) fun used hu => .bind (discreet_get hinfo Json.moderate_zero _) fun _ hprice =>
      .bind (discreet_toInt hprice) fun price hp => ⟨used, price, rfl, hu, hp⟩

/-- **A contract that is put on the chain** has a handle that the history can hold. -/
theorem discreet_deploy (artifact : Artifact) (arguments : List String) (o : CallOptions) :
    (c.deploy artifact arguments o).Discreet DeployedHandle.Moderate :=
  c.discreet_submit _ fun _ _ _ hres hhash => .bind (discreet_item hres _) fun _ haddress => ⟨hhash, haddress⟩

/-- A call is discreet, and so is the decoding of its result. -/
theorem discreet_call (r : CallRequest) :
    (c.call r).Discreet fun result => ∀ type, (result.decode type).Discreet fun _ => True := by
  refine c.discreet_submit _ fun _ hash _ _ hhash => .bind (c.discreet_callInfo hash) fun info hinfo => ?_
  refine .bind (discreet_get hinfo (Json.moderate_text _) _) fun returnType _ =>
    .bind (discreet_get hinfo (Json.moderate_text _) _) fun returned _ => ?_
  dsimp only
  split
  · trivial
  · refine .bind (discreet_get hinfo Json.moderate_zero _) fun _ hused => .bind (discreet_toInt hused) fun _ _ => ?_
    exact fun type => .bind (discreet_asked _ _ _) fun _ _ => trivial

end NodeClient

/-- **A call by name is discreet** with a client of the node, if no other client is among the arguments. -/
theorem FunctionTable.discreet_invoke {t : FunctionTable} {c : NodeClient} (hclient : t.client = c.remote)
    (name : LooseText) {args : List Argument} (hargs : ∀ a ∈ args, ∃ v, a = .value v) (o : Option CallOptions) :
    (t.invoke name args o).Discreet fun _ => True := by
  have hnone : splitClient args = (none, args) := by
    unfold splitClient
    cases h : args.getLast? with
    | none => rfl
    | some last =>
        obtain ⟨v, rfl⟩ := hargs last (List.mem_of_getLast? h)
        rfl
  rw [invoke, hnone]
  dsimp only [Option.getD]
  rw [hclient]
  refine .bind (.ofExcept fun _ _ => trivial) fun f _ => .bind (.ofExcept fun _ _ => trivial) fun prepared _ => ?_
  refine .bind (c.discreet_call _) fun result hresult => .bind (hresult _) fun _ _ => ?_
  exact .ofExcept fun _ _ => trivial

end SophiaBind
