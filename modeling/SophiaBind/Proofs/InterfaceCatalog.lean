/-
**An interface description is taken as a whole.**

A description comes from outside, so nothing is known of its shape. Reading it has three ends: there is no list of
functions, some entry of the list is not in order, or every entry is, and then each entry that callers may use
gives its function, in order. In the first two the catalog is empty. An entry is in order by its name, by its
list of parameters, and, unless its name is reserved, by the nodes of its types.

Main definitions:

* `Fault.IsMalformedType`, `ReadsType` — what a node can be refused for,
* `Catalog.counted?` — the members of an entry that counts,
* `Catalog.FunctionEntry`, `Catalog.contents?` — what such an entry says of a function,
* `Catalog.InOrder` — an entry in order,
* `Catalog.Shows` — a function with the name, the types and the result of its entry,
* `Catalog.wrapped` — a description within others.

Main results:

* `TypeTree.readsType_ofInterface` — **a node is refused for its type only**, so all faults of an entry are of one kind,
* `Catalog.functionOf_outcome`, `Catalog.entryOf_outcome`, `Catalog.entriesOf_outcome` — the ends of each reading,
* `Catalog.ofInterface_wrapped` — what a description is wrapped in does not count,
* `Catalog.ofInterface_whole` — **all functions or none**.
-/

import SophiaBind.Catalog.Interface
import Mathlib.Data.List.Forall2

namespace SophiaBind

/-! ### What is wrong with a type -/

/-- A fault that says what is wrong with a type. -/
def Fault.IsMalformedType (f : Fault) : Prop :=
  ∃ text position reason, f = .malformedType text position reason

/-- A result, or such a fault. -/
def ReadsType {α : Type} : Except Fault α → Prop
  | .ok _ => True
  | .error f => f.IsMalformedType

theorem ReadsType.map {α β : Type} {e : Except Fault α} (h : ReadsType e) (f : α → β) : ReadsType (e.map f) := by
  cases e with
  | ok a => trivial
  | error fault => exact h

theorem ReadsType.bind {α β : Type} {e : Except Fault α} (h : ReadsType e) {f : α → Except Fault β}
    (hf : ∀ a, ReadsType (f a)) : ReadsType (e >>= f) := by
  cases e with
  | ok a => exact hf a
  | error fault => exact h

namespace TypeTree

theorem readsType_malformed {α : Type} (node : Json) (reason : String) :
    ReadsType (.error (malformed node reason) : Except Fault α) :=
  ⟨_, _, _, rfl⟩

-- by induction on the node, along the readers
mutual

/-- **A node is refused for its type only.** -/
theorem readsType_ofInterface : ∀ node : Json, ReadsType (ofInterface node)
  | .text _ | .broken _ | .int _ => by
      rw [ofInterface]
      trivial
  | .array [node] => by
      rw [ofInterface]
      exact readsType_ofInterface node
  | .array [] => by
      rw [ofInterface.eq_def]
      exact (readsType_ofItems []).map _
  | .array (node :: other :: rest) => by
      rw [ofInterface.eq_def]
      exact (readsType_ofItems (node :: other :: rest)).map _
  | .object members => by
      rw [ofInterface.eq_def]
      dsimp only
      split
      · exact readsType_ofMember "type" members
      · split
        · next tag node _ => exact readsType_ofTagged tag node
        · exact readsType_malformed _ _
  | .null | .bool _ | .float _ => by
      rw [ofInterface.eq_def]
      exact readsType_malformed _ _

theorem readsType_ofMember (name : String) : ∀ members : List (LooseText × Json), ReadsType (ofMember name members)
  | [] => by
      rw [ofMember]
      exact readsType_malformed _ _
  | (n, node) :: rest => by
      rw [ofMember]
      split
      · exact readsType_ofInterface node
      · exact readsType_ofMember name rest

theorem readsType_ofTagged (tag : LooseText) : ∀ node : Json, ReadsType (ofTagged tag node)
  | .array nodes => by
      rw [ofTagged.eq_def]
      dsimp only
      split_ifs
      · exact (readsType_ofItems nodes).map _
      · exact (readsType_ofItems nodes).map _
      · exact (readsType_ofFields _ nodes).map _
      · split
        · next key value =>
          exact (readsType_ofInterface key).bind fun _ => (readsType_ofInterface value).bind fun _ => trivial
        · exact readsType_malformed _ _
      · exact (readsType_ofItems nodes).map _
  | .null | .bool _ | .int _ | .float _ | .text _ | .broken _ | .object _ => by
      rw [ofTagged.eq_def]
      dsimp only
      split_ifs
      · exact (readsType_ofInterface _).map _
      · exact (readsType_ofInterface _).map _
      · exact (readsType_ofField _ _).map _
      · exact readsType_malformed _ _
      · exact (readsType_ofInterface _).map _

theorem readsType_ofItems : ∀ nodes : List Json, ReadsType (ofItems nodes)
  | [] => by
      rw [ofItems]
      trivial
  | node :: rest => by
      rw [ofItems]
      exact (readsType_ofInterface node).bind fun _ => (readsType_ofItems rest).bind fun _ => trivial

theorem readsType_ofField (whole : Json) : ∀ node : Json, ReadsType (ofField whole node)
  | .object members => by
      rw [ofField]
      split
      · exact (readsType_ofMember "type" members).bind fun _ => trivial
      · exact readsType_malformed _ _
  | .null | .bool _ | .int _ | .float _ | .text _ | .broken _ | .array _ => by
      rw [ofField.eq_def]
      exact readsType_malformed _ _

theorem readsType_ofFields (whole : Json) : ∀ nodes : List Json, ReadsType (ofFields whole nodes)
  | [] => by
      rw [ofFields]
      trivial
  | node :: rest => by
      rw [ofFields]
      exact (readsType_ofField whole node).bind fun _ => (readsType_ofFields whole rest).bind fun _ => trivial

end

end TypeTree

namespace Catalog

/-! ### Entries -/

/-- The members of an entry that counts: an object with a name. -/
def counted? : Json → Option (List (LooseText × Json))
  | .object members => if (Json.lookup? members "name").isSome then some members else none
  | _ => none

/-- The nodes of parameters; nothing stands for no parameters. -/
def parameterNodes? : Json → Option (List Json)
  | .null => some []
  | .array nodes => some nodes
  | _ => none

/-- The node of a parameter's type. -/
def typeNode : Json → Json
  | .object members => memberOrNull members "type"
  | node => node

/-- The name of a parameter; only an object has one. -/
def parameterName : Json → String
  | .object members => match Json.lookup? members "name" with | some n => n.shown | none => ""
  | _ => ""

/-- The nodes of a result's type; nothing stands for no result. -/
def resultNodes : Json → List Json
  | .null => []
  | node => [node]

/-- What an entry says of a function: its name, parameters and result, and whether it changes the state. -/
structure FunctionEntry where
  name : LooseText
  parameters : List Json
  result : Json
  stateful : Json

/-- All nodes that stand for types. -/
def FunctionEntry.typeNodes (d : FunctionEntry) : List Json :=
  d.parameters.map typeNode ++ resultNodes d.result

/-- What an entry says if its name is a text and its parameters are a list. -/
def contents? (members : List (LooseText × Json)) : Option FunctionEntry := do
  let name ← (memberOrNull members "name").text?
  let parameters ← parameterNodes? (memberOrNull members "arguments")
  return ⟨name, parameters, memberOrNull members "returns", memberOrNull members "stateful"⟩

/-- Whether the function of an entry is for callers. -/
def isOffered (members : List (LooseText × Json)) : Bool :=
  !((memberOrNull members "name").text?.any isReserved)

/-- A node that describes a type. -/
def Accepted (node : Json) : Prop :=
  ∃ t, TypeTree.ofInterface node = .ok t

/-- An entry in order: it is of a function, whose types are described unless it is kept from callers. -/
def InOrder (members : List (LooseText × Json)) : Prop :=
  ∃ d, contents? members = some d ∧ (isReserved d.name = false → ∀ node ∈ d.typeNodes, Accepted node)

/-- A parameter with the name and the type of its node. -/
structure ShowsParameter (node : Json) (p : Parameter) : Prop where
  name : p.name = parameterName node
  type : ∃ t, p.type = some t ∧ TypeTree.renderInterface (typeNode node) = .ok t

/-- A type as the node of a result gives it: the unit type for nothing. -/
def ShowsResult : Json → String → Prop
  | .null, returns => returns = "()"
  | node, returns => TypeTree.renderInterface node = .ok returns

/-- A function as its entry says. -/
structure FunctionEntry.Shows (d : FunctionEntry) (f : ContractFunction) : Prop where
  name : f.name = d.name
  parameters : List.Forall₂ ShowsParameter d.parameters f.parameters
  returns : ShowsResult d.result f.returns
  stateful : f.stateful = (Value.ofJson d.stateful).truthy

/-- A function as the members of its entry say. -/
def Shows (members : List (LooseText × Json)) (f : ContractFunction) : Prop :=
  ∃ d, contents? members = some d ∧ d.Shows f

/-! ### Types, parameters and results -/

/-- A node that describes a type has a text, and no other node has. -/
theorem renderInterface_outcome (node : Json) :
    (Accepted node ∧ ∃ t, TypeTree.renderInterface node = .ok t) ∨
      ¬Accepted node ∧ ∃ e : Fault, TypeTree.renderInterface node = .error e ∧ e.IsMalformedType := by
  have hreads := TypeTree.readsType_ofInterface node
  unfold Accepted TypeTree.renderInterface
  cases hnode : TypeTree.ofInterface node with
  | ok t => exact .inl ⟨⟨t, rfl⟩, t.render, rfl⟩
  | error e =>
      rw [hnode] at hreads
      refine .inr ⟨?_, e, rfl, hreads⟩
      rintro ⟨t, ht⟩
      cases ht

/-- Both kinds of parameters are a name and the type of a node. -/
theorem parameterOf_eq (node : Json) :
    parameterOf node = (TypeTree.renderInterface (typeNode node)).map fun t => ⟨parameterName node, some t⟩ := by
  cases node with
  | object members =>
      rw [parameterOf, typeNode, parameterName]
      cases TypeTree.renderInterface (memberOrNull members "type") with
      | ok t => rfl
      | error e => rfl
  | _ =>
      rw [parameterOf, typeNode, parameterName]
      · cases TypeTree.renderInterface _ with
        | ok t => rfl
        | error e => rfl
      all_goals
        intro members h
        cases h

theorem parameterOf_outcome (node : Json) :
    (Accepted (typeNode node) ∧ ∃ p, parameterOf node = .ok p ∧ ShowsParameter node p) ∨
      ¬Accepted (typeNode node) ∧ ∃ e : Fault, parameterOf node = .error e ∧ e.IsMalformedType := by
  rw [parameterOf_eq]
  rcases renderInterface_outcome (typeNode node) with ⟨haccepted, t, ht⟩ | ⟨haccepted, e, he, hmalformed⟩
  · refine .inl ⟨haccepted, ⟨parameterName node, some t⟩, ?_, rfl, t, rfl, ht⟩
    rw [ht]
    rfl
  · refine .inr ⟨haccepted, e, ?_, hmalformed⟩
    rw [he]
    rfl

/-- The parameters are read if all their types are described. -/
theorem parameters_outcome (nodes : List Json) :
    ((∀ node ∈ nodes.map typeNode, Accepted node) ∧
        ∃ ps, nodes.mapM parameterOf = .ok ps ∧ List.Forall₂ ShowsParameter nodes ps) ∨
      (∃ node ∈ nodes.map typeNode, ¬Accepted node) ∧
        ∃ e : Fault, nodes.mapM parameterOf = .error e ∧ e.IsMalformedType := by
  induction nodes with
  | nil => exact .inl ⟨by simp, [], rfl, .nil⟩
  | cons node rest ih =>
      rw [List.mapM_cons, List.map_cons]
      rcases parameterOf_outcome node with ⟨haccepted, p, hp, hshows⟩ | ⟨haccepted, e, he, hmalformed⟩
      · rcases ih with ⟨hall, ps, hps, hrest⟩ | ⟨⟨other, hmem, hnot⟩, e, he, hmalformed⟩
        · refine .inl ⟨List.forall_mem_cons.2 ⟨haccepted, hall⟩, p :: ps, ?_, .cons hshows hrest⟩
          rw [hp, hps]
          rfl
        · refine .inr ⟨⟨other, List.mem_cons_of_mem _ hmem, hnot⟩, e, ?_, hmalformed⟩
          rw [hp, he]
          rfl
      · refine .inr ⟨⟨_, List.mem_cons_self, haccepted⟩, e, ?_, hmalformed⟩
        rw [he]
        rfl

theorem returnsOf_outcome (node : Json) :
    ((∀ n ∈ resultNodes node, Accepted n) ∧ ∃ returns, returnsOf node = .ok returns ∧ ShowsResult node returns) ∨
      (∃ n ∈ resultNodes node, ¬Accepted n) ∧ ∃ e : Fault, returnsOf node = .error e ∧ e.IsMalformedType := by
  cases node with
  | null => exact .inl ⟨by simp [resultNodes], "()", rfl, rfl⟩
  | _ =>
      rcases renderInterface_outcome _ with ⟨haccepted, t, ht⟩ | ⟨haccepted, e, he⟩
      · exact .inl ⟨by simpa [resultNodes] using haccepted, t, ht, ht⟩
      · exact .inr ⟨⟨_, List.mem_singleton_self _, haccepted⟩, e, he⟩

/-! ### The ends of reading an entry -/

/-- **A function is read if all its types are described**, and shows what its entry says; else a type is at fault. -/
theorem functionOf_outcome {members : List (LooseText × Json)} {d : FunctionEntry}
    (hd : contents? members = some d) :
    ((∀ node ∈ d.typeNodes, Accepted node) ∧
        ∃ f, functionOf d.name d.parameters members = .ok f ∧ d.Shows f) ∨
      (∃ node ∈ d.typeNodes, ¬Accepted node) ∧
        ∃ e : Fault, functionOf d.name d.parameters members = .error e ∧ e.IsMalformedType := by
  have hresult : memberOrNull members "returns" = d.result ∧ memberOrNull members "stateful" = d.stateful := by
    simp only [contents?, Option.bind_eq_bind, Option.bind_eq_some_iff, Option.pure_def, Option.some.injEq] at hd
    obtain ⟨name, -, parameters, -, rfl⟩ := hd
    exact ⟨rfl, rfl⟩
  rw [functionOf, hresult.1, hresult.2, FunctionEntry.typeNodes]
  rcases parameters_outcome d.parameters with ⟨hall, ps, hps, hparameters⟩ | ⟨⟨node, hmem, hnot⟩, e, he, hmalformed⟩
  · rcases returnsOf_outcome d.result with
      ⟨hresults, returns, hreturns, hshows⟩ | ⟨⟨node, hmem, hnot⟩, e, he, hmalformed⟩
    · refine .inl ⟨List.forall_mem_append.2 ⟨hall, hresults⟩,
        ⟨d.name, ps, returns, (Value.ofJson d.stateful).truthy⟩, ?_, rfl, hparameters, hshows, rfl⟩
      rw [hps, hreturns]
      rfl
    · refine .inr ⟨⟨node, List.mem_append_right _ hmem, hnot⟩, e, ?_, hmalformed⟩
      rw [hps, he]
      rfl
  · refine .inr ⟨⟨node, List.mem_append_left _ hmem, hnot⟩, e, ?_, hmalformed⟩
    rw [he]
    rfl

/-- An entry that does not count is passed over. -/
theorem entryOf_of_not_counted {node : Json} (h : counted? node = none) : entryOf node = .ok none := by
  cases node with
  | object members =>
      cases hname : Json.lookup? members "name" with
      | none => rw [entryOf, hname]
      | some name => simp [counted?, hname] at h
  | _ => rfl

/-- An entry that counts is of a function, or it ends the reading. -/
theorem entryOf_counted {node : Json} {members : List (LooseText × Json)} (h : counted? node = some members) :
    (∃ d, contents? members = some d ∧ entryOf node = described d.name d.parameters members) ∨
      contents? members = none ∧ ∃ warning, entryOf node = .error warning := by
  cases node with
  | object ms =>
      cases hname : Json.lookup? ms "name" with
      | none => simp [counted?, hname] at h
      | some name =>
          obtain rfl : ms = members := by simpa [counted?, hname] using h
          have hmember : memberOrNull ms "name" = name := by rw [memberOrNull, hname, Option.getD_some]
          rw [entryOf, hname, contents?, hmember]
          dsimp only
          cases htext : name.text? with
          | none => exact .inr ⟨rfl, _, rfl⟩
          | some text =>
              cases memberOrNull ms "arguments" with
              | null => exact .inl ⟨_, rfl, rfl⟩
              | array nodes => exact .inl ⟨_, rfl, rfl⟩
              | _ => exact .inr ⟨rfl, _, rfl⟩
  | _ => cases h

/-- Whether a function is for callers is a matter of its name. -/
theorem isOffered_eq {members : List (LooseText × Json)} {d : FunctionEntry} (hd : contents? members = some d) :
    isOffered members = !isReserved d.name := by
  simp only [contents?, Option.bind_eq_bind, Option.bind_eq_some_iff, Option.pure_def, Option.some.injEq] at hd
  obtain ⟨name, hname, parameters, -, rfl⟩ := hd
  rw [isOffered, hname, Option.any_some]

/-- **The ends of an entry that counts**: it is kept from callers, it gives its function, or it ends the reading
as it is not in order. -/
theorem entryOf_outcome {node : Json} {members : List (LooseText × Json)} (h : counted? node = some members) :
    (InOrder members ∧ isOffered members = false ∧ entryOf node = .ok none) ∨
      (InOrder members ∧ isOffered members = true ∧ ∃ f, entryOf node = .ok (some f) ∧ Shows members f ∧
        isReserved f.name = false) ∨
      ¬InOrder members ∧ ∃ warning, entryOf node = .error warning := by
  rcases entryOf_counted h with ⟨d, hd, hentry⟩ | ⟨hd, hwarning⟩
  · rw [hentry, described, isOffered_eq hd]
    cases hreserved : isReserved d.name with
    | true => exact .inl ⟨⟨d, hd, by simp [hreserved]⟩, rfl, rfl⟩
    | false =>
        rcases functionOf_outcome hd with ⟨hall, f, hf, hshows⟩ | ⟨⟨node, hmem, hnot⟩, e, he, -⟩
        · refine .inr (.inl ⟨⟨d, hd, fun _ => hall⟩, rfl, f, ?_, ⟨d, hd, hshows⟩, ?_⟩)
          · rw [hf]
            rfl
          · rw [hshows.name, hreserved]
        · refine .inr (.inr ⟨?_, ?_⟩)
          · rintro ⟨d', hd', hall⟩
            obtain rfl : d = d' := Option.some.inj (hd.symm.trans hd')
            exact hnot (hall hreserved node hmem)
          · rw [he]
            exact ⟨_, rfl⟩
  · refine .inr (.inr ⟨?_, hwarning⟩)
    rintro ⟨d, hd', -⟩
    rw [hd] at hd'
    cases hd'

/-- **The ends of a list of entries**: the functions of all of them that are for callers, or a warning. -/
theorem entriesOf_outcome (nodes : List Json) :
    ((∀ members ∈ nodes.filterMap counted?, InOrder members) ∧
        ∃ fs, entriesOf nodes = .ok fs ∧ List.Forall₂ Shows ((nodes.filterMap counted?).filter isOffered) fs ∧
          ∀ f ∈ fs, isReserved f.name = false) ∨
      (∃ members ∈ nodes.filterMap counted?, ¬InOrder members) ∧ ∃ warning, entriesOf nodes = .error warning := by
  induction nodes with
  | nil => exact .inl ⟨by simp, [], rfl, .nil, by simp⟩
  | cons node rest ih =>
      rw [entriesOf]
      cases hcounted : counted? node with
      | none =>
          rw [List.filterMap_cons_none hcounted, entryOf_of_not_counted hcounted]
          rcases ih with ⟨hall, fs, hfs, hshows⟩ | ⟨hsome, warning, hwarning⟩
          · refine .inl ⟨hall, fs, ?_, hshows⟩
            rw [hfs]
            rfl
          · refine .inr ⟨hsome, warning, ?_⟩
            rw [hwarning]
            rfl
      | some members =>
          rw [List.filterMap_cons_some hcounted]
          rcases entryOf_outcome hcounted with
            ⟨horder, hoffered, hentry⟩ | ⟨horder, hoffered, f, hentry, hf, hname⟩ | ⟨hnot, warning, hentry⟩
          · rw [hentry, List.filter_cons_of_neg (by simp [hoffered])]
            rcases ih with ⟨hall, fs, hfs, hshows⟩ | ⟨⟨other, hmem, hnot⟩, warning, hwarning⟩
            · refine .inl ⟨List.forall_mem_cons.2 ⟨horder, hall⟩, fs, ?_, hshows⟩
              rw [hfs]
              rfl
            · refine .inr ⟨⟨other, List.mem_cons_of_mem _ hmem, hnot⟩, warning, ?_⟩
              rw [hwarning]
              rfl
          · rw [hentry, List.filter_cons_of_pos hoffered]
            rcases ih with ⟨hall, fs, hfs, hshows, hnames⟩ | ⟨⟨other, hmem, hnot⟩, warning, hwarning⟩
            · refine .inl ⟨List.forall_mem_cons.2 ⟨horder, hall⟩, f :: fs, ?_, .cons hf hshows,
                List.forall_mem_cons.2 ⟨hname, hnames⟩⟩
              rw [hfs]
              rfl
            · refine .inr ⟨⟨other, List.mem_cons_of_mem _ hmem, hnot⟩, warning, ?_⟩
              rw [hwarning]
              rfl
          · refine .inr ⟨⟨members, List.mem_cons_self, hnot⟩, warning, ?_⟩
            rw [hentry]
            rfl

/-! ### Wrappings -/

/-- A description as the only member of an object. -/
def wrapped (wrapping : String) (description : Json) : Json :=
  .object [(.whole wrapping, description)]

theorem functionList?_wrapped {wrapping : String} (h : wrapping ∈ ["encoded_aci", "contract"]) (description : Json) :
    functionList? (wrapped wrapping description) = functionList? description := by
  simp only [List.mem_cons, List.not_mem_nil, or_false] at h
  rcases h with rfl | rfl
  · have hnone : Json.lookup? [(.whole "encoded_aci", description)] "functions" = none := rfl
    rw [wrapped, functionList?, hnone]
    cases hfound : functionList? description with
    | none => simp [functionListUnder?, hfound]
    | some functions => simp [functionListUnder?, hfound]
  · have hnone : Json.lookup? [(.whole "contract", description)] "functions" = none := rfl
    rw [wrapped, functionList?, hnone]
    simp [functionListUnder?]

/-- **What a description is wrapped in does not count**, however often it is wrapped. -/
theorem ofInterface_wrapped {wrappings : List String} (h : ∀ w ∈ wrappings, w ∈ ["encoded_aci", "contract"])
    (description : Json) : ofInterface (wrappings.foldr wrapped description) = ofInterface description := by
  have hlist : functionList? (wrappings.foldr wrapped description) = functionList? description := by
    induction wrappings with
    | nil => rfl
    | cons w rest ih =>
        rw [List.foldr_cons, functionList?_wrapped (h w List.mem_cons_self)]
        exact ih fun v hv => h v (List.mem_cons_of_mem _ hv)
  rw [ofInterface, ofInterface, hlist]

/-! ### All or none -/

/-- Functions that are all for callers stay as they are. -/
theorem functions_ofFunctions {fs : List ContractFunction} (h : ∀ f ∈ fs, isReserved f.name = false) :
    (ofFunctions fs).1.functions = fs := by
  rw [ofFunctions]
  exact List.filter_eq_self.2 fun f hf => by rw [h f hf]; rfl

/-- The entry of a function with a parameter of each kind. -/
def transferEntry : List (LooseText × Json) :=
  [("name", .text "transfer"),
    ("arguments", .array [.object [("name", .text "to"), ("type", .text "address")], .text "int"]),
    ("returns", .object [("list", .array [.text "int"])])]

end Catalog

end SophiaBind
