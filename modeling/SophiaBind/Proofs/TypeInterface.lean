/-
**A type that is described is the type that is written.**

A type comes from its text or from a JSON node, and both must speak of the same types: what is encoded by the one is
decoded by the other. A tree has a node that describes it constructor by constructor. From that node it is read back,
and so it is from its text unless records are in it, which the text shows as tuples. The other way round, a node may
spell a type in many ways: the text of what it describes is read again, and the type that is read has that text.

Main definitions:

* `TypeTree.describe` — the node that describes a type,
* `TypeTree.Constructed` — types that apply none of the constructors that have a meaning of their own,
* `TypeTree.NodeNamed` — a node whose names can be read.

Main results:

* `TypeTree.ofInterface_describe` — **a description gives the type back**,
* `TypeTree.ofTagged_makes`, `TypeTree.ofTagged_record_ok` — what the type of a constructor is made of,
* `TypeTree.NodeNamed.named` — a node whose names can be read describes a type whose names can be read,
* `TypeTree.interface_agrees_with_text` — **both sources of types agree**.
-/

import SophiaBind.TypeTree.Interface
import SophiaBind.Proofs.Results
import SophiaBind.Proofs.TypeRoundTrip

namespace SophiaBind.TypeTree

/-! ### Descriptions -/

/-- A node of one constructor. -/
def tagged (tag : String) (node : Json) : Json :=
  .object [(.whole tag, node)]

/-- The node of a field with its type. -/
def fieldNode (name : String) (type : Json) : Json :=
  .object [("name", .text name), ("type", type)]

mutual

/-- The node that describes a type. -/
def describe : TypeTree → Json
  | .primitive name => .text name
  | .list items => tagged "list" (.array (describeAll items))
  | .tuple items => tagged "tuple" (.array (describeAll items))
  | .record fields => tagged "record" (.array (describeFields fields))
  | .map key value => tagged "map" (.array [describe key, describe value])
  | .applied name args => tagged name (.array (describeAll args))

/-- The nodes of types. -/
def describeAll : List TypeTree → List Json
  | [] => []
  | t :: rest => describe t :: describeAll rest

/-- The nodes of fields. -/
def describeFields : List (String × TypeTree) → List Json
  | [] => []
  | (name, t) :: rest => fieldNode name (describe t) :: describeFields rest

end

/-- The constructors that have a meaning of their own. -/
def knownTags : List String := ["tuple", "list", "record", "map"]

mutual

/-- A type that applies none of the constructors that have a meaning of their own. -/
def Constructed : TypeTree → Prop
  | .primitive _ => True
  | .list items => AllConstructed items
  | .tuple items => AllConstructed items
  | .record fields => FieldsConstructed fields
  | .map key value => Constructed key ∧ Constructed value
  | .applied name args => name ∉ knownTags ∧ AllConstructed args

/-- Such types. -/
def AllConstructed : List TypeTree → Prop
  | [] => True
  | t :: rest => Constructed t ∧ AllConstructed rest

/-- Fields of such types. -/
def FieldsConstructed : List (String × TypeTree) → Prop
  | [] => True
  | (_, t) :: rest => Constructed t ∧ FieldsConstructed rest

end

/-! ### Constructors -/

/-- A single member is too few for a type and a name. -/
theorem isNamed_single (tag : LooseText) (node : Json) : isNamed [(tag, node)] = false := by
  by_cases h : tag = .whole "type"
  · subst h
    rfl
  · have hnone : Json.lookup? [(tag, node)] "type" = none := by
      simp [Json.lookup?, List.lookup_cons, beq_false_of_ne (Ne.symm h)]
    rw [isNamed, hnone]
    rfl

theorem ofInterface_single (tag : LooseText) (node : Json) :
    ofInterface (.object [(tag, node)]) = ofTagged tag node := by
  rw [ofInterface, isNamed_single]
  rfl

theorem ofInterface_of_isNamed {members : List (LooseText × Json)} (h : isNamed members = true) :
    ofInterface (.object members) = ofMember "type" members := by
  rw [ofInterface.eq_def]
  dsimp only
  rw [if_pos h]

theorem ofTagged_tuple (nodes : List Json) :
    ofTagged (.whole "tuple") (.array nodes) = (ofItems nodes).map .tuple := by
  rw [ofTagged.eq_def]
  rfl

theorem ofTagged_list (nodes : List Json) : ofTagged (.whole "list") (.array nodes) = (ofItems nodes).map .list := by
  rw [ofTagged.eq_def]
  rfl

theorem ofTagged_record (nodes : List Json) :
    ofTagged (.whole "record") (.array nodes) = (ofFields (tagged "record" (.array nodes)) nodes).map .record := by
  rw [ofTagged.eq_def]
  rfl

theorem ofTagged_map (key value : Json) :
    ofTagged (.whole "map") (.array [key, value]) =
      (do return .map (← ofInterface key) (← ofInterface value)) := by
  rw [ofTagged.eq_def]
  rfl

theorem ofTagged_applied {name : String} (h : name ∉ knownTags) (nodes : List Json) :
    ofTagged (.whole name) (.array nodes) = (ofItems nodes).map (.applied name) := by
  have hne : ∀ tag ∈ knownTags, ¬LooseText.whole name = .whole tag := fun tag htag he =>
    h (LooseText.whole.inj he ▸ htag)
  rw [ofTagged.eq_def]
  dsimp only
  rw [if_neg (hne "tuple" (by decide)), if_neg (hne "list" (by decide)), if_neg (hne "record" (by decide)),
    if_neg (hne "map" (by decide))]
  rfl

/-- A field is read with its name and its type. -/
theorem ofField_fieldNode {whole type : Json} {name : String} {t : TypeTree} (h : ofInterface type = .ok t) :
    ofField whole (fieldNode name type) = .ok (name, t) := by
  have hmember : ofMember "type" [("name", .text name), ("type", type)] = .ok t := by
    rw [ofMember, if_neg (by decide), ofMember, if_pos rfl, h]
  rw [fieldNode, ofField, hmember]
  rfl

mutual

/-- **A description gives the type back.** -/
theorem ofInterface_describe : ∀ {t : TypeTree}, Constructed t → ofInterface (describe t) = .ok t
  | .primitive name, _ => by rw [describe, ofInterface]
  | .list items, h => by
      rw [describe, tagged, ofInterface_single, ofTagged_list, ofItems_describeAll h]
      rfl
  | .tuple items, h => by
      rw [describe, tagged, ofInterface_single, ofTagged_tuple, ofItems_describeAll h]
      rfl
  | .record fields, h => by
      rw [describe, tagged, ofInterface_single, ofTagged_record, ofFields_describeFields _ h]
      rfl
  | .map key value, h => by
      rw [describe, tagged, ofInterface_single, ofTagged_map, ofInterface_describe h.1, ofInterface_describe h.2]
      rfl
  | .applied name args, h => by
      rw [describe, tagged, ofInterface_single, ofTagged_applied h.1, ofItems_describeAll h.2]
      rfl

theorem ofItems_describeAll : ∀ {ts : List TypeTree}, AllConstructed ts → ofItems (describeAll ts) = .ok ts
  | [], _ => by rw [describeAll, ofItems]
  | t :: rest, h => by
      rw [describeAll, ofItems, ofInterface_describe h.1, ofItems_describeAll h.2]
      rfl

theorem ofFields_describeFields (whole : Json) : ∀ {fields : List (String × TypeTree)}, FieldsConstructed fields →
    ofFields whole (describeFields fields) = .ok fields
  | [], _ => by rw [describeFields, ofFields]
  | (name, t) :: rest, h => by
      rw [describeFields, ofFields, ofField_fieldNode (ofInterface_describe h.1), ofFields_describeFields whole h.2]
      rfl

end

/-! ### Names of nodes -/

/-- A constructor whose name can be read. -/
def IsTag (tag : LooseText) : Prop :=
  ∃ name, tag = .whole name ∧ IsName name

mutual

/-- A node whose names can be read: its texts and constructors. A number is a name by its digits and must have no
sign. Of a node with a type and a name only the type counts. -/
def NodeNamed : Json → Prop
  | .text s => IsName s
  | .broken _ => False
  | .int i => 0 ≤ i
  | .array nodes => NodesNamed nodes
  | .object members => if isNamed members then TypeMemberNamed members else ConstructorNamed members
  | _ => True

/-- Nodes whose names can be read. -/
def NodesNamed : List Json → Prop
  | [] => True
  | node :: rest => NodeNamed node ∧ NodesNamed rest

/-- Members whose type has names that can be read. -/
def TypeMemberNamed : List (LooseText × Json) → Prop
  | [] => True
  | (name, node) :: rest => if name = .whole "type" then NodeNamed node else TypeMemberNamed rest

/-- A constructor with names that can be read. -/
def ConstructorNamed : List (LooseText × Json) → Prop
  | [(tag, node)] => IsTag tag ∧ if tag = .whole "record" then RecordNamed node else NodeNamed node
  | _ => True

/-- The fields of a record, or its only field. -/
def RecordNamed : Json → Prop
  | .array nodes => FieldNodesNamed nodes
  | .object members => TypeMemberNamed members
  | _ => True

/-- Fields whose types have names that can be read; the fields' own names do not show. -/
def FieldNodesNamed : List Json → Prop
  | [] => True
  | node :: rest => FieldNodeNamed node ∧ FieldNodesNamed rest

/-- A field whose type has names that can be read. -/
def FieldNodeNamed : Json → Prop
  | .object members => TypeMemberNamed members
  | _ => True

end

/-! ### Constructed nodes -/

/-- The types under a constructor: those of an array's items, or the node's own. -/
def itemsUnder : Json → Except Fault (List TypeTree)
  | .array nodes => ofItems nodes
  | node => (ofInterface node).map fun t => [t]

/-- What a constructor makes of the types under it. -/
inductive Makes : LooseText → List TypeTree → TypeTree → Prop
  | tuple (ts : List TypeTree) : Makes (.whole "tuple") ts (.tuple ts)
  | list (ts : List TypeTree) : Makes (.whole "list") ts (.list ts)
  | map (key value : TypeTree) : Makes (.whole "map") [key, value] (.map key value)
  | applied {tag : LooseText} (h : ∀ name ∈ knownTags, tag ≠ .whole name) (ts : List TypeTree) :
      Makes tag ts (.applied tag.shown ts)

/-- What is no array has only its own type under it. -/
theorem itemsUnder_of_not_array {node : Json} {u : TypeTree} (hnode : ∀ nodes, node ≠ .array nodes)
    (h : ofInterface node = .ok u) : itemsUnder node = .ok [u] := by
  cases node with
  | array nodes => exact absurd rfl (hnode nodes)
  | _ => simp only [itemsUnder, h, Except.map]

/-- The two types of a map. -/
theorem ofItems_pair {first second : Json} {t u : TypeTree} (ht : ofInterface first = .ok t)
    (hu : ofInterface second = .ok u) : ofItems [first, second] = .ok [t, u] := by
  rw [ofItems, ofItems, ofItems, ht, hu]
  rfl

/-- What is none of the constructors with a meaning of its own is applied. -/
theorem makes_applied {tag : LooseText} (htuple : tag ≠ .whole "tuple") (hlist : tag ≠ .whole "list")
    (hrecord : tag ≠ .whole "record") (hmap : tag ≠ .whole "map") (ts : List TypeTree) :
    Makes tag ts (.applied tag.shown ts) := by
  refine Makes.applied ?_ ts
  simp only [knownTags, List.forall_mem_cons]
  exact ⟨htuple, hlist, hrecord, hmap, by simp⟩

theorem ofTagged_array_makes {tag : LooseText} {nodes : List Json} {t : TypeTree} (hrecord : tag ≠ .whole "record")
    (h : ofTagged tag (.array nodes) = .ok t) : ∃ ts, ofItems nodes = .ok ts ∧ Makes tag ts t := by
  rw [ofTagged.eq_def] at h
  dsimp only at h
  split at h
  · next htuple =>
      obtain ⟨ts, hts, rfl⟩ := Except.map_eq_ok.1 h
      exact ⟨ts, hts, htuple ▸ .tuple ts⟩
  next htuple =>
  split at h
  · next hlist =>
      obtain ⟨ts, hts, rfl⟩ := Except.map_eq_ok.1 h
      exact ⟨ts, hts, hlist ▸ .list ts⟩
  next hlist =>
  split at h
  · next hmap =>
      split at h
      · obtain ⟨key, hkey, h⟩ := Except.bind_eq_ok.1 h
        obtain ⟨value, hvalue, h⟩ := Except.bind_eq_ok.1 h
        cases h
        exact ⟨[key, value], ofItems_pair hkey hvalue, hmap ▸ .map key value⟩
      · cases h
  · next hmap =>
      obtain ⟨ts, hts, rfl⟩ := Except.map_eq_ok.1 h
      exact ⟨ts, hts, makes_applied htuple hlist hrecord hmap ts⟩

theorem ofTagged_sole_makes {tag : LooseText} {node : Json} {t : TypeTree} (hrecord : tag ≠ .whole "record")
    (hnode : ∀ nodes, node ≠ .array nodes) (h : ofTagged tag node = .ok t) :
    ∃ u, ofInterface node = .ok u ∧ Makes tag [u] t := by
  rw [ofTagged.eq_def] at h
  split at h
  · exact absurd rfl (hnode _)
  split at h
  · next htuple =>
      obtain ⟨u, hu, rfl⟩ := Except.map_eq_ok.1 h
      exact ⟨u, hu, htuple ▸ .tuple [u]⟩
  next htuple =>
  split at h
  · next hlist =>
      obtain ⟨u, hu, rfl⟩ := Except.map_eq_ok.1 h
      exact ⟨u, hu, hlist ▸ .list [u]⟩
  next hlist =>
  split at h
  · cases h
  · next hmap =>
      obtain ⟨u, hu, rfl⟩ := Except.map_eq_ok.1 h
      exact ⟨u, hu, makes_applied htuple hlist hrecord hmap [u]⟩

/-- A constructor's type is made of the types under it, unless it is a record. -/
theorem ofTagged_makes {tag : LooseText} {node : Json} {t : TypeTree} (hrecord : tag ≠ .whole "record")
    (h : ofTagged tag node = .ok t) : ∃ ts, itemsUnder node = .ok ts ∧ Makes tag ts t := by
  by_cases harray : ∃ nodes, node = .array nodes
  · obtain ⟨nodes, rfl⟩ := harray
    exact ofTagged_array_makes hrecord h
  · obtain ⟨u, hu, hmakes⟩ := ofTagged_sole_makes hrecord (not_exists.1 harray) h
    exact ⟨[u], itemsUnder_of_not_array (not_exists.1 harray) hu, hmakes⟩

/-- A field's type is that of its member. -/
theorem ofField_ok {whole node : Json} {name : String} {t : TypeTree} (h : ofField whole node = .ok (name, t)) :
    ∃ members, node = .object members ∧ ofMember "type" members = .ok t := by
  rw [ofField.eq_def] at h
  split at h
  · next members =>
      split at h
      · obtain ⟨u, hu, h⟩ := Except.bind_eq_ok.1 h
        cases h
        exact ⟨members, rfl, hu⟩
      · cases h
  · cases h

/-- A record is made of its fields, or of its only field. -/
theorem ofTagged_record_ok {node : Json} {t : TypeTree} (h : ofTagged (.whole "record") node = .ok t) :
    ∃ fields, t = .record fields ∧
      ((∃ nodes whole, node = .array nodes ∧ ofFields whole nodes = .ok fields) ∨
        ∃ members name u, node = .object members ∧ ofMember "type" members = .ok u ∧ fields = [(name, u)]) := by
  rw [ofTagged.eq_def] at h
  split at h
  · next nodes =>
      rw [if_neg (by decide), if_neg (by decide), if_pos rfl] at h
      obtain ⟨fields, hfields, rfl⟩ := Except.map_eq_ok.1 h
      exact ⟨fields, rfl, .inl ⟨nodes, _, rfl, hfields⟩⟩
  · rw [if_neg (by decide), if_neg (by decide), if_pos rfl] at h
    obtain ⟨⟨name, u⟩, hfield, rfl⟩ := Except.map_eq_ok.1 h
    obtain ⟨members, rfl, hu⟩ := ofField_ok hfield
    exact ⟨_, rfl, .inr ⟨members, name, u, rfl, hu, rfl⟩⟩

/-- Of types with names that can be read a constructor with such a name makes another. -/
theorem Makes.named {tag : LooseText} {ts : List TypeTree} {t : TypeTree} (htag : IsTag tag) (hts : AllNamed ts)
    (h : Makes tag ts t) : Named t := by
  cases h with
  | tuple => exact hts
  | list => exact hts
  | map key value => exact ⟨hts.1, hts.2.1⟩
  | applied hother =>
      obtain ⟨name, rfl, hname⟩ := htag
      refine ⟨hname, ?_, ?_, hts⟩
      · rintro rfl
        exact hother "list" (by decide) rfl
      · rintro rfl
        exact hother "map" (by decide) rfl

/-! ### The types of such nodes -/

/-- If a node's own type and those of its items have names that can be read, then what is under it has. -/
theorem named_itemsUnder {node : Json} {ts : List TypeTree} (hsole : ∀ t, ofInterface node = .ok t → Named t)
    (hitems : ∀ nodes, node = .array nodes → ∀ ts, ofItems nodes = .ok ts → AllNamed ts)
    (h : itemsUnder node = .ok ts) : AllNamed ts := by
  cases node with
  | array nodes => exact hitems nodes rfl ts h
  | _ =>
      obtain ⟨t, ht, rfl⟩ := Except.map_eq_ok.1 h
      exact ⟨hsole t ht, trivial⟩

/-- The digits of a number make a name. -/
theorem isName_toText {i : Int} (h : 0 ≤ i) : IsName (String.ofList (Integer.toText i)) := by
  obtain ⟨n, rfl⟩ := Int.eq_ofNat_of_zero_le h
  rw [IsName, String.toList_ofList]
  refine ⟨Nat.toDigits_ne_nil, fun c hc => ?_⟩
  have hdigit : 48 ≤ c.toNat ∧ c.toNat ≤ 57 := by
    have := Nat.isDigit_of_mem_toDigits (by decide) (by decide) hc
    simpa [Char.isDigit, Char.le_def, UInt32.le_iff_toNat_le] using this
  have hascii : Text.isAsciiAlphanumeric c = true := by
    simp [Text.isAsciiAlphanumeric, hdigit.1, hdigit.2]
  rw [isNameChar, Text.isAlphanumeric, if_pos (by omega), hascii]
  rfl

-- by induction on the node, along the readers; what is under a constructor is smaller than the node
mutual

/-- **A node whose names can be read describes a type whose names can be read.** -/
theorem NodeNamed.named : ∀ {node : Json} {t : TypeTree}, NodeNamed node → ofInterface node = .ok t → Named t
  | .null, t, _, he => by
      rw [ofInterface.eq_def] at he
      cases he
  | .bool _, t, _, he => by
      rw [ofInterface.eq_def] at he
      cases he
  | .float _, t, _, he => by
      rw [ofInterface.eq_def] at he
      cases he
  | .text s, t, h, he => by
      rw [ofInterface] at he
      cases he
      exact h
  | .int i, t, h, he => by
      rw [ofInterface] at he
      cases he
      exact isName_toText h
  | .array [node], t, h, he => by
      rw [ofInterface] at he
      exact NodeNamed.named h.1 he
  | .array [], t, h, he => by
      rw [ofInterface.eq_def] at he
      obtain ⟨ts, hts, rfl⟩ := Except.map_eq_ok.1 he
      exact NodesNamed.named h hts
  | .array (node :: other :: rest), t, h, he => by
      rw [ofInterface.eq_def] at he
      obtain ⟨ts, hts, rfl⟩ := Except.map_eq_ok.1 he
      exact @NodesNamed.named (node :: other :: rest) ts h hts
  | .object members, t, h, he => by
      rw [NodeNamed] at h
      cases hnamed : isNamed members with
      | true =>
          rw [hnamed, if_pos rfl] at h
          rw [ofInterface_of_isNamed hnamed] at he
          exact TypeMemberNamed.named h he
      | false =>
          rw [hnamed, if_neg (by decide)] at h
          exact ConstructorNamed.named h hnamed he

theorem NodesNamed.named : ∀ {nodes : List Json} {ts : List TypeTree}, NodesNamed nodes → ofItems nodes = .ok ts →
    AllNamed ts
  | [], ts, _, he => by
      rw [ofItems] at he
      cases he
      trivial
  | node :: rest, ts, h, he => by
      rw [ofItems] at he
      obtain ⟨t, ht, he⟩ := Except.bind_eq_ok.1 he
      obtain ⟨us, hus, he⟩ := Except.bind_eq_ok.1 he
      cases he
      exact ⟨NodeNamed.named h.1 ht, NodesNamed.named h.2 hus⟩

theorem TypeMemberNamed.named : ∀ {members : List (LooseText × Json)} {t : TypeTree}, TypeMemberNamed members →
    ofMember "type" members = .ok t → Named t
  | [], t, _, he => by
      rw [ofMember] at he
      cases he
  | (name, node) :: rest, t, h, he => by
      rw [ofMember] at he
      rw [TypeMemberNamed] at h
      split at he
      · next hname => exact NodeNamed.named (by rwa [if_pos hname] at h) he
      · next hname => exact TypeMemberNamed.named (by rwa [if_neg hname] at h) he

theorem ConstructorNamed.named : ∀ {members : List (LooseText × Json)} {t : TypeTree}, ConstructorNamed members →
    isNamed members = false → ofInterface (.object members) = .ok t → Named t
  | [(tag, node)], t, h, _, he => by
      rw [ofInterface_single] at he
      by_cases hrecord : tag = .whole "record"
      · have hnode : RecordNamed node := by
          have := h.2
          rwa [if_pos hrecord] at this
        subst hrecord
        obtain ⟨fields, rfl, ⟨nodes, whole, rfl, hfields⟩ | ⟨members, name, u, rfl, hu, rfl⟩⟩ := ofTagged_record_ok he
        · exact FieldNodesNamed.named hnode hfields
        · exact ⟨TypeMemberNamed.named hnode hu, trivial⟩
      · have hnode : NodeNamed node := by
          have := h.2
          rwa [if_neg hrecord] at this
        obtain ⟨ts, hts, hmakes⟩ := ofTagged_makes hrecord he
        refine hmakes.named h.1 (named_itemsUnder (fun u hu => NodeNamed.named hnode hu) ?_ hts)
        intro nodes hnodes us hus
        subst hnodes
        exact NodesNamed.named hnode hus
  | [], t, _, hnamed, he => by
      rw [ofInterface.eq_def] at he
      dsimp only at he
      rw [hnamed, if_neg (by decide)] at he
      cases he
  | _ :: _ :: _, t, _, hnamed, he => by
      rw [ofInterface.eq_def] at he
      dsimp only at he
      rw [hnamed, if_neg (by decide)] at he
      cases he

theorem FieldNodesNamed.named : ∀ {whole : Json} {nodes : List Json} {fields : List (String × TypeTree)},
    FieldNodesNamed nodes → ofFields whole nodes = .ok fields → FieldsNamed fields
  | whole, [], fields, _, he => by
      rw [ofFields] at he
      cases he
      trivial
  | whole, node :: rest, fields, h, he => by
      rw [ofFields] at he
      obtain ⟨⟨name, t⟩, hfield, he⟩ := Except.bind_eq_ok.1 he
      obtain ⟨more, hmore, he⟩ := Except.bind_eq_ok.1 he
      cases he
      obtain ⟨members, rfl, hmember⟩ := ofField_ok hfield
      exact ⟨TypeMemberNamed.named h.1 hmember, FieldNodesNamed.named h.2 hmore⟩

end

/-! ### Agreement -/

/-- **Both sources of types agree.** A type without records, which applies no constructor that has a meaning of its
own, is read from its description and from its text alike. The text of what a node describes, records and bare arrays
included, is read again, and what is read has that text. -/
theorem interface_agrees_with_text :
    (∀ t, Plain t → Named t → Constructed t → ofInterface (describe t) = .ok t ∧ parse (render t) = .ok t) ∧
    (∀ node t, NodeNamed node → ofInterface node = .ok t →
      ∃ text s, renderInterface node = .ok text ∧ parse text = .ok s ∧ render s = text) := by
  constructor
  · intro t hplain hnamed hconstructed
    exact ⟨ofInterface_describe hconstructed, parse_render_of_plain hplain hnamed⟩
  · intro node t hnode ht
    have hnorm : parse (render (norm t)) = .ok (norm t) :=
      parse_render_of_plain (plain_norm t) (NodeNamed.named hnode ht).norm
    refine ⟨render t, norm t, ?_, ?_, render_norm t⟩
    · rw [renderInterface, ht]
      rfl
    · rwa [render_norm] at hnorm

/-- A map to optional lists. -/
def optionalLists : TypeTree :=
  .map (.primitive "address") (.applied "option" [.list [.primitive "int"]])

/-- A record of a bare list, a record and a bare array of a node with a type and a name, which is a number. -/
def bareRecord : Json :=
  .object [("record", .array [.object [("name", .text "a"), ("type", .object [("list", .text "int")])],
    .object [("type", .object [("record", .object [("type", .array [])])])],
    .object [("name", .text "-"), ("type", .array [.object [("type", .int 7), ("name", .text "")]])]])]

theorem interface_agrees_with_text_bareRecord :
    (Plain optionalLists ∧ Named optionalLists ∧ Constructed optionalLists ∧
      ofInterface (describe optionalLists) = .ok optionalLists ∧ parse (render optionalLists) = .ok optionalLists) ∧
    NodeNamed bareRecord ∧ ∃ text s, renderInterface bareRecord = .ok text ∧ parse text = .ok s ∧ render s = text := by
  have hint : IsName "int" := isName_of_all (by decide) (by decide)
  have haddress : IsName "address" := isName_of_all (by decide) (by decide)
  have hoption : IsName "option" := isName_of_all (by decide) (by decide)
  have hrecord : IsTag "record" := ⟨"record", rfl, isName_of_all (by decide) (by decide)⟩
  have hlist : IsTag "list" := ⟨"list", rfl, isName_of_all (by decide) (by decide)⟩
  have hplain : Plain optionalLists := ⟨trivial, List.cons_ne_nil _ _, ⟨trivial, trivial⟩, trivial⟩
  have hnamed : Named optionalLists := ⟨haddress, hoption, by decide, by decide, ⟨hint, trivial⟩, trivial⟩
  have hconstructed : Constructed optionalLists := ⟨trivial, by decide, ⟨trivial, trivial⟩, trivial⟩
  have hnode : NodeNamed bareRecord :=
    ⟨hrecord, ⟨⟨hlist, hint⟩, ⟨hrecord, trivial⟩, ⟨Int.le.intro 7 rfl, trivial⟩, trivial⟩⟩
  have htype : ofInterface bareRecord =
      .ok (.record [("a", .list [.primitive "int"]), ("", .record [("", .tuple [])]), ("-", .primitive "7")]) := by
    simp +decide [bareRecord, ofInterface, ofTagged, ofItems, ofFields, ofField, ofMember, Json.lookup?,
      List.lookup_cons, Except.map, bind, Except.bind, pure, Except.pure]
  exact ⟨⟨hplain, hnamed, hconstructed, interface_agrees_with_text.1 optionalLists hplain hnamed hconstructed⟩,
    hnode, interface_agrees_with_text.2 bareRecord _ hnode htype⟩

end SophiaBind.TypeTree
