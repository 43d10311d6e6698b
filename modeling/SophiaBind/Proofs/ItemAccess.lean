/-
**Functions as items.**

The functions of a contract have any names, so that one of them may be called like a field or an operation of
what a caller holds. As members, those come first, and the function is hidden. As items, the functions come first:
under its name the last function that was declared with it is found, bound to just this table, and a name
that no function has is refused. Only the names `from` and `call` stand for operations there, whatever functions
the contract has; a function of such a name is left to `invoke`.

Main results:

* `Catalog.mem_names_iff` — the names of a catalog are those for which a function counts,
* `Catalog.name_of_get?` — the function that counts for a name has it,
* `BoundContract.member_ne_function` — a name of its own stands for no function as a member,
* `BoundContract.item_of_catalog` — **an item is the function of its name, and is called as by `invoke`.**
-/

import SophiaBind.Proofs.SourceScan
import SophiaBind.Proofs.TableRuns

namespace SophiaBind

/-! ### The functions of a catalog -/

namespace Catalog

/-- The names of a catalog are those for which a function counts. -/
theorem mem_names_iff {c : Catalog} {name : LooseText} : name ∈ c.names ↔ ∃ f, c.get? name = some f := by
  rw [← Option.isSome_iff_exists, get?, List.lookup_isSome_iff, names, List.mem_map]
  simp only [beq_iff_eq, eq_comm (a := name)]

/-- The function that counts for a name has it. -/
theorem name_of_get? {functions : List ContractFunction} {name : LooseText} {f : ContractFunction}
    (h : (ofFunctions functions).1.get? name = some f) : f.name = name := by
  rw [get?_ofFunctions] at h
  simpa using (List.mem_filter.1 (List.mem_of_getLast? h)).2

end Catalog

/-! ### Members and items -/

namespace BoundContract

variable (b : BoundContract)

/-- A name of its own stands for no function as a member. -/
theorem member_ne_function {name : String} (h : name ∈ b.fields ++ b.operations) (f : ContractFunction) :
    b.member name ≠ .ok (.function f) := by
  unfold member
  by_cases hfield : name ∈ b.fields
  · rw [if_pos (List.contains_iff_mem.2 hfield)]
    simp
  · have hoperation : name ∈ b.operations := (List.mem_append.1 h).resolve_left hfield
    rw [if_neg (mt List.contains_iff_mem.1 hfield), if_pos (List.contains_iff_mem.2 hoperation)]
    simp

/-- **An item is the function of its name, and is called as by `invoke`**: of every table, every alternate table and
every deployed contract, whatever functions they have. The last function that was declared with a name counts, and a
name without one is refused; but `from` and `call` are operations. -/
theorem item_of_catalog {functions : List ContractFunction}
    (hcatalog : b.root.catalog = (Catalog.ofFunctions functions).1) :
    (∀ name ∈ b.root.catalog.names, name ≠ "from" → name ≠ "call" →
      ∃ f, (b.root.catalog.functions.filter (·.name == name)).getLast? = some f ∧ b.item name = .ok (.function f) ∧
        ∀ args, b.use (b.item name) args = b.invoke name args) ∧
    (∀ name, name ∉ b.root.catalog.names → name ≠ "from" → name ≠ "call" →
      b.item name = .error (.unknownFunction name.shown b.keys)) ∧
    b.item "from" = .ok (.operation "from_identity") ∧ b.item "call" = .ok (.operation "call") := by
  refine ⟨fun name hname hfrom hcall => ?_, fun name hname hfrom hcall => ?_, rfl, rfl⟩
  · obtain ⟨f, hf⟩ := Catalog.mem_names_iff.1 hname
    have hitem : b.item name = .ok (.function f) := by rw [item, if_neg hfrom, if_neg hcall, hf]
    rw [hcatalog] at hf ⊢
    refine ⟨f, (Catalog.get?_ofFunctions functions name).symm.trans hf, hitem, fun args => ?_⟩
    rw [hitem, use, Catalog.name_of_get? hf]
  · have hnone : b.root.catalog.get? name = none :=
      Option.eq_none_iff_forall_ne_some.2 fun f hf => hname (Catalog.mem_names_iff.2 ⟨f, hf⟩)
    rw [item, if_neg hfrom, if_neg hcall, hnone]

/-- A deployed contract with functions that are called like one of its fields and like one of its operations, the first
of them declared twice. -/
def ownedContract : BoundContract :=
  .deployed
    { handle := { address := .text "ct_tick", transaction := .text "th_1", owner := "ak_root", result := .null }
      artifact := ⟨.text "cb_1", "contract Owned", []⟩
      table :=
        { Operation.tickTable with
          catalog := (Catalog.ofFunctions
            [⟨"owner", [], "int", false⟩, ⟨"call", [], "int", false⟩, ⟨"owner", [], "address", false⟩]).1 } }

theorem item_of_catalog_owner :
    LooseText.whole "owner" ∈ ownedContract.root.catalog.names ∧
      ownedContract.member "owner" = .ok (.field "owner") ∧
      ownedContract.item "owner" = .ok (.function ⟨"owner", [], "address", false⟩) ∧
      (∀ args, ownedContract.use (ownedContract.item "owner") args = ownedContract.invoke "owner" args) ∧
      ownedContract.item "missing" = .error (.unknownFunction "missing" ["owner", "call"]) := by
  obtain ⟨hfound, hmissing, -, -⟩ := item_of_catalog ownedContract rfl
  have hname : LooseText.whole "owner" ∈ ownedContract.root.catalog.names := by decide
  obtain ⟨f, hlast, hitem, huse⟩ := hfound "owner" hname (by decide) (by decide)
  have hf : f = ⟨"owner", [], "address", false⟩ := (Option.some.inj hlast).symm
  refine ⟨hname, rfl, hf ▸ hitem, huse, hmissing "missing" (by decide) (by decide) (by decide)⟩

/-- **A function called `call` is not found as an item**: what is found takes the name of a function, and does not do
what the function does. -/
theorem item_call_not_function :
    LooseText.whole "call" ∈ ownedContract.root.catalog.names ∧
      ownedContract.item "call" = .ok (.operation "call") ∧
      ((App.converse (ownedContract.invoke "call" [])).runIn {}).1.isOk = true ∧
      ((App.converse (ownedContract.use (ownedContract.item "call") [])).runIn {}).1.isOk = false :=
  ⟨by decide, rfl, rfl, rfl⟩

end BoundContract

end SophiaBind
