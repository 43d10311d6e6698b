/-
**The views of a catalog agree.**

A catalog shows its functions in two ways: in the order in which they were found, with duplicates, and under their
names. A name stands where it first came, and what stands under it is the function that came last; so the two are kept
together function by function, and each function that replaces another is warned of. What a table binds is read off
the second view once more, by the names that the functions have themselves.

Main results:

* `Catalog.names_ofFunctions` — **the names come in the order in which they first came**,
* `Catalog.length_ofFunctions` — **each function is the first of its name, or is warned of**,
* `Catalog.bindings_ofFunctions` — what tables bind is what counts,
* `Catalog.ofFunctions_views` — **both views**, and the names of tables.
-/

import SophiaBind.Proofs.ItemAccess
import SophiaBind.Proofs.KeyedLists

namespace SophiaBind

namespace Catalog

variable (functions : List ContractFunction)

theorem contains_iff {c : Catalog} {name : LooseText} : c.contains name = true ↔ c.get? name ≠ none := by
  rw [contains, List.contains_iff_mem, mem_names_iff, ← Option.isSome_iff_exists, Option.isSome_iff_ne_none]

/-- The functions that count are those that are put under their names. -/
theorem lookup_ofFunctions :
    (ofFunctions functions).1.lookup =
      Keyed.putAll [] ((ofFunctions functions).1.functions.map fun f => (f.name, f)) :=
  enterAll_fst [] _

/-- **The names come in the order in which they first came**, each once. -/
theorem names_ofFunctions :
    (ofFunctions functions).1.names = ((ofFunctions functions).1.functions.map (·.name)).eraseDups := by
  rw [names, lookup_ofFunctions, Keyed.map_fst_putAll, List.map_map]
  simp [List.removeAll, Function.comp_def]

/-- Each function that is entered makes a name, or a warning. -/
theorem length_enterAll (lookup : List (LooseText × ContractFunction)) :
    (enterAll lookup functions).2.length + (enterAll lookup functions).1.length =
      lookup.length + functions.length := by
  induction functions generalizing lookup with
  | nil => simp [enterAll]
  | cons f rest ih =>
      have hrest := ih (Keyed.put lookup f.name f)
      have hfound : (lookup.lookup f.name).isSome = true ↔ f.name ∈ lookup.map Prod.fst := by
        rw [Option.isSome_iff_ne_none, Ne, Keyed.lookup_eq_none_iff, not_not]
      rcases Keyed.map_fst_put lookup f.name f with ⟨hmem, hkeys⟩ | ⟨hnew, hkeys⟩
      · have hlength := congrArg List.length hkeys
        rw [List.length_map, List.length_map] at hlength
        simp only [enterAll, if_pos (hfound.2 hmem), List.length_cons]
        omega
      · have hlength := congrArg List.length hkeys
        rw [List.length_append, List.length_map, List.length_map, List.length_singleton] at hlength
        simp only [enterAll, if_neg (mt hfound.1 hnew), List.length_cons]
        omega

/-- **Each function is the first of its name, or is warned of.** -/
theorem length_ofFunctions :
    (ofFunctions functions).2.length + (ofFunctions functions).1.names.length =
      (ofFunctions functions).1.functions.length := by
  have hentered := length_enterAll (functions.filter fun f => !isReserved f.name) []
  rw [List.length_nil, Nat.zero_add] at hentered
  rw [names, List.length_map]
  exact hentered

/-- **What tables bind is what counts**: the functions stand under the names that they have. -/
theorem bindings_ofFunctions : (ofFunctions functions).1.bindings = (ofFunctions functions).1.lookup := by
  have hnames : ∀ e ∈ (ofFunctions functions).1.lookup, (e.2.name, e.2) = e := by
    intro e he
    rw [lookup_ofFunctions] at he
    obtain ⟨f, -, rfl⟩ := List.mem_map.1 ((Keyed.mem_putAll he).resolve_left List.not_mem_nil)
    rfl
  have hnodup : ((ofFunctions functions).1.lookup.map Prod.fst).Nodup := by
    rw [lookup_ofFunctions]
    exact Keyed.nodup_putAll _
  rw [bindings, List.map_congr_left hnames, List.map_id', Keyed.putAll_of_nodup (by simpa using hnodup),
    List.nil_append]

/-- **The views of a catalog agree**: the functions are those that are not kept from callers, in order and with
duplicates; their names come once each, in the order in which they first came; under a name the last function that has
it is found, and a name is in the catalog just when a function is found under it; each function that is not the first
of its name is warned of; and a table over the catalog, and an alternate table, bind these names in this order. -/
theorem ofFunctions_views :
    ∃ c warnings, ofFunctions functions = (c, warnings) ∧
      c.functions = functions.filter (fun f => !isReserved f.name) ∧
      c.names = (c.functions.map (·.name)).eraseDups ∧
      (∀ name, c.get? name = (c.functions.filter (·.name == name)).getLast?) ∧
      (∀ name, c.contains name = true ↔ c.get? name ≠ none) ∧
      warnings.length + c.names.length = c.functions.length ∧
      (∀ t : FunctionTable, t.catalog = c → t.names = c.names) ∧
      ∀ t : IdentityTable, t.parent.catalog = c → t.names = c.names := by
  have hbindings : (ofFunctions functions).1.bindings.map Prod.fst = (ofFunctions functions).1.names := by
    rw [bindings_ofFunctions, names]
  refine ⟨(ofFunctions functions).1, (ofFunctions functions).2, rfl, rfl, names_ofFunctions functions,
    get?_ofFunctions functions, fun _ => contains_iff, length_ofFunctions functions, fun t ht => ?_, fun t ht => ?_⟩
  · rw [FunctionTable.names, ht, hbindings]
  · rw [IdentityTable.names, ht, hbindings]

end Catalog

end SophiaBind
