/-
**Options of raw calls and of bound functions.**

The options of a call can be given in two places: with a raw call, or behind the arguments of a bound function.
The two are read by different rules. Behind arguments a figure counts if it is there, but an amount of zero is
none; in a raw call a figure counts if it is not zero, and else there is a default. So a mapping of an amount and
a life time means the same in both places as long as the life time is not zero: an amount of zero is the default
of amounts anyway, but a life time of zero, which is none at all, becomes the default life time in a raw call.

Main results:

* `Arguments.split_map` — the options behind arguments,
* `FunctionTable.callOptionsOf_map` — the options of a raw call,
* `BoundContract.handed_alike_iff` — **both hand the same options to the client if the life time is not zero**,
  and only then.
-/

import SophiaBind.Proofs.CarriedOptions
import SophiaBind.Proofs.TableRuns

namespace SophiaBind

/-- The entries of a mapping of an amount and a life time, in either order. -/
def IsOptionEntries (amount ttl : Nat) (entries : List (Value × Value)) : Prop :=
  entries = [(.text "amount", .int amount), (.text "ttl", .int ttl)] ∨
    entries = [(.text "ttl", .int ttl), (.text "amount", .int amount)]

section

variable {amount ttl : Nat} {entries : List (Value × Value)} (h : IsOptionEntries amount ttl entries)

include h

theorem IsOptionEntries.lookup_amount : Value.lookup? entries "amount" = some (.int amount) := by
  rcases h with rfl | rfl <;> rfl

theorem IsOptionEntries.lookup_ttl : Value.lookup? entries "ttl" = some (.int ttl) := by
  rcases h with rfl | rfl <;> rfl

theorem IsOptionEntries.lookup_other {name : String} (hamount : "amount" ≠ name) (httl : "ttl" ≠ name) :
    Value.lookup? entries name = none := by
  rcases h with rfl | rfl <;> simp [Value.lookup?, hamount, httl]

/-! ### Behind arguments -/

theorem Arguments.isCarrier_map : IsCarrier (.map entries) := by
  intro name hname
  simp only [List.mem_cons, List.not_mem_nil, or_false] at hname
  rcases hname with rfl | rfl | rfl | rfl <;> rcases h with rfl | rfl <;> rfl

/-- The mapping carries a life time, and an amount that is not zero. -/
theorem Arguments.carried_map :
    carried (.map entries) =
      { amount := if amount = 0 then none else some (.value amount), ttl := some (ttl : Int) } := by
  have hamount : figure? (.map entries) "amount" = some (amount : Int) := by
    rw [figure?, field?, h.lookup_amount]
  have httl : figure? (.map entries) "ttl" = some (ttl : Int) := by
    rw [figure?, field?, h.lookup_ttl]
  have hvalue : figure? (.map entries) "value" = none := by
    rw [figure?, field?, h.lookup_other (by decide) (by decide)]
  have hgas : figure? (.map entries) "gas" = none := by
    rw [figure?, field?, h.lookup_other (by decide) (by decide)]
  have hfigures : carried (.map entries) = carriedByFigures (.map entries) := rfl
  rw [hfigures, carriedByFigures, hamount, httl, hvalue, hgas]
  by_cases hzero : amount = 0
  · subst hzero
    rfl
  · have hkept : (some (amount : Int)).filter (· ≠ 0) = some (amount : Int) :=
      Option.filter_some_pos (decide_eq_true (Int.natCast_ne_zero.2 hzero))
    rw [hkept, if_neg hzero]
    rfl

/-- **The options behind arguments** are those of the mapping: an amount of zero is the default. -/
theorem Arguments.split_map (args : List Value) :
    split args.length (args ++ [.map entries]) {} = .ok (args, { amount := .value amount, ttl }) := by
  have hextras : (args ++ [Value.map entries]).drop args.length = [.map entries] := List.drop_left
  have hcarriers : ∀ v ∈ ((args ++ [Value.map entries]).drop args.length).reverse.take 2, IsCarrier v := by
    intro v hv
    rw [hextras] at hv
    rw [List.mem_singleton.1 hv]
    exact isCarrier_map h
  rw [split_eq hcarriers, hextras, List.take_left]
  change Except.ok (args, (carried (.map entries)).over {}) = _
  rw [carried_map h]
  by_cases hzero : amount = 0
  · subst hzero
    rfl
  · rw [if_neg hzero]
    rfl

/-! ### With a raw call -/

omit h in
/-- A figure of zero gives way to the default. -/
theorem FunctionTable.optionField_map {name : String} {n : Nat} (hfield : Value.lookup? entries name = some (.int n))
    (default : Int) : optionField (.map entries) name default = .ok (if n = 0 then default else n) := by
  rw [optionField, Value.get, hfield]
  by_cases hzero : n = 0
  · subst hzero
    rfl
  · have htruthy : (Value.int n).truthy = true := by simp [Value.truthy, hzero]
    dsimp only [bind, Except.bind, Option.getD_some]
    rw [if_pos htruthy, if_neg hzero]
    rfl

/-- **The options of a raw call** have no life time of zero. -/
theorem FunctionTable.callOptionsOf_map :
    callOptionsOf (.map entries) =
      .ok ({ amount := .value amount, ttl := if ttl = 0 then 100 else ttl }, []) := by
  have htruthy : (Value.map entries).truthy = true := by
    rcases h with rfl | rfl <;> rfl
  have hargs : Value.get (.map entries) "args" = .ok none := by
    rw [Value.get, h.lookup_other (by decide) (by decide)]
  have hmax : max (if amount = 0 then 0 else (amount : Int)) 0 = amount := by
    split <;> omega
  rw [callOptionsOf, if_pos htruthy, optionField_map h.lookup_amount, optionField_map h.lookup_ttl, hargs]
  dsimp only [bind, Except.bind]
  rw [hmax]
  rfl

end

/-! ### Both -/

namespace BoundContract

/-- What a value stands behind is all that is passed, and the table's client signs. -/
theorem signer_passed_value (b : BoundContract) (args : List Argument) (v : Value) :
    b.signer (args ++ [.value v]) = b.client ∧
      b.passed (args ++ [.value v]) = args.map Argument.toValue ++ [v] := by
  have hsplit : splitClient (args ++ [.value v]) = (none, args ++ [Argument.value v]) := by
    rw [splitClient, List.getLast?_concat]
  have hvalues : (args ++ [Argument.value v]).map Argument.toValue = args.map Argument.toValue ++ [v] := by
    rw [List.map_append]
    rfl
  cases b with
  | alternate t => exact ⟨rfl, hvalues⟩
  | table t | deployed t =>
      unfold signer passed
      dsimp only
      rw [hsplit]
      exact ⟨rfl, hvalues⟩

/-- **Raw calls and bound functions hand the same options to the client if the life time is not zero**, and only
then: for every function of every table, with as many arguments as it has parameters, which can be encoded, and
for each mapping of an amount and a life time. -/
theorem handed_alike_iff (b : BoundContract) {name : String} {f : ContractFunction} {args : List Argument}
    {literals : List String} (hf : b.root.catalog.get? name = some f) (hargs : args.length = f.parameters.length)
    (hliterals : Arguments.encode b.root.quoteAll f.parameters (args.map Argument.toValue) = .ok literals)
    {amount ttl : Nat} {entries : List (Value × Value)} (hentries : IsOptionEntries amount ttl entries) :
    let bound : CallOptions := { amount := .value amount, ttl }
    let raw : CallOptions := { amount := .value amount, ttl := if ttl = 0 then 100 else ttl }
    b.invoke name (args ++ [.value (.map entries)]) =
        (b.client.call (b.root.callRequest name literals bound)).bind (fun result => result.decoded f.returns) ∧
      b.call name (.map entries) = b.client.call (b.root.callRequest name [] raw) ∧
      (raw = bound ↔ ttl ≠ 0) := by
  intro bound raw
  obtain ⟨hsigner, hpassed⟩ := b.signer_passed_value args (.map entries)
  have hprepare : b.root.prepare f (args.map Argument.toValue ++ [.map entries]) none = .ok (literals, bound) := by
    have hlength : f.parameters.length = (args.map Argument.toValue).length := by rw [List.length_map, hargs]
    unfold FunctionTable.prepare
    dsimp only
    rw [hlength, Arguments.split_map hentries]
    dsimp only [bind, Except.bind]
    rw [hliterals]
    rfl
  refine ⟨?_, ?_, ?_⟩
  · rw [invoke_eq, hsigner, hpassed, FunctionTable.invokeBy_eq, hf]
    dsimp only
    rw [hprepare]
  · rw [call_eq, FunctionTable.callBy_eq, FunctionTable.callOptionsOf_map hentries]
  · constructor
    · rintro halike rfl
      cases congrArg CallOptions.ttl halike
    · intro hne
      simp only [raw, bound, if_neg hne]

/-- A client that notes how long a call may live. -/
def notingLifeTime : RemoteClient :=
  { Operation.answering ⟨"ak_root", ""⟩ with
    call := fun r => .tell (.noted (.int r.options.ttl)) (.done { details := .null, decode := fun _ => .done .null }) }

/-- A table with a function of one parameter. -/
def addTable : FunctionTable :=
  { Operation.tickTable with
    catalog := (Catalog.ofFunctions [⟨"add", [⟨"x", some "int"⟩], "int", true⟩]).1
    client := notingLifeTime }

/-- A life time of one block, and the least amount that is paid. -/
theorem handed_alike_iff_ones :
    let ones : Value := .map [(.text "ttl", .int 1), (.text "amount", .int 1)]
    addTable.catalog.get? "add" = some ⟨"add", [⟨"x", some "int"⟩], "int", true⟩ ∧
    Arguments.encode addTable.quoteAll [⟨"x", some "int"⟩] [.int 7] = .ok ["7"] ∧
    (BoundContract.table addTable).invoke "add" [.value (.int 7), .value ones] =
      (addTable.client.call (addTable.callRequest "add" ["7"] { amount := .value 1, ttl := 1 })).bind
        (fun result => result.decoded "int") ∧
    (BoundContract.table addTable).call "add" ones =
      addTable.client.call (addTable.callRequest "add" [] { amount := .value 1, ttl := 1 }) := by
  intro ones
  have hf : addTable.catalog.get? "add" = some ⟨"add", [⟨"x", some "int"⟩], "int", true⟩ := by rfl
  have hliterals : Arguments.encode addTable.quoteAll [⟨"x", some "int"⟩] [.int 7] = .ok ["7"] := by rfl
  have hentries : IsOptionEntries 1 1 [(.text "ttl", .int 1), (.text "amount", .int 1)] := .inr rfl
  have hliterals' : Arguments.encode addTable.quoteAll [⟨"x", some "int"⟩]
      ([Argument.value (.int 7)].map Argument.toValue) = .ok ["7"] := hliterals
  obtain ⟨hbound, hraw, -⟩ := handed_alike_iff (.table addTable) hf rfl hliterals' hentries
  exact ⟨hf, hliterals, hbound, hraw⟩

/-- **A life time of zero is none at all to a bound function, and the default to a raw call.** -/
theorem handed_apart :
    let zeros : Value := .map [(.text "amount", .int 0), (.text "ttl", .int 0)]
    ((App.converse ((BoundContract.table addTable).invoke "add" [.value (.int 7), .value zeros])).runIn {}).2.notes =
        [.int 0] ∧
      ((App.converse ((BoundContract.table addTable).call "add" zeros)).runIn {}).2.notes = [.int 100] :=
  ⟨rfl, rfl⟩

end BoundContract

end SophiaBind
