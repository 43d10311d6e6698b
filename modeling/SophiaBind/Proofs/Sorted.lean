/-
**Sorting by a comparison that may fail keeps what it is given.**

Whatever is compared and whatever the answers are, sorting gives the items in some order or fails as one of its
comparisons does. And it compares enough: if all goes well, then any two items are linked by items that were compared.
So where only items of one kind can be compared, what has been sorted is of one kind.

Main definitions:

* `Sorting.Ends` — how a computation that compares ends,
* `Sorting.Links` — a relation that comparisons establish, directly and from one item to the next,
* `Sorting.KeepsUp`, `Sorting.KeepsDown` — turns of a merge that keep all items,
* `Sorting.IsRun`, `Sorting.Holds` — runs of linked items, and runs that hold all items.

Main results:

* `Sorting.ends_merge` — two runs are merged to one,
* `Sorting.ends_sort` — **what has been sorted is what was given, and any two items are linked**.
-/

import Mathlib.Data.List.Pairwise
import Mathlib.Data.List.Perm.Basic
import SophiaBind.Sorting

namespace SophiaBind.Sorting

variable {α β γ ε : Type} {below : α → α → Except ε Bool}

/-! ### Endings -/

/-- What a computation gives has a property, and it fails only as a comparison does. -/
def Ends (below : α → α → Except ε Bool) (P : β → Prop) : Except ε β → Prop
  | .ok b => P b
  | .error e => ∃ x y, below x y = .error e

theorem Ends.bind {P : β → Prop} {Q : γ → Prop} {x : Except ε β} {f : β → Except ε γ} (hx : Ends below P x)
    (hf : ∀ b, P b → Ends below Q (f b)) : Ends below Q (x >>= f) := by
  cases x with
  | ok b => exact hf b hx
  | error e => exact hx

theorem Ends.imp {P Q : β → Prop} {x : Except ε β} (hx : Ends below P x) (h : ∀ b, P b → Q b) :
    Ends below Q x := by
  cases x with
  | ok b => exact h b hx
  | error e => exact hx

/-- A relation that comparisons establish, directly and from one item to the next. -/
structure Links (below : α → α → Except ε Bool) (E : α → α → Prop) : Prop where
  compared : ∀ {x y b}, below x y = .ok b → E x y
  symm : ∀ {x y}, E x y → E y x
  trans : ∀ {x y z}, E x y → E y z → E x z

theorem links_true : Links below fun _ _ => True :=
  ⟨fun _ => trivial, fun _ => trivial, fun _ _ => trivial⟩

section Tests

variable {E : α → α → Prop} (hE : Links below E)

include hE

theorem ends_below (x y : α) : Ends below (fun _ => E x y) (below x y) := by
  cases h : below x y with
  | ok b => exact hE.compared h
  | error e => exact ⟨x, y, h⟩

theorem ends_upTo (key x : α) : Ends below (fun _ => E key x) (upTo below key x) :=
  (ends_below hE key x).bind fun _ h => h

end Tests

/-! ### Searching -/

section Search

variable {test : α → Except ε Bool} {T : α → Prop} (htest : ∀ x, Ends below (fun _ => T x) (test x))

include htest

/-- A boundary lies between the places, and one item at least is tried. -/
theorem ends_halve (items : List α) (low high : Nat) :
    Ends below (fun n => n ≤ max low high ∧ (low < high → high ≤ items.length → ∃ x ∈ items, T x))
      (halve test items low high) := by
  fun_induction halve test items low high with
  | case1 low high hlt hnone =>
      have hshort := List.getElem?_eq_none_iff.1 hnone
      exact ⟨Nat.le_max_left low high, fun _ hhigh => by omega⟩
  | case2 low high hlt x hx ihUp ihDown =>
      refine (htest x).bind fun b ht => ?_
      have htried : ∃ x ∈ items, T x := ⟨x, List.mem_of_getElem? hx, ht⟩
      cases b with
      | true => exact ihUp.imp fun n hn => ⟨by omega, fun _ _ => htried⟩
      | false => exact ihDown.imp fun n hn => ⟨by omega, fun _ _ => htried⟩
  | case3 low high hge => exact ⟨Nat.le_max_left low high, fun hlt => absurd hlt hge⟩

theorem ends_strideUp (items : List α) (place last next most : Nat) :
    Ends below (fun _ => True) (strideUp test items place last next most) := by
  fun_induction strideUp test items place last next most with
  | case1 => trivial
  | case2 last next hlt x hx ih =>
      refine (htest x).bind fun b _ => ?_
      cases b with
      | true => exact ih
      | false => trivial
  | case3 => trivial

theorem ends_strideDown (items : List α) (place last next most : Nat) :
    Ends below (fun _ => True) (strideDown test items place last next most) := by
  fun_induction strideDown test items place last next most with
  | case1 => trivial
  | case2 last next hlt x hx ih =>
      refine (htest x).bind fun b _ => ?_
      cases b with
      | true => trivial
      | false => exact ih
  | case3 => trivial

/-- The item at the place from which a boundary is searched is tried. -/
theorem ends_gallop (items : List α) (place : Nat) :
    Ends below (fun _ => ∀ x, items[place]? = some x → T x) (gallop test items place) := by
  rw [gallop]
  cases hx : items[place]? with
  | none => exact nofun
  | some x =>
      refine (htest x).bind fun b ht => ?_
      have htried : ∀ y, some x = some y → T y := fun y hy => Option.some.inj hy ▸ ht
      cases b with
      | true =>
          refine (ends_strideUp htest items place 0 1 _).bind fun strides _ => ?_
          exact (ends_halve htest items _ _).imp fun _ _ => htried
      | false =>
          refine (ends_strideDown htest items place 0 1 _).bind fun strides _ => ?_
          exact (ends_halve htest items _ _).imp fun _ _ => htried

end Search

/-! ### Items that change their places -/

section Permutations

variable (done left right : List α)

theorem closeUp_perm : (closeUp done left right).Perm (done ++ left ++ right) := by
  classical
  refine List.perm_iff_count.2 fun a => ?_
  simp only [closeUp, List.count_append, List.count_reverse]
  omega

theorem closeDown_perm : (closeDown left right done).Perm (done ++ left ++ right) := by
  classical
  refine List.perm_iff_count.2 fun a => ?_
  simp only [closeDown, List.count_append, List.count_reverse]
  omega

theorem perm_left (x : α) : (x :: done ++ left ++ right).Perm (done ++ x :: left ++ right) :=
  List.perm_middle.symm.append_right right

theorem perm_right (y : α) : (y :: done ++ left ++ right).Perm (done ++ left ++ y :: right) :=
  List.perm_middle.symm

theorem count_take_add_drop [BEq α] (xs : List α) (n : Nat) (a : α) :
    (xs.take n).count a + (xs.drop n).count a = xs.count a := by
  rw [← List.count_append, List.take_append_drop]

theorem perm_takeLeft (n : Nat) :
    ((left.take n).reverse ++ done ++ left.drop n ++ right).Perm (done ++ left ++ right) := by
  classical
  refine List.perm_iff_count.2 fun a => ?_
  have hleft := count_take_add_drop left n a
  simp only [List.count_append, List.count_reverse]
  omega

theorem perm_takeRight (n : Nat) :
    ((right.take n).reverse ++ done ++ left ++ right.drop n).Perm (done ++ left ++ right) := by
  classical
  refine List.perm_iff_count.2 fun a => ?_
  have hright := count_take_add_drop right n a
  simp only [List.count_append, List.count_reverse]
  omega

end Permutations

/-- A merge has kept all items. -/
def Keeps (items : List α) (m : Merged α) : Prop :=
  m.1.Perm items

theorem Ends.keeps {items more : List α} {x : Except ε (Merged α)} (h : Ends below (Keeps items) x)
    (hperm : items.Perm more) : Ends below (Keeps more) x :=
  h.imp fun _ hm => List.Perm.trans hm hperm

/-! ### Merging -/

/-- With this much fuel all items are kept from the front. -/
def KeepsUp (below : α → α → Except ε Bool) (fuel : Nat) : Prop :=
  (∀ wins lefts rights (done left right : List α), Ends below (Keeps (done ++ left ++ right))
    (stepUp below fuel wins lefts rights done left right)) ∧
  ∀ wins (done left right : List α), Ends below (Keeps (done ++ left ++ right))
    (searchUp below fuel wins done left right)

section Up

variable {fuel : Nat} (h : KeepsUp below fuel)

include h

/-- The next turn keeps them, be it a search or not. -/
theorem KeepsUp.turn {p : Prop} [Decidable p] (wins wins' lefts rights : Nat) (done left right : List α) :
    Ends below (Keeps (done ++ left ++ right))
      (if p then searchUp below fuel wins done left right else stepUp below fuel wins' lefts rights done left right) := by
  split
  · exact h.2 _ _ _ _
  · exact h.1 _ _ _ _ _ _

/-- An item that is taken from the front is kept. -/
theorem KeepsUp.step (wins lefts rights : Nat) (done left right : List α) :
    Ends below (Keeps (done ++ left ++ right)) (stepUp below (fuel + 1) wins lefts rights done left right) := by
  match left, right with
  | [], right => exact closeUp_perm done [] right
  | x :: left, [] => exact closeUp_perm done (x :: left) []
  | x :: left, y :: right =>
      rw [stepUp]
      refine (ends_below links_true y x).bind fun b _ => ?_
      cases b with
      | true =>
          refine Ends.keeps ?_ (perm_right done (x :: left) right y)
          rw [if_pos rfl]
          split
          · exact closeUp_perm _ _ _
          · exact h.turn _ _ _ _ _ _ _
      | false =>
          refine Ends.keeps ?_ (perm_left done left (y :: right) x)
          rw [if_neg (by decide)]
          split
          · exact closeUp_perm _ _ _
          · exact h.turn _ _ _ _ _ _ _

/-- Items that are taken from the front together are kept. -/
theorem KeepsUp.search (wins : Nat) (done left right : List α) :
    Ends below (Keeps (done ++ left ++ right)) (searchUp below (fuel + 1) wins done left right) := by
  match right with
  | [] => exact closeUp_perm done left []
  | y :: right =>
      rw [searchUp]
      refine (ends_gallop (ends_upTo links_true y) left 0).bind fun lefts _ => ?_
      refine Ends.keeps ?_ (perm_takeLeft done left (y :: right) lefts)
      generalize (left.take lefts).reverse ++ done = done
      dsimp only
      split
      · next x z left hleft =>
          rw [hleft]
          split
          · exact (closeUp_perm _ _ _).trans (perm_right _ _ _ _)
          · refine (ends_gallop (fun w => ends_below links_true w x) right 0).bind fun rights _ => ?_
            refine Ends.keeps ?_ ((perm_takeRight (y :: done) _ right rights).trans (perm_right _ _ _ y))
            generalize (right.take rights).reverse ++ y :: done = done
            generalize right.drop rights = right
            split
            · exact closeUp_perm _ _ _
            · refine Ends.keeps ?_ (perm_left done (z :: left) right x)
              split
              · next hleft =>
                  rw [List.isEmpty_iff.1 hleft]
                  exact closeUp_perm _ _ _
              · exact h.turn _ _ _ _ _ _ _
      · exact closeUp_perm _ _ _

end Up

/-- **From the front all items are kept**, turn by turn. -/
theorem keepsUp (fuel : Nat) : KeepsUp below fuel := by
  induction fuel with
  | zero =>
      constructor
      · intro wins lefts rights done left right
        rw [stepUp.eq_def]
        exact closeUp_perm done left right
      · intro wins done left right
        rw [searchUp.eq_def]
        exact closeUp_perm done left right
  | succ fuel ih => exact ⟨ih.step, ih.search⟩

/-- With this much fuel all items are kept from the back. -/
def KeepsDown (below : α → α → Except ε Bool) (fuel : Nat) : Prop :=
  (∀ wins lefts rights (left right done : List α), Ends below (Keeps (done ++ left ++ right))
    (stepDown below fuel wins lefts rights left right done)) ∧
  ∀ wins (left right done : List α), Ends below (Keeps (done ++ left ++ right))
    (searchDown below fuel wins left right done)

section Down

variable {fuel : Nat} (h : KeepsDown below fuel)

include h

/-- The next turn keeps them, be it a search or not. -/
theorem KeepsDown.turn {p : Prop} [Decidable p] (wins wins' lefts rights : Nat) (left right done : List α) :
    Ends below (Keeps (done ++ left ++ right))
      (if p then searchDown below fuel wins left right done
        else stepDown below fuel wins' lefts rights left right done) := by
  split
  · exact h.2 _ _ _ _
  · exact h.1 _ _ _ _ _ _

/-- An item that is taken from the back is kept. -/
theorem KeepsDown.step (wins lefts rights : Nat) (left right done : List α) :
    Ends below (Keeps (done ++ left ++ right)) (stepDown below (fuel + 1) wins lefts rights left right done) := by
  match left, right with
  | [], right => exact closeDown_perm done [] right
  | x :: left, [] => exact closeDown_perm done (x :: left) []
  | x :: left, y :: right =>
      rw [stepDown]
      refine (ends_below links_true y x).bind fun b _ => ?_
      cases b with
      | true =>
          refine Ends.keeps ?_ (perm_left done left (y :: right) x)
          rw [if_pos rfl]
          split
          · exact closeDown_perm _ _ _
          · exact h.turn _ _ _ _ _ _ _
      | false =>
          refine Ends.keeps ?_ (perm_right done (x :: left) right y)
          rw [if_neg (by decide)]
          split
          · exact closeDown_perm _ _ _
          · exact h.turn _ _ _ _ _ _ _

/-- Items that are taken from the back together are kept. -/
theorem KeepsDown.search (wins : Nat) (left right done : List α) :
    Ends below (Keeps (done ++ left ++ right)) (searchDown below (fuel + 1) wins left right done) := by
  match right with
  | [] => exact closeDown_perm done left []
  | y :: right =>
      rw [searchDown]
      refine (ends_gallop (ends_upTo links_true y) left.reverse (left.length - 1)).bind fun lefts _ => ?_
      refine Ends.keeps ?_ (perm_takeLeft done left (y :: right) (left.length - lefts))
      dsimp only
      generalize (left.take (left.length - lefts)).reverse ++ done = done
      split
      · next hleft =>
          rw [hleft]
          exact closeDown_perm _ _ _
      · next x left hleft =>
          rw [hleft]
          split
          · exact (closeDown_perm _ _ _).trans (perm_right _ _ _ y)
          · refine (ends_gallop (fun w => ends_below links_true w x) right.reverse (right.length - 1)).bind
              fun rights _ => ?_
            refine Ends.keeps ?_
              ((perm_takeRight (y :: done) _ right (right.length - rights)).trans (perm_right _ _ _ y))
            generalize (right.take (right.length - rights)).reverse ++ y :: done = done
            generalize right.drop (right.length - rights) = right
            split
            · exact closeDown_perm _ _ _
            · refine Ends.keeps ?_ (perm_left done left right x)
              split
              · next hleft =>
                  rw [List.isEmpty_iff.1 hleft]
                  exact closeDown_perm _ _ _
              · exact h.turn _ _ _ _ _ _ _

end Down

/-- **From the back all items are kept**, turn by turn. -/
theorem keepsDown (fuel : Nat) : KeepsDown below fuel := by
  induction fuel with
  | zero =>
      constructor
      · intro wins lefts rights left right done
        rw [stepDown.eq_def]
        exact closeDown_perm done left right
      · intro wins left right done
        rw [searchDown.eq_def]
        exact closeDown_perm done left right
  | succ fuel ih => exact ⟨ih.step, ih.search⟩

theorem ends_mergeUp (wins : Nat) (left right : List α) :
    Ends below (Keeps (left ++ right)) (mergeUp below wins left right) := by
  cases right with
  | nil => exact (List.append_nil left).symm ▸ List.Perm.refl left
  | cons y right =>
      refine Ends.keeps ?_ (perm_right [] left right y)
      rw [mergeUp]
      split
      · exact closeUp_perm _ _ _
      · exact (keepsUp _).1 _ _ _ _ _ _

theorem ends_mergeDown (wins : Nat) (left right : List α) :
    Ends below (Keeps (left ++ right)) (mergeDown below wins left right) := by
  have hperm : ([] ++ left.reverse ++ right.reverse).Perm (left ++ right) :=
    (List.reverse_perm left).append (List.reverse_perm right)
  refine Ends.keeps ?_ hperm
  rw [mergeDown]
  cases left.reverse with
  | nil => exact (List.reverse_perm right).symm
  | cons x left =>
      refine Ends.keeps ?_ (perm_left [] left right.reverse x)
      dsimp only
      split
      · exact closeDown_perm _ _ _
      · exact (keepsDown _).1 _ _ _ _ _ _

/-! ### Runs of linked items -/

section Linked

variable {E : α → α → Prop}

/-- Items that are linked, any two of them, and one at least. -/
def IsRun (E : α → α → Prop) (items : List α) : Prop :=
  items ≠ [] ∧ items.Pairwise E

/-- Runs with the power of the boundary behind the latest one. -/
def mark (runs : List (Run α)) (power : Nat) : List (Run α) :=
  match runs with
  | r :: others => { r with power } :: others
  | [] => []

/-- Runs that hold items between them. -/
def Holds (E : α → α → Prop) (runs : List (Run α)) (items : List α) : Prop :=
  (∀ r ∈ runs, IsRun E r.items) ∧ (runs.flatMap Run.items).Perm items

variable (hE : Links below E)

include hE

theorem IsRun.perm {xs ys : List α} (h : IsRun E xs) (hperm : ys.Perm xs) : IsRun E ys :=
  ⟨fun hnil => h.1 (List.nil_perm.1 (hnil ▸ hperm)), (hperm.pairwise_iff fun hxy => hE.symm hxy).2 h.2⟩

/-- Runs are one run if an item of the one is linked with an item of the other. -/
theorem IsRun.append {xs ys : List α} (hxs : IsRun E xs) (hys : IsRun E ys) {x y : α} (hx : x ∈ xs) (hy : y ∈ ys)
    (hxy : E x y) : IsRun E (xs ++ ys) := by
  have hsymm : Std.Symm E := ⟨fun _ _ => hE.symm⟩
  have hto : ∀ {zs : List α} {z : α}, zs.Pairwise E → z ∈ zs → ∀ a ∈ zs, ∀ b, E z b → E a b := by
    intro zs z hzs hz a ha b hzb
    by_cases haz : a = z
    · exact haz ▸ hzb
    · exact hE.trans (hzs.forall ha hz haz) hzb
  refine ⟨by simp [hxs.1], List.pairwise_append.2 ⟨hxs.2, hys.2, fun a ha b hb => ?_⟩⟩
  exact hE.symm (hto hys.2 hy b hb a (hE.symm (hto hxs.2 hx a ha y hxy)))

/-- A merged run has the items of both runs, which are linked. -/
theorem ends_merge (wins : Nat) {left right : List α} (hleft : IsRun E left) (hright : IsRun E right) :
    Ends below (fun m => m.1.Perm (left ++ right) ∧ IsRun E m.1) (merge below wins left right) := by
  obtain ⟨x, more, rfl⟩ := List.exists_cons_of_ne_nil hleft.1
  obtain ⟨y, others, rfl⟩ := List.exists_cons_of_ne_nil hright.1
  have hlast : (x :: more).getLast? = some ((x :: more).getLast (List.cons_ne_nil x more)) :=
    List.getLast?_eq_some_getLast _
  rw [merge.eq_def, hlast]
  dsimp only
  refine (ends_gallop (ends_upTo hE y) (x :: more) 0).bind fun front hlinked => ?_
  have hboth : IsRun E (x :: more ++ y :: others) :=
    hleft.append hE hright List.mem_cons_self List.mem_cons_self (hE.symm (hlinked x rfl))
  have hkept : ∀ {m : Merged α}, m.1.Perm (x :: more ++ y :: others) →
      m.1.Perm (x :: more ++ y :: others) ∧ IsRun E m.1 := fun hm => ⟨hm, hboth.perm hE hm⟩
  split
  · exact hkept (List.Perm.refl _)
  · refine (ends_gallop (fun w => ends_below links_true w _) (y :: others) _).bind fun back _ => ?_
    split
    · exact hkept (List.Perm.refl _)
    · have hmiddle : ∀ m : Merged α, Keeps ((x :: more).drop front ++ (y :: others).take back) m →
          ((x :: more).take front ++ m.1 ++ (y :: others).drop back).Perm (x :: more ++ y :: others) := by
        intro m hm
        have hitems : (x :: more).take front ++ ((x :: more).drop front ++ (y :: others).take back) ++
            (y :: others).drop back = x :: more ++ y :: others := by
          rw [← List.append_assoc, List.take_append_drop, List.append_assoc, List.take_append_drop]
        exact hitems ▸ (hm.append_left _).append_right _
      split
      · exact (ends_mergeUp wins _ _).bind fun m hm => hkept (hmiddle m hm)
      · exact (ends_mergeDown wins _ _).bind fun m hm => hkept (hmiddle m hm)

/-! ### Cutting into runs -/

/-- Items that go on one behind the other are linked in a row. -/
theorem ends_runLength (descending : Bool) (last : α) (items : List α) :
    Ends below (fun n => (last :: items.take n).IsChain E) (runLength below descending last items) := by
  induction items generalizing last with
  | nil => exact List.IsChain.singleton last
  | cons x rest ih =>
      rw [runLength]
      refine (ends_below hE x last).bind fun b hlinked => ?_
      split
      · refine (ih x).bind fun n hn => ?_
        exact List.isChain_cons_cons.2 ⟨hE.symm hlinked, hn⟩
      · exact List.IsChain.singleton last

/-- The first run is a run, and nothing is lost. -/
theorem ends_firstRun {items : List α} (h : items ≠ []) :
    Ends below (fun r => (r.1 ++ r.2).Perm items ∧ IsRun E r.1) (firstRun below items) := by
  match items, h with
  | [x], _ => exact ⟨List.Perm.refl _, List.cons_ne_nil x [], List.pairwise_singleton E x⟩
  | x :: y :: rest, _ =>
      rw [firstRun]
      refine (ends_below hE y x).bind fun descending hlinked => ?_
      refine (ends_runLength hE descending y rest).bind fun n hn => ?_
      have htrans : IsTrans α E := ⟨fun _ _ _ => hE.trans⟩
      have hrun : IsRun E (x :: y :: rest.take n) :=
        ⟨List.cons_ne_nil _ _, List.isChain_iff_pairwise.1 (List.isChain_cons_cons.2 ⟨hE.symm hlinked, hn⟩)⟩
      have hall : x :: y :: rest.take n ++ rest.drop n = x :: y :: rest := by
        rw [List.cons_append, List.cons_append, List.take_append_drop]
      dsimp only
      split
      · have hperm := List.reverse_perm (x :: y :: rest.take n)
        exact ⟨hall ▸ hperm.append_right _, hrun.perm hE hperm⟩
      · exact ⟨hall ▸ List.Perm.refl _, hrun⟩

/-- An item is put into a run. -/
theorem ends_insert {sorted : List α} (h : IsRun E sorted) (x : α) :
    Ends below (fun ys => ys.Perm (sorted ++ [x]) ∧ IsRun E ys) (insert below sorted x) := by
  refine (ends_halve (ends_upTo hE x) sorted 0 sorted.length).bind fun n hn => ?_
  obtain ⟨hle, htried⟩ := hn
  obtain ⟨y, hy, hlinked⟩ := htried (List.length_pos_iff.2 h.1) (Nat.le_refl _)
  have hperm : (sorted.insertIdx n x).Perm (sorted ++ [x]) :=
    (List.perm_insertIdx x sorted (by omega)).trans (List.perm_append_singleton x sorted).symm
  have hone : IsRun E [x] := ⟨List.cons_ne_nil x [], List.pairwise_singleton E x⟩
  exact ⟨hperm, (h.append hE hone hy (List.mem_singleton_self x) (hE.symm hlinked)).perm hE hperm⟩

theorem ends_foldlM_insert {sorted : List α} (h : IsRun E sorted) (items : List α) :
    Ends below (fun ys => ys.Perm (sorted ++ items) ∧ IsRun E ys) (items.foldlM (insert below) sorted) := by
  induction items generalizing sorted with
  | nil => exact ⟨(List.append_nil sorted).symm ▸ List.Perm.refl sorted, h⟩
  | cons x rest ih =>
      rw [List.foldlM_cons]
      refine (ends_insert hE h x).bind fun ys hys => ?_
      refine (ih hys.2).imp fun zs hzs => ⟨hzs.1.trans ?_, hzs.2⟩
      have hperm := hys.1.append_right rest
      rwa [List.append_assoc] at hperm

/-- The next run is a run, and nothing is lost. -/
theorem ends_nextRun (least : Nat) {items : List α} (h : items ≠ []) :
    Ends below (fun r => (r.1 ++ r.2).Perm items ∧ IsRun E r.1) (nextRun below least items) := by
  rw [nextRun]
  refine (ends_firstRun hE h).bind fun r hr => ?_
  obtain ⟨run, rest⟩ := r
  refine (ends_foldlM_insert hE hr.2 (rest.take (least - run.length))).bind fun ys hys => ⟨?_, hys.2⟩
  have hperm := hys.1.append_right (rest.drop (least - run.length))
  rw [List.append_assoc, List.take_append_drop] at hperm
  exact hperm.trans hr.1

/-! ### Merging all runs -/

omit hE in
/-- Runs take no more places than their items. -/
theorem Holds.length_le {runs : List (Run α)} {items : List α} (h : Holds E runs items) :
    runs.length ≤ items.length := by
  rw [← h.2.length_eq]
  replace h := h.1
  induction runs with
  | nil => exact Nat.le_refl 0
  | cons r others ih =>
      obtain ⟨hr, hothers⟩ := List.forall_mem_cons.1 h
      have hpos := List.length_pos_iff.2 hr.1
      have hrest := ih hothers
      rw [List.flatMap_cons, List.length_append, List.length_cons]
      omega

/-- Of two neighbouring runs a merge makes one. -/
theorem ends_mergeRuns (wins : Nat) {left right : Run α} (hleft : IsRun E left.items) (hright : IsRun E right.items) :
    Ends below (fun r => r.1.items.Perm (right.items ++ left.items) ∧ IsRun E r.1.items)
      (mergeRuns below wins left right) :=
  (ends_merge hE wins hleft hright).bind fun _ hm => ⟨hm.1.trans List.perm_append_comm, hm.2⟩

theorem ends_settle (limit wins : Nat) {runs : List (Run α)} {items : List α} (h : Holds E runs items) (fuel : Nat) :
    Ends below (fun r => Holds E r.1 items) (settle below limit wins runs fuel) := by
  induction fuel generalizing wins runs with
  | zero => rcases runs with _ | ⟨right, _ | ⟨left, others⟩⟩ <;> exact h
  | succ fuel ih =>
      match runs with
      | [] => exact h
      | [_] => exact h
      | right :: left :: others =>
          rw [settle]
          split
          · obtain ⟨hall, hperm⟩ := h
            simp only [List.forall_mem_cons] at hall
            refine (ends_mergeRuns hE wins hall.2.1 hall.1).bind fun r hr => ?_
            refine ih _ ⟨List.forall_mem_cons.2 ⟨hr.2, hall.2.2⟩, List.Perm.trans ?_ hperm⟩
            simp only [List.flatMap_cons, ← List.append_assoc]
            exact hr.1.append_right _
          · exact h

/-- Two runs at most are merged at once. -/
theorem ends_settleFew (wins : Nat) {runs : List (Run α)} {items : List α} (h : Holds E runs items) (fuel : Nat)
    (hfew : runs.length ≤ 2) :
    Ends below (fun ys => ys.Perm items ∧ ys.Pairwise E) (settleAll below wins runs fuel) := by
  obtain ⟨hall, hperm⟩ := h
  match runs with
  | [] =>
      rw [settleAll.eq_def]
      exact ⟨hperm, List.Pairwise.nil⟩
  | [a] =>
      rw [settleAll]
      simp only [List.flatMap_cons, List.flatMap_nil, List.append_nil] at hperm
      exact ⟨hperm, (hall a (List.mem_singleton_self a)).2⟩
  | [b, a] =>
      rw [settleAll]
      simp only [List.flatMap_cons, List.flatMap_nil, List.append_nil] at hperm
      simp only [List.forall_mem_cons] at hall
      refine (ends_merge hE wins hall.2.1 hall.1).bind fun m hm => ⟨?_, hm.2.2⟩
      exact hm.1.trans (List.perm_append_comm.trans hperm)
  | _ :: _ :: _ :: others => exact absurd hfew (by simp)

/-- All runs are merged to one. -/
theorem ends_settleAll (wins : Nat) {runs : List (Run α)} {items : List α} (h : Holds E runs items) (fuel : Nat)
    (hfuel : runs.length ≤ fuel + 2) :
    Ends below (fun ys => ys.Perm items ∧ ys.Pairwise E) (settleAll below wins runs fuel) := by
  induction fuel generalizing wins runs with
  | zero => exact ends_settleFew hE wins h 0 hfuel
  | succ fuel ih =>
      match runs, h with
      | [], h => exact ends_settleFew hE wins h _ (by simp)
      | [a], h => exact ends_settleFew hE wins h _ (by simp)
      | [b, a], h => exact ends_settleFew hE wins h _ (by simp)
      | c :: b :: a :: others, ⟨hall, hperm⟩ =>
          simp only [List.forall_mem_cons] at hall
          obtain ⟨hc, hb, ha, hothers⟩ := hall
          simp only [List.flatMap_cons] at hperm
          have hless : ∀ {r s : Run α}, (r :: s :: others).length ≤ fuel + 2 := Nat.le_of_succ_le_succ hfuel
          rw [settleAll]
          split
          · -- the two in front of the latest are merged
            refine (ends_mergeRuns hE wins ha hb).bind fun r hr => ih _ ⟨?_, ?_⟩ hless
            · simpa only [List.forall_mem_cons] using ⟨hc, hr.2, hothers⟩
            · refine List.Perm.trans ?_ hperm
              simp only [List.flatMap_cons]
              rw [← List.append_assoc b.items]
              exact (hr.1.append_right _).append_left c.items
          · refine (ends_mergeRuns hE wins hb hc).bind fun r hr => ih _ ⟨?_, ?_⟩ hless
            · simpa only [List.forall_mem_cons] using ⟨hr.2, ha, hothers⟩
            · refine List.Perm.trans ?_ hperm
              simp only [List.flatMap_cons]
              rw [← List.append_assoc c.items]
              exact hr.1.append_right _

/-! ### Sorting -/

omit hE in
/-- A run is put behind others. -/
theorem Holds.cons {runs : List (Run α)} {items : List α} (h : Holds E runs items) {r : Run α}
    (hr : IsRun E r.items) : Holds E (r :: runs) (items ++ r.items) :=
  ⟨List.forall_mem_cons.2 ⟨hr, h.1⟩, (h.2.append_left r.items).trans List.perm_append_comm⟩

omit hE in
/-- Marking changes no items. -/
theorem Holds.mark {runs : List (Run α)} {items : List α} (h : Holds E runs items) (power : Nat) :
    Holds E (mark runs power) items := by
  obtain ⟨hall, hperm⟩ := h
  cases runs with
  | nil => exact ⟨hall, hperm⟩
  | cons r others => exact ⟨List.forall_mem_cons.2 (List.forall_mem_cons.1 hall), hperm⟩

/-- Items are cut into runs behind those that are there, and all is merged. -/
theorem ends_sortFrom (n least wins : Nat) {runs : List (Run α)} {items : List α} (h : Holds E runs items)
    (start : Nat) (xs : List α) (fuel : Nat) (hfuel : xs.length ≤ fuel) (hn : (items ++ xs).length ≤ n) :
    Ends below (fun ys => ys.Perm (items ++ xs) ∧ ys.Pairwise E)
      (sortFrom below n least wins runs start xs fuel) := by
  induction fuel generalizing wins runs items start xs with
  | zero =>
      obtain rfl := List.eq_nil_of_length_eq_zero (Nat.le_zero.1 hfuel)
      rw [List.append_nil] at hn ⊢
      exact ends_settleAll hE wins h n (Nat.le_trans h.length_le (by omega))
  | succ fuel ih =>
      cases xs with
      | nil =>
          rw [List.append_nil] at hn ⊢
          exact ends_settleAll hE wins h n (Nat.le_trans h.length_le (by omega))
      | cons x xs =>
          rw [sortFrom]
          refine (ends_nextRun hE least (List.cons_ne_nil x xs)).bind fun next hnext => ?_
          obtain ⟨run, rest⟩ := next
          obtain ⟨hperm, hrun⟩ := hnext
          dsimp only at hperm hrun
          have hlength : run.length + rest.length = (x :: xs).length := by
            rw [← List.length_append, hperm.length_eq]
          have hpos := List.length_pos_iff.2 hrun.1
          have hrest : ∀ wins {runs : List (Run α)}, Holds E runs items →
              Ends below (fun ys => ys.Perm (items ++ x :: xs) ∧ ys.Pairwise E)
                (sortFrom below n least wins ({ start, items := run } :: runs) (start + run.length) rest fuel) := by
            intro wins runs hruns
            have hitems : (items ++ run ++ rest).Perm (items ++ x :: xs) := by
              rw [List.append_assoc]
              exact hperm.append_left items
            refine (ih wins (hruns.cons (r := { start, items := run }) hrun) _ rest (by omega) ?_).imp
              fun ys hys => ⟨hys.1.trans hitems, hys.2⟩
            exact hitems.length_eq ▸ hn
          cases runs with
          | nil => exact hrest _ h
          | cons r others => exact (ends_settle hE _ wins h n).bind fun settled hsettled => hrest _ (hsettled.mark _)

/-- **What has been sorted is what was given, and any two items are linked**; and if it fails, then as a comparison
does. -/
theorem ends_sort (xs : List α) : Ends below (fun ys => ys.Perm xs ∧ xs.Pairwise E) (sort below xs) := by
  have hnone : Holds E ([] : List (Run α)) [] := ⟨nofun, List.Perm.refl []⟩
  refine (ends_sortFrom hE _ _ _ hnone 0 xs _ (Nat.le_refl _) (Nat.le_refl _)).imp fun ys hys => ?_
  exact ⟨hys.1, (hys.1.pairwise_iff fun hxy => hE.symm hxy).1 hys.2⟩

end Linked

end SophiaBind.Sorting
