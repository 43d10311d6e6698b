/-
**Keyed lists**: values by key, in the order in which the keys first came.

Main definition:

* `Keyed.put` — gives a key a value, in place if the key is there, else behind the others.

Main results:

* `Keyed.lookup_put_self`, `Keyed.lookup_put_of_ne` — what is found behind a `put`.
-/

namespace SophiaBind.Keyed

/-- Gives a key a value: in place if the key is there, else behind the others. -/
def put {κ α : Type} [BEq κ] (entries : List (κ × α)) (key : κ) (value : α) : List (κ × α) :=
  match entries with
  | [] => [(key, value)]
  | (k, v) :: rest => if k == key then (key, value) :: rest else (k, v) :: put rest key value

/-- Gives several keys their values, one after the other. -/
def putAll {κ α : Type} [BEq κ] (entries more : List (κ × α)) : List (κ × α) :=
  more.foldl (fun acc e => put acc e.1 e.2) entries

theorem lookup_put_self {κ α : Type} [BEq κ] [LawfulBEq κ] (entries : List (κ × α)) (key : κ) (value : α) :
    (put entries key value).lookup key = some value := by
  induction entries with
  | nil => simp [put]
  | cons e rest ih =>
    obtain ⟨k, v⟩ := e
    by_cases h : k = key
    · simp [put, h]
    · have h' : (key == k) = false := by simpa using Ne.symm h
      simp [put, h, List.lookup_cons, h', ih]

theorem lookup_put_of_ne {κ α : Type} [BEq κ] [LawfulBEq κ] (entries : List (κ × α)) {key other : κ}
    (value : α) (h : other ≠ key) : (put entries key value).lookup other = entries.lookup other := by
  induction entries with
  | nil =>
    have h' : (other == key) = false := by simpa using h
    simp [put, List.lookup_cons, h']
  | cons e rest ih =>
    obtain ⟨k, v⟩ := e
    by_cases hk : k = key
    · have h' : (other == key) = false := by simpa using h
      simp [put, hk, List.lookup_cons, h']
    · simp [put, hk, List.lookup_cons, ih]

end SophiaBind.Keyed
