/-
# Bindings

A finite map that lists its keys in the order in which they were first bound.  Binding a key
again changes its value and keeps its place.  Extending a map leaves the map itself as it was.
-/

namespace SmallImp

/-- A finite map in the order of first binding. -/
structure Bindings (κ ν : Type) where
  entries : List (κ × ν)
  deriving DecidableEq

namespace Bindings

variable {κ ν : Type}

/-- The map that binds nothing. -/
def empty : Bindings κ ν := ⟨[]⟩

/-- The keys in the order of their first binding. -/
def keys (map : Bindings κ ν) : List κ := map.entries.map (·.1)

/-- The number of keys. -/
def size (map : Bindings κ ν) : Nat := map.entries.length

variable [DecidableEq κ]

/-- The value of a key in a list of entries. -/
def find? (key : κ) : List (κ × ν) → Option ν
  | [] => none
  | (k, value) :: rest => if k = key then some value else find? key rest

/-- A list of entries with a key bound: in its place, or at the end where it is new. -/
def bind (key : κ) (value : ν) : List (κ × ν) → List (κ × ν)
  | [] => [(key, value)]
  | (k, old) :: rest => if k = key then (k, value) :: rest else (k, old) :: bind key value rest

/-- The value of a key. -/
def get? (map : Bindings κ ν) (key : κ) : Option ν := find? key map.entries

/-- Whether a key is bound. -/
def contains (map : Bindings κ ν) (key : κ) : Bool := (map.get? key).isSome

/-- The map with one key bound to a value. -/
def extend (map : Bindings κ ν) (key : κ) (value : ν) : Bindings κ ν :=
  ⟨bind key value map.entries⟩

/-- Whether two maps bind the same keys to equal values, in any order. -/
def agrees (equal : ν → ν → Bool) (a b : Bindings κ ν) : Bool :=
  a.size == b.size && a.entries.all fun (key, value) =>
    match b.get? key with
    | some other => equal value other
    | none => false

/-! ## What extending does -/

/-- Binding a key changes the value of that key alone. -/
theorem find?_bind (key k : κ) (value : ν) (entries : List (κ × ν)) :
    find? k (bind key value entries) = if key = k then some value else find? k entries := by
  induction entries with
  | nil => rfl
  | cons entry rest ih =>
    obtain ⟨first, old⟩ := entry
    by_cases here : first = key
    · subst here; by_cases same : first = k <;> simp [bind, find?, same]
    · by_cases same : first = k
      · subst same; simp [bind, find?, here, Ne.symm here]
      · simp [bind, find?, here, same, ih]

/-- A key bound again keeps its place; a new one goes to the end. -/
theorem map_fst_bind (key : κ) (value : ν) (entries : List (κ × ν)) :
    (bind key value entries).map (·.1) =
      if key ∈ entries.map (·.1) then entries.map (·.1) else entries.map (·.1) ++ [key] := by
  induction entries with
  | nil => rfl
  | cons entry rest ih =>
    obtain ⟨first, old⟩ := entry
    by_cases here : first = key
    · simp [bind, here]
    · simp only [bind, here, if_false, List.map_cons, ih, List.mem_cons, Ne.symm here, false_or]
      split <;> simp

/-- A map has a value for the keys that it lists. -/
theorem get?_eq_none_iff (map : Bindings κ ν) (key : κ) : map.get? key = none ↔ key ∉ map.keys := by
  obtain ⟨entries⟩ := map
  induction entries with
  | nil => simp [get?, find?, keys]
  | cons entry rest ih =>
    obtain ⟨first, value⟩ := entry
    simp only [get?, keys, find?, List.map_cons, List.mem_cons, not_or] at ih ⊢
    by_cases here : first = key
    · simp [here]
    · rw [if_neg here, ih]
      exact ⟨fun rest => ⟨Ne.symm here, rest⟩, And.right⟩

/-- Looking up in an extended map gives the new value for the key, the old ones for all others. -/
theorem get?_extend (map : Bindings κ ν) (key k : κ) (value : ν) :
    (map.extend key value).get? k = if key = k then some value else map.get? k :=
  find?_bind key k value map.entries

/-- The keys of an extended map are the same, with a new key at the end. -/
theorem keys_extend (map : Bindings κ ν) (key : κ) (value : ν) :
    (map.extend key value).keys = if key ∈ map.keys then map.keys else map.keys ++ [key] :=
  map_fst_bind key value map.entries

end Bindings

end SmallImp
