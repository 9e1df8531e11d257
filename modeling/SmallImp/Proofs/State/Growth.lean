/-
# Maps that grow out of one another

Extending a map makes a new one and leaves the old one to be extended again, so maps grow out of
the empty map like the branches of a tree.  A `Growth` is such a tree in the order in which its
maps were made: each map has a number, and each but the first is made of a map with a smaller
number and one more binding.

What a map holds is up to the bindings on its own way from the empty map (`Growth.path`): it is
the empty map extended by them, one after the other (`Growth.map_eq`).  So a key has the value that
it was bound to last on that way, and the keys stand in the order in which they were bound first.
No map is changed by what is made later, on its own branch or another (`Growth.Grown.map_eq`).
-/
import Mathlib.Data.Finset.Card
import Mathlib.Data.List.Induction
import SmallImp.State.Bindings

namespace SmallImp

/-! ## Bindings one after the other -/

/-- Whether keys are those of a list of names, each once, in the order in which they occur there
first. -/
structure IsFirsts {κ : Type} [DecidableEq κ] (keys names : List κ) : Prop where
  nodup : keys.Nodup
  mem_iff : ∀ key, key ∈ keys ↔ key ∈ names
  inOrder : keys.Pairwise fun first second => names.idxOf first < names.idxOf second

namespace IsFirsts

variable {κ : Type} [DecidableEq κ] {keys names : List κ}

/-- One name more, as a key at the end where it is new. -/
theorem append (h : IsFirsts keys names) (name : κ) :
    IsFirsts (if name ∈ keys then keys else keys ++ [name]) (names ++ [name]) := by
  have place {key : κ} (mem : key ∈ keys) : (names ++ [name]).idxOf key = names.idxOf key :=
    List.idxOf_append_of_mem ((h.mem_iff key).1 mem)
  have before : keys.Pairwise fun first second =>
      (names ++ [name]).idxOf first < (names ++ [name]).idxOf second :=
    h.inOrder.imp_of_mem fun first second less => by rwa [place first, place second]
  split
  case isTrue known =>
    refine ⟨h.nodup, fun key => ?_, before⟩
    rw [List.mem_append, List.mem_singleton, ← h.mem_iff]
    exact ⟨.inl, fun found => found.elim id fun same => same ▸ known⟩
  case isFalse new =>
    refine ⟨by simpa using h.nodup.concat new, fun key => ?_, ?_⟩
    · rw [List.mem_append, List.mem_append, h.mem_iff]
    · refine List.pairwise_append.2 ⟨before, List.pairwise_singleton .., fun key mem last eq => ?_⟩
      -- the new name is found behind all the others
      obtain rfl := List.mem_singleton.1 eq
      have absent : last ∉ names := mt (h.mem_iff last).2 new
      rw [place mem, List.idxOf_append_of_notMem absent]
      exact Nat.lt_add_right _ (List.idxOf_lt_length_iff.2 ((h.mem_iff key).1 mem))

/-- There are as many keys as there are names without repetition. -/
theorem length_eq (h : IsFirsts keys names) : keys.length = names.toFinset.card := by
  rw [← List.toFinset_card_of_nodup h.nodup]
  congr 1
  ext key
  rw [List.mem_toFinset, List.mem_toFinset, h.mem_iff]

end IsFirsts

namespace Bindings

variable {κ ν : Type}

/-- Whether a list binds a key to a value, and does not bind it again after that. -/
def BindsLast (entries : List (κ × ν)) (key : κ) (value : ν) : Prop :=
  ∃ before after, entries = before ++ (key, value) :: after ∧ key ∉ after.map Prod.fst

theorem bindsLast_cons {entry : κ × ν} {entries : List (κ × ν)} {key : κ} {value : ν} :
    BindsLast (entry :: entries) key value ↔
      BindsLast entries key value ∨ (entry = (key, value) ∧ key ∉ entries.map Prod.fst) := by
  constructor
  · rintro ⟨_ | ⟨_, before⟩, after, eq, absent⟩
    · obtain ⟨rfl, rfl⟩ := List.cons.inj eq
      exact .inr ⟨rfl, absent⟩
    · obtain ⟨-, rfl⟩ := List.cons.inj eq
      exact .inl ⟨before, after, rfl, absent⟩
  · rintro (⟨before, after, rfl, absent⟩ | ⟨rfl, absent⟩)
    · exact ⟨entry :: before, after, rfl, absent⟩
    · exact ⟨[], entries, rfl, absent⟩

variable [DecidableEq κ]

/-- A map with keys bound one after the other. -/
def extendAll (map : Bindings κ ν) (entries : List (κ × ν)) : Bindings κ ν :=
  entries.foldl (fun map entry => map.extend entry.1 entry.2) map

theorem extendAll_append (map : Bindings κ ν) (first second : List (κ × ν)) :
    map.extendAll (first ++ second) = (map.extendAll first).extendAll second := List.foldl_append

/-- **The last binding of a key counts**; without one the key is bound as it was before. -/
theorem get?_extendAll_eq_some_iff (map : Bindings κ ν) (entries : List (κ × ν)) (key : κ)
    (value : ν) :
    (map.extendAll entries).get? key = some value ↔
      BindsLast entries key value ∨
        (key ∉ entries.map Prod.fst ∧ map.get? key = some value) := by
  induction entries generalizing map with
  | nil => simp [extendAll, BindsLast]
  | cons entry rest ih =>
    obtain ⟨name, held⟩ := entry
    have step : map.extendAll ((name, held) :: rest) = (map.extend name held).extendAll rest := rfl
    rw [step, ih, bindsLast_cons, get?_extend, or_assoc]
    by_cases same : name = key
    · simp [same, and_comm]
    · simp [same, Ne.symm same]

/-- The keys of the empty map extended are the keys bound, in the order of their first binding. -/
theorem isFirsts_keys_extendAll (entries : List (κ × ν)) :
    IsFirsts ((empty : Bindings κ ν).extendAll entries).keys (entries.map Prod.fst) := by
  induction entries using List.reverseRecOn with
  | nil => exact ⟨List.nodup_nil, fun _ => Iff.rfl, List.Pairwise.nil⟩
  | append_singleton entries entry ih =>
    have step : ((empty : Bindings κ ν).extendAll (entries ++ [entry])).keys =
        if entry.1 ∈ (empty.extendAll entries).keys then (empty.extendAll entries).keys
        else (empty.extendAll entries).keys ++ [entry.1] := by
      rw [extendAll_append]
      exact keys_extend ..
    rw [step, List.map_append]
    exact ih.append entry.1

end Bindings

/-! ## A tree of maps -/

/-- Maps made one after the other, with their number: the empty map, and maps that are each one of
those before with one more binding. -/
inductive Growth (κ ν : Type) : (count : Nat) → Type where
  | start : Growth κ ν 1
  | extend {count : Nat} (earlier : Growth κ ν count) (origin : Fin count) (key : κ) (value : ν) :
      Growth κ ν (count + 1)

namespace Growth

variable {κ ν : Type} {count : Nat}

/-- The bindings on the way from the empty map to the map with a number, the first one first. -/
def path : {count : Nat} → Growth κ ν count → Fin count → List (κ × ν)
  | _, .start, _ => []
  | _, .extend earlier origin key value, number =>
    Fin.lastCases (motive := fun _ => List (κ × ν)) (earlier.path origin ++ [(key, value)])
      earlier.path number

/-- Whether all of one growth comes first in another. -/
inductive Grown (growth : Growth κ ν count) : {count' : Nat} → Growth κ ν count' → Prop where
  | here : Grown growth growth
  | extend {count' : Nat} {later : Growth κ ν count'} (origin : Fin count') (key : κ) (value : ν) :
      Grown growth later → Grown growth (later.extend origin key value)

theorem Grown.count_le {growth : Growth κ ν count} {count' : Nat} {later : Growth κ ν count'}
    (h : growth.Grown later) : count ≤ count' := by
  induction h with
  | here => exact Nat.le_refl _
  | extend _ _ _ _ ih => exact Nat.le_succ_of_le ih

variable [DecidableEq κ]

/-- The map with a number. -/
def map : {count : Nat} → Growth κ ν count → Fin count → Bindings κ ν
  | _, .start, _ => .empty
  | _, .extend earlier origin key value, number =>
    Fin.lastCases (motive := fun _ => Bindings κ ν) ((earlier.map origin).extend key value)
      earlier.map number

/-- **A map is the empty map with the bindings on the way to it.** -/
theorem map_eq (growth : Growth κ ν count) (number : Fin count) :
    growth.map number = Bindings.empty.extendAll (growth.path number) := by
  induction growth with
  | start => rfl
  | extend earlier origin key value ih =>
    refine Fin.lastCases ?_ (fun number => ?_) number
    · rw [map, path, Fin.lastCases_last, Fin.lastCases_last, ih, Bindings.extendAll_append]
      rfl
    · rw [map, path, Fin.lastCases_castSucc, Fin.lastCases_castSucc, ih]

/-- **What is made later changes no map.** -/
theorem Grown.map_eq {growth : Growth κ ν count} {count' : Nat} {later : Growth κ ν count'}
    (h : growth.Grown later) {number : Fin count} {number' : Fin count'}
    (same : number'.val = number) : later.map number' = growth.map number := by
  induction h with
  | here => rw [Fin.ext same]
  | @extend before later origin key value grown ih =>
    have older : number'.val < before := same ▸ number.isLt.trans_le grown.count_le
    rw [← Fin.castSucc_castLT number' older, map, Fin.lastCases_castSucc]
    exact ih same

/-- **Maps are snapshots.**  In any growth a key has, in each map, the value that it was bound to
last on the way to that map, and none if it was not bound there; the keys are those bound on the
way, each once, in the order of their first binding; there are as many as were bound; and all of
this stays so whatever map is extended later. -/
theorem map_snapshot (growth : Growth κ ν count) (number : Fin count) :
    (∀ key value, (growth.map number).get? key = some value ↔
      Bindings.BindsLast (growth.path number) key value) ∧
    (∀ key, (growth.map number).get? key = none ↔ key ∉ (growth.path number).map Prod.fst) ∧
    IsFirsts (growth.map number).keys ((growth.path number).map Prod.fst) ∧
    (growth.map number).size = ((growth.path number).map Prod.fst).toFinset.card ∧
    ∀ (count' : Nat) (later : Growth κ ν count') (number' : Fin count'), growth.Grown later →
      number'.val = number → later.map number' = growth.map number := by
  have firsts : IsFirsts (growth.map number).keys ((growth.path number).map Prod.fst) := by
    rw [growth.map_eq]
    exact Bindings.isFirsts_keys_extendAll _
  refine ⟨fun key value => ?_, fun key => ?_, firsts, ?_, fun _ _ _ grown same => grown.map_eq same⟩
  · have nothing : (Bindings.empty : Bindings κ ν).get? key ≠ some value := nofun
    rw [growth.map_eq, Bindings.get?_extendAll_eq_some_iff]
    simp [nothing]
  · rw [Bindings.get?_eq_none_iff, firsts.mem_iff]
  · have size : (growth.map number).size = (growth.map number).keys.length :=
      (List.length_map ..).symm
    rw [size, firsts.length_eq]

/-- Map `2` has `x` from map `1` and then `y`; `x` is bound again on top of it, and on another
branch out of map `1`. -/
theorem map_snapshot_branches :
    let growth : Growth String Nat 3 := (Growth.start.extend 0 "x" 1).extend 1 "y" 2
    let later : Growth String Nat 5 := (growth.extend 2 "x" 3).extend 1 "x" 4
    growth.Grown later ∧ later.map 2 = growth.map 2 ∧ (later.map 2).get? "x" = some 1 ∧
      (later.map 3).get? "x" = some 3 ∧ IsFirsts (later.map 3).keys ["x", "y", "x"] ∧
      (later.map 3).keys = ["x", "y"] ∧ (later.map 4).get? "y" = none := by
  intro growth later
  have grown : growth.Grown later := .extend 1 "x" 4 (.extend 2 "x" 3 .here)
  obtain ⟨-, -, -, -, stays⟩ := growth.map_snapshot 2
  obtain ⟨found, -, firsts, -⟩ := later.map_snapshot 3
  obtain ⟨-, missing, -⟩ := later.map_snapshot 4
  refine ⟨grown, stays 5 later 2 grown rfl, rfl, ?_, firsts, rfl, ?_⟩
  · exact (found "x" 3).2 ⟨[("x", 1), ("y", 2)], [], rfl, List.not_mem_nil⟩
  · exact (missing "y").2 (by decide)

end Growth
end SmallImp
