/-
# What a command leaves alone

A command adds a cell to the store for each location that it gives out, and of the cells that
were there before it changes only those that a name is bound to which it assigns to
(`execute_frame`).  The names that count are the targets of the command: an assignment in the
scope of a declaration of the same name goes to the new cell.  So a variable that is shadowed
wherever it is assigned to, or that is out of scope, is as it was.

A declaration changes no cell at all, and the names that it binds are bound to new cells
(`Elaborates.frame`).  That new cells are new is why environment and store have to fit
(`Grounded`): there is a cell for each name, and no cell of a location yet to be given out.
-/
import SmallImp.Proofs.Semantics.BigStep
import SmallImp.Proofs.Semantics.Names

namespace SmallImp

/-! ## Locations given out -/

/-- The locations from one index on and before another, in their order. -/
def locationsBetween (first last : Nat) : List Location :=
  (List.range' first (last - first)).map fun (index : Nat) => ⟨index⟩

@[simp]
theorem locationsBetween_self (index : Nat) : locationsBetween index index = [] := by
  simp [locationsBetween]

@[simp]
theorem locationsBetween_succ (index : Nat) : locationsBetween index (index + 1) = [⟨index⟩] := by
  simp [locationsBetween]

theorem locationsBetween_append {first middle last : Nat} (le : first ≤ middle)
    (le' : middle ≤ last) :
    locationsBetween first middle ++ locationsBetween middle last =
      locationsBetween first last := by
  have middle_eq : middle = first + (middle - first) := by omega
  have sum : (middle - first) + (last - middle) = last - first := by omega
  rw [locationsBetween, locationsBetween, locationsBetween, ← List.map_append, ← sum,
    ← List.range'_append_1, ← middle_eq]

theorem mem_locationsBetween {first last : Nat} {location : Location} :
    location ∈ locationsBetween first last ↔ first ≤ location.index ∧ location.index < last := by
  obtain ⟨index⟩ := location
  simp only [locationsBetween, List.mem_map, List.mem_range'_1, Location.mk.injEq]
  constructor
  · rintro ⟨n, bounds, rfl⟩
    omega
  · rintro bounds
    exact ⟨index.toNat, by omega, by omega⟩

/-- Each location is given out once. -/
theorem nodup_locationsBetween (first last : Nat) : (locationsBetween first last).Nodup := by
  refine List.Pairwise.map _ ?_ List.nodup_range'
  intro i j different same
  exact different (Int.ofNat.inj (congrArg Location.index same))

/-- What becomes of a store: the cells that it had, and after them one for each location given
out since. -/
structure Widens (store : Store) (next : Nat) (store' : Store) (after : Nat) : Prop where
  le : next ≤ after
  keys : store'.keys = store.keys ++ locationsBetween next after

namespace Widens

variable {store store' store'' : Store} {next between after : Nat}

theorem refl (store : Store) (next : Nat) : Widens store next store next :=
  ⟨Nat.le_refl next, by simp⟩

theorem trans (h : Widens store next store' between) (h' : Widens store' between store'' after) :
    Widens store next store'' after where
  le := Nat.le_trans h.le h'.le
  keys := by rw [h'.keys, h.keys, List.append_assoc, locationsBetween_append h.le h'.le]

theorem mem_keys (h : Widens store next store' after) {location : Location} :
    location ∈ store'.keys ↔
      location ∈ store.keys ∨ next ≤ location.index ∧ location.index < after := by
  rw [h.keys, List.mem_append, mem_locationsBetween]

/-- A cell that was there is still there. -/
theorem mem (h : Widens store next store' after) {location : Location}
    (mem : location ∈ store.keys) : location ∈ store'.keys :=
  h.mem_keys.2 (.inl mem)

end Widens

/-! ## The invariant -/

/-- There is a cell for each name that is bound to a location, and no cell of a location that is
yet to be given out. -/
structure Grounded (env : Environment) (store : Store) (next : Nat) : Prop where
  bound : ∀ {name location}, env.get? name = some (.location location) → location ∈ store.keys
  below : ∀ {location}, location ∈ store.keys → location.index < next

namespace Grounded

variable {env : Environment} {store store' : Store} {next after : Nat}

/-- The next location has no cell. -/
theorem notMem_next (h : Grounded env store next) : (⟨next⟩ : Location) ∉ store.keys :=
  fun mem => Int.lt_irrefl _ (h.below mem)

/-- A store that widens stays grounded. -/
theorem widen (h : Grounded env store next) (widens : Widens store next store' after) :
    Grounded env store' after where
  bound found := widens.mem (h.bound found)
  below mem := by
    have le := widens.le
    obtain mem | ⟨-, less⟩ := widens.mem_keys.1 mem
    · have less := h.below mem
      omega
    · exact less

/-- A new variable widens the store by its cell. -/
theorem widens_new (h : Grounded env store next) (value : Value) :
    Widens store next (store.extend ⟨next⟩ value) (next + 1) where
  le := Nat.le_succ next
  keys := by rw [Bindings.keys_extend, if_neg h.notMem_next, locationsBetween_succ]

/-- An assignment to a variable adds no cell. -/
theorem widens_assign (h : Grounded env store next) {name : String} {location : Location}
    (found : env.get? name = some (.location location)) (value : Value) :
    Widens store next (store.extend location value) next where
  le := Nat.le_refl next
  keys := by rw [Bindings.keys_extend, if_pos (h.bound found)]; simp

/-- A binding to what has a cell, or needs none, stays grounded. -/
theorem extend (h : Grounded env store next) (name : String) {binding : Binding}
    (fits : ∀ location, binding = .location location → location ∈ store.keys) :
    Grounded (env.extend name binding) store next where
  bound := by
    intro other location found
    rw [Bindings.get?_extend] at found
    split at found
    · exact fits location (Option.some.inj found)
    · exact h.bound found
  below := h.below

end Grounded

/-! ## Declarations -/

/-- What a declaration makes of an environment and a store. -/
structure Frames (declaration : Declaration) (env : Environment) (store : Store) (next : Nat)
    (innerEnv : Environment) (innerStore : Store) (after : Nat) : Prop where
  grounded : Grounded innerEnv innerStore after
  widens : Widens store next innerStore after
  /-- No cell is changed. -/
  kept : ∀ {location}, location ∈ store.keys → innerStore.get? location = store.get? location
  /-- A name that is bound to a cell from before was so before, and is not bound anew. -/
  old : ∀ {name location}, location ∈ store.keys →
    innerEnv.get? name = some (.location location) →
    name ∉ declaration.bound ∧ env.get? name = some (.location location)

section
variable {env : Environment} {store : Store} {next after : Nat}

/-- **A declaration changes no cell, and binds its names to new ones.** -/
theorem Elaborates.frame {declaration : Declaration}
    {result : Except RunError (Environment × Store)}
    (h : Elaborates declaration env store next result after) (grounded : Grounded env store next) :
    ∀ innerEnv innerStore, result = .ok (innerEnv, innerStore) →
      Frames declaration env store next innerEnv innerStore after := by
  induction h with
  | variableError | constantError | firstError | unknown => rintro _ _ ⟨⟩
  | nil =>
    rintro _ _ ⟨⟩
    exact ⟨grounded, .refl _ _, fun _ => rfl, fun _ found => ⟨List.not_mem_nil, found⟩⟩
  | @variableBound name _ _ _ env store next value =>
    rintro _ _ ⟨⟩
    have widens := grounded.widens_new value
    have new : (⟨next⟩ : Location) ∈ (store.extend ⟨next⟩ value).keys :=
      widens.mem_keys.2 (.inr ⟨Int.le_refl _, by push_cast; omega⟩)
    refine ⟨(grounded.widen widens).extend _ ?_, widens, ?_, ?_⟩
    · rintro _ ⟨⟩
      exact new
    · intro location mem
      rw [Bindings.get?_extend, if_neg]
      rintro rfl
      exact grounded.notMem_next mem
    · intro other location mem found
      rw [Bindings.get?_extend] at found
      split at found
      · cases found
        exact absurd mem grounded.notMem_next
      case isFalse different => exact ⟨by simpa [Declaration.bound] using Ne.symm different, found⟩
  | constantBound =>
    rintro _ _ ⟨⟩
    refine ⟨grounded.extend _ (by rintro _ ⟨⟩), .refl _ _, fun _ => rfl, ?_⟩
    intro other location mem found
    rw [Bindings.get?_extend] at found
    split at found
    · cases found
    case isFalse different => exact ⟨by simpa [Declaration.bound] using Ne.symm different, found⟩
  | group _ _ ihFirst ihSecond =>
    intro innerEnv innerStore eq
    have first := ihFirst grounded _ _ rfl
    have second := ihSecond first.grounded innerEnv innerStore eq
    refine ⟨second.grounded, first.widens.trans second.widens, fun mem => ?_, fun mem found => ?_⟩
    · exact (second.kept (first.widens.mem mem)).trans (first.kept mem)
    · obtain ⟨notSecond, found⟩ := second.old (first.widens.mem mem) found
      obtain ⟨notFirst, found⟩ := first.old mem found
      exact ⟨by simp [Declaration.bound, notFirst, notSecond], found⟩

/-! ## Commands -/

/-- **A command changes only the cells of its targets**, and adds one for each location that it
gives out. -/
theorem Executes.frame {command : Command} {outcome : Outcome}
    (h : Executes command env store next outcome) (grounded : Grounded env store next) :
    ∀ store', outcome.result = .ok store' → Widens store next store' outcome.next ∧
      ∀ location ∈ store.keys,
        (∀ name ∈ command.targets, env.get? name ≠ some (.location location)) →
        store'.get? location = store.get? location := by
  induction h with
  | scopeError | firstError | undefined | constant | assignError | branchError | branchElseError
  | loopError | printError | unknown => rintro _ ⟨⟩
  | nil | branchFalse | loopFalse | print =>
    rintro _ ⟨⟩
    exact ⟨.refl _ _, fun _ _ _ => rfl⟩
  | assign found =>
    rintro _ ⟨⟩
    refine ⟨grounded.widens_assign found _, fun location _ untouched => ?_⟩
    rw [Bindings.get?_extend, if_neg]
    rintro rfl
    exact untouched _ (List.mem_singleton_self _) found
  | scope elaborates _ ih =>
    intro store' eq
    have declared := elaborates.frame grounded _ _ rfl
    obtain ⟨widens, kept⟩ := ih declared.grounded store' eq
    refine ⟨declared.widens.trans widens, fun location mem untouched => ?_⟩
    rw [kept location (declared.widens.mem mem), declared.kept mem]
    -- a target of the body with this cell is none of the names declared, so one of the scope
    intro name target found
    obtain ⟨outside, found⟩ := declared.old mem found
    exact untouched name (mem_outside.2 ⟨target, outside⟩) found
  | sequence _ _ ihFirst ihSecond =>
    intro store' eq
    obtain ⟨widens, kept⟩ := ihFirst grounded _ rfl
    obtain ⟨widens', kept'⟩ := ihSecond (grounded.widen widens) store' eq
    refine ⟨widens.trans widens', fun location mem untouched => ?_⟩
    obtain ⟨first, second⟩ := List.forall_mem_append.1 untouched
    exact (kept' location (widens.mem mem) second).trans (kept location mem first)
  | branchTrue _ _ ih => exact ih grounded
  | branchElseTrue _ _ ih =>
    intro store' eq
    obtain ⟨widens, kept⟩ := ih grounded store' eq
    exact ⟨widens, fun location mem untouched =>
      kept location mem (List.forall_mem_append.1 untouched).1⟩
  | branchElseFalse _ _ ih =>
    intro store' eq
    obtain ⟨widens, kept⟩ := ih grounded store' eq
    exact ⟨widens, fun location mem untouched =>
      kept location mem (List.forall_mem_append.1 untouched).2⟩
  | loopTrue _ _ ih =>
    -- the targets of the body and the same loop again are those of the loop
    intro store' eq
    obtain ⟨widens, kept⟩ := ih grounded store' eq
    exact ⟨widens, fun location mem untouched =>
      kept location mem (List.forall_mem_append.2 ⟨untouched, untouched⟩)⟩

end

/-- **The frame law.**  A command that ends well, run with a cell for each name that is bound to a
location and none of a location yet to be given out, leaves a store with the cells that there
were and those of the locations given out, and each cell that there was holds what it held,
unless a target of the command is bound to its location.  A name is no target where all
assignments to it lie in the scope of a declaration of it, so a variable that is shadowed, or
that no name is bound to, is never changed. -/
theorem execute_frame {limit : Nat} {command : Command} {env : Environment}
    {store store' : Store} {progress after : Progress}
    (bound : ∀ name location, env.get? name = some (.location location) → location ∈ store.keys)
    (below : ∀ location ∈ store.keys, location.index < progress.next)
    (h : execute limit command env store progress = some ⟨.ok store', after⟩) :
    (∀ location, location ∈ store'.keys ↔
      location ∈ store.keys ∨ progress.next ≤ location.index ∧ location.index < after.next) ∧
    ∀ location ∈ store.keys,
      (∀ name ∈ command.targets, env.get? name ≠ some (.location location)) →
      store'.get? location = store.get? location := by
  obtain ⟨⟨_, output, next⟩, executes, comes⟩ := execute_executes h
  obtain ⟨rfl, -, rfl⟩ := comes
  have grounded : Grounded env store progress.next := ⟨bound _ _, below _⟩
  obtain ⟨widens, kept⟩ := executes.frame grounded _ rfl
  exact ⟨fun location => widens.mem_keys, kept⟩

/-- `let x : bool = false; x = true; y = false` where `x` and `y` are bound already: the `x` of
before is shadowed, and keeps its value. -/
theorem execute_frame_shadowed :
    let literal (lexeme : String) : Expr := .value ⟨.boolean, lexeme, .origin⟩ .origin
    let assign (name : String) (value : Expr) : Command := .assign ⟨name, .origin⟩ value .origin
    let command : Command :=
      .scope (.variable ⟨"x", .origin⟩ (.leaf (.type .boolean) .origin) (literal "false") .origin)
        (.sequence (assign "x" (literal "true")) (assign "y" (literal "false")) .origin) .origin
    let env : Environment := ⟨[("x", .location ⟨0⟩), ("y", .location ⟨1⟩)]⟩
    let store : Store := ⟨[(⟨0⟩, .boolean false), (⟨1⟩, .boolean true)]⟩
    let store' : Store := ⟨[(⟨0⟩, .boolean false), (⟨1⟩, .boolean false), (⟨2⟩, .boolean true)]⟩
    (∀ name location, env.get? name = some (.location location) → location ∈ store.keys) ∧
    (∀ location ∈ store.keys, location.index < (Progress.fresh 2).next) ∧
    ∃ after, execute 0 command env store (.fresh 2) = some ⟨.ok store', after⟩ ∧
      store'.get? ⟨0⟩ = store.get? ⟨0⟩ := by
  intro literal assign command env store store'
  have bound : ∀ name location, env.get? name = some (.location location) →
      location ∈ store.keys := by
    intro name location found
    simp only [env, Bindings.get?, Bindings.find?] at found
    split at found
    · cases found
      decide
    · split at found
      · cases found
        decide
      · cases found
  have below : ∀ location ∈ store.keys, location.index < (Progress.fresh 2).next := by decide
  have ended : execute 0 command env store (.fresh 2) = some ⟨.ok store', _⟩ := rfl
  refine ⟨bound, below, _, ended, (execute_frame bound below ended).2 ⟨0⟩ (by decide) ?_⟩
  decide

end SmallImp
