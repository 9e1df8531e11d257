/-
# Every location has its cell

Locations are given out one after the other, each with its cell in the store, so at every call
of a run the store has a cell for each location given out and for no other, and no name is bound
to a location that has not been given out (`Sound`).  A declaration keeps this up for the
environment and the store that it makes, and a command for the store that it makes: both are
inductions on derivations, in which a loop is no more than its body and the same loop again.
The calls of a run follow from one another by these steps (`Command.sound_calls`).

The locations given out are counted by the calls that elaborate a variable with a first value
(`Call.allocates`), whether the run ends well or not (`execute_next`).
-/
import SmallImp.Proofs.Semantics.BigStep
import SmallImp.Proofs.Semantics.Calls

namespace SmallImp

/-! ## The invariant -/

/-- The locations given out before one, in their order. -/
def locations (next : Nat) : List Location := (List.range next).map fun (index : Nat) => ⟨index⟩

/-- The store has a cell for each location given out and for no other, and names are bound to
such locations only. -/
structure Sound (env : Environment) (store : Store) (next : Nat) : Prop where
  keys : store.keys = locations next
  bound : ∀ name location, env.get? name = some (.location location) →
    location ∈ locations next

theorem locations_succ (next : Nat) : locations (next + 1) = locations next ++ [⟨next⟩] := by
  simp [locations, List.range_succ]

theorem notMem_locations (next : Nat) : (⟨next⟩ : Location) ∉ locations next := by
  intro mem
  obtain ⟨index, mem, same⟩ := List.mem_map.1 mem
  have less := List.mem_range.1 mem
  have same : (index : Int) = next := congrArg Location.index same
  omega

theorem mem_locations_of_le {location : Location} {next after : Nat} (le : next ≤ after)
    (h : location ∈ locations next) : location ∈ locations after := by
  obtain ⟨index, mem, rfl⟩ := List.mem_map.1 h
  exact List.mem_map.2 ⟨index, List.mem_range.2 (Nat.lt_of_lt_of_le (List.mem_range.1 mem) le), rfl⟩

namespace Sound

variable {env : Environment} {store : Store} {next : Nat}

theorem initial : Sound .empty .empty 0 := ⟨rfl, nofun⟩

/-- A new variable has a new cell. -/
theorem extend_location (h : Sound env store next) (name : String) (value : Value) :
    Sound (env.extend name (.location ⟨next⟩)) (store.extend ⟨next⟩ value) (next + 1) where
  keys := by
    rw [Bindings.keys_extend, h.keys, if_neg (notMem_locations next), locations_succ]
  bound other location found := by
    rw [locations_succ]
    rw [Bindings.get?_extend] at found
    split at found
    · cases found
      simp
    · exact List.mem_append_left _ (h.bound other location found)

/-- A new constant has none. -/
theorem extend_value (h : Sound env store next) (name : String) (value : Value) :
    Sound (env.extend name (.value value)) store next where
  keys := h.keys
  bound other location found := by
    rw [Bindings.get?_extend] at found
    split at found
    · cases found
    · exact h.bound other location found

/-- The cell of a variable is there. -/
theorem mem_keys (h : Sound env store next) {name : String} {location : Location}
    (found : env.get? name = some (.location location)) : location ∈ store.keys :=
  h.keys ▸ h.bound name location found

/-- An assignment to a variable overwrites its cell. -/
theorem keys_extend (h : Sound env store next) {name : String} {location : Location}
    (found : env.get? name = some (.location location)) (value : Value) :
    (store.extend location value).keys = locations next := by
  rw [Bindings.keys_extend, if_pos (h.mem_keys found), h.keys]

/-- An environment stays sound while locations are given out. -/
theorem later (h : Sound env store next) {store' : Store} {after : Nat} (le : next ≤ after)
    (keys : store'.keys = locations after) : Sound env store' after :=
  ⟨keys, fun name location found => mem_locations_of_le le (h.bound name location found)⟩

end Sound

/-! ## What keeps it up -/

section
variable {env : Environment} {store : Store} {next after : Nat}

/-- **No variable is without its cell**, so no evaluation fails for lack of one. -/
theorem Evaluates.ne_unboundLocation {e : Expr} {result : Except RunError Value}
    (h : Evaluates env store e result) (sound : Sound env store next) (location : Location) :
    result ≠ .error (.unboundLocation location) := by
  induction h with
  | unbound found missing =>
    exact absurd (sound.mem_keys found) ((Bindings.get?_eq_none_iff _ _).1 missing)
  | operandError _ ih | leftError _ ih | rightError _ _ _ ih | parenthesis _ ih => exact ih
  | unary _ applies => cases applies <;> nofun
  | binary _ _ combines => cases combines <;> nofun
  | value | undefined | constant | cell | unknown => nofun

/-- A declaration keeps the invariant up. -/
theorem Elaborates.sound {declaration : Declaration}
    {result : Except RunError (Environment × Store)}
    (h : Elaborates declaration env store next result after) (sound : Sound env store next) :
    next ≤ after ∧ ∀ innerEnv innerStore, result = .ok (innerEnv, innerStore) →
      Sound innerEnv innerStore after := by
  induction h with
  | nil =>
    refine ⟨Nat.le_refl _, ?_⟩
    rintro _ _ ⟨⟩
    exact sound
  | variableBound =>
    refine ⟨Nat.le_succ _, ?_⟩
    rintro _ _ ⟨⟩
    exact sound.extend_location ..
  | constantBound =>
    refine ⟨Nat.le_refl _, ?_⟩
    rintro _ _ ⟨⟩
    exact sound.extend_value ..
  | firstError _ ih => exact ⟨(ih sound).1, nofun⟩
  | group _ _ ihFirst ihSecond =>
    obtain ⟨le, inner⟩ := ihFirst sound
    obtain ⟨le', outer⟩ := ihSecond (inner _ _ rfl)
    exact ⟨Nat.le_trans le le', outer⟩
  | variableError | constantError | unknown => exact ⟨Nat.le_refl _, nofun⟩

/-- **A command leaves a store with a cell for each location given out and no other.** -/
theorem Executes.keys {command : Command} {outcome : Outcome}
    (h : Executes command env store next outcome) (sound : Sound env store next) :
    next ≤ outcome.next ∧ ∀ store', outcome.result = .ok store' →
      store'.keys = locations outcome.next := by
  have same {store store' : Store} {next : Nat} (keys : store.keys = locations next)
      (eq : (.ok store : Except RunError Store) = .ok store') : store'.keys = locations next :=
    Except.ok.inj eq ▸ keys
  induction h with
  | nil | branchFalse | loopFalse | print =>
    exact ⟨Nat.le_refl _, fun _ => same sound.keys⟩
  | assign found =>
    exact ⟨Nat.le_refl _, fun _ => same (sound.keys_extend found _)⟩
  | scopeError elaborates => exact ⟨(elaborates.sound sound).1, nofun⟩
  | scope elaborates _ ih =>
    obtain ⟨le, inner⟩ := elaborates.sound sound
    obtain ⟨le', keys⟩ := ih (inner _ _ rfl)
    exact ⟨Nat.le_trans le le', keys⟩
  | firstError _ ih => exact ⟨(ih sound).1, nofun⟩
  | sequence _ _ ihFirst ihSecond =>
    obtain ⟨le, keys⟩ := ihFirst sound
    obtain ⟨le', keys'⟩ := ihSecond (sound.later le (keys _ rfl))
    exact ⟨Nat.le_trans le le', keys'⟩
  | branchTrue _ _ ih | branchElseTrue _ _ ih | branchElseFalse _ _ ih | loopTrue _ _ ih =>
    exact ih sound
  | undefined | constant | assignError | branchError | branchElseError | loopError | printError
  | unknown => exact ⟨Nat.le_refl _, nofun⟩

end

/-! ## At every call -/

/-- The invariant at a call. -/
def Call.Sound (call : Call) : Prop := SmallImp.Sound call.env call.store call.next

section
variable {env : Environment} {store : Store} {progress : Progress} {limit : Nat}

/-- An expression is evaluated with one environment and store in hand. -/
theorem Expr.sound_calls {next : Nat} (sound : Sound env store next) (e : Expr) :
    ∀ call ∈ e.calls env store next, call.Sound := by
  induction e with
  | value | identifier | unknown => exact List.forall_mem_cons.2 ⟨sound, nofun⟩
  | unary _ operand _ ih => exact List.forall_mem_cons.2 ⟨sound, ih⟩
  | parenthesis inner _ ih => exact List.forall_mem_cons.2 ⟨sound, ih⟩
  | binary left _ right _ ihLeft ihRight =>
    refine List.forall_mem_cons.2 ⟨sound, List.forall_mem_append.2 ⟨ihLeft, ?_⟩⟩
    cases evaluate env store left with
    | error => exact nofun
    | ok => exact ihRight

theorem Declaration.sound_calls (sound : Sound env store progress.next)
    (declaration : Declaration) :
    ∀ call ∈ declaration.calls env store progress, call.Sound := by
  induction declaration generalizing env store progress with
  | nil | unknown => exact List.forall_mem_cons.2 ⟨sound, nofun⟩
  | «variable» _ _ initial _ => exact List.forall_mem_cons.2 ⟨sound, initial.sound_calls sound⟩
  | constant _ _ value _ => exact List.forall_mem_cons.2 ⟨sound, value.sound_calls sound⟩
  | group first second _ ihFirst ihSecond =>
    refine List.forall_mem_cons.2 ⟨sound, List.forall_mem_append.2 ⟨ihFirst sound, ?_⟩⟩
    rcases elaborated : elaborate first env store progress with
      ⟨error | ⟨innerEnv, innerStore⟩, between⟩
    · exact nofun
    · exact ihSecond (((elaborates_of_eq elaborated).sound sound).2 _ _ rfl)

/-- What a run leaves behind is sound for what comes after it. -/
theorem Sound.execute {command : Command} {store' : Store} {after : Progress}
    (sound : Sound env store progress.next)
    (h : execute limit command env store progress = some ⟨.ok store', after⟩) :
    Sound env store' after.next := by
  obtain ⟨⟨_, output, next⟩, executes, comes⟩ := execute_executes h
  obtain ⟨rfl, -, rfl⟩ := comes
  obtain ⟨le, keys⟩ := executes.keys sound
  exact sound.later le (keys _ rfl)

theorem sound_roundsCalls {condition : Expr} {body : Command}
    (inner : ∀ {store progress}, Sound env store progress.next →
      ∀ call ∈ body.calls limit env store progress, call.Sound)
    (sound : Sound env store progress.next) (count : Nat) :
    ∀ call ∈ roundsCalls (fun store => evaluateCondition env store condition)
      (fun store progress => execute limit body env store progress)
      (fun store progress => condition.calls env store progress.next)
      (fun store progress => body.calls limit env store progress) count store progress,
      call.Sound := by
  induction count generalizing store progress with
  | zero => exact nofun
  | succ count ih =>
    rw [roundsCalls]
    refine List.forall_mem_append.2 ⟨condition.sound_calls sound, ?_⟩
    rcases evaluateCondition env store condition with error | _ | _
    · exact nofun
    · exact nofun
    · refine List.forall_mem_append.2 ⟨inner sound, ?_⟩
      rcases round : execute limit body env store progress with _ | ⟨error | store', after⟩
      · exact nofun
      · exact nofun
      · exact ih (sound.execute round)

/-- **The invariant holds at every call of a run**, if it does at the first. -/
theorem Command.sound_calls (sound : Sound env store progress.next) (command : Command) :
    ∀ call ∈ command.calls limit env store progress, call.Sound := by
  induction command generalizing env store progress with
  | nil | unknown => exact List.forall_mem_cons.2 ⟨sound, nofun⟩
  | scope declaration body _ ih =>
    refine List.forall_mem_cons.2
      ⟨sound, List.forall_mem_append.2 ⟨declaration.sound_calls sound, ?_⟩⟩
    rcases elaborated : elaborate declaration env store progress with
      ⟨error | ⟨innerEnv, innerStore⟩, between⟩
    · exact nofun
    · exact ih (((elaborates_of_eq elaborated).sound sound).2 _ _ rfl)
  | sequence first second _ ihFirst ihSecond =>
    refine List.forall_mem_cons.2 ⟨sound, List.forall_mem_append.2 ⟨ihFirst sound, ?_⟩⟩
    rcases firstly : execute limit first env store progress with _ | ⟨error | store', after⟩
    · exact nofun
    · exact nofun
    · exact ihSecond (sound.execute firstly)
  | assign target value _ =>
    refine List.forall_mem_cons.2 ⟨sound, ?_⟩
    rcases env.get? target.name with _ | cell | held
    · exact nofun
    · exact value.sound_calls sound
    · exact nofun
  | branch condition body _ ih =>
    refine List.forall_mem_cons.2
      ⟨sound, List.forall_mem_append.2 ⟨condition.sound_calls sound, ?_⟩⟩
    rcases evaluateCondition env store condition with error | _ | _
    · exact nofun
    · exact nofun
    · exact ih sound
  | branchElse condition body otherwise _ ihBody ihOtherwise =>
    refine List.forall_mem_cons.2
      ⟨sound, List.forall_mem_append.2 ⟨condition.sound_calls sound, ?_⟩⟩
    rcases evaluateCondition env store condition with error | _ | _
    · exact nofun
    · exact ihOtherwise sound
    · exact ihBody sound
  | loop condition body _ ih =>
    exact List.forall_mem_cons.2 ⟨sound, sound_roundsCalls ih sound limit⟩
  | print value _ => exact List.forall_mem_cons.2 ⟨sound, value.sound_calls sound⟩

end

/-! ## Counting -/

/-- Whether a call gives out a location: it elaborates a variable whose first value can be
computed. -/
def Call.allocates (call : Call) : Bool :=
  match call.task with
  | .elaborate (.variable _ _ initial _) =>
    match evaluate call.env call.store initial with
    | .ok _ => true
    | .error _ => false
  | _ => false

section
variable {env : Environment} {store : Store} {progress : Progress} {limit : Nat}
variable {attempt : Attempt Store}

/-- The call to execute a command gives out no location itself. -/
theorem countP_execute {next : Nat} (command : Command) (calls : List Call) :
    (⟨.execute command, env, store, next⟩ :: calls).countP Call.allocates =
      calls.countP Call.allocates := by
  rw [List.countP_cons]
  rfl

theorem Expr.countP_calls {next : Nat} (e : Expr) :
    (e.calls env store next).countP Call.allocates = 0 := by
  induction e with
  | value | identifier | unknown => rfl
  | unary _ operand _ ih => exact ih
  | parenthesis inner _ ih => exact ih
  | binary left _ right _ ihLeft ihRight =>
    refine (List.countP_append ..).trans ?_
    rw [ihLeft]
    cases evaluate env store left with
    | error => rfl
    | ok => exact (Nat.zero_add _).trans ihRight

/-- A declaration gives out a location for each variable that it gets to bind. -/
theorem elaborate_next (declaration : Declaration) (env : Environment) (store : Store)
    (progress : Progress) :
    (elaborate declaration env store progress).progress.next =
      progress.next + (declaration.calls env store progress).countP Call.allocates := by
  induction declaration generalizing env store progress with
  | nil | unknown => rfl
  | «variable» _ _ initial _ =>
    rw [elaborate, Declaration.calls, List.countP_cons, Expr.countP_calls]
    cases result : evaluate env store initial <;>
      simp [Call.allocates, result, Progress.allocate, Progress.note]
  | constant _ _ value _ =>
    rw [elaborate, Declaration.calls, List.countP_cons, Expr.countP_calls]
    cases evaluate env store value <;> rfl
  | group first second _ ihFirst ihSecond =>
    have firstly := ihFirst env store progress
    rw [elaborate, Declaration.calls, List.countP_cons, List.countP_append]
    revert firstly
    rcases elaborate first env store progress with ⟨error | ⟨innerEnv, innerStore⟩, between⟩
    · exact id
    · intro firstly
      have secondly := ihSecond innerEnv innerStore between
      dsimp only at firstly secondly ⊢
      rw [secondly, firstly]
      simp [Call.allocates, Nat.add_assoc]

theorem rounds_next {condition : Expr} {body : Command}
    (inner : ∀ {store progress attempt}, execute limit body env store progress = some attempt →
      attempt.progress.next =
        progress.next + (body.calls limit env store progress).countP Call.allocates)
    {count : Nat}
    (h : rounds (fun store => evaluateCondition env store condition)
      (fun store progress => execute limit body env store progress) count store progress =
      some attempt) :
    attempt.progress.next = progress.next +
      (roundsCalls (fun store => evaluateCondition env store condition)
        (fun store progress => execute limit body env store progress)
        (fun store progress => condition.calls env store progress.next)
        (fun store progress => body.calls limit env store progress) count store
        progress).countP Call.allocates := by
  induction count generalizing store progress with
  | zero => cases h
  | succ count ih =>
    rw [roundsCalls, List.countP_append, Expr.countP_calls, Nat.zero_add]
    obtain ⟨error, tested, rfl⟩ | ⟨tested, rfl⟩ | ⟨tested, h⟩ := rounds_succ_iff.1 h
    · rw [tested]
      rfl
    · rw [tested]
      rfl
    · rw [tested]
      dsimp only
      rw [List.countP_append]
      obtain ⟨error, after, round, rfl⟩ | ⟨store', between, round, later⟩ := h
      · rw [round]
        exact inner round
      · rw [round, ih later, inner round, Nat.add_assoc]

/-- **A run gives out as many locations as it elaborates variables with a first value**, also
where it ends with an error. -/
theorem execute_next {command : Command}
    (h : execute limit command env store progress = some attempt) :
    attempt.progress.next =
      progress.next + (command.calls limit env store progress).countP Call.allocates := by
  induction command generalizing env store progress attempt with
  | nil | unknown =>
    obtain rfl := Option.some.inj h
    rfl
  | scope declaration body _ ih =>
    have elaborated := elaborate_next declaration env store progress
    rw [Command.calls, countP_execute, List.countP_append]
    obtain ⟨error, after, failed, rfl⟩ | ⟨innerEnv, innerStore, between, bound, later⟩ :=
      execute_scope_iff.1 h
    · rw [failed] at elaborated ⊢
      exact elaborated
    · rw [bound] at elaborated ⊢
      dsimp only at elaborated ⊢
      rw [ih later, elaborated, Nat.add_assoc]
  | sequence first second _ ihFirst ihSecond =>
    rw [Command.calls, countP_execute, List.countP_append]
    obtain ⟨error, after, failed, rfl⟩ | ⟨innerStore, between, firstly, later⟩ :=
      execute_sequence_iff.1 h
    · rw [failed]
      exact ihFirst failed
    · rw [firstly]
      dsimp only
      rw [ihSecond later, ihFirst firstly, Nat.add_assoc]
  | assign target value _ =>
    obtain rfl := Option.some.inj ((execute_assign target value).symm.trans h)
    rw [Command.calls, countP_execute]
    rcases env.get? target.name with _ | cell | held
    · rfl
    · exact (congrArg (progress.next + ·) value.countP_calls).symm
    · rfl
  | branch condition body _ ih =>
    rw [Command.calls, countP_execute, List.countP_append, Expr.countP_calls, Nat.zero_add]
    obtain ⟨error, tested, rfl⟩ | ⟨tested, h⟩ | ⟨tested, rfl⟩ := execute_branch_iff.1 h
    · rw [tested]
      rfl
    · rw [tested]
      exact ih h
    · rw [tested]
      rfl
  | branchElse condition body otherwise _ ihBody ihOtherwise =>
    rw [Command.calls, countP_execute, List.countP_append, Expr.countP_calls, Nat.zero_add]
    obtain ⟨error, tested, rfl⟩ | ⟨tested, h⟩ | ⟨tested, h⟩ := execute_branchElse_iff.1 h
    · rw [tested]
      rfl
    · rw [tested]
      exact ihBody h
    · rw [tested]
      exact ihOtherwise h
  | loop condition body _ ih =>
    rw [Command.calls, countP_execute]
    exact rounds_next ih h
  | print value _ =>
    obtain rfl := Option.some.inj ((execute_print value).symm.trans h)
    rw [Command.calls, countP_execute, Expr.countP_calls]
    cases evaluate env store value <;> rfl

end

/-- **No location is without its cell, and no cell is lost.**  At every call of a run of a whole
program the store has a cell for each location given out and for no other, and the names are
bound to such locations only; so no evaluation misses a cell, and an assignment overwrites one.
A run that ends well leaves a cell for each location given out, and one that fails has given
out a location for each variable that it has elaborated with a first value. -/
theorem run_sound (program : Command) (limit : Nat) :
    (∀ call ∈ program.calls limit .empty .empty (.fresh 0), call.Sound ∧
      (∀ e location, call.task = .evaluate e →
        evaluate call.env call.store e ≠ .error (.unboundLocation location)) ∧
      ∀ target value block location, call.task = .execute (.assign target value block) →
        call.env.get? target.name = some (.location location) →
        location ∈ call.store.keys) ∧
    (∀ store progress, run limit program = some ⟨.ok store, progress⟩ →
      store.size = progress.next) ∧
    ∀ error progress, run limit program = some ⟨.error error, progress⟩ →
      progress.next =
        (program.calls limit .empty .empty (.fresh 0)).countP Call.allocates := by
  have start : Sound .empty .empty (Progress.fresh 0).next := Sound.initial
  refine ⟨fun call mem => ?_, fun store progress ended => ?_, fun error progress failed => ?_⟩
  · have sound : Sound call.env call.store call.next := program.sound_calls start call mem
    refine ⟨sound, fun e location _ => ?_, fun target value block location _ found => ?_⟩
    · exact (evaluates_evaluate call.env call.store e).ne_unboundLocation sound location
    · exact sound.mem_keys found
  · have size : store.size = store.keys.length := (List.length_map ..).symm
    rw [size, (start.execute ended).keys, locations, List.length_map, List.length_range]
  · rw [execute_next failed]
    exact Nat.zero_add _

end SmallImp
