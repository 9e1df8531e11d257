/-
# No location is given out twice

A session makes calls, to execute a command, to elaborate a declaration or to evaluate an
expression, each with the environment and the store of any two of the states that it has been in,
so an environment may be older or newer than the store that it is used with.  A call that fails
leaves the states as they are, but not the index of the next location.

What holds throughout is said of all the states at once: all their locations have been given out
(`Within`), and the locations given out are those before the next one, each given out once
(`Session.history_fresh`).  A call keeps this up whatever comes of it, for it gives out the
locations from the next one on (`Gives`) and makes a state of these and of those in the states
that it has taken its environment and its store from (`elaborate_within`, `execute_within`).
-/
import SmallImp.Proofs.Semantics.Calls
import SmallImp.Proofs.Semantics.Frame
import SmallImp.Session

namespace SmallImp

/-! ## What is given out -/

/-- The location that an event gives out, if it gives out one. -/
def Event.given? : Event → Option Location
  | .allocated location => some location
  | .variableBound .. | .constantBound .. => none

/-- The locations given out, in their order. -/
def Progress.given (progress : Progress) : List Location :=
  progress.events.reverse.filterMap Event.given?

@[simp]
theorem Progress.given_fresh (next : Nat) : (Progress.fresh next).given = [] := rfl

/-- A run has given out the locations from the next one on. -/
structure Gives (before after : Progress) : Prop where
  le : before.next ≤ after.next
  given : after.given = before.given ++ locationsBetween before.next after.next

namespace Gives

variable {before between after : Progress}

/-- What has given out nothing. -/
theorem of_eq (next : after.next = before.next) (given : after.given = before.given) :
    Gives before after :=
  ⟨Nat.le_of_eq next.symm, by rw [given, next, locationsBetween_self, List.append_nil]⟩

theorem refl (progress : Progress) : Gives progress progress := of_eq rfl rfl

theorem trans (h : Gives before between) (h' : Gives between after) : Gives before after where
  le := Nat.le_trans h.le h'.le
  given := by rw [h'.given, h.given, List.append_assoc, locationsBetween_append h.le h'.le]

/-- A variable takes the next location. -/
theorem allocate (progress : Progress) (name : String) :
    Gives progress (progress.allocate.note (.variableBound name ⟨progress.next⟩)) where
  le := Nat.le_succ _
  given := by
    simp [Progress.given, Progress.allocate, Progress.note, Event.given?, List.filterMap_append]

end Gives

/-! ## The invariant -/

/-- All locations that names are bound to, and all that have cells, have been given out. -/
structure Within (env : Environment) (store : Store) (next : Nat) : Prop where
  bound : ∀ {name location}, env.get? name = some (.location location) →
    location ∈ locationsBetween 0 next
  stored : ∀ {location}, location ∈ store.keys → location ∈ locationsBetween 0 next

namespace Within

variable {env env' : Environment} {store store' : Store} {next after : Nat}

theorem mono (h : Within env store next) (le : next ≤ after) : Within env store after := by
  have more {location : Location} (mem : location ∈ locationsBetween 0 next) :
      location ∈ locationsBetween 0 after := by
    rw [mem_locationsBetween] at mem ⊢
    omega
  exact ⟨fun found => more (h.bound found), fun mem => more (h.stored mem)⟩

/-- An environment of one state with the store of another. -/
theorem mixed (h : Within env store' next) (h' : Within env' store next) :
    Within env store next :=
  ⟨h.bound, h'.stored⟩

/-- A name bound anew. -/
theorem extend_env (h : Within env store next) (name : String) {binding : Binding}
    (fits : ∀ location, binding = .location location → location ∈ locationsBetween 0 next) :
    Within (env.extend name binding) store next where
  bound := by
    intro other location found
    rw [Bindings.get?_extend] at found
    split at found
    · exact fits location (Option.some.inj found)
    · exact h.bound found
  stored := h.stored

/-- A cell written to. -/
theorem extend_store (h : Within env store next) {location : Location} (value : Value)
    (fits : location ∈ locationsBetween 0 next) :
    Within env (store.extend location value) next where
  bound := h.bound
  stored := by
    intro other mem
    rw [Bindings.keys_extend] at mem
    split at mem
    · exact h.stored mem
    · obtain mem | rfl := by simpa using mem
      · exact h.stored mem
      · exact fits

/-- A new variable. -/
theorem allocate (h : Within env store next) (name : String) (value : Value) :
    Within (env.extend name (.location ⟨next⟩)) (store.extend ⟨next⟩ value) (next + 1) := by
  have given : (⟨next⟩ : Location) ∈ locationsBetween 0 (next + 1) := by
    rw [mem_locationsBetween]
    simp only
    omega
  refine ((h.mono (Nat.le_succ next)).extend_store value given).extend_env name ?_
  rintro _ ⟨⟩
  exact given

end Within

/-! ## What keeps it up -/

/-- A declaration gives out the locations from the next one on, and its names and cells are of
these or as before. -/
theorem elaborate_within (declaration : Declaration) {env : Environment} {store : Store}
    {progress : Progress} (within : Within env store progress.next) :
    Gives progress (elaborate declaration env store progress).progress ∧
      ∀ innerEnv innerStore,
        (elaborate declaration env store progress).result = .ok (innerEnv, innerStore) →
        Within innerEnv innerStore (elaborate declaration env store progress).progress.next := by
  induction declaration generalizing env store progress with
  | nil =>
    refine ⟨.refl progress, ?_⟩
    rintro _ _ ⟨⟩
    exact within
  | unknown => exact ⟨.refl progress, by rintro _ _ ⟨⟩⟩
  | «variable» name _ initial _ =>
    rw [elaborate]
    cases evaluate env store initial with
    | error => exact ⟨.refl progress, by rintro _ _ ⟨⟩⟩
    | ok value =>
      refine ⟨.allocate progress name.name, ?_⟩
      rintro _ _ ⟨⟩
      exact within.allocate name.name value
  | constant name _ value _ =>
    rw [elaborate]
    cases evaluate env store value with
    | error => exact ⟨.refl progress, by rintro _ _ ⟨⟩⟩
    | ok value =>
      refine ⟨.of_eq rfl (by simp [Progress.given, Progress.note, Event.given?]), ?_⟩
      rintro _ _ ⟨⟩
      exact within.extend_env _ (by rintro _ ⟨⟩)
  | group first second _ ihFirst ihSecond =>
    have firstly := ihFirst within
    rw [elaborate]
    revert firstly
    rcases elaborate first env store progress with ⟨error | ⟨innerEnv, innerStore⟩, between⟩
    · exact fun firstly => ⟨firstly.1, by rintro _ _ ⟨⟩⟩
    · rintro ⟨gives, inner⟩
      obtain ⟨gives', outer⟩ := ihSecond (inner _ _ rfl)
      exact ⟨gives.trans gives', outer⟩

section
variable {limit : Nat} {env : Environment} {store : Store} {progress : Progress}
variable {attempt : Attempt Store}

/-- What a run of a command leaves: locations given out from the next one on, and a store whose
cells are of these or as before. -/
structure Leaves (env : Environment) (progress : Progress) (attempt : Attempt Store) : Prop where
  gives : Gives progress attempt.progress
  within : ∀ store, attempt.result = .ok store → Within env store attempt.progress.next

/-- An end that gives out nothing. -/
theorem leaves_error (error : RunError) : Leaves env progress ⟨.error error, progress⟩ :=
  ⟨.refl progress, by rintro _ ⟨⟩⟩

theorem leaves_ok (within : Within env store progress.next) :
    Leaves env progress ⟨.ok store, progress⟩ := by
  refine ⟨.refl progress, ?_⟩
  rintro _ ⟨⟩
  exact within

/-- The end of a later part is the end of the whole. -/
theorem Leaves.after {between : Progress} (gives : Gives progress between)
    (h : Leaves env between attempt) : Leaves env progress attempt :=
  ⟨gives.trans h.gives, h.within⟩

theorem leaves_rounds {condition : Expr} {body : Command}
    (bodies : ∀ {store progress attempt}, Within env store progress.next →
      execute limit body env store progress = some attempt → Leaves env progress attempt)
    {count : Nat} (within : Within env store progress.next)
    (h : rounds (fun store => evaluateCondition env store condition)
      (fun store progress => execute limit body env store progress) count store progress =
      some attempt) :
    Leaves env progress attempt := by
  induction count generalizing store progress with
  | zero => cases h
  | succ count ih =>
    obtain ⟨error, -, rfl⟩ | ⟨-, rfl⟩ | ⟨-, h⟩ := rounds_succ_iff.1 h
    · exact leaves_error error
    · exact leaves_ok within
    · obtain ⟨error, after, round, rfl⟩ | ⟨store', between, round, later⟩ := h
      · exact bodies within round
      · have round := bodies within round
        exact (ih (round.within _ rfl) later).after round.gives

/-- **A command gives out the locations from the next one on**, and the cells of its store are of
these or as before. -/
theorem execute_within {command : Command} (within : Within env store progress.next)
    (h : execute limit command env store progress = some attempt) :
    Leaves env progress attempt := by
  induction command generalizing env store progress attempt with
  | nil =>
    obtain rfl := Option.some.inj h
    exact leaves_ok within
  | unknown =>
    obtain rfl := Option.some.inj h
    exact leaves_error _
  | scope declaration body _ ih =>
    have declared := elaborate_within declaration within
    obtain ⟨error, after, elaborated, rfl⟩ | ⟨innerEnv, innerStore, between, elaborated, h⟩ :=
      execute_scope_iff.1 h
    · rw [elaborated] at declared
      exact ⟨declared.1, by rintro _ ⟨⟩⟩
    · rw [elaborated] at declared
      obtain ⟨gives, inner⟩ := declared
      have body := ih (inner _ _ rfl) h
      have gives := gives.trans body.gives
      exact ⟨gives, fun store' eq => (within.mono gives.le).mixed (body.within store' eq)⟩
  | sequence first second _ ihFirst ihSecond =>
    obtain ⟨error, after, firstly, rfl⟩ | ⟨innerStore, between, firstly, later⟩ :=
      execute_sequence_iff.1 h
    · exact ihFirst within firstly
    · have firstly := ihFirst within firstly
      exact (ihSecond (firstly.within _ rfl) later).after firstly.gives
  | assign target value _ =>
    obtain rfl := Option.some.inj ((execute_assign target value).symm.trans h)
    rcases found : env.get? target.name with _ | cell | held
    · exact leaves_error _
    · cases evaluate env store value with
      | error => exact leaves_error _
      | ok held => exact leaves_ok (within.extend_store held (within.bound found))
    · exact leaves_error _
  | branch condition body _ ih =>
    obtain ⟨error, -, rfl⟩ | ⟨-, h⟩ | ⟨-, rfl⟩ := execute_branch_iff.1 h
    · exact leaves_error _
    · exact ih within h
    · exact leaves_ok within
  | branchElse condition body otherwise _ ihBody ihOtherwise =>
    obtain ⟨error, -, rfl⟩ | ⟨-, h⟩ | ⟨-, h⟩ := execute_branchElse_iff.1 h
    · exact leaves_error _
    · exact ihBody within h
    · exact ihOtherwise within h
  | loop condition body _ ih => exact leaves_rounds ih within h
  | print value _ =>
    obtain rfl := Option.some.inj ((execute_print value).symm.trans h)
    cases evaluate env store value with
    | error => exact leaves_error _
    | ok held =>
      refine ⟨.of_eq rfl rfl, ?_⟩
      rintro _ ⟨⟩
      exact within

end

/-! ## Sessions -/

namespace Session

/-- A call that ends, with what comes of it and the locations that it gives out.  The environment
is that of one state so far, the store that of another. -/
inductive Calls (session : Session) : Task → Result → List Location → Prop
  | execute {command : Command} {named stored : State} {attempt : Attempt Store} :
      named ∈ session.states → stored ∈ session.states →
      Ends command named.env stored.store (.fresh session.next) attempt →
      Calls session (.execute command)
        (session.conclude
          ⟨attempt.result.map fun store => ⟨named.env, store⟩, attempt.progress⟩)
        attempt.progress.given
  | elaborate {declaration : Declaration} {named stored : State}
      {attempt : Attempt (Environment × Store)} :
      named ∈ session.states → stored ∈ session.states →
      SmallImp.elaborate declaration named.env stored.store (.fresh session.next) = attempt →
      Calls session (.elaborate declaration)
        (session.conclude
          ⟨attempt.result.map fun (env, store) => ⟨env, store⟩, attempt.progress⟩)
        attempt.progress.given
  | value {e : Expr} {named stored : State} {value : Value} :
      named ∈ session.states → stored ∈ session.states →
      SmallImp.evaluate named.env stored.store e = .ok value →
      Calls session (.evaluate e) (session.answer (.evaluated value)) []
  | error {e : Expr} {named stored : State} {error : RunError} :
      named ∈ session.states → stored ∈ session.states →
      SmallImp.evaluate named.env stored.store e = .error error →
      Calls session (.evaluate e) (session.answer (.runError error)) []

/-- The locations that the calls of a session have given out, one call after the other, and the
session after them. -/
inductive History : List Location → Session → Prop
  | start : History [] .initial
  | call {given new : List Location} {session : Session} {task : Task} {result : Result} :
      History given session → session.Calls task result new →
      History (given ++ new) result.session

/-! ## After an attempt -/

section
variable {session : Session} {attempt : Attempt State}

theorem mem_states {state : State} :
    state ∈ session.states ↔ state ∈ session.earlier ∨ state = session.current := by
  simp [states]

theorem next_conclude : (session.conclude attempt).session.next = attempt.progress.next := by
  rw [conclude]
  cases attempt.result <;> rfl

/-- A failure adds no state. -/
theorem states_conclude_of_error {error : RunError} (h : attempt.result = .error error) :
    (session.conclude attempt).session.states = session.states := by
  rw [conclude, h]
  rfl

theorem mem_states_conclude {state : State} :
    state ∈ (session.conclude attempt).session.states ↔
      state ∈ session.states ∨ attempt.result = .ok state := by
  rw [conclude]
  cases attempt.result with
  | error => simp [states]
  | ok new =>
    simp only [mem_states, push, List.mem_cons, Except.ok.injEq]
    exact or_congr (or_comm) eq_comm

theorem reply_conclude {error : RunError}
    (h : (session.conclude attempt).reply = .runError error) : attempt.result = .error error := by
  rw [conclude] at h
  cases result : attempt.result with
  | error => rw [result] at h; cases h; rfl
  | ok => rw [result] at h; cases h

end

/-! ## Steps -/

theorem state_mem_states (session : Session) (number : Option Nat) :
    session.state number ∈ session.states := by
  cases number with
  | none => exact mem_states.2 (.inr rfl)
  | some number =>
    rw [state]
    cases found : session.states[number]? with
    | none => exact mem_states.2 (.inr rfl)
    | some state => exact List.mem_of_getElem? found

/-- A step makes a call that ends, or leaves the session as it is. -/
theorem step_calls (limit : Nat) (session : Session) (step : Step) :
    (session.step limit step).session = session ∨
      ∃ task new, session.Calls task (session.step limit step) new := by
  have named := session.state_mem_states step.env
  have stored := session.state_mem_states step.store
  obtain ⟨action, env, store⟩ := step
  cases action with
  | lookup name =>
    refine .inl ?_
    simp only [Session.step]
    split <;> rfl
  | dereference location =>
    refine .inl ?_
    simp only [Session.step]
    split <;> rfl
  | execute source =>
    simp only [Session.step]
    cases parse source with
    | error => exact .inl rfl
    | ok program =>
      simp only [runProgram]
      cases ended : SmallImp.execute limit program (session.state env).env
          (session.state store).store (.fresh session.next) with
      | none => exact .inl rfl
      | some attempt => exact .inr ⟨_, _, .execute named stored (ends_iff.2 ⟨limit, ended⟩)⟩
  | elaborate source =>
    simp only [Session.step]
    cases parse source with
    | error => exact .inl rfl
    | ok program =>
      simp only [runProgram]
      cases firstDeclaration? program with
      | none => exact .inl rfl
      | some declaration => exact .inr ⟨_, _, .elaborate named stored rfl⟩
  | evaluate source =>
    refine .inl ?_
    simp only [Session.step]
    cases parse source with
    | error => rfl
    | ok program =>
      simp only [runProgram]
      split <;> rfl

/-- Each session that steps come to has a history. -/
theorem History.steps {given : List Location} {session : Session} (h : History given session)
    (limit : Nat) (list : List Step) :
    ∀ result ∈ session.steps limit list, ∃ given, History given result.session := by
  induction list generalizing given session with
  | nil => exact List.forall_mem_nil _
  | cons first rest ih =>
    have next : ∃ given, History given (session.step limit first).session := by
      obtain same | ⟨task, new, call⟩ := session.step_calls limit first
      · rw [same]
        exact ⟨given, h⟩
      · exact ⟨_, h.call call⟩
    obtain ⟨given', h'⟩ := next
    rw [Session.steps]
    exact List.forall_mem_cons.2 ⟨⟨given', h'⟩, ih h'⟩

/-! ## The invariant of a session -/

/-- All states of a session are within what has been given out, which is the locations before the
next one. -/
structure Fresh (given : List Location) (session : Session) : Prop where
  given : given = locationsBetween 0 session.next
  within : ∀ state ∈ session.states, Within state.env state.store session.next

/-- What a call leaves of a session: more locations given out, and the states so far with one
more or none. -/
structure Extends (session : Session) (result : Result) (new : List Location) : Prop where
  le : session.next ≤ result.session.next
  new : new = locationsBetween session.next result.session.next
  within : ∀ state ∈ result.session.states,
    Within state.env state.store result.session.next
  kept : ∀ state ∈ session.states, state ∈ result.session.states
  failed : ∀ error, result.reply = .runError error → result.session.states = session.states

theorem Fresh.conclude {given : List Location} {session : Session} (h : Fresh given session)
    {attempt : Attempt State} (gives : Gives (.fresh session.next) attempt.progress)
    (within : ∀ state, attempt.result = .ok state →
      Within state.env state.store attempt.progress.next) :
    Extends session (session.conclude attempt) attempt.progress.given where
  le := by
    rw [next_conclude]
    exact gives.le
  new := by
    rw [next_conclude, gives.given, Progress.given_fresh, List.nil_append]
    rfl
  within state mem := by
    rw [next_conclude]
    obtain mem | made := mem_states_conclude.1 mem
    · exact (h.within state mem).mono gives.le
    · exact within state made
  kept state mem := mem_states_conclude.2 (.inl mem)
  failed _ failed := states_conclude_of_error (reply_conclude failed)

/-- A call that leaves the session as it is. -/
theorem Fresh.answer {given : List Location} {session : Session} (h : Fresh given session)
    (reply : Reply) : Extends session (session.answer reply) [] where
  le := Nat.le_refl _
  new := (locationsBetween_self _).symm
  within := h.within
  kept _ mem := mem
  failed _ _ := rfl

/-- **What one call leaves**: the states are still within what has been given out. -/
theorem Calls.extends {given new : List Location} {session : Session} {task : Task}
    {result : Result} (h : Fresh given session) (call : session.Calls task result new) :
    Extends session result new := by
  have within {named stored : State} (mem : named ∈ session.states)
      (mem' : stored ∈ session.states) :
      Within named.env stored.store (Progress.fresh session.next).next :=
    (h.within named mem).mixed (h.within stored mem')
  cases call with
  | @execute command named stored attempt mem mem' ends =>
    obtain ⟨limit, ended⟩ := ends_iff.1 ends
    have leaves := execute_within (within mem mem') ended
    refine h.conclude leaves.gives fun state made => ?_
    cases result : attempt.result with
    | error => simp [result, Except.map] at made
    | ok store =>
      obtain rfl : State.mk named.env store = state := by simpa [result, Except.map] using made
      exact leaves.within store result
  | @elaborate declaration named stored attempt mem mem' elaborated =>
    subst elaborated
    obtain ⟨gives, inner⟩ := elaborate_within declaration (within mem mem')
    refine h.conclude gives fun state made => ?_
    cases result : (SmallImp.elaborate declaration named.env stored.store
        (.fresh session.next)).result with
    | error => simp [result, Except.map] at made
    | ok pair =>
      obtain rfl : State.mk pair.1 pair.2 = state := by simpa [result, Except.map] using made
      exact inner pair.1 pair.2 result
  | value => exact h.answer _
  | error => exact h.answer _

/-- The invariant holds after all calls. -/
theorem History.fresh {given : List Location} {session : Session} (h : History given session) :
    Fresh given session := by
  induction h with
  | start =>
    refine ⟨rfl, fun state mem => ?_⟩
    obtain rfl : state = ⟨.empty, .empty⟩ := by simpa [states, initial] using mem
    exact ⟨by rintro _ _ ⟨⟩, by rintro _ ⟨⟩⟩
  | call _ call ih =>
    have made := call.extends ih
    exact ⟨by rw [ih.given, made.new, locationsBetween_append (Nat.zero_le _) made.le], made.within⟩

/-- **No location is given out twice in a session, and none that is given out occurs in a state
from before.**  After any calls, whatever states they have taken their environments and stores
from and whether they have failed or not, the locations given out are those before the next one,
in their order, and there are no others in any of the states.  A call after that gives out
locations that none of the calls before has given out, which no state so far has a cell for or
binds a name to; all states so far are kept, and if the call fails they are all that there are. -/
theorem history_fresh {given : List Location} {session : Session} (h : History given session) :
    given = locationsBetween 0 session.next ∧ given.Nodup ∧
    (∀ state ∈ session.states,
      (∀ location ∈ state.store.keys, location.index < session.next) ∧
      ∀ name location, state.env.get? name = some (.location location) →
        location.index < session.next) ∧
    ∀ task result new, session.Calls task result new →
      (∀ state ∈ session.states, state ∈ result.session.states) ∧
      (∀ error, result.reply = .runError error → result.session.states = session.states) ∧
      ∀ location ∈ new, location ∉ given ∧ location.index < result.session.next ∧
        ∀ state ∈ session.states, state.store.get? location = none ∧
          ∀ name, state.env.get? name ≠ some (.location location) := by
  have fresh := h.fresh
  have index {location : Location} (mem : location ∈ locationsBetween 0 session.next) :
      location.index < session.next := (mem_locationsBetween.1 mem).2
  refine ⟨fresh.given, fresh.given ▸ nodup_locationsBetween 0 session.next,
    fun state mem => ⟨fun _ mem' => index ((fresh.within state mem).stored mem'),
      fun _ _ found => index ((fresh.within state mem).bound found)⟩,
    fun task result new call => ?_⟩
  have made := call.extends fresh
  refine ⟨made.kept, made.failed, fun location mem => ?_⟩
  rw [made.new, mem_locationsBetween] at mem
  obtain ⟨later, less⟩ := mem
  have notGiven : location ∉ locationsBetween 0 session.next := fun mem => by
    have less := index mem
    omega
  refine ⟨fresh.given ▸ notGiven, less, fun state mem => ⟨?_, fun name found => ?_⟩⟩
  · exact (Bindings.get?_eq_none_iff _ _).2 fun mem' =>
      notGiven ((fresh.within state mem).stored mem')
  · exact notGiven ((fresh.within state mem).bound found)

/-- `let x : bool = true`, and in its environment and store `let y : bool = x; let z : bool = w`,
which fails once it has given out a location for `y`: the next variable, with the environment of
the first call and the empty store, has one that neither has had. -/
theorem history_fresh_after_failure :
    ∃ given session, History given session ∧ session.states.length = 2 ∧ given.Nodup ∧
      ∃ result, session.Calls
          (.elaborate (.variable ⟨"y", .origin⟩ (.leaf (.type .boolean) .origin)
            (.value ⟨.boolean, "true", .origin⟩ .origin) .origin)) result [⟨2⟩] ∧
        (⟨2⟩ : Location) ∉ given := by
  let truth : Expr := .value ⟨.boolean, "true", .origin⟩ .origin
  let declare (name : String) (value : Expr) : Declaration :=
    .variable ⟨name, .origin⟩ (.leaf (.type .boolean) .origin) value .origin
  let named (name : String) : Expr := .identifier ⟨name, .origin⟩ .origin
  let after : State := ⟨⟨[("x", .location ⟨0⟩)]⟩, ⟨[(⟨0⟩, .boolean true)]⟩⟩
  let session (next : Nat) : Session := ⟨after, [⟨.empty, .empty⟩], next⟩
  have start : State.mk .empty .empty ∈ initial.states := List.mem_singleton_self _
  have mem (next : Nat) : after ∈ (session next).states := by simp [session, states]
  have mem' (next : Nat) : State.mk .empty .empty ∈ (session next).states := by
    simp [session, states]
  have declares : Calls initial (.elaborate (declare "x" truth)) _ [⟨0⟩] :=
    .elaborate start start rfl
  have first : History ([] ++ [⟨0⟩]) (session 1) := .call .start declares
  have fails : Calls (session 1)
      (.elaborate (.group (declare "y" (named "x")) (declare "z" (named "w")) .origin)) _ [⟨1⟩] :=
    .elaborate (mem 1) (mem 1) rfl
  have second : History ([] ++ [⟨0⟩] ++ [⟨1⟩]) (session 2) := .call first fails
  have call : Calls (session 2) (.elaborate (declare "y" truth)) _ [⟨2⟩] :=
    .elaborate (mem 2) (mem' 2) rfl
  obtain ⟨-, once, -, fresh⟩ := history_fresh second
  exact ⟨_, _, second, rfl, once, _, call, ((fresh _ _ _ call).2.2 ⟨2⟩ (by simp)).1⟩

end Session

end SmallImp
