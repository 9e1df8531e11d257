/-
# The interpreter computes what the rules derive

Every attempt that `execute` comes to within a limit is derived by the rules
(`execute_executes`, by induction on the command, and for a loop on the limit), and every
outcome that is derived is one that `execute` comes to (`Executes.ends`, by induction on the
derivation).  So the outcomes of a run are those that the rules derive, and a run that never
ends is one that they derive no outcome for (`ends_iff_executes`).
-/
import SmallImp.Proofs.Semantics.Execution
import SmallImp.Proofs.Semantics.Rules

namespace SmallImp

/-- What comes of an attempt, where some progress was made before. -/
structure ComesTo (attempt : Attempt Store) (before : Progress) (outcome : Outcome) : Prop where
  result : attempt.result = outcome.result
  output : attempt.progress.output = before.output ++ outcome.output
  next : attempt.progress.next = outcome.next

/-- What comes of an attempt from nothing printed. -/
def Attempt.outcome (attempt : Attempt Store) : Outcome :=
  ⟨attempt.result, attempt.progress.output, attempt.progress.next⟩

theorem comesTo_fresh_iff {attempt : Attempt Store} {next : Nat} {outcome : Outcome} :
    ComesTo attempt (.fresh next) outcome ↔ attempt.outcome = outcome := by
  constructor
  · rintro ⟨result, output, next⟩
    rw [Attempt.outcome, result, output, next, Progress.fresh, String.empty_append]
  · rintro rfl
    exact ⟨rfl, (String.empty_append).symm, rfl⟩

/-- Elaborating prints nothing. -/
theorem elaborate_output (declaration : Declaration) (env : Environment) (store : Store)
    (progress : Progress) :
    (elaborate declaration env store progress).progress.output = progress.output := by
  induction declaration generalizing env store progress with
  | nil | unknown => rfl
  | «variable» name type initial block | constant name type initial block =>
    rw [elaborate]
    cases evaluate env store initial <;> rfl
  | group first second block ihFirst ihSecond =>
    have firstly := ihFirst env store progress
    rw [elaborate]
    revert firstly
    rcases elaborate first env store progress with ⟨error | ⟨innerEnv, innerStore⟩, between⟩
    · exact id
    · exact (ihSecond innerEnv innerStore between).trans

/-- What the rules derive for a declaration is what elaborating it comes to. -/
theorem Elaborates.exists_elaborate {declaration : Declaration} {env : Environment}
    {store : Store} {progress : Progress} {result : Except RunError (Environment × Store)}
    {after : Nat} (h : Elaborates declaration env store progress.next result after) :
    ∃ between, elaborate declaration env store progress = ⟨result, between⟩ ∧
      between.next = after ∧ between.output = progress.output := by
  obtain ⟨rfl, rfl⟩ := elaborates_iff.1 h
  exact ⟨_, rfl, rfl, elaborate_output declaration env store progress⟩

section
variable {limit : Nat} {env : Environment} {store : Store} {progress : Progress}
variable {attempt : Attempt Store} {block : Block}

/-- What comes of an attempt that has left the progress as it was. -/
theorem comesTo_self (result : Except RunError Store) (progress : Progress) :
    ComesTo ⟨result, progress⟩ progress ⟨result, "", progress.next⟩ :=
  ⟨rfl, (String.append_empty).symm, rfl⟩

/-- What comes of a command after one that printed. -/
theorem ComesTo.after {before between : Progress} {output : String} {outcome : Outcome}
    (printed : between.output = before.output ++ output) (h : ComesTo attempt between outcome) :
    ComesTo attempt before (outcome.after output) :=
  ⟨h.result, by rw [h.output, printed, String.append_assoc]; rfl, h.next⟩

/-! ## What is computed is derived -/

/-- What comes of a run by the rules. -/
def Derived (command : Command) (env : Environment) (store : Store) (progress : Progress)
    (attempt : Attempt Store) : Prop :=
  ∃ outcome, Executes command env store progress.next outcome ∧ ComesTo attempt progress outcome

theorem derived_sequence {first second : Command}
    (h : (∃ error after, Derived first env store progress ⟨.error error, after⟩ ∧
        attempt = ⟨.error error, after⟩) ∨
      ∃ innerStore between, Derived first env store progress ⟨.ok innerStore, between⟩ ∧
        Derived second env innerStore between attempt) :
    Derived (.sequence first second block) env store progress attempt := by
  obtain ⟨error, after, ⟨⟨_, output, next⟩, executes, comes⟩, rfl⟩ |
    ⟨innerStore, between, ⟨⟨_, output, next⟩, executes, comes⟩, outcome, executes', comes'⟩ := h
  · obtain ⟨rfl, _, rfl⟩ := comes
    exact ⟨_, .firstError executes, rfl, ‹_›, rfl⟩
  · obtain ⟨rfl, printed, rfl⟩ := comes
    exact ⟨_, .sequence executes executes', comes'.after printed⟩

theorem derived_loop {condition : Expr} {body : Command}
    (bodies : ∀ {store progress attempt}, execute limit body env store progress = some attempt →
      Derived body env store progress attempt) {count : Nat}
    (h : rounds (fun store => evaluateCondition env store condition)
      (fun store progress => execute limit body env store progress) count store progress =
      some attempt) :
    Derived (.loop condition body block) env store progress attempt := by
  induction count generalizing store progress with
  | zero => cases h
  | succ count ih =>
    rw [rounds_succ_iff] at h
    obtain ⟨error, tested, rfl⟩ | ⟨tested, rfl⟩ | ⟨tested, h⟩ := h
    · exact ⟨_, .loopError (tests_iff.2 tested), comesTo_self ..⟩
    · exact ⟨_, .loopFalse (tests_iff.2 tested), comesTo_self ..⟩
    · -- a round and then the rounds left, which are the same loop again
      obtain ⟨outcome, executes, comes⟩ :
          Derived (.sequence body (.loop condition body block) block) env store progress attempt :=
        derived_sequence (h.imp
          (fun ⟨error, after, first, eq⟩ => ⟨error, after, bodies first, eq⟩)
          (fun ⟨innerStore, between, first, later⟩ => ⟨innerStore, between, bodies first, ih later⟩))
      exact ⟨outcome, .loopTrue (tests_iff.2 tested) executes, comes⟩

/-- **What a run comes to is derived by the rules.** -/
theorem execute_executes {command : Command}
    (h : execute limit command env store progress = some attempt) :
    Derived command env store progress attempt := by
  induction command generalizing env store progress attempt with
  | nil block =>
    obtain rfl := Option.some.inj h
    exact ⟨_, .nil, comesTo_self ..⟩
  | scope declaration body block ih =>
    have silent := elaborate_output declaration env store progress
    obtain ⟨error, after, elaborated, rfl⟩ | ⟨innerEnv, innerStore, between, elaborated, h⟩ :=
      execute_scope_iff.1 h
    · rw [elaborated] at silent
      exact ⟨_, .scopeError (elaborates_of_eq elaborated), rfl,
        silent.trans (String.append_empty).symm, rfl⟩
    · rw [elaborated] at silent
      obtain ⟨outcome, executes, comes⟩ := ih h
      exact ⟨outcome, .scope (elaborates_of_eq elaborated) executes,
        comes.result, silent ▸ comes.output, comes.next⟩
  | sequence first second block ihFirst ihSecond =>
    exact derived_sequence ((execute_sequence_iff.1 h).imp
      (fun ⟨error, after, first, eq⟩ => ⟨error, after, ihFirst first, eq⟩)
      (fun ⟨innerStore, between, first, later⟩ =>
        ⟨innerStore, between, ihFirst first, ihSecond later⟩))
  | assign target value block =>
    rw [execute_assign] at h
    obtain rfl := Option.some.inj h
    cases found : env.get? target.name with
    | none => exact ⟨_, .undefined found, comesTo_self ..⟩
    | some binding =>
      cases binding with
      | value held => exact ⟨_, .constant found, comesTo_self ..⟩
      | location cell =>
        cases result : evaluate env store value with
        | error error => exact ⟨_, .assignError found (evaluates_iff.2 result), comesTo_self ..⟩
        | ok held => exact ⟨_, .assign found (evaluates_iff.2 result), comesTo_self ..⟩
  | branch condition body block ih =>
    obtain ⟨error, tested, rfl⟩ | ⟨tested, h⟩ | ⟨tested, rfl⟩ := execute_branch_iff.1 h
    · exact ⟨_, .branchError (tests_iff.2 tested), comesTo_self ..⟩
    · obtain ⟨outcome, executes, comes⟩ := ih h
      exact ⟨outcome, .branchTrue (tests_iff.2 tested) executes, comes⟩
    · exact ⟨_, .branchFalse (tests_iff.2 tested), comesTo_self ..⟩
  | branchElse condition body otherwise block ihBody ihOtherwise =>
    obtain ⟨error, tested, rfl⟩ | ⟨tested, h⟩ | ⟨tested, h⟩ := execute_branchElse_iff.1 h
    · exact ⟨_, .branchElseError (tests_iff.2 tested), comesTo_self ..⟩
    · obtain ⟨outcome, executes, comes⟩ := ihBody h
      exact ⟨outcome, .branchElseTrue (tests_iff.2 tested) executes, comes⟩
    · obtain ⟨outcome, executes, comes⟩ := ihOtherwise h
      exact ⟨outcome, .branchElseFalse (tests_iff.2 tested) executes, comes⟩
  | loop condition body block ih => exact derived_loop ih h
  | print value block =>
    rw [execute_print] at h
    obtain rfl := Option.some.inj h
    cases result : evaluate env store value with
    | error error => exact ⟨_, .printError (evaluates_iff.2 result), comesTo_self ..⟩
    | ok held => exact ⟨_, .print (evaluates_iff.2 result), rfl, rfl, rfl⟩
  | unknown node =>
    obtain rfl := Option.some.inj h
    exact ⟨_, .unknown, comesTo_self ..⟩

/-! ## What is derived is computed -/

/-- A loop whose condition is true ends as its body does with the loop after it. -/
theorem Ends.loop {condition : Expr} {body : Command} {block' : Block}
    (tested : evaluateCondition env store condition = .ok true)
    (h : Ends (.sequence body (.loop condition body block) block') env store progress attempt) :
    Ends (.loop condition body block) env store progress attempt := by
  obtain ⟨limit, h⟩ := ends_iff.1 h
  refine ends_iff.2 ⟨limit + 1, ?_⟩
  have grow : ∀ store progress attempt, execute limit body env store progress = some attempt →
      execute (limit + 1) body env store progress = some attempt :=
    fun _ _ _ => execute_mono (Nat.le_succ limit)
  rw [execute, rounds_succ_iff]
  refine .inr (.inr ⟨tested, (execute_sequence_iff.1 h).imp ?_ ?_⟩)
  · rintro ⟨error, after, first, eq⟩
    exact ⟨error, after, grow _ _ _ first, eq⟩
  · rintro ⟨innerStore, between, first, later⟩
    rw [execute] at later
    exact ⟨innerStore, between, grow _ _ _ first, rounds_mono grow (Nat.le_refl limit) later⟩

/-- **What the rules derive is what a run comes to.** -/
theorem Executes.ends {command : Command} {next : Nat} {outcome : Outcome}
    (h : Executes command env store next outcome) (start : progress.next = next) :
    ∃ attempt, Ends command env store progress attempt ∧ ComesTo attempt progress outcome := by
  -- what ends at once, or as another command does
  have once {command : Command} {env : Environment} {store : Store} {progress : Progress}
      {result : Except RunError Store}
      (h : ∀ limit, execute limit command env store progress = some ⟨result, progress⟩) :
      ∃ attempt, Ends command env store progress attempt ∧
        ComesTo attempt progress ⟨result, "", progress.next⟩ :=
    ⟨_, ends_iff.2 ⟨0, h 0⟩, comesTo_self ..⟩
  have likewise {command inner : Command} {env : Environment} {store : Store}
      {progress : Progress} {outcome : Outcome}
      (h : ∀ limit attempt, execute limit inner env store progress = some attempt →
        execute limit command env store progress = some attempt) :
      (∃ attempt, Ends inner env store progress attempt ∧ ComesTo attempt progress outcome) →
      ∃ attempt, Ends command env store progress attempt ∧ ComesTo attempt progress outcome :=
    fun ⟨attempt, ⟨bound, ends⟩, comes⟩ =>
      ⟨attempt, ⟨bound, fun limit le => h limit attempt (ends limit le)⟩, comes⟩
  induction h generalizing progress with
  | nil => exact start ▸ once fun _ => rfl
  | @scopeError _ _ _ _ _ _ error _ elaborates =>
    subst start
    obtain ⟨after, elaborated, rfl, silent⟩ := elaborates.exists_elaborate
    exact ⟨_, ends_scope_iff.2 (.inl ⟨error, after, elaborated, rfl⟩),
      rfl, silent.trans (String.append_empty).symm, rfl⟩
  | scope elaborates _ ih =>
    subst start
    obtain ⟨between, elaborated, here, silent⟩ := elaborates.exists_elaborate
    obtain ⟨attempt, ends, comes⟩ := ih here
    exact ⟨attempt, ends_scope_iff.2 (.inr ⟨_, _, _, elaborated, ends⟩),
      comes.result, silent ▸ comes.output, comes.next⟩
  | @firstError _ _ _ _ _ _ error _ _ _ ih =>
    obtain ⟨⟨_, after⟩, ends, comes⟩ := ih start
    obtain rfl := comes.result
    exact ⟨_, ends_sequence_iff.2 (.inl ⟨error, after, ends, rfl⟩), comes⟩
  | sequence _ _ ihFirst ihSecond =>
    obtain ⟨⟨_, between⟩, ends, comes⟩ := ihFirst start
    obtain rfl := comes.result
    obtain ⟨attempt, ends', comes'⟩ := ihSecond comes.next
    exact ⟨attempt, ends_sequence_iff.2 (.inr ⟨_, between, ends, ends'⟩),
      comes'.after comes.output⟩
  | undefined found | constant found =>
    exact start ▸ once fun _ => by rw [execute_assign, found]
  | assignError found evaluates | assign found evaluates =>
    exact start ▸ once fun _ => by rw [execute_assign, found, evaluates_iff.1 evaluates]; rfl
  | branchError tests =>
    exact start ▸ once fun _ => execute_branch_iff.2 (.inl ⟨_, tests_iff.1 tests, rfl⟩)
  | branchTrue tests _ ih =>
    exact likewise (fun _ _ h => execute_branch_iff.2 (.inr (.inl ⟨tests_iff.1 tests, h⟩)))
      (ih start)
  | branchFalse tests =>
    exact start ▸ once fun _ => execute_branch_iff.2 (.inr (.inr ⟨tests_iff.1 tests, rfl⟩))
  | branchElseError tests =>
    exact start ▸ once fun _ => execute_branchElse_iff.2 (.inl ⟨_, tests_iff.1 tests, rfl⟩)
  | branchElseTrue tests _ ih =>
    exact likewise (fun _ _ h => execute_branchElse_iff.2 (.inr (.inl ⟨tests_iff.1 tests, h⟩)))
      (ih start)
  | branchElseFalse tests _ ih =>
    exact likewise (fun _ _ h => execute_branchElse_iff.2 (.inr (.inr ⟨tests_iff.1 tests, h⟩)))
      (ih start)
  | loopError tests =>
    refine start ▸ ⟨_, ends_iff.2 ⟨1, ?_⟩, comesTo_self ..⟩
    exact rounds_succ_iff.2 (.inl ⟨_, tests_iff.1 tests, rfl⟩)
  | loopFalse tests =>
    refine start ▸ ⟨_, ends_iff.2 ⟨1, ?_⟩, comesTo_self ..⟩
    exact rounds_succ_iff.2 (.inr (.inl ⟨tests_iff.1 tests, rfl⟩))
  | loopTrue tests _ ih =>
    obtain ⟨attempt, ends, comes⟩ := ih start
    exact ⟨attempt, ends.loop (tests_iff.1 tests), comes⟩
  | printError evaluates =>
    exact start ▸ once fun _ => by rw [execute_print, evaluates_iff.1 evaluates]
  | @print _ _ _ store _ held evaluates =>
    subst start
    refine ⟨⟨.ok store, progress.print held⟩, ends_iff.2 ⟨0, ?_⟩, rfl, rfl, rfl⟩
    rw [execute_print, evaluates_iff.1 evaluates]
  | unknown => exact start ▸ once fun _ => rfl

/-- **A run has the outcomes that the rules derive, and goes on for ever just if they derive
none.** -/
theorem ends_iff_executes (command : Command) (env : Environment) (store : Store) (next : Nat) :
    (∀ outcome, (∃ attempt, Ends command env store (.fresh next) attempt ∧
        attempt.outcome = outcome) ↔ Executes command env store next outcome) ∧
      ((∀ limit, execute limit command env store (.fresh next) = none) ↔
        ¬ ∃ outcome, Executes command env store next outcome) := by
  have derived {attempt : Attempt Store} {limit : Nat}
      (h : execute limit command env store (.fresh next) = some attempt) :
      Executes command env store next attempt.outcome := by
    obtain ⟨outcome, executes, comes⟩ := execute_executes h
    rwa [comesTo_fresh_iff.1 comes]
  have start : (Progress.fresh next).next = next := rfl
  refine ⟨fun outcome => ⟨?_, fun executes => ?_⟩, ?_⟩
  · rintro ⟨attempt, ends, rfl⟩
    obtain ⟨limit, h⟩ := ends_iff.1 ends
    exact derived h
  · obtain ⟨attempt, ends, comes⟩ := executes.ends start
    exact ⟨attempt, ends, comesTo_fresh_iff.1 comes⟩
  · constructor
    · rintro never ⟨outcome, executes⟩
      obtain ⟨attempt, ends, -⟩ := executes.ends start
      obtain ⟨limit, h⟩ := ends_iff.1 ends
      rw [never limit] at h
      cases h
    · intro none limit
      cases h : execute limit command env store (.fresh next) with
      | none => rfl
      | some attempt => exact absurd ⟨_, derived h⟩ none

end

end SmallImp
