/-
# What escapes from a run

An error that the language does not know of has no incident: no report is made of it, and it
escapes from the run and from the job of a source file.  A program has one such error, the
remainder of an infinity.

An error at any call to evaluate an expression is the error of the whole run, since the first error
ends it (`Command.fails_of_mem`).  So something escapes from a run just if one of its calls is for
the remainder of an infinity (`run_escapes_iff`).
-/
import SmallImp.CommandLine.Job
import SmallImp.Proofs.Semantics.Errors

namespace SmallImp

/-! ## The error of a call is the error of the run -/

/-- Whether a call is to evaluate an expression that has an error. -/
def Call.Fails (call : Call) (error : RunError) : Prop :=
  ∃ e, call.task = .evaluate e ∧ evaluate call.env call.store e = .error error

/-- There is no remainder of an infinity. -/
theorem Call.DividesInfinity.fails {call : Call} (h : call.DividesInfinity) :
    call.Fails (.arithmetic .remainderUndefined) := by
  obtain ⟨left, operator, right, block, a, b, task, symbol, first, second, undefined⟩ := h
  have found := BinaryOperator.ofSymbol?_eq_remainder.2 symbol
  have ⟨suits, nonzero⟩ : Suits .remainder a b ∧ b.asNumber.isZero = false := by
    obtain ⟨_, _, rfl, rfl, -, nonzero⟩ := undefined
    exact ⟨⟨rfl, rfl⟩, nonzero⟩
  have applied := (suits.apply_error_iff fun _ => nonzero).2 ⟨rfl, rfl, undefined⟩
  exact ⟨_, task, evaluates_iff.1 (.binary (evaluates_iff.2 first) (evaluates_iff.2 second)
    (.fault found suits (fun _ => nonzero) applied))⟩

section
variable {env : Environment} {store : Store} {progress : Progress} {limit next : Nat}
variable {call : Call} {error : RunError}

/-- A declaration has its errors from the calls after its own. -/
theorem Call.Fails.mem_of_elaborate {declaration : Declaration} {calls : List Call}
    (fails : call.Fails error)
    (mem : call ∈ ⟨.elaborate declaration, env, store, next⟩ :: calls) : call ∈ calls := by
  obtain rfl | mem := List.mem_cons.1 mem
  · obtain ⟨_, ⟨⟩, -⟩ := fails
  · exact mem

/-- A command has its errors from the calls after its own. -/
theorem Call.Fails.mem_of_execute {command : Command} {calls : List Call}
    (fails : call.Fails error)
    (mem : call ∈ ⟨.execute command, env, store, next⟩ :: calls) : call ∈ calls := by
  obtain rfl | mem := List.mem_cons.1 mem
  · obtain ⟨_, ⟨⟩, -⟩ := fails
  · exact mem

theorem Expr.fails_of_mem {e : Expr} (mem : call ∈ e.calls env store next)
    (fails : call.Fails error) : evaluate env store e = .error error := by
  -- a call for the whole expression is one thing, a call for a part of it another
  have whole {e : Expr} (fails : (⟨.evaluate e, env, store, next⟩ : Call).Fails error) :
      evaluate env store e = .error error := by
    obtain ⟨_, ⟨⟩, failed⟩ := fails
    exact failed
  induction e with
  | value | identifier | unknown =>
    obtain rfl := List.mem_singleton.1 mem
    exact whole fails
  | unary operator operand block ih =>
    obtain rfl | mem := List.mem_cons.1 mem
    · exact whole fails
    · exact evaluates_iff.1 (.operandError (evaluates_iff.2 (ih mem)))
  | binary left operator right block ihLeft ihRight =>
    obtain rfl | mem := List.mem_cons.1 mem
    · exact whole fails
    · rcases List.mem_append.1 mem with mem | mem
      · exact evaluates_iff.1 (.leftError (evaluates_iff.2 (ihLeft mem)))
      · cases first : evaluate env store left with
        | error => rw [first] at mem; cases mem
        | ok a =>
          rw [first] at mem
          exact evaluates_iff.1
            (.rightError (evaluates_iff.2 first) (evaluates_iff.2 (ihRight mem)))
  | parenthesis inner block ih =>
    obtain rfl | mem := List.mem_cons.1 mem
    · exact whole fails
    · exact evaluates_iff.1 (.parenthesis (evaluates_iff.2 (ih mem)))

theorem Expr.condition_fails_of_mem {condition : Expr} (mem : call ∈ condition.calls env store next)
    (fails : call.Fails error) : evaluateCondition env store condition = .error error :=
  tests_iff.1 (.error (evaluates_iff.2 (condition.fails_of_mem mem fails)))

theorem Declaration.fails_of_mem {declaration : Declaration}
    (mem : call ∈ declaration.calls env store progress) (fails : call.Fails error) :
    ∃ after, elaborate declaration env store progress = ⟨.error error, after⟩ := by
  induction declaration generalizing env store progress with
  | nil | unknown =>
    cases fails.mem_of_elaborate mem
  | «variable» name type initial block | constant name type initial block =>
    have mem := fails.mem_of_elaborate mem
    rw [elaborate, initial.fails_of_mem mem fails]
    exact ⟨_, rfl⟩
  | group first second block ihFirst ihSecond =>
    have mem := fails.mem_of_elaborate mem
    rw [elaborate]
    rcases List.mem_append.1 mem with mem | mem
    · obtain ⟨after, failed⟩ := ihFirst mem
      rw [failed]
      exact ⟨after, rfl⟩
    · rcases firstly : elaborate first env store progress with
        ⟨failure | ⟨innerEnv, innerStore⟩, between⟩
      · rw [firstly] at mem; cases mem
      · rw [firstly] at mem
        exact ihSecond mem

theorem rounds_fails_of_mem {condition : Expr} {body : Command}
    (bodies : ∀ {store progress}, call ∈ body.calls limit env store progress →
      ∃ after, execute limit body env store progress = some ⟨.error error, after⟩)
    (fails : call.Fails error) {count : Nat}
    (mem : call ∈ roundsCalls (fun store => evaluateCondition env store condition)
      (fun store progress => execute limit body env store progress)
      (fun store progress => condition.calls env store progress.next)
      (fun store progress => body.calls limit env store progress) count store progress) :
    ∃ after, rounds (fun store => evaluateCondition env store condition)
      (fun store progress => execute limit body env store progress) count store progress =
      some ⟨.error error, after⟩ := by
  induction count generalizing store progress with
  | zero => cases mem
  | succ count ih =>
    rw [roundsCalls] at mem
    rw [rounds]
    rcases List.mem_append.1 mem with mem | mem
    · rw [condition.condition_fails_of_mem mem fails]
      exact ⟨_, rfl⟩
    · rcases tested : evaluateCondition env store condition with failure | _ | _
      · rw [tested] at mem; cases mem
      · rw [tested] at mem; cases mem
      · rw [tested] at mem
        rcases List.mem_append.1 mem with mem | mem
        · obtain ⟨after, failed⟩ := bodies mem
          dsimp only
          rw [failed]
          exact ⟨after, rfl⟩
        · dsimp only at mem ⊢
          rcases round : execute limit body env store progress with
            _ | ⟨failure | innerStore, between⟩
          · rw [round] at mem; cases mem
          · rw [round] at mem; cases mem
          · rw [round] at mem
            exact ih mem

/-- **The error of a call is the error of the run.** -/
theorem Command.fails_of_mem {command : Command}
    (mem : call ∈ command.calls limit env store progress) (fails : call.Fails error) :
    ∃ after, execute limit command env store progress = some ⟨.error error, after⟩ := by
  induction command generalizing env store progress with
  | nil | unknown =>
    cases fails.mem_of_execute mem
  | scope declaration body block ih =>
    have mem := fails.mem_of_execute mem
    rw [execute]
    rcases List.mem_append.1 mem with mem | mem
    · obtain ⟨after, failed⟩ := declaration.fails_of_mem mem fails
      rw [failed]
      exact ⟨after, rfl⟩
    · rcases elaborated : elaborate declaration env store progress with
        ⟨failure | ⟨innerEnv, innerStore⟩, between⟩
      · rw [elaborated] at mem; cases mem
      · rw [elaborated] at mem
        exact ih mem
  | sequence first second block ihFirst ihSecond =>
    have mem := fails.mem_of_execute mem
    rw [execute]
    rcases List.mem_append.1 mem with mem | mem
    · obtain ⟨after, failed⟩ := ihFirst mem
      rw [failed]
      exact ⟨after, rfl⟩
    · rcases firstly : execute limit first env store progress with
        _ | ⟨failure | innerStore, between⟩
      · rw [firstly] at mem; cases mem
      · rw [firstly] at mem; cases mem
      · rw [firstly] at mem
        exact ihSecond mem
  | assign target value block =>
    have mem := fails.mem_of_execute mem
    rw [execute_assign]
    rcases found : env.get? target.name with _ | cell | held
    · rw [found] at mem; cases mem
    · rw [found] at mem
      dsimp only
      rw [value.fails_of_mem mem fails]
      exact ⟨_, rfl⟩
    · rw [found] at mem; cases mem
  | branch condition body block ih =>
    have mem := fails.mem_of_execute mem
    rw [execute]
    rcases List.mem_append.1 mem with mem | mem
    · rw [condition.condition_fails_of_mem mem fails]
      exact ⟨_, rfl⟩
    · rcases tested : evaluateCondition env store condition with failure | _ | _
      · rw [tested] at mem; cases mem
      · rw [tested] at mem; cases mem
      · rw [tested] at mem
        exact ih mem
  | branchElse condition body otherwise block ihBody ihOtherwise =>
    have mem := fails.mem_of_execute mem
    rw [execute]
    rcases List.mem_append.1 mem with mem | mem
    · rw [condition.condition_fails_of_mem mem fails]
      exact ⟨_, rfl⟩
    · rcases tested : evaluateCondition env store condition with failure | _ | _
      · rw [tested] at mem; cases mem
      · rw [tested] at mem
        exact ihOtherwise mem
      · rw [tested] at mem
        exact ihBody mem
  | loop condition body block ih =>
    have mem := fails.mem_of_execute mem
    exact rounds_fails_of_mem ih fails mem
  | print value block =>
    have mem := fails.mem_of_execute mem
    rw [execute_print, value.fails_of_mem mem fails]
    exact ⟨_, rfl⟩

end

/-! ## What escapes from a run -/

/-- **An error escapes from the run of a program just if the run comes to the remainder of an
infinity.** -/
theorem run_escapes_iff {source : String} {program : Command}
    (accepted : parse source = .ok program) {limit : Nat} {attempt : Attempt Store}
    (ended : run limit program = some attempt) :
    (∃ error, attempt.result = .error error ∧ error.incident? = none) ↔
      ∃ call ∈ program.calls limit .empty .empty (.fresh 0), call.DividesInfinity := by
  constructor
  · obtain ⟨result, progress⟩ := attempt
    rintro ⟨error, rfl, silent⟩
    obtain ⟨incident, reported, -⟩ | ⟨-, divides⟩ :=
      (parse_shaped accepted).expected Sound.initial ended
    · rw [silent] at reported
      cases reported
    · exact divides
  · rintro ⟨call, mem, divides⟩
    obtain ⟨after, failed⟩ := program.fails_of_mem mem divides.fails
    obtain rfl := Option.some.inj (failed.symm.trans ended)
    exact ⟨_, rfl, rfl⟩

/-! ## What escapes from a job -/

namespace CommandLine

variable {limit : Nat} {options : Options} {program : Command} {desk : Desk}

/-- How a job ends by the run of its program. -/
def runEnding : Option (Attempt Store) → Ending
  | none => .interrupted .unfinished
  | some ⟨.ok _, _⟩ => .exit 0
  | some ⟨.error error, _⟩ =>
    if error.incident?.isSome then .exit 1 else .interrupted (.run error)

theorem runProgram_ending :
    ((runProgram limit Desk.access options program).run desk).1 = runEnding (run limit program) := by
  unfold runProgram
  rcases run limit program with _ | ⟨error | store, progress⟩
  · rfl
  · cases verbose : options.verbose <;> cases incident : error.incident? <;>
      simp [logTo, verbose, incident, runEnding] <;> rfl
  · cases verbose : options.verbose <;> simp [logTo, verbose, runEnding] <;> rfl

/-- A file that holds a program has the job end by the run of the program, unless it was only to
be read. -/
theorem runFile_ending {contents : ByteArray} {source : String}
    (read : desk.folder.read options.source = .ok contents)
    (text : sourceText? contents = some source) (accepted : parse source = .ok program)
    (plain : options.astOut = none) :
    ((runFile limit Desk.access options).run desk).1 =
      if options.parseOnly then .exit 0 else runEnding (run limit program) := by
  have reads : (Desk.access.read options.source).run desk = (.ok contents, desk) :=
    congrArg (·, desk) read
  have finishes (desk : Desk) : ((finish limit Desk.access options program).run desk).1 =
      if options.parseOnly then .exit 0 else runEnding (run limit program) := by
    simp only [finish, plain]
    cases options.parseOnly with
    | true => rfl
    | false => exact runProgram_ending
  rw [runFile, StateT.run_bind, reads]
  dsimp only [bind]
  rw [text]
  dsimp only
  rw [accepted]
  dsimp only
  cases verbose : options.verbose <;> simp [logTo, verbose] <;> exact finishes _

end CommandLine

open CommandLine in
/-- **Nothing escapes but the remainder of an infinity.**  An operator on values of its types, past
its check for zero, has a result unless it is that remainder.  A run of a program that ends
succeeds or has an incident to report, unless it comes to one; and so the job of a file that holds
the program has status zero or one. -/
theorem only_remainders_escape {source : String} {program : Command}
    (accepted : parse source = .ok program) {limit : Nat} {attempt : Attempt Store}
    (ended : run limit program = some attempt) :
    (∀ known a b, Suits known a b → (known.dividing = true → b.asNumber.isZero = false) →
      ((∃ value, known.apply a b = .ok value) ↔ ¬ (known = .remainder ∧ NoRemainder a b))) ∧
    ((∃ error, attempt.result = .error error ∧ error.incident? = none) ↔
      ∃ call ∈ program.calls limit .empty .empty (.fresh 0), call.DividesInfinity) ∧
    ∀ desk options contents, desk.folder.read options.source = .ok contents →
      sourceText? contents = some source → options.astOut = none →
      let ending := ((runFile limit Desk.access options).run desk).1
      ending = .exit 0 ∨ ending = .exit 1 ∨
        (ending = .interrupted (.run (.arithmetic .remainderUndefined)) ∧
          ∃ call ∈ program.calls limit .empty .empty (.fresh 0), call.DividesInfinity) := by
  refine ⟨fun _ _ _ suits nonzero => suits.apply_ok_iff nonzero, run_escapes_iff accepted ended, ?_⟩
  intro desk options contents read text plain
  dsimp only
  rw [runFile_ending read text accepted plain, ended]
  cases options.parseOnly with
  | true => exact .inl rfl
  | false =>
    obtain ⟨error | store, progress⟩ := attempt
    · obtain ⟨incident, reported, -⟩ | ⟨rfl, divides⟩ :=
        (parse_shaped accepted).expected Sound.initial ended
      · simp [runEnding, reported]
      · exact .inr (.inr ⟨rfl, divides⟩)
    · exact .inl rfl

open CommandLine in
/-- An infinity may be divided, and only its remainder is missing: `10 ^ 400` is infinite. -/
theorem only_remainders_escape_power :
    (∃ value, BinaryOperator.divide.apply (.number (.infinity false)) (.number .one) = .ok value) ∧
    ∃ program attempt, parse "print (10 ^ 400) % 3" = .ok program ∧
      run 0 program = some attempt ∧
      (∃ call ∈ program.calls 0 .empty .empty (.fresh 0), call.DividesInfinity) ∧
      let desk : Desk := ⟨Folder.empty.put ["p"] (.file "print (10 ^ 400) % 3".toUTF8), "", ""⟩
      let ending := ((runFile 0 Desk.access ⟨⟨"", ["p"]⟩, none, false, false⟩).run desk).1
      ending = .exit 0 ∨ ending = .exit 1 ∨
        (ending = .interrupted (.run (.arithmetic .remainderUndefined)) ∧
          ∃ call ∈ program.calls 0 .empty .empty (.fresh 0), call.DividesInfinity) := by
  have fails : failure? 0 "print (10 ^ 400) % 3" = some (.arithmetic .remainderUndefined) := by
    decide +kernel
  obtain ⟨program, progress, accepted, failed⟩ := failure?_eq_some_iff.1 fails
  obtain ⟨operators, escapes, jobs⟩ := only_remainders_escape accepted failed
  have suits : Suits .divide (.number (.infinity false)) (.number .one) := ⟨rfl, rfl⟩
  have nonzero : (Value.number Binary64.one).asNumber.isZero = false := by decide +kernel
  have text : sourceText? "print (10 ^ 400) % 3".toUTF8 = some "print (10 ^ 400) % 3" := by
    decide +kernel
  exact ⟨(operators _ _ _ suits fun _ => nonzero).2 (by simp), program, _, accepted, failed,
    escapes.1 ⟨_, rfl, rfl⟩, jobs _ _ _ rfl text rfl⟩

/-- A program that ends with an error that the language does not know of. -/
theorem remainder_escapes :
    ∃ program progress, parse "print (10 ^ 400) % 3" = .ok program ∧
      run 0 program = some ⟨.error (.arithmetic .remainderUndefined), progress⟩ ∧
      (RunError.arithmetic .remainderUndefined).incident? = none := by
  have fails : failure? 0 "print (10 ^ 400) % 3" = some (.arithmetic .remainderUndefined) := by
    decide +kernel
  obtain ⟨program, progress, accepted, failed⟩ := failure?_eq_some_iff.1 fails
  exact ⟨program, progress, accepted, failed, rfl⟩

end SmallImp
