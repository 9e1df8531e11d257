/-
# The errors of programs

The tree of a program has nothing unknown in it, and all its operators are known, so none of the
errors about such things comes up when it runs.  What is left is what a program can be the reason
of: a name that is not defined, an assignment to a constant, a value of the wrong type, a division
by zero, and the remainder of an infinity (`RunError.Expected`).

The error of a run is expected by the calls of the run: a remainder of an infinity is at one of
them.  An error is raised at one of the calls (`Raised`); what these are for is shaped, as the
whole tree is, and the state of each of them is sound, so no variable is without its cell.
-/
import SmallImp.Proofs.Phrase.Shape
import SmallImp.Proofs.Semantics.Faults
import SmallImp.Proofs.Semantics.Locations
import SmallImp.Proofs.Semantics.Raised
import SmallImp.Proofs.Semantics.Tasks

namespace SmallImp

/-! ## What is expected -/

/-- Whether a call evaluates the remainder of an infinity by a number other than zero. -/
def Call.DividesInfinity (call : Call) : Prop :=
  ∃ left operator right block a b, call.task = .evaluate (.binary left operator right block) ∧
    operator.symbol = "%" ∧ evaluate call.env call.store left = .ok a ∧
    evaluate call.env call.store right = .ok b ∧ NoRemainder a b

/-- The errors that the language knows of and that a program can be the reason of. -/
def ordinaryIncidents : List (Phase × IncidentType) :=
  [(.static, .undefinedIdentifier), (.static, .constantReassignment), (.static, .wrongType),
   (.dynamic, .divisionByZero)]

/-- Whether an error may come up in some calls: it is one of those that the language knows of, or
that of a remainder of an infinity at one of the calls. -/
def RunError.Expected (error : RunError) (calls : List Call) : Prop :=
  (∃ incident, error.incident? = some incident ∧
      (incident.phase, incident.type) ∈ ordinaryIncidents) ∨
    (error = .arithmetic .remainderUndefined ∧ ∃ call ∈ calls, call.DividesInfinity)

namespace RunError

variable {error : RunError} {calls : List Call}

/-- An error with an incident is expected wherever it comes up. -/
theorem expected_of_incident {type : IncidentType} {message : String} {block : Block}
    (reported : error.incident? = some (incident type message block))
    (ordinary : (type.phase, type) ∈ ordinaryIncidents) : error.Expected calls :=
  .inl ⟨_, reported, ordinary⟩

theorem expected_undefinedIdentifier (name : String) (block : Block) :
    (undefinedIdentifier name block).Expected calls := expected_of_incident rfl (by decide)

theorem expected_constantReassignment (name : String) (block : Block) :
    (constantReassignment name block).Expected calls := expected_of_incident rfl (by decide)

theorem expected_wrongType (type found : Ty) (block : Block) :
    (wrongType type found block).Expected calls := expected_of_incident rfl (by decide)

theorem expected_divisionByZero (block : Block) : (divisionByZero block).Expected calls :=
  expected_of_incident rfl (by decide)

end RunError

/-! ## Tasks of a shaped tree -/

/-- Whether what a task is for is shaped. -/
def Task.Shaped : Task → Prop
  | .evaluate e => e.Shaped
  | .elaborate declaration => declaration.Shaped
  | .execute command => command.Shaped

theorem Expr.Shaped.tasks {e : Expr} (shaped : e.Shaped) : ∀ task ∈ e.tasks, task.Shaped := by
  induction e with
  | value | identifier => exact List.forall_mem_singleton.2 shaped
  | unary _ _ _ ih => exact List.forall_mem_cons.2 ⟨shaped, ih shaped.2⟩
  | binary _ _ _ _ ihLeft ihRight =>
    exact List.forall_mem_cons.2
      ⟨shaped, List.forall_mem_append.2 ⟨ihLeft shaped.1, ihRight shaped.2.2⟩⟩
  | parenthesis _ _ ih => exact List.forall_mem_cons.2 ⟨shaped, ih shaped⟩
  | unknown => exact shaped.elim

theorem Declaration.Shaped.tasks {declaration : Declaration} (shaped : declaration.Shaped) :
    ∀ task ∈ declaration.tasks, task.Shaped := by
  induction declaration with
  | nil => exact List.forall_mem_singleton.2 shaped
  | «variable» | constant => exact List.forall_mem_cons.2 ⟨shaped, shaped.2.2.tasks⟩
  | group _ _ _ ihFirst ihSecond =>
    exact List.forall_mem_cons.2
      ⟨shaped, List.forall_mem_append.2 ⟨ihFirst shaped.1, ihSecond shaped.2⟩⟩
  | unknown => exact shaped.elim

/-- What there is to be called for in a shaped command is shaped. -/
theorem Command.Shaped.tasks {command : Command} (shaped : command.Shaped) :
    ∀ task ∈ command.tasks, task.Shaped := by
  induction command with
  | nil => exact List.forall_mem_singleton.2 shaped
  | scope _ _ _ ih =>
    exact List.forall_mem_cons.2
      ⟨shaped, List.forall_mem_append.2 ⟨shaped.1.tasks, ih shaped.2⟩⟩
  | sequence _ _ _ ihFirst ihSecond =>
    exact List.forall_mem_cons.2
      ⟨shaped, List.forall_mem_append.2 ⟨ihFirst shaped.1, ihSecond shaped.2⟩⟩
  | assign => exact List.forall_mem_cons.2 ⟨shaped, shaped.2.tasks⟩
  | branch _ _ _ ih | loop _ _ _ ih =>
    exact List.forall_mem_cons.2
      ⟨shaped, List.forall_mem_append.2 ⟨shaped.1.tasks, ih shaped.2⟩⟩
  | branchElse _ _ _ _ ihBody ihOtherwise =>
    exact List.forall_mem_cons.2 ⟨shaped, List.forall_mem_append.2
      ⟨shaped.1.tasks, List.forall_mem_append.2 ⟨ihBody shaped.2.1, ihOtherwise shaped.2.2⟩⟩⟩
  | print => exact List.forall_mem_cons.2 ⟨shaped, Expr.Shaped.tasks shaped⟩
  | unknown => exact shaped.elim

/-! ## Errors that are raised -/

section
variable {error : RunError}

theorem Applies.expected {operator : Operator} {operand : Block} {a : Value}
    (h : Applies operator operand a (.error error))
    (known : (UnaryOperator.ofSymbol? operator.symbol).isSome = true) (calls : List Call) :
    error.Expected calls := by
  cases h with
  | unknown missing => rw [missing] at known; cases known
  | wrongType => exact RunError.expected_wrongType ..

/-- What may go wrong with two values: a remainder of an infinity, or what is always expected. -/
theorem Combines.expected {operator : Operator} {left right : Block} {a b : Value}
    (h : Combines operator left right a b (.error error))
    (known : (BinaryOperator.ofSymbol? operator.symbol).isSome = true) :
    (∀ calls, error.Expected calls) ∨
      (error = .arithmetic .remainderUndefined ∧ operator.symbol = "%" ∧ NoRemainder a b) := by
  cases h with
  | unknown missing => rw [missing] at known; cases known
  | differentTypes | wrongLeft | wrongRight =>
    exact .inl fun _ => RunError.expected_wrongType ..
  | zeroDivisor => exact .inl fun _ => RunError.expected_divisionByZero _
  | fault found suits nonzero applied =>
    obtain ⟨rfl, rfl, undefined⟩ := (suits.apply_error_iff nonzero).1 applied
    exact .inr ⟨rfl, BinaryOperator.ofSymbol?_eq_remainder.1 found, undefined⟩

/-- **What is raised at shaped and sound calls is expected of them.** -/
theorem Raised.expected {calls : List Call} (h : Raised calls error)
    (shaped : ∀ call ∈ calls, call.task.Shaped) (sound : ∀ call ∈ calls, call.Sound) :
    error.Expected calls := by
  cases h with
  | name => exact RunError.expected_undefinedIdentifier ..
  | target => exact RunError.expected_undefinedIdentifier ..
  | constant => exact RunError.expected_constantReassignment ..
  | unary mem _ applies =>
    have operator : _ ∧ _ := shaped _ mem
    exact applies.expected operator.1.isSome_unary calls
  | @binary left operator right block _ _ _ _ _ _ mem first second combines =>
    have parts : _ ∧ _ ∧ _ := shaped _ mem
    obtain always | ⟨rfl, symbol, undefined⟩ := combines.expected parts.2.1.isSome_binary
    · exact always calls
    · exact .inr ⟨rfl, _, mem, left, operator, right, block, _, _, rfl, symbol, first, second,
        undefined⟩
  | condition => exact RunError.expected_wrongType ..
  | unbound mem found missing =>
    have held := Sound.mem_keys (sound _ mem) found
    exact absurd held ((Bindings.get?_eq_none_iff _ _).1 missing)
  | unknownExpression mem => exact (shaped _ mem).elim
  | unknownDeclaration mem => exact (shaped _ mem).elim
  | unknownCommand mem => exact (shaped _ mem).elim

/-- **The error of a command is expected.** -/
theorem Command.Shaped.expected {command : Command} {env : Environment} {store : Store}
    {progress after : Progress} {limit : Nat} (shaped : command.Shaped)
    (sound : Sound env store progress.next)
    (h : execute limit command env store progress = some ⟨.error error, after⟩) :
    error.Expected (command.calls limit env store progress) := by
  refine (Command.raised h).expected ?_ (command.sound_calls sound)
  intro call mem
  exact shaped.tasks call.task (Command.task_mem_of_mem_calls mem)

end

/-! ## Programs -/

/-- The error that a run of a source text comes to within a limit, if it comes to one. -/
def failure? (limit : Nat) (source : String) : Option RunError :=
  match parse source with
  | .error _ => none
  | .ok program =>
    match run limit program with
    | some ⟨.error error, _⟩ => some error
    | _ => none

theorem failure?_eq_some_iff {limit : Nat} {source : String} {error : RunError} :
    failure? limit source = some error ↔ ∃ program progress, parse source = .ok program ∧
      run limit program = some ⟨.error error, progress⟩ := by
  unfold failure?
  cases parse source with
  | error => simp
  | ok program => rcases ended : run limit program with _ | ⟨failure | store, progress⟩ <;> simp [ended]

/-- **A program cannot go wrong in its structure.**  Every node of its tree is of the class that
its place calls for and has just the children that its kind calls for; names, literals and
operators are of their forms.  So a run can fail only because a name is not defined, a constant
is assigned to, a value is of the wrong type, a divisor is zero, or a remainder of an infinity by a
number other than zero is asked for. -/
theorem parse_safe {source : String} {program : Command} (accepted : parse source = .ok program) :
    program.node.Laid .command ∧
      ∀ limit error progress, run limit program = some ⟨.error error, progress⟩ →
        error.Expected (program.calls limit .empty .empty (.fresh 0)) := by
  have shaped := parse_shaped accepted
  have start : Sound .empty .empty (Progress.fresh 0).next := Sound.initial
  exact ⟨shaped.laid, fun _ _ _ failed => shaped.expected start failed⟩

/-- A program with a run that fails. -/
theorem parse_safe_divisionByZero :
    ∃ program, parse "let x : num = 1; if x == 1 then print x / 0" = .ok program ∧
      program.node.Laid .command ∧ ∃ error progress,
        run 1 program = some ⟨.error error, progress⟩ ∧
          error.Expected (program.calls 1 .empty .empty (.fresh 0)) := by
  have fails : failure? 1 "let x : num = 1; if x == 1 then print x / 0" =
      some (.divisionByZero ⟨⟨1, 41⟩, ⟨1, 42⟩⟩) := by
    decide +kernel
  obtain ⟨program, progress, accepted, failed⟩ := failure?_eq_some_iff.1 fails
  obtain ⟨laid, expected⟩ := parse_safe accepted
  exact ⟨program, accepted, laid, _, progress, failed, expected 1 _ progress failed⟩

end SmallImp
