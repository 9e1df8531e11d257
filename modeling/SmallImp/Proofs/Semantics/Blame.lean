/-
# Errors point at what is wrong

The block of an error is handed on from the tokens of a source to its tree, from the tree to the
error, and from there to the report.  At the end it is where the reason stands (`Blames`): at the
name that is not defined, at the assignment to a constant, at the operator that divides by zero, or
at the operand or the condition whose value is of the wrong type.

The error of a run is raised at one of its calls (`Command.raised`).  The task of the call is
written in the source (`parse_written`), and so are the parts of it that a check may blame
(`Level.Spells.exists_unary`, `Level.Spells.exists_binary`).
-/
import SmallImp.Proofs.Phrase.Tasks
import SmallImp.Proofs.Semantics.Escapes
import SmallImp.Proofs.Semantics.Raised

namespace SmallImp

open Phrase

/-! ## How the parts of an expression are spelled -/

section Inversion
variable {ℓ : Level} {tokens : List Token} {block : Block}

/-- A name is spelled with one token. -/
theorem Level.Spells.exists_identifier {name : Identifier}
    (h : ℓ.Spells (.identifier name block) tokens) :
    ∃ token, tokens = [token] ∧ token.terminal = .identifier ∧ name = identifierOf token := by
  generalize eq : Expr.identifier name block = e at h
  induction h with
  | name here =>
    cases eq
    exact ⟨_, rfl, here, rfl⟩
  | tighter _ _ ih => exact ih eq
  | number | boolean | parenthesis | leading | binary => cases eq

/-- An operator before an operand is spelled with one token, and the operand with those after it. -/
theorem Level.Spells.exists_unary {operator : Operator} {operand : Expr}
    (h : ℓ.Spells (.unary operator operand block) tokens) :
    ∃ (ℓ' : Level) (token : Token) (after : List Token), tokens = token :: after ∧
      operator = operatorOf .unary token ∧ ℓ'.Spells operand after := by
  generalize eq : Expr.unary operator operand block = e at h
  induction h with
  | leading _ _ spells =>
    cases eq
    exact ⟨_, _, _, rfl, rfl, spells⟩
  | tighter _ _ ih => exact ih eq
  | number | boolean | name | parenthesis | binary => cases eq

/-- An operator between two operands is spelled with one token, and the operands with those before
and after it. -/
theorem Level.Spells.exists_binary {left right : Expr} {operator : Operator}
    (h : ℓ.Spells (.binary left operator right block) tokens) :
    ∃ (ℓ' ℓ'' : Level) (before : List Token) (token : Token) (after : List Token),
      tokens = before ++ token :: after ∧ token.terminal ≠ .separator ∧
        operator = operatorOf .binary token ∧ ℓ'.Spells left before ∧ ℓ''.Spells right after := by
  generalize eq : Expr.binary left operator right block = e at h
  induction h with
  | binary _ spells here spells' =>
    cases eq
    exact ⟨_, _, _, _, _, rfl, Level.ne_separator_of_hasOperator here, rfl, spells, spells'⟩
  | tighter _ _ ih => exact ih eq
  | number | boolean | name | parenthesis | leading => cases eq

end Inversion

/-- The symbols of the operators whose second operand must not be zero. -/
theorem BinaryOperator.ofSymbol?_dividing {symbol : String} {known : BinaryOperator}
    (found : ofSymbol? symbol = some known) (dividing : known.dividing = true) :
    symbol ∈ ["/", "//", "%"] := by
  have mem : (symbol, known) ∈ table := mem_of_lookup found
  exact (by decide : ∀ p ∈ table, p.2.dividing = true → p.1 ∈ ["/", "//", "%"]) _ mem dividing

/-! ## What an error blames -/

/-- The operands of the operator that a task evaluates. -/
def Task.operands : Task → List Expr
  | .evaluate (.unary _ operand _) => [operand]
  | .evaluate (.binary left _ right _) => [left, right]
  | .evaluate _ | .elaborate _ | .execute _ => []

/-- The incidents that point at what is wrong, in a source and the calls of a run of it. -/
inductive Blames (source : String) (calls : List Call) : Incident → Prop
  /-- A name, where the source has the name that the message gives. -/
  | name {token : Token} : token ∈ tokensOf source → token.terminal = .identifier →
      token.block.text source = token.text →
      Blames source calls (RunError.incident .undefinedIdentifier
        ("undefined identificator '" ++ token.text ++ "'") token.block)
  /-- An assignment, from the name that the message gives to its last token. -/
  | assignment {name assign : Token} {value : Expr} {tokens : List Token} :
      Command.Spells (.assign (identifierOf name) value) (name :: assign :: tokens) →
      name :: assign :: tokens <:+: tokensOf source →
      Blames source calls (RunError.incident .constantReassignment
        ("constant '" ++ name.text ++ "' re-assignment") (Token.span (name :: assign :: tokens)))
  /-- The operator of a division that fails. -/
  | operator {call : Call} {token : Token} : call ∈ calls →
      call.Fails (.divisionByZero token.block) → token ∈ tokensOf source →
      token.text ∈ ["/", "//", "%"] → token.block.text source = token.text →
      Blames source calls (RunError.incident .divisionByZero "division by zero" token.block)
  /-- An operand, from its first token to its last, of an operator that fails; its value is of the
  type that the message reports as found. -/
  | operand {call : Call} {e : Expr} {held : Value} {expected : Ty} {ℓ : Level}
      {tokens : List Token} : call ∈ calls →
      call.Fails (.wrongType expected held.ty (Token.span tokens)) → e ∈ call.task.operands →
      ℓ.Spells e tokens → tokens <:+: tokensOf source →
      evaluate call.env call.store e = .ok held →
      Blames source calls (RunError.incident .wrongType
        ("expected '" ++ expected.name ++ "' type, but found '" ++ held.ty.name ++ "' type")
        (Token.span tokens))
  /-- A condition, from its first token to its last, of a command that is executed; its value when
  it is tested is of the type that the message reports as found. -/
  | condition {outer call : Call} {command : SmallImp.Command} {e : Expr} {held : Value}
      {ℓ : Level} {tokens : List Token} : outer ∈ calls → outer.task = .execute command →
      command.condition? = some e → call ∈ calls → call.task = .evaluate e →
      ℓ.Spells e tokens → tokens <:+: tokensOf source →
      evaluate call.env call.store e = .ok held →
      evaluateCondition call.env call.store e =
        .error (.wrongType .boolean held.ty (Token.span tokens)) →
      Blames source calls (RunError.incident .wrongType
        ("expected '" ++ Ty.name .boolean ++ "' type, but found '" ++ held.ty.name ++ "' type")
        (Token.span tokens))

section
variable {source : String} {calls : List Call} {incident : Incident}

/-- A name made of a token is blamed where the token stands. -/
theorem blames_identifierOf {token : Token} (mem : token ∈ tokensOf source)
    (name : token.terminal = .identifier)
    (reported : (RunError.undefinedIdentifier (identifierOf token).name
      (identifierOf token).block).incident? = some incident) : Blames source calls incident := by
  obtain rfl := Option.some.inj reported
  have proper : token.terminal ≠ .separator := by simp [name]
  exact .name mem name (text_of_mem_tokensOf mem proper)

/-- An error of an operator before its operand blames the operand. -/
theorem blames_unary {operator : Operator} {operand : Expr} {block : Block} {env : Environment}
    {store : Store} {next : Nat} {a : Value} {error : RunError}
    (mem : ⟨.evaluate (.unary operator operand block), env, store, next⟩ ∈ calls)
    (written : (Task.evaluate (.unary operator operand block)).Written source)
    (value : evaluate env store operand = .ok a)
    (applies : Applies operator operand.block a (.error error))
    (reported : error.incident? = some incident) (type : incident.type ≠ .unknownOperator) :
    Blames source calls incident := by
  have fails : (⟨.evaluate (.unary operator operand block), env, store, next⟩ : Call).Fails error :=
    ⟨_, rfl, evaluates_iff.1 (.unary (evaluates_iff.2 value) applies)⟩
  obtain ⟨ℓ, tokens, spells, inside⟩ := written
  obtain ⟨ℓ', token, after, rfl, rfl, operandSpells⟩ := spells.exists_unary
  have operandInside := (infix_of_cons inside).2
  cases applies with
  | unknown =>
    obtain rfl := Option.some.inj reported
    exact absurd rfl type
  | wrongType =>
    obtain rfl := Option.some.inj reported
    rw [operandSpells.block_eq] at fails ⊢
    exact .operand mem fails List.mem_cons_self operandSpells operandInside value

/-- An error of an operator between its operands blames one of them, or the operator. -/
theorem blames_binary {left right : Expr} {operator : Operator} {block : Block}
    {env : Environment} {store : Store} {next : Nat} {a b : Value} {error : RunError}
    (mem : ⟨.evaluate (.binary left operator right block), env, store, next⟩ ∈ calls)
    (written : (Task.evaluate (.binary left operator right block)).Written source)
    (first : evaluate env store left = .ok a) (second : evaluate env store right = .ok b)
    (combines : Combines operator left.block right.block a b (.error error))
    (reported : error.incident? = some incident) (type : incident.type ≠ .unknownOperator) :
    Blames source calls incident := by
  have fails :
      (⟨.evaluate (.binary left operator right block), env, store, next⟩ : Call).Fails error :=
    ⟨_, rfl, evaluates_iff.1 (.binary (evaluates_iff.2 first) (evaluates_iff.2 second) combines)⟩
  obtain ⟨ℓ, tokens, spells, inside⟩ := written
  obtain ⟨ℓ', ℓ'', before, token, after, rfl, proper, rfl, leftSpells, rightSpells⟩ :=
    spells.exists_binary
  obtain ⟨leftInside, rest⟩ := infix_of_append inside
  obtain ⟨here, rightInside⟩ := infix_of_cons rest
  cases combines with
  | unknown =>
    obtain rfl := Option.some.inj reported
    exact absurd rfl type
  | differentTypes | wrongRight =>
    obtain rfl := Option.some.inj reported
    rw [rightSpells.block_eq] at fails ⊢
    exact .operand mem fails (by simp [Task.operands]) rightSpells rightInside second
  | wrongLeft =>
    obtain rfl := Option.some.inj reported
    rw [leftSpells.block_eq] at fails ⊢
    exact .operand mem fails (by simp [Task.operands]) leftSpells leftInside first
  | zeroDivisor found _ dividing =>
    obtain rfl := Option.some.inj reported
    exact .operator mem fails here (BinaryOperator.ofSymbol?_dividing found dividing)
      (text_of_mem_tokensOf here proper)
  | fault => cases reported

/-- **What is raised at calls whose tasks are written in a source blames what is wrong there.** -/
theorem Raised.blames {error : RunError} (h : Raised calls error)
    (written : ∀ call ∈ calls, call.task.Written source)
    (reported : error.incident? = some incident)
    (ordinary : (incident.phase, incident.type) ∈ ordinaryIncidents) :
    Blames source calls incident := by
  have type : incident.type ≠ .unknownOperator := by
    intro same
    simp [ordinaryIncidents, same] at ordinary
  cases h with
  | name mem =>
    obtain ⟨ℓ, tokens, spells, inside⟩ := written _ mem
    obtain ⟨token, rfl, name, rfl⟩ := spells.exists_identifier
    exact blames_identifierOf (infix_of_cons inside).1 name reported
  | target mem =>
    obtain ⟨tokens, spells, inside, -⟩ := written _ mem
    cases spells with
    | assign name => exact blames_identifierOf (infix_of_cons inside).1 name reported
  | constant mem =>
    obtain ⟨tokens, spells, inside, rfl⟩ := written _ mem
    obtain rfl := Option.some.inj reported
    cases spells with
    | assign name assign value => exact .assignment (.assign name assign value) inside
  | unary mem value applies => exact blames_unary mem (written _ mem) value applies reported type
  | binary mem first second combines =>
    exact blames_binary mem (written _ mem) first second combines reported type
  | @condition command condition env _ store _ _ held mem tests mem' value other =>
    obtain ⟨ℓ, tokens, spells, inside⟩ := written _ mem'
    obtain rfl := Option.some.inj reported
    have failed := tests_iff.1 (.wrongType (evaluates_iff.2 value) other)
    rw [spells.block_eq] at failed ⊢
    exact .condition mem rfl tests mem' rfl spells inside value failed
  | unbound => cases reported
  | unknownExpression | unknownDeclaration | unknownCommand =>
    obtain rfl := Option.some.inj reported
    simp [ordinaryIncidents, RunError.incident] at ordinary

end

/-! ## Programs -/

/-- **Errors point at what is wrong.**  Take any run of a program that fails with an error that is
reported.  The report is placed at the start of the block of the error, and at this block the
source has what the error blames: the name in the message, where it is not defined; an assignment
that starts with the name in the message, where that is a constant; one of the operators `/`, `//`
and `%`, where a divisor is zero; or an operand or a condition, from its first token to its last,
the value of which is of the type that the message reports as found. -/
theorem run_blames {source : String} {program : Command} (accepted : parse source = .ok program)
    {limit : Nat} {error : RunError} {progress : Progress} {incident : Incident}
    (failed : run limit program = some ⟨.error error, progress⟩)
    (reported : error.incident? = some incident) :
    Blames source (program.calls limit .empty .empty (.fresh 0)) incident ∧
      ∃ block, incident.block = some block ∧
        incident.diagnostic.line = some block.first.line ∧
        incident.diagnostic.column = some block.first.column := by
  have start : Sound .empty .empty (Progress.fresh 0).next := Sound.initial
  have written : ∀ call ∈ program.calls limit .empty .empty (.fresh 0),
      call.task.Written source :=
    fun call mem => parse_written accepted _ (Command.task_mem_of_mem_calls mem)
  have ordinary : (incident.phase, incident.type) ∈ ordinaryIncidents := by
    obtain ⟨found, reported', ordinary⟩ | ⟨rfl, -⟩ := (parse_shaped accepted).expected start failed
    · obtain rfl := Option.some.inj (reported'.symm.trans reported)
      exact ordinary
    · cases reported
  have blames := (Command.raised failed).blames written reported ordinary
  refine ⟨blames, ?_⟩
  cases blames <;> exact ⟨_, rfl, rfl, rfl⟩

/-- The operand in parentheses on the second line is blamed, with its parentheses. -/
theorem run_blames_operand :
    let source := "let x : num = 1;\nwhile x + (true) < 2 do print x"
    ∃ program, parse source = .ok program ∧ ∃ progress,
      run 1 program = some ⟨.error (.wrongType .number .boolean ⟨⟨2, 11⟩, ⟨2, 17⟩⟩), progress⟩ ∧
      Blames source (program.calls 1 .empty .empty (.fresh 0))
        (RunError.incident .wrongType "expected 'num' type, but found 'bool' type"
          ⟨⟨2, 11⟩, ⟨2, 17⟩⟩) := by
  intro source
  have fails : failure? 1 source = some (.wrongType .number .boolean ⟨⟨2, 11⟩, ⟨2, 17⟩⟩) := by
    decide +kernel
  obtain ⟨program, progress, accepted, failed⟩ := failure?_eq_some_iff.1 fails
  exact ⟨program, accepted, progress, failed, (run_blames accepted failed rfl).1⟩

end SmallImp
