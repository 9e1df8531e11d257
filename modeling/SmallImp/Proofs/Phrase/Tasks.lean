/-
# The tasks of a program are written in its source

What the interpreter is called for in the tree of a source stands in the source: an expression is
spelled with tokens that stand there in a row, and so is an assignment, whose block covers just
these (`Task.Written`).  Other commands need not be written anywhere; a `for` loop is expanded to
some that are not.

The proof is an induction on how a phrase is spelled, from expressions to lists of items
(`parse_written`).
-/
import SmallImp.Proofs.Phrase.Positions
import SmallImp.Proofs.Semantics.Tasks

namespace SmallImp

variable {source : String}

/-- Whether a task stands in a source, if it is an expression or an assignment. -/
def Task.Written (source : String) : Task → Prop
  | .evaluate e => ∃ (ℓ : Level) (tokens : List Token),
      ℓ.Spells e tokens ∧ tokens <:+: tokensOf source
  | .execute (.assign target value block) => ∃ tokens,
      Phrase.Command.Spells (.assign target value) tokens ∧ tokens <:+: tokensOf source ∧
        block = Token.span tokens
  | .elaborate _ | .execute _ => True

/-! ## Expressions -/

/-- **An expression and those in it are written in the source.** -/
theorem Level.Spells.written {ℓ : Level} {e : Expr} {tokens : List Token} (h : ℓ.Spells e tokens)
    (inside : tokens <:+: tokensOf source) : ∀ task ∈ e.tasks, task.Written source := by
  induction h with
  | number here =>
    exact List.forall_mem_singleton.2 ⟨atom, _, .number here, inside⟩
  | boolean here =>
    exact List.forall_mem_singleton.2 ⟨atom, _, .boolean here, inside⟩
  | name here =>
    exact List.forall_mem_singleton.2 ⟨atom, _, .name here, inside⟩
  | parenthesis opens spells closes ih =>
    obtain ⟨inner, -⟩ := infix_of_append (infix_of_cons inside).2
    exact List.forall_mem_cons.2 ⟨⟨atom, _, .parenthesis opens spells closes, inside⟩, ih inner⟩
  | tighter _ _ ih => exact ih inside
  | leading leads here spells ih =>
    exact List.forall_mem_cons.2
      ⟨⟨_, _, .leading leads here spells, inside⟩, ih (infix_of_cons inside).2⟩
  | binary binary spells here spells' ih ih' =>
    obtain ⟨before, rest⟩ := infix_of_append inside
    exact List.forall_mem_cons.2 ⟨⟨_, _, .binary binary spells here spells', inside⟩,
      List.forall_mem_append.2 ⟨ih before, ih' (infix_of_cons rest).2⟩⟩

/-! ## Lists of items -/

section Folding
variable {items : List Item}

/-- A command that does nothing need not be written. -/
theorem Command.written_nil (block : Block) :
    ∀ task ∈ (nil block).tasks, task.Written source :=
  List.forall_mem_singleton.2 trivial

/-- The tasks of what is made of declarations are written if theirs are. -/
theorem Declaration.MadeOf.written {fits : Block → List Item → Prop} {declaration : Declaration}
    (h : declaration.MadeOf fits items)
    (all : ∀ item ∈ items, ∀ task ∈ item.tasks, task.Written source) :
    ∀ task ∈ declaration.tasks, task.Written source := by
  induction h with
  | item here => exact all _ List.mem_cons_self
  | group _ _ _ ihFirst ihSecond =>
    obtain ⟨left, right⟩ := List.forall_mem_append.1 all
    exact List.forall_mem_cons.2
      ⟨trivial, List.forall_mem_append.2 ⟨ihFirst left, ihSecond right⟩⟩

/-- The tasks of what is made of items are written if theirs are. -/
theorem Command.MadeOf.written {fits : Block → List Item → Prop} {command : Command}
    (h : command.MadeOf fits items)
    (all : ∀ item ∈ items, ∀ task ∈ item.tasks, task.Written source) :
    ∀ task ∈ command.tasks, task.Written source := by
  induction h with
  | nothing block => exact written_nil block
  | item here => exact all _ List.mem_cons_self
  | sequence _ _ ih =>
    obtain ⟨here, later⟩ := List.forall_mem_cons.1 all
    exact List.forall_mem_cons.2 ⟨trivial, List.forall_mem_append.2 ⟨here, ih later⟩⟩
  | scope made _ _ ih =>
    obtain ⟨left, right⟩ := List.forall_mem_append.1 all
    exact List.forall_mem_cons.2
      ⟨trivial, List.forall_mem_append.2 ⟨made.written left, ih right⟩⟩

/-- The tasks of what a list of items becomes are written if those of the items are. -/
theorem Command.written_ofItems (block : Block)
    (all : ∀ item ∈ items, ∀ task ∈ item.tasks, task.Written source) :
    ∀ task ∈ (ofItems items block).tasks, task.Written source :=
  (madeOf_ofItems items block).written all

end Folding

namespace Phrase

/-! ## Declarations and commands -/

theorem Declaration.Spells.written {declaration : Declaration} {used : List Token}
    (h : declaration.Spells used) (inside : used <:+: tokensOf source) :
    ∀ task ∈ declaration.tree.tasks, task.Written source := by
  cases h with
  | mk _ _ _ value =>
    obtain ⟨-, rest⟩ := infix_of_append (infix_of_cons inside).2
    have values := value.written (infix_of_cons rest).2
    unfold Declaration.tree
    split <;> exact List.forall_mem_cons.2 ⟨trivial, values⟩

theorem SpellsInitial.written {initial : Option Declaration} {used : List Token}
    (h : SpellsInitial initial used) (inside : used <:+: tokensOf source) :
    ∀ declaration ∈ initial, ∀ task ∈ declaration.tree.tasks, task.Written source := by
  cases h with
  | none => simp
  | some spells =>
    rintro _ ⟨⟩
    exact spells.written inside

theorem written_expandedFor {initial : Option Declaration} {condition : Expr}
    {body : SmallImp.Command} {step : Option SmallImp.Command} (block : Block)
    (starts : ∀ declaration ∈ initial, ∀ task ∈ declaration.tree.tasks, task.Written source)
    (tests : ∀ task ∈ condition.tasks, task.Written source)
    (bodied : ∀ task ∈ body.tasks, task.Written source)
    (steps : ∀ command ∈ step, ∀ task ∈ command.tasks, task.Written source) :
    ∀ task ∈ (expandedFor initial condition body step block).tasks, task.Written source := by
  refine List.forall_mem_cons.2 ⟨trivial, List.forall_mem_append.2 ⟨?_, ?_⟩⟩
  · cases initial with
    | none => exact List.forall_mem_singleton.2 trivial
    | some written => exact starts written rfl
  · refine List.forall_mem_cons.2 ⟨trivial, List.forall_mem_append.2 ⟨tests, ?_⟩⟩
    refine List.forall_mem_cons.2 ⟨trivial, List.forall_mem_append.2 ⟨bodied, ?_⟩⟩
    cases step with
    | none => exact Command.written_nil _
    | some command => exact steps command rfl

mutual

/-- **What is to be done for a command is written in the source.** -/
theorem Command.Spells.written {command : Command} {used : List Token} :
    command.Spells used → used <:+: tokensOf source →
      ∀ task ∈ command.tree.tasks, task.Written source
  | .assign name assign value, inside => by
    have spells := Command.Spells.assign name assign value
    obtain ⟨-, rest⟩ := infix_of_cons inside
    exact List.forall_mem_cons.2 ⟨⟨_, spells, inside, spells.block_eq⟩,
      value.written (infix_of_cons rest).2⟩
  | .print _ value, inside =>
    List.forall_mem_cons.2 ⟨trivial, value.written (infix_of_cons inside).2⟩
  | .ifThen _ condition _ body, inside => by
    obtain ⟨test, rest⟩ := infix_of_append (infix_of_cons inside).2
    obtain ⟨-, inner⟩ := infix_of_append rest
    exact List.forall_mem_cons.2 ⟨trivial, List.forall_mem_append.2
      ⟨condition.written test, body.written inner _⟩⟩
  | .ifElse _ condition _ body _ otherwise, inside => by
    obtain ⟨test, rest⟩ := infix_of_append (infix_of_cons inside).2
    obtain ⟨-, rest⟩ := infix_of_append rest
    obtain ⟨inner, rest⟩ := infix_of_append rest
    exact List.forall_mem_cons.2 ⟨trivial, List.forall_mem_append.2 ⟨condition.written test,
      List.forall_mem_append.2 ⟨body.written inner _,
        otherwise.written (infix_of_cons rest).2 _⟩⟩⟩
  | .whileLoop _ condition _ body, inside => by
    obtain ⟨test, rest⟩ := infix_of_append (infix_of_cons inside).2
    obtain ⟨-, inner⟩ := infix_of_append rest
    exact List.forall_mem_cons.2 ⟨trivial, List.forall_mem_append.2
      ⟨condition.written test, body.written inner _⟩⟩
  | .forLoop _ _ initial _ condition _ step _ _ body, inside => by
    obtain ⟨-, rest⟩ := infix_of_cons (infix_of_cons inside).2
    obtain ⟨start, rest⟩ := infix_of_append rest
    obtain ⟨test, rest⟩ := infix_of_append (infix_of_cons rest).2
    obtain ⟨next, rest⟩ := infix_of_append (infix_of_cons rest).2
    obtain ⟨-, inner⟩ := infix_of_append (infix_of_cons rest).2
    exact written_expandedFor _ (initial.written start) (condition.written test)
      (body.written inner _) (step.written next)

/-- What is to be done for what may be a command is written in the source. -/
theorem OptionalCommand.Spells.written {command : OptionalCommand} {used : List Token} :
    command.Spells used → used <:+: tokensOf source →
      ∀ tree ∈ command.tree?, ∀ task ∈ tree.tasks, task.Written source
  | .none, _ => by simp [OptionalCommand.tree?]
  | .some command, inside => by
    rintro _ ⟨⟩
    exact command.written inside

/-- What is to be done for a body is written in the source. -/
theorem Body.Spells.written {body : Body} {used : List Token} :
    body.Spells used → used <:+: tokensOf source →
      ∀ emptyAt, ∀ task ∈ (body.tree emptyAt).tasks, task.Written source
  | @Body.Spells.bare command _ spells, inside, emptyAt => by
    have written := spells.written inside
    rw [Body.tree]
    cases tree : command.tree? with
    | none => exact Command.written_nil emptyAt
    | some found => exact written found tree
  | .braced _ items _, inside, _ => by
    obtain ⟨inner, -⟩ := infix_of_append (infix_of_cons inside).2
    exact Command.written_ofItems _ (items.written inner)

/-- What is to be done for items is written in the source. -/
theorem Items.Spells.written {items : Items} {used : List Token} :
    items.Spells used → used <:+: tokensOf source →
      ∀ item ∈ items.list, ∀ task ∈ item.tasks, task.Written source
  | .nil, _ => List.forall_mem_nil _
  | .declaration first rest, inside => by
    obtain ⟨here, later⟩ := infix_of_append inside
    exact List.forall_mem_cons.2 ⟨first.written here, rest.written later⟩
  | .command first rest, inside => by
    obtain ⟨here, later⟩ := infix_of_append inside
    exact List.forall_mem_cons.2 ⟨first.written here, rest.written later⟩

/-- What is to be done for the items after the first one is written in the source. -/
theorem Items.SpellsRest.written {items : Items} {used : List Token} :
    items.SpellsRest used → used <:+: tokensOf source →
      ∀ item ∈ items.list, ∀ task ∈ item.tasks, task.Written source
  | .nil, _ => List.forall_mem_nil _
  | .items _ _ items, inside => items.written (infix_of_cons inside).2

end

end Phrase

/-! ## Programs -/

/-- **What a program does is written in its source.** -/
theorem parse_written {program : Command} (accepted : parse source = .ok program) :
    ∀ task ∈ program.tasks, task.Written source := by
  obtain ⟨-, items, read, rfl⟩ := parse_ok_iff.1 accepted
  have spells := (Phrase.program_ok_iff.1 read).1
  exact Command.written_ofItems _ (spells.written (List.infix_refl _))

end SmallImp
